import Mathlib.Data.List.AList
import Mathlib.Data.Finset.Dedup
import ChatBackend.Lib.Machine
import ChatBackend.Lib.Edits
import ChatBackend.Store

/-! The hub of one replica. `register` and `unregister` change the registry at once and leave the
subscription to the pub/sub loop, by a queue of requests. Tasks interleave at their awaits, and what
runs between two awaits of a task is one step. A publication reaches the loop's receive buffer when
its channel is subscribed at that moment, and is dropped otherwise. -/

namespace ChatBackend

open Lib

def channelPrefix : String := "chat:"

def maxPendingEvents : Nat := 1000

def userChannel (userId : UserId) : String := channelPrefix ++ "user:" ++ userId

def topicChannel (topic : String) : String := channelPrefix ++ topic

def controlChannel (replicaId : String) : String := channelPrefix ++ "replica:" ++ replicaId

/-- The user of a channel that starts with `user_channel("")`. -/
def channelUser (channel : String) : Option UserId :=
  if (userChannel "").toList.isPrefixOf channel.toList then
    some (String.ofList (channel.toList.drop (userChannel "").length))
  else none

/-! One WebSocket. -/

inductive Item (ε : Type) where
  | event (e : ε)
  | close (code : Nat) (reason : String)

/-- `put` remembers every event that was ever queued. -/
structure Connection (ε : Type) where
  closing : Bool
  queue : List (Item ε)
  put : List ε

namespace Connection

variable {ε : Type}

def init : Connection ε := ⟨false, [], []⟩

def close (conn : Connection ε) (code : Nat) (reason : String) : Connection ε :=
  if conn.closing then conn
  else { conn with closing := true, queue := conn.queue ++ [.close code reason] }

def sendNowait (conn : Connection ε) (event : ε) : Connection ε :=
  if conn.closing then conn
  else if conn.queue.length ≥ maxPendingEvents then
    conn.close 1013 "client too slow, reconnect and sync"
  else { conn with queue := conn.queue ++ [.event event], put := conn.put ++ [event] }

def nextEvent (conn : Connection ε) : Connection ε := { conn with queue := conn.queue.tail }

end Connection

abbrev ConnId := Nat

inductive HubCall where
  | register (c : ConnId)
  | unregister (c : ConnId)
  deriving DecidableEq

/-- A `released` call has its future set and has yet to run on. -/
inductive WaitStatus where
  | idle
  | waiting
  | released
  | returned
  deriving DecidableEq

inductive Op where
  | subscribe
  | unsubscribe
  deriving DecidableEq

/-- `future` is the call that waits for the request. -/
structure HubRequest where
  op : Op
  channel : String
  future : HubCall
  deriving DecidableEq

def HubRequest.edit (r : HubRequest) : Edit String :=
  match r.op with
  | .subscribe => .insert r.channel
  | .unsubscribe => .erase r.channel

/-- What the loop is waiting for. At `start` and `closing` it has yet to look at `_local`. -/
inductive LoopPc where
  | start
  | connecting (channels : List String)
  | applying (r : HubRequest)
  | receiving
  | backoff
  | closing
  deriving DecidableEq

/-- What came in on a channel. The data is absent when it is not JSON. -/
structure Publication (ε : Type) where
  channel : String
  data : Option ε

structure Hub (ε : Type) where
  localUsers : AList (fun _ : UserId => List ConnId)
  requests : List HubRequest
  connected : Bool
  loop : LoopPc
  calls : HubCall → WaitStatus
  subscribed : Finset String
  inbox : List (Publication ε)
  conns : ConnId → Connection ε

inductive HubInput (ε : Type) where
  | register (c : ConnId)
  | unregister (c : ConnId)
  | resume (call : HubCall)
  | timeout (call : HubCall)
  | publish (m : Publication ε)
  | proceed
  | quiet
  | fail
  | send (c : ConnId) (e : ε)
  | close (c : ConnId) (code : Nat) (reason : String)
  | next (c : ConnId)

namespace Hub

variable {ε : Type}

def init : Hub ε where
  localUsers := ∅
  requests := []
  connected := false
  loop := .start
  calls _ := .idle
  subscribed := ∅
  inbox := []
  conns _ := Connection.init

def returns (h : Hub ε) (call : HubCall) : Hub ε :=
  { h with calls := Function.update h.calls call .returned }

/-- `Hub._request`, up to its wait. -/
def request (h : Hub ε) (op : Op) (channel : String) (call : HubCall) : Hub ε :=
  { h with
    requests := h.requests ++ [⟨op, channel, call⟩]
    calls := Function.update h.calls call .waiting }

/-- `future.set_result`, unless the future is done. -/
def setResult (calls : HubCall → WaitStatus) (call : HubCall) : HubCall → WaitStatus :=
  if calls call = .waiting then Function.update calls call .released else calls

section Registry

variable (user : ConnId → UserId)

def register (h : Hub ε) (c : ConnId) : Option (Hub ε) :=
  if h.calls (.register c) ≠ .idle then none
  else
    let conns := (h.localUsers.lookup (user c)).getD []
    let added := { h with localUsers := h.localUsers.insert (user c) (conns.insert c) }
    if conns = [] then some (added.request .subscribe (userChannel (user c)) (.register c))
    else some (added.returns (.register c))

/-- A connection that is not registered is left alone. -/
def unregister (h : Hub ε) (c : ConnId) : Option (Hub ε) :=
  match h.localUsers.lookup (user c) with
  | none => none
  | some conns =>
    if c ∉ conns then none
    else if conns.erase c = [] then
      some ({ h with localUsers := h.localUsers.erase (user c) }.request .unsubscribe
        (userChannel (user c)) (.unregister c))
    else
      some ({ h with localUsers := h.localUsers.insert (user c) (conns.erase c) }.returns
        (.unregister c))

end Registry

/-- `Hub._dispatch`. -/
def dispatch (h : Hub ε) (m : Publication ε) : Hub ε :=
  match channelUser m.channel with
  | none => h
  | some u =>
    match h.localUsers.lookup u with
    | none => h
    | some conns =>
      match m.data with
      | none => h
      | some event =>
        { h with conns := fun c => if c ∈ conns then (h.conns c).sendNowait event else h.conns c }

/-- `Hub._apply_requests`, up to its next await or to the wait for a message. -/
def applyRequests (h : Hub ε) : Hub ε :=
  match h.requests with
  | [] => { h with loop := .receiving }
  | r :: rest => { h with loop := .applying r, requests := rest }

def releaseWaiters (h : Hub ε) : Hub ε :=
  { h with requests := [], calls := h.requests.foldl (fun k r => setResult k r.future) h.calls }

/-- The failed pubsub is gone with its subscriptions and with what it had not handed over. -/
def lost (h : Hub ε) : Hub ε :=
  { h.releaseWaiters with connected := false, loop := .backoff, subscribed := ∅, inbox := [] }

/-- What the loop waits for is done. -/
def proceed (control : String) (h : Hub ε) : Option (Hub ε) :=
  match h.loop with
  | .start | .closing =>
    some { h with loop := .connecting (control :: h.localUsers.keys.map userChannel) }
  | .connecting channels =>
    some { h with subscribed := channels.toFinset, connected := true }.applyRequests
  | .applying r =>
    some { h with
      subscribed := r.edit.apply h.subscribed, calls := setResult h.calls r.future }.applyRequests
  | .receiving =>
    match h.inbox with
    | [] => none
    | m :: rest => some ({ h with inbox := rest }.dispatch m).applyRequests
  | .backoff => some { h with loop := .closing }

/-- The link fails under what the loop waits for. -/
def fail (h : Hub ε) : Option (Hub ε) :=
  match h.loop with
  | .connecting _ | .receiving => some h.lost
  | .applying r => some { h with calls := setResult h.calls r.future }.lost
  | _ => none

def step (user : ConnId → UserId) (control : String) (h : Hub ε) : HubInput ε → Option (Hub ε)
  | .register c => h.register user c
  | .unregister c => h.unregister user c
  | .resume call => if h.calls call = .released then some (h.returns call) else none
  | .timeout call => if h.calls call = .waiting then some (h.returns call) else none
  | .publish m =>
    if m.channel ∈ h.subscribed then some { h with inbox := h.inbox ++ [m] } else some h
  | .proceed => h.proceed control
  | .quiet => if h.loop = .receiving then some h.applyRequests else none
  | .fail => h.fail
  | .send c e => some { h with conns := Function.update h.conns c ((h.conns c).sendNowait e) }
  | .close c code reason =>
    some { h with conns := Function.update h.conns c ((h.conns c).close code reason) }
  | .next c => some { h with conns := Function.update h.conns c (h.conns c).nextEvent }

end Hub

namespace Hub

variable {ε : Type}

/-! What the parts of a step leave alone. -/

section Frames

variable (h : Hub ε)

@[simp] theorem applyRequests_localUsers : h.applyRequests.localUsers = h.localUsers := by
  unfold applyRequests
  split <;> rfl

@[simp] theorem applyRequests_connected : h.applyRequests.connected = h.connected := by
  unfold applyRequests
  split <;> rfl

@[simp] theorem applyRequests_calls : h.applyRequests.calls = h.calls := by
  unfold applyRequests
  split <;> rfl

@[simp] theorem applyRequests_subscribed : h.applyRequests.subscribed = h.subscribed := by
  unfold applyRequests
  split <;> rfl

@[simp] theorem applyRequests_inbox : h.applyRequests.inbox = h.inbox := by
  unfold applyRequests
  split <;> rfl

@[simp] theorem applyRequests_conns : h.applyRequests.conns = h.conns := by
  unfold applyRequests
  split <;> rfl

/-- The requests that have not taken effect, in order. -/
def pending (h : Hub ε) : List HubRequest :=
  match h.loop with
  | .applying r => r :: h.requests
  | _ => h.requests

@[simp] theorem applyRequests_pending : h.applyRequests.pending = h.requests := by
  unfold applyRequests
  split
  · rename_i empty
    rw [pending, empty]
  · rename_i r rest some
    rw [pending, some]

/-- A dispatch touches nothing but the queues of the connections. -/
theorem dispatch_eq (m : Publication ε) : h.dispatch m = { h with conns := (h.dispatch m).conns } := by
  unfold dispatch
  repeat' split
  all_goals rfl

end Frames

theorem setResult_other {calls : HubCall → WaitStatus} {call other : HubCall} (ne : other ≠ call) :
    setResult calls call other = calls other := by
  unfold setResult
  split
  · exact Function.update_of_ne ne _ _
  · rfl

/-- Setting a future starts and ends no call. -/
theorem setResult_idle {calls : HubCall → WaitStatus} (call other : HubCall) :
    setResult calls call other = .idle ↔ calls other = .idle := by
  by_cases eq : other = call
  · unfold setResult
    split
    · rename_i waiting
      simp [eq, waiting]
    · rfl
  · rw [setResult_other eq]

theorem releaseAll_idle (requests : List HubRequest) {calls : HubCall → WaitStatus} (other : HubCall) :
    requests.foldl (fun k r => setResult k r.future) calls other = .idle ↔ calls other = .idle := by
  induction requests generalizing calls with
  | nil => rfl
  | cons r requests ih => exact ih.trans (setResult_idle r.future other)

/-- All that one step can do. -/
inductive Steps (user : ConnId → UserId) (control : String) (h : Hub ε) : HubInput ε → Hub ε → Prop where
  | first (c : ConnId) : h.calls (.register c) = .idle →
      (h.localUsers.lookup (user c)).getD [] = [] →
      Steps user control h (.register c)
        ({ h with localUsers := h.localUsers.insert (user c) [c] }.request .subscribe
          (userChannel (user c)) (.register c))
  | joins (c : ConnId) (conns : List ConnId) : h.calls (.register c) = .idle →
      h.localUsers.lookup (user c) = some conns → conns ≠ [] →
      Steps user control h (.register c)
        ({ h with localUsers := h.localUsers.insert (user c) (conns.insert c) }.returns (.register c))
  | last (c : ConnId) (conns : List ConnId) : h.localUsers.lookup (user c) = some conns →
      c ∈ conns → conns.erase c = [] →
      Steps user control h (.unregister c)
        ({ h with localUsers := h.localUsers.erase (user c) }.request .unsubscribe
          (userChannel (user c)) (.unregister c))
  | leaves (c : ConnId) (conns : List ConnId) : h.localUsers.lookup (user c) = some conns →
      c ∈ conns → conns.erase c ≠ [] →
      Steps user control h (.unregister c)
        ({ h with localUsers := h.localUsers.insert (user c) (conns.erase c) }.returns (.unregister c))
  | resumed (call : HubCall) : h.calls call = .released →
      Steps user control h (.resume call) (h.returns call)
  | timedOut (call : HubCall) : h.calls call = .waiting →
      Steps user control h (.timeout call) (h.returns call)
  | published (m : Publication ε) : m.channel ∈ h.subscribed →
      Steps user control h (.publish m) { h with inbox := h.inbox ++ [m] }
  | dropped (m : Publication ε) : m.channel ∉ h.subscribed → Steps user control h (.publish m) h
  | looked : h.loop = .start ∨ h.loop = .closing →
      Steps user control h .proceed
        { h with loop := .connecting (control :: h.localUsers.keys.map userChannel) }
  | connected (channels : List String) : h.loop = .connecting channels →
      Steps user control h .proceed
        { h with subscribed := channels.toFinset, connected := true }.applyRequests
  | applied (r : HubRequest) : h.loop = .applying r →
      Steps user control h .proceed
        { h with
          subscribed := r.edit.apply h.subscribed
          calls := setResult h.calls r.future }.applyRequests
  | received (m : Publication ε) (rest : List (Publication ε)) : h.loop = .receiving →
      h.inbox = m :: rest →
      Steps user control h .proceed ({ h with inbox := rest }.dispatch m).applyRequests
  | slept : h.loop = .backoff → Steps user control h .proceed { h with loop := .closing }
  | quiet : h.loop = .receiving → Steps user control h .quiet h.applyRequests
  | failed : (∃ channels, h.loop = .connecting channels) ∨ h.loop = .receiving →
      Steps user control h .fail h.lost
  | failedApplying (r : HubRequest) : h.loop = .applying r →
      Steps user control h .fail { h with calls := setResult h.calls r.future }.lost
  | sent (c : ConnId) (e : ε) :
      Steps user control h (.send c e)
        { h with conns := Function.update h.conns c ((h.conns c).sendNowait e) }
  | closed (c : ConnId) (code : Nat) (reason : String) :
      Steps user control h (.close c code reason)
        { h with conns := Function.update h.conns c ((h.conns c).close code reason) }
  | taken (c : ConnId) :
      Steps user control h (.next c)
        { h with conns := Function.update h.conns c (h.conns c).nextEvent }

section Inversion

variable {user : ConnId → UserId} {control : String} {h t : Hub ε}

theorem register_cases {c : ConnId} (step : h.register user c = some t) :
    Steps user control h (.register c) t := by
  unfold register at step
  split at step
  · cases step
  · rename_i idle
    have idle := not_not.mp idle
    dsimp only at step
    split at step
    · rename_i empty
      cases step
      rw [empty]
      exact .first c idle empty
    · rename_i some
      cases found : h.localUsers.lookup (user c) with
      | none =>
        rw [found] at some
        exact absurd rfl some
      | some conns =>
        rw [found] at step some
        cases step
        exact .joins c conns idle found some

theorem unregister_cases {c : ConnId} (step : h.unregister user c = some t) :
    Steps user control h (.unregister c) t := by
  unfold unregister at step
  split at step
  · cases step
  · rename_i conns found
    split at step
    · cases step
    · rename_i member
      split at step
      · rename_i empty
        cases step
        exact .last c conns found (not_not.mp member) empty
      · rename_i some
        cases step
        exact .leaves c conns found (not_not.mp member) some

theorem proceed_cases (step : h.proceed control = some t) : Steps user control h .proceed t := by
  unfold proceed at step
  split at step
  · rename_i pc
    cases step
    exact .looked (.inl pc)
  · rename_i pc
    cases step
    exact .looked (.inr pc)
  · rename_i channels pc
    cases step
    exact .connected channels pc
  · rename_i r pc
    cases step
    exact .applied r pc
  · rename_i pc
    split at step
    · cases step
    · rename_i m rest some
      cases step
      exact .received m rest pc some
  · rename_i pc
    cases step
    exact .slept pc

theorem fail_cases (step : h.fail = some t) : Steps user control h .fail t := by
  unfold fail at step
  split at step
  · rename_i channels pc
    cases step
    exact .failed (.inl ⟨channels, pc⟩)
  · rename_i pc
    cases step
    exact .failed (.inr pc)
  · rename_i r pc
    cases step
    exact .failedApplying r pc
  · cases step

theorem step_cases {i : HubInput ε} (step : h.step user control i = some t) :
    Steps user control h i t := by
  cases i with
  | register c => exact register_cases step
  | unregister c => exact unregister_cases step
  | resume call =>
    obtain ⟨released, eq⟩ := Option.ite_none_right_eq_some.mp step
    cases eq
    exact .resumed call released
  | timeout call =>
    obtain ⟨waiting, eq⟩ := Option.ite_none_right_eq_some.mp step
    cases eq
    exact .timedOut call waiting
  | publish m =>
    rw [Hub.step] at step
    split at step
    · rename_i here
      cases step
      exact .published m here
    · rename_i away
      cases step
      exact .dropped m away
  | proceed => exact proceed_cases step
  | quiet =>
    obtain ⟨pc, eq⟩ := Option.ite_none_right_eq_some.mp step
    cases eq
    exact .quiet pc
  | fail => exact fail_cases step
  | send c e =>
    cases step
    exact .sent c e
  | close c code reason =>
    cases step
    exact .closed c code reason
  | next c =>
    cases step
    exact .taken c

end Inversion

end Hub

/-- `user` is the `user_id` of each connection object. -/
def hub (ε : Type) (user : ConnId → UserId) (replicaId : String) : Machine (Hub ε) (HubInput ε) :=
  ⟨Hub.init, Hub.step user (controlChannel replicaId)⟩

end ChatBackend
