import ChatBackend.Realtime.Registry

/-! The handlers of a replica's sockets. Each registers its connection, runs the session and takes the
connection out again, and a task can be cancelled wherever it waits. -/

namespace ChatBackend

open Lib

/-- Where `chat_socket` is with its connection. A session ends by itself, by an error or by being
cancelled, and all three run the same `finally`. An `aborted` handler was cancelled before its `try`. -/
inductive SocketPc where
  | fresh
  | registering
  | running
  | unregistering
  | ended
  | aborted
  deriving DecidableEq

namespace SocketPc

/-- The call of the hub that the handler waits for. -/
def call (c : ConnId) : SocketPc → Option HubCall
  | .registering => some (.register c)
  | .unregistering => some (.unregister c)
  | _ => none

def next : SocketPc → SocketPc
  | .registering => .running
  | .unregistering => .ended
  | pc => pc

def cancelled : SocketPc → SocketPc
  | .registering => .aborted
  | .unregistering => .ended
  | pc => pc

end SocketPc

structure Sockets (ε : Type) where
  hub : Hub ε
  pcs : ConnId → SocketPc
  wsConnections : Int

/-- `returns` is the end of a wait for the hub. `hub` is a step of anyone else. -/
inductive SocketsInput (ε : Type) where
  | accept (c : ConnId)
  | returns (c : ConnId)
  | cancel (c : ConnId)
  | finish (c : ConnId)
  | hub (i : HubInput ε)

/-- Only the handlers call these. -/
def HubInput.isCall {ε : Type} : HubInput ε → Bool
  | .register _ | .unregister _ | .resume _ | .timeout _ => true
  | _ => false

/-- The caller's wait ends. Its future is set by now, or it does not wait for it any longer. -/
def Hub.leaving {ε : Type} (h : Hub ε) (call : HubCall) : HubInput ε :=
  if h.calls call = .released then .resume call else .timeout call

namespace Sockets

variable {ε : Type} (user : ConnId → UserId) (control : String)

def init : Sockets ε := ⟨Hub.init, fun _ => .fresh, 0⟩

/-- A call that had nothing to wait for is over at once. -/
def called (h : Hub ε) (call : HubCall) (waits after : SocketPc) : SocketPc :=
  if h.calls call = .returned then after else waits

def leave (s : Sockets ε) (c : ConnId) (after : SocketPc → SocketPc) : Option (Sockets ε) :=
  match (s.pcs c).call c with
  | none => none
  | some call =>
    (s.hub.step user control (s.hub.leaving call)).map fun h =>
      { s with hub := h, pcs := Function.update s.pcs c (after (s.pcs c)) }

/-- The `finally` of `chat_socket`. -/
def finish (s : Sockets ε) (c : ConnId) : Sockets ε :=
  match s.hub.unregister user c with
  | none => { s with pcs := Function.update s.pcs c .ended }
  | some h =>
    { hub := h
      pcs := Function.update s.pcs c (called h (.unregister c) .unregistering .ended)
      wsConnections := s.wsConnections - 1 }

def step (s : Sockets ε) : SocketsInput ε → Option (Sockets ε)
  | .accept c =>
    if s.pcs c = .fresh then
      (s.hub.register user c).map fun h =>
        { hub := h
          pcs := Function.update s.pcs c (called h (.register c) .registering .running)
          wsConnections := s.wsConnections + 1 }
    else none
  | .returns c => s.leave user control c .next
  | .cancel c => s.leave user control c .cancelled
  | .finish c => if s.pcs c = .running then some (s.finish user c) else none
  | .hub i =>
    if i.isCall then none
    else (s.hub.step user control i).map fun h => { s with hub := h }

end Sockets

def sockets (ε : Type) (user : ConnId → UserId) (replicaId : String) :
    Machine (Sockets ε) (SocketsInput ε) :=
  ⟨Sockets.init, Sockets.step user (controlChannel replicaId)⟩

/-! The connections of all users. -/

namespace Hub

def headcount (users : AList (fun _ : UserId => List ConnId)) : Nat :=
  (users.entries.map fun e => e.2.length).sum

variable {users : AList (fun _ : UserId => List ConnId)} {u : UserId} {conns : List ConnId}

theorem headcount_insert :
    headcount (users.insert u conns) = conns.length + headcount (users.erase u) := by
  simp only [headcount, AList.entries_insert, List.map_cons, List.sum_cons]
  rfl

theorem headcount_absent (none : users.lookup u = none) :
    headcount (users.erase u) = headcount users := by
  have away : u ∉ users.entries.keys := List.dlookup_eq_none.mp none
  exact congrArg (fun entries => (entries.map fun e => e.2.length).sum)
    (List.kerase_of_notMem_keys away)

theorem headcount_split (found : users.lookup u = some conns) :
    headcount users = conns.length + headcount (users.erase u) := by
  have inside : u ∈ users.entries.keys := AList.lookup_isSome.mp (by rw [found]; rfl)
  obtain ⟨same, l, r, -, split, rest⟩ := List.exists_of_kerase inside
  have there : Sigma.mk u same ∈ users.entries := by
    rw [split]
    exact List.mem_append_right l List.mem_cons_self
  have eq : users.lookup u = some same := (List.mem_dlookup_iff users.nodupKeys).mpr there
  obtain rfl : same = conns := Option.some.inj (eq.symm.trans found)
  have left : headcount (users.erase u) = ((l ++ r).map fun e => e.2.length).sum :=
    congrArg (fun entries => (entries.map fun e => e.2.length).sum) rest
  rw [left, headcount, split]
  simp only [List.map_append, List.map_cons, List.sum_append, List.sum_cons]
  omega

section Calls

variable {ε : Type} {user : ConnId → UserId} {control : String} {h t : Hub ε} {i : HubInput ε}

/-- The call that an input begins. -/
def begins : HubInput ε → Option HubCall
  | .register c => some (.register c)
  | .unregister c => some (.unregister c)
  | _ => none

theorem update_begun {calls : HubCall → WaitStatus} {call other : HubCall} {now : WaitStatus}
    (busy : now ≠ .idle) :
    Function.update calls call now other = .idle ↔ calls other = .idle ∧ some call ≠ some other := by
  by_cases same : other = call
  · rw [same, Function.update_self]
    exact ⟨fun idle => absurd idle busy, fun both => absurd rfl both.2⟩
  · rw [Function.update_of_ne same]
    exact ⟨fun idle => ⟨idle, fun eq => same (Option.some.inj eq).symm⟩, And.left⟩

theorem Steps.idle_iff (step : Steps user control h i t) (call : HubCall) :
    t.calls call = .idle ↔ h.calls call = .idle ∧ begins i ≠ some call := by
  have kept : ∀ {k : HubCall → WaitStatus} {j : HubInput ε}, begins j = none →
      (k call = .idle ↔ h.calls call = .idle) →
      (k call = .idle ↔ h.calls call = .idle ∧ begins j ≠ some call) := by
    intro k j none same
    rw [same, none]
    exact ⟨fun idle => ⟨idle, by simp⟩, And.left⟩
  cases step with
  | first c idle empty => exact update_begun (by decide)
  | joins c conns idle some ne => exact update_begun (by decide)
  | last c conns some mem empty => exact update_begun (by decide)
  | leaves c conns some mem ne => exact update_begun (by decide)
  | resumed other released => exact kept rfl (update_idle (by simp [released]) (by decide) call)
  | timedOut other waiting => exact kept rfl (update_idle (by simp [waiting]) (by decide) call)
  | connected channels pc => exact kept rfl (by simp)
  | applied r pc => exact kept rfl (by simpa using setResult_idle r.future call)
  | received m rest pc some =>
    rw [dispatch_eq]
    exact kept rfl (by simp)
  | quiet pc => exact kept rfl (by simp)
  | failed pc => exact kept rfl (releaseAll_idle _ call)
  | failedApplying r pc =>
    exact kept rfl ((releaseAll_idle _ call).trans (setResult_idle r.future call))
  | published m mem => exact kept rfl Iff.rfl
  | dropped m away => exact kept rfl Iff.rfl
  | looked pc => exact kept rfl Iff.rfl
  | slept pc => exact kept rfl Iff.rfl
  | sent c e => exact kept rfl Iff.rfl
  | closed c code reason => exact kept rfl Iff.rfl
  | taken c => exact kept rfl Iff.rfl

/-- What an input adds to the connections. -/
def opens : HubInput ε → Int
  | .register _ => 1
  | .unregister _ => -1
  | _ => 0

theorem Steps.headcount (inv : Registry user h) (step : Steps user control h i t) :
    (headcount t.localUsers : Int) = headcount h.localUsers + opens i := by
  have kept : ∀ {s : Hub ε} {j : HubInput ε}, opens j = 0 → s.localUsers = h.localUsers →
      (Hub.headcount s.localUsers : Int) = Hub.headcount h.localUsers + opens j := by
    intro s j none users
    rw [users, none, add_zero]
  cases step with
  | first c idle empty =>
    have away : h.localUsers.lookup (user c) = none := by
      cases found : h.localUsers.lookup (user c) with
      | none => rfl
      | some conns =>
        rw [found] at empty
        exact absurd empty (inv.members (user c) conns found).1
    have grown : Hub.headcount (h.localUsers.insert (user c) [c]) = 1 + Hub.headcount h.localUsers := by
      rw [headcount_insert, headcount_absent away]
      rfl
    change (Hub.headcount (h.localUsers.insert (user c) [c]) : Int) = Hub.headcount h.localUsers + 1
    omega
  | joins c conns idle found ne =>
    have out : c ∉ conns := fun mem => (inv.members (user c) conns found).2.2 c mem |>.2.1 idle
    have before := headcount_split found
    have after : Hub.headcount (h.localUsers.insert (user c) (conns.insert c)) =
        (conns.length + 1) + Hub.headcount (h.localUsers.erase (user c)) := by
      rw [headcount_insert, List.insert_of_not_mem out, List.length_cons]
    change (Hub.headcount (h.localUsers.insert (user c) (conns.insert c)) : Int) =
      Hub.headcount h.localUsers + 1
    omega
  | last c conns found mem empty =>
    have before := headcount_split found
    have size := List.length_erase_add_one mem
    rw [empty, List.length_nil] at size
    change (Hub.headcount (h.localUsers.erase (user c)) : Int) = Hub.headcount h.localUsers + -1
    omega
  | leaves c conns found mem ne =>
    have before := headcount_split found
    have size := List.length_erase_add_one mem
    have after : Hub.headcount (h.localUsers.insert (user c) (conns.erase c)) =
        (conns.erase c).length + Hub.headcount (h.localUsers.erase (user c)) := headcount_insert
    change (Hub.headcount (h.localUsers.insert (user c) (conns.erase c)) : Int) =
      Hub.headcount h.localUsers + -1
    omega
  | connected channels pc => exact kept rfl (by simp)
  | applied r pc => exact kept rfl (by simp)
  | received m rest pc some =>
    rw [dispatch_eq]
    exact kept rfl (by simp)
  | quiet pc => exact kept rfl (by simp)
  | resumed call released => exact kept rfl rfl
  | timedOut call waiting => exact kept rfl rfl
  | failed pc => exact kept rfl rfl
  | failedApplying r pc => exact kept rfl rfl
  | published m mem => exact kept rfl rfl
  | dropped m away => exact kept rfl rfl
  | looked pc => exact kept rfl rfl
  | slept pc => exact kept rfl rfl
  | sent c e => exact kept rfl rfl
  | closed c code reason => exact kept rfl rfl
  | taken c => exact kept rfl rfl

end Calls

end Hub

namespace Sockets

variable {ε : Type} {user : ConnId → UserId} {control : String} {s t : Sockets ε} {i : SocketsInput ε}

/-- All that one step can do. -/
inductive Steps (user : ConnId → UserId) (control : String) (s : Sockets ε) :
    SocketsInput ε → Sockets ε → Prop where
  | accepted (c : ConnId) (h : Hub ε) : s.pcs c = .fresh →
      Hub.Steps user control s.hub (.register c) h →
      Steps user control s (.accept c)
        ⟨h, Function.update s.pcs c (called h (.register c) .registering .running),
          s.wsConnections + 1⟩
  | returned (c : ConnId) (call : HubCall) (h : Hub ε) : (s.pcs c).call c = some call →
      Hub.Steps user control s.hub (s.hub.leaving call) h →
      Steps user control s (.returns c)
        ⟨h, Function.update s.pcs c (s.pcs c).next, s.wsConnections⟩
  | cancelled (c : ConnId) (call : HubCall) (h : Hub ε) : (s.pcs c).call c = some call →
      Hub.Steps user control s.hub (s.hub.leaving call) h →
      Steps user control s (.cancel c)
        ⟨h, Function.update s.pcs c (s.pcs c).cancelled, s.wsConnections⟩
  | finished (c : ConnId) (h : Hub ε) : s.pcs c = .running →
      Hub.Steps user control s.hub (.unregister c) h →
      Steps user control s (.finish c)
        ⟨h, Function.update s.pcs c (called h (.unregister c) .unregistering .ended),
          s.wsConnections - 1⟩
  | absent (c : ConnId) : s.pcs c = .running → s.hub.unregister user c = none →
      Steps user control s (.finish c) { s with pcs := Function.update s.pcs c .ended }
  | other (i : HubInput ε) (h : Hub ε) : i.isCall = false → Hub.Steps user control s.hub i h →
      Steps user control s (.hub i) { s with hub := h }

theorem leave_cases {c : ConnId} {after : SocketPc → SocketPc}
    (step : s.leave user control c after = some t) :
    ∃ call h, (s.pcs c).call c = some call ∧ Hub.Steps user control s.hub (s.hub.leaving call) h ∧
      t = ⟨h, Function.update s.pcs c (after (s.pcs c)), s.wsConnections⟩ := by
  unfold leave at step
  split at step
  · cases step
  · rename_i call waits
    obtain ⟨h, moved, rfl⟩ := Option.map_eq_some_iff.mp step
    exact ⟨call, h, waits, Hub.step_cases moved, rfl⟩

theorem step_cases (step : s.step user control i = some t) : Steps user control s i t := by
  cases i with
  | accept c =>
    obtain ⟨fresh, step⟩ := Option.ite_none_right_eq_some.mp step
    obtain ⟨h, moved, rfl⟩ := Option.map_eq_some_iff.mp step
    exact .accepted c h fresh (Hub.register_cases moved)
  | returns c =>
    obtain ⟨call, h, waits, moved, rfl⟩ := leave_cases step
    exact .returned c call h waits moved
  | cancel c =>
    obtain ⟨call, h, waits, moved, rfl⟩ := leave_cases step
    exact .cancelled c call h waits moved
  | finish c =>
    obtain ⟨running, step⟩ := Option.ite_none_right_eq_some.mp step
    obtain rfl := Option.some.inj step
    unfold finish
    split
    · rename_i none
      exact .absent c running none
    · rename_i h moved
      exact .finished c h running (Hub.unregister_cases moved)
  | hub j =>
    rw [Sockets.step] at step
    split at step
    · cases step
    · rename_i free
      obtain ⟨h, moved, rfl⟩ := Option.map_eq_some_iff.mp step
      exact .other j h (Bool.eq_false_iff.mpr free) (Hub.step_cases moved)

/-- The handler has registered its connection, and will not or did not yet take it out again. -/
def Holds (pc : SocketPc) : Prop := pc = .registering ∨ pc = .running ∨ pc = .aborted

structure Inv (user : ConnId → UserId) (control : String) (s : Sockets ε) : Prop where
  registry : Hub.Registry user s.hub
  subscriptions : Hub.Subscriptions control s.hub
  begun : ∀ c, s.hub.calls (.register c) = .idle ↔ s.pcs c = .fresh
  left : ∀ c, s.hub.calls (.unregister c) = .idle ↔ s.pcs c = .fresh ∨ Holds (s.pcs c)
  gauge : s.wsConnections = Hub.headcount s.hub.localUsers

theorem Inv.init : (Sockets.init : Sockets ε).Inv user control where
  registry := Hub.Registry.init
  subscriptions := Hub.Subscriptions.init
  begun _ := ⟨fun _ => rfl, fun _ => rfl⟩
  left _ := ⟨fun _ => .inl rfl, fun _ => rfl⟩
  gauge := rfl

theorem Inv.registered (inv : s.Inv user control) (c : ConnId) :
    s.hub.isRegistered c ↔ Holds (s.pcs c) := by
  rw [Hub.isRegistered, ne_eq, inv.begun, inv.left]
  constructor
  · rintro ⟨begun, fresh | holds⟩
    · exact absurd fresh begun
    · exact holds
  · intro holds
    refine ⟨fun fresh => ?_, .inr holds⟩
    rw [fresh] at holds
    rcases holds with eq | eq | eq <;> cases eq

theorem Inv.moved (inv : s.Inv user control) (apart : ∀ u, control ≠ userChannel u) {j : HubInput ε}
    {h : Hub ε} (c : ConnId) (pc : SocketPc) (move : Hub.Steps user control s.hub j h)
    (mine : ∀ d, d ≠ c → Hub.begins j ≠ some (.register d) ∧ Hub.begins j ≠ some (.unregister d))
    (begun : pc = .fresh ↔ s.pcs c = .fresh ∧ Hub.begins j ≠ some (.register c))
    (left : pc = .fresh ∨ Holds pc ↔
      (s.pcs c = .fresh ∨ Holds (s.pcs c)) ∧ Hub.begins j ≠ some (.unregister c)) :
    Inv user control ⟨h, Function.update s.pcs c pc, s.wsConnections + Hub.opens j⟩ where
  registry := inv.registry.step move
  subscriptions := inv.subscriptions.step apart move
  begun d := by
    rw [move.idle_iff, inv.begun]
    dsimp only
    by_cases same : d = c
    · rw [same, Function.update_self, begun]
    · rw [Function.update_of_ne same]
      exact and_iff_left (mine d same).1
  left d := by
    rw [move.idle_iff, inv.left]
    dsimp only
    by_cases same : d = c
    · rw [same, Function.update_self, left]
    · rw [Function.update_of_ne same]
      exact and_iff_left (mine d same).2
  gauge := by
    rw [move.headcount inv.registry, inv.gauge]

/-- The hub's side of a step that begins no call. -/
theorem begins_leaving (h : Hub ε) (call : HubCall) :
    Hub.begins (h.leaving call) = none ∧ Hub.opens (h.leaving call) = 0 := by
  unfold Hub.leaving
  split
  · exact ⟨rfl, rfl⟩
  · exact ⟨rfl, rfl⟩

theorem Inv.leave (inv : s.Inv user control) (apart : ∀ u, control ≠ userChannel u) {c : ConnId}
    {call : HubCall} {h : Hub ε} {pc : SocketPc} (waits : (s.pcs c).call c = some call)
    (move : Hub.Steps user control s.hub (s.hub.leaving call) h)
    (after : (s.pcs c = .registering → Holds pc) ∧ (s.pcs c = .unregistering → pc = .ended)) :
    Inv user control ⟨h, Function.update s.pcs c pc, s.wsConnections⟩ := by
  obtain ⟨none, zero⟩ := begins_leaving s.hub call
  have moved := inv.moved apart c pc move (fun d _ => by simp [none])
  rw [none, zero, add_zero] at moved
  cases at_ : s.pcs c with
  | registering =>
    rw [at_] at moved after
    refine moved ?_ ?_
    · rcases after.1 rfl with eq | eq | eq <;> simp [eq]
    · exact ⟨fun _ => ⟨.inr (.inl rfl), by simp⟩, fun _ => .inr (after.1 rfl)⟩
  | unregistering =>
    rw [at_, after.2 at_] at moved
    rw [after.2 at_]
    exact moved (by simp) (by simp [Holds])
  | fresh | running | ended | aborted =>
    rw [at_] at waits
    cases waits

theorem Inv.step (inv : s.Inv user control) (apart : ∀ u, control ≠ userChannel u)
    (step : Steps user control s i t) : t.Inv user control := by
  cases step with
  | accepted c h fresh move =>
    refine inv.moved apart c _ move (fun d ne => ?_) ?_ ?_
    · exact ⟨fun eq => ne (by cases eq; rfl), by simp [Hub.begins]⟩
    · unfold called
      split <;> simp [Hub.begins]
    · unfold called
      split <;> simp [Hub.begins, Holds, fresh]
  | returned c call h waits move =>
    refine inv.leave apart waits move ⟨fun at_ => ?_, fun at_ => ?_⟩
    · rw [at_]
      exact .inr (.inl rfl)
    · rw [at_]
      rfl
  | cancelled c call h waits move =>
    refine inv.leave apart waits move ⟨fun at_ => ?_, fun at_ => ?_⟩
    · rw [at_]
      exact .inr (.inr rfl)
    · rw [at_]
      rfl
  | finished c h running move =>
    refine inv.moved apart c _ move (fun d ne => ?_) ?_ ?_
    · exact ⟨by simp [Hub.begins], fun eq => ne (by cases eq; rfl)⟩
    · unfold called
      split <;> simp [running]
    · unfold called
      split <;> simp [Hub.begins, Holds]
  | absent c running none =>
    -- a running handler is registered, so `unregister` has something to take out
    have registered := (inv.registered c).mpr (.inr (.inl running))
    obtain ⟨conns, found, mem⟩ := inv.registry.known c registered
    rw [Hub.unregister, found] at none
    dsimp only at none
    rw [if_neg (not_not.mpr mem)] at none
    split at none <;> cases none
  | other j h free move =>
    have quiet : Hub.begins j = none ∧ Hub.opens j = 0 := by
      cases j with
      | register c | unregister c => cases free
      | resume call | timeout call => cases free
      | publish m | proceed | quiet | fail | send c e | close c k r | next c => exact ⟨rfl, rfl⟩
    have moved := inv.moved apart 0 (s.pcs 0) move (fun d _ => by simp [quiet.1])
      (by simp [quiet.1]) (by simp [quiet.1])
    rwa [quiet.2, add_zero, Function.update_eq_self] at moved

/-- A handler of the history was cancelled while it was registering its connection. -/
def CutShort (c : ConnId) (x : Move (Sockets ε) (SocketsInput ε)) : Prop :=
  x.action = .cancel c ∧ x.before.pcs c = .registering

theorem Steps.aborted (step : Steps user control s i t) (c : ConnId) :
    t.pcs c = .aborted ↔ s.pcs c = .aborted ∨ CutShort c ⟨s, i, t⟩ := by
  have at_ : ∀ {d : ConnId} {pc : SocketPc}, s.pcs d ≠ .aborted →
      (pc = .aborted ↔ CutShort d ⟨s, i, t⟩) → (∀ e, e ≠ d → ¬ CutShort e ⟨s, i, t⟩) →
      (Function.update s.pcs d pc c = .aborted ↔ s.pcs c = .aborted ∨ CutShort c ⟨s, i, t⟩) := by
    intro d pc before now alone
    by_cases same : c = d
    · rw [same, Function.update_self, now]
      exact (or_iff_right before).symm
    · rw [Function.update_of_ne same]
      exact (or_iff_left (alone c same)).symm
  cases step with
  | accepted d h fresh move =>
    refine at_ (by simp [fresh]) ?_ (fun e ne => by simp [CutShort])
    unfold called
    split <;> simp [CutShort]
  | returned d call h waits move =>
    refine at_ ?_ ?_ (fun e ne => by simp [CutShort])
    · intro eq
      rw [eq] at waits
      cases waits
    · cases here : s.pcs d with
      | aborted =>
        rw [here] at waits
        cases waits
      | fresh | registering | running | unregistering | ended => simp [SocketPc.next, CutShort]
  | cancelled d call h waits move =>
    refine at_ ?_ ?_ (fun e ne cut => ne ?_)
    · intro eq
      rw [eq] at waits
      cases waits
    · cases here : s.pcs d with
      | fresh | running | ended | aborted =>
        rw [here] at waits
        cases waits
      | registering => simp [SocketPc.cancelled, CutShort, here]
      | unregistering => simp [SocketPc.cancelled, CutShort, here]
    · cases cut.1
      rfl
  | finished d h running move =>
    refine at_ (by simp [running]) ?_ (fun e ne => by simp [CutShort])
    unfold called
    split <;> simp [CutShort]
  | absent d running none =>
    exact at_ (by simp [running]) (by simp [CutShort]) (fun e ne => by simp [CutShort])
  | other j h free move => simp [CutShort]

end Sockets

/-- The gauge counts the connections of `_local`, which are those of the handlers that have one, and a
handler leaves its connection behind just when it was cancelled while it was registering. -/
theorem sockets_leave_no_trace (ε : Type) (user : ConnId → UserId) (replicaId : String)
    (is : List (SocketsInput ε)) :
    ((sockets ε user replicaId).run is).wsConnections =
      Hub.headcount ((sockets ε user replicaId).run is).hub.localUsers ∧
    (∀ c, ((sockets ε user replicaId).run is).hub.isRegistered c ↔
      ((sockets ε user replicaId).run is).pcs c = .registering ∨
      ((sockets ε user replicaId).run is).pcs c = .running ∨
      ∃ x ∈ (sockets ε user replicaId).history is, Sockets.CutShort c x) ∧
    ((∀ c, ¬ Sockets.Holds (((sockets ε user replicaId).run is).pcs c)) →
      ((sockets ε user replicaId).run is).wsConnections = 0 ∧
      ((sockets ε user replicaId).run is).hub.localUsers = ∅ ∧
      (((sockets ε user replicaId).run is).hub.loop = .receiving →
        ((sockets ε user replicaId).run is).hub.requests = [] →
        ((sockets ε user replicaId).run is).hub.subscribed = {controlChannel replicaId})) := by
  obtain ⟨inv, aborted⟩ := (sockets ε user replicaId).history_invariant
    (fun h s => s.Inv user (controlChannel replicaId) ∧
      ∀ c, s.pcs c = .aborted ↔ ∃ x ∈ h, Sockets.CutShort c x)
    ⟨Sockets.Inv.init, fun c => by simp [sockets, Sockets.init]⟩
    (fun h s i t before step => by
      have steps := Sockets.step_cases step
      refine ⟨before.1.step (controlChannel_ne replicaId) steps, fun c => ?_⟩
      rw [steps.aborted c, before.2 c]
      simp only [List.mem_append, List.mem_singleton, or_and_right, exists_or, exists_eq_left]) is
  refine ⟨inv.gauge, fun c => ?_, fun none => ?_⟩
  · rw [inv.registered, ← aborted]
    rfl
  · have empty : ((sockets ε user replicaId).run is).hub.localUsers = ∅ := by
      refine AList.ext (List.eq_nil_iff_forall_not_mem.mpr fun e mem => ?_)
      have found := (List.mem_dlookup_iff
        ((sockets ε user replicaId).run is).hub.localUsers.nodupKeys).mpr mem
      obtain ⟨some, -, members⟩ := inv.registry.members e.1 e.2 found
      obtain ⟨c, inside⟩ := List.exists_mem_of_ne_nil e.2 some
      exact none c ((inv.registered c).mp (members c inside).2)
    refine ⟨?_, empty, fun receiving drained => ?_⟩
    · rw [inv.gauge, empty]
      rfl
    · have made := inv.subscriptions.copy _ (show _ ∈ Hub.copy _ by rw [Hub.copy, receiving]; rfl)
      rw [Hub.pending, receiving, drained] at made
      rw [show ((sockets ε user replicaId).run is).hub.subscribed = _ from made, Hub.wanted, empty]
      rfl

example : ((sockets String (fun _ => "alice") "r").run
    [.accept 0, .accept 1, .cancel 0, .finish 1]).wsConnections = 1 := by decide

end ChatBackend
