import ChatBackend.Lib.Settling
import ChatBackend.Realtime.Registry

/-! A hub recovers. From whatever state, a loop whose link holds comes to where it is subscribed to just
what its connections need, nobody waits for it, and all that came in has been handed out. -/

namespace ChatBackend

open Lib

namespace Hub

variable {ε : Type} {user : ConnId → UserId} {control : String} {h t : Hub ε}

/-! Whoever waits, waits for a request that is still to be applied. -/

def Awaited (h : Hub ε) : Prop := ∀ call, h.calls call = .waiting → ∃ r ∈ h.pending, r.future = call

theorem setResult_waiting {calls : HubCall → WaitStatus} {call other : HubCall}
    (waiting : setResult calls call other = .waiting) : calls other = .waiting ∧ other ≠ call := by
  by_cases same : other = call
  · unfold setResult at waiting
    split at waiting
    · simp [same] at waiting
    · rename_i done
      exact absurd (same ▸ waiting) done
  · rw [setResult_other same] at waiting
    exact ⟨waiting, same⟩

theorem releaseAll_waiting {requests : List HubRequest} {calls : HubCall → WaitStatus} {call : HubCall}
    (waiting : requests.foldl (fun k r => setResult k r.future) calls call = .waiting) :
    calls call = .waiting ∧ ∀ r ∈ requests, r.future ≠ call := by
  induction requests generalizing calls with
  | nil => exact ⟨waiting, fun r mem => absurd mem List.not_mem_nil⟩
  | cons q requests ih =>
    obtain ⟨before, others⟩ := ih waiting
    obtain ⟨first, ne⟩ := setResult_waiting before
    exact ⟨first, List.forall_mem_cons.mpr ⟨ne.symm, others⟩⟩

theorem Awaited.returns (awaited : h.Awaited) {call : HubCall}
    (calls : t.calls = Function.update h.calls call .returned) (pending : t.pending = h.pending) :
    t.Awaited := by
  intro other waiting
  rw [pending]
  by_cases same : other = call
  · rw [calls, same, Function.update_self] at waiting
    cases waiting
  · rw [calls, Function.update_of_ne same] at waiting
    exact awaited other waiting

theorem Awaited.request (awaited : h.Awaited) {r : HubRequest} (requests : t.requests = h.requests ++ [r])
    (loop : t.loop = h.loop) (calls : t.calls = Function.update h.calls r.future .waiting) :
    t.Awaited := by
  intro other waiting
  rw [pending_concat requests loop]
  by_cases same : other = r.future
  · exact ⟨r, List.mem_append_right _ (List.mem_singleton_self r), same.symm⟩
  · rw [calls, Function.update_of_ne same] at waiting
    obtain ⟨q, mem, future⟩ := awaited other waiting
    exact ⟨q, List.mem_append_left _ mem, future⟩

/-- A link that is lost releases everybody. -/
theorem Awaited.lost {requests : List HubRequest} {calls : HubCall → WaitStatus}
    (awaited : ∀ call, calls call = .waiting → ∃ r ∈ requests, r.future = call)
    (released : t.calls = requests.foldl (fun k r => setResult k r.future) calls) : t.Awaited := by
  intro call waiting
  rw [released] at waiting
  obtain ⟨before, none⟩ := releaseAll_waiting waiting
  obtain ⟨r, mem, future⟩ := awaited call before
  exact absurd future (none r mem)

theorem Awaited.step {i : HubInput ε} (awaited : h.Awaited) (step : Steps user control h i t) :
    t.Awaited := by
  have same : t.calls = h.calls → t.pending = h.pending → t.Awaited := by
    intro calls pending call waiting
    rw [pending]
    exact awaited call (calls ▸ waiting)
  cases step with
  | first c idle empty => exact awaited.request rfl rfl rfl
  | last c conns some mem empty => exact awaited.request rfl rfl rfl
  | joins c conns idle some ne => exact awaited.returns rfl rfl
  | leaves c conns some mem ne => exact awaited.returns rfl rfl
  | resumed call released => exact awaited.returns rfl rfl
  | timedOut call waiting => exact awaited.returns rfl rfl
  | published m mem => exact same rfl rfl
  | dropped m away => exact awaited
  | looked pc => exact same rfl (by rcases pc with pc | pc <;> simp [pending, pc])
  | connected channels pc => exact same (by simp) (by rw [applyRequests_pending, pending, pc])
  | applied r pc =>
    intro call waiting
    rw [applyRequests_calls] at waiting
    obtain ⟨before, ne⟩ := setResult_waiting waiting
    obtain ⟨q, mem, future⟩ := awaited call before
    rw [pending, pc] at mem
    rw [applyRequests_pending]
    rcases List.mem_cons.mp mem with rfl | later
    · exact absurd future.symm ne
    · exact ⟨q, later, future⟩
  | received m rest pc some =>
    refine same ?_ ?_
    · rw [applyRequests_calls, dispatch_eq]
    · rw [applyRequests_pending, dispatch_eq, pending, pc]
  | slept pc => exact same rfl (by simp [pending, pc])
  | quiet pc => exact same (by simp) (by rw [applyRequests_pending, pending, pc])
  | failed pc =>
    refine Awaited.lost (t := h.lost) (fun call waiting => ?_) rfl
    have waits := awaited call waiting
    rcases pc with ⟨channels, pc⟩ | pc
    · rwa [pending, pc] at waits
    · rwa [pending, pc] at waits
  | failedApplying r pc =>
    refine Awaited.lost (t := Hub.lost { h with calls := setResult h.calls r.future })
      (fun call waiting => ?_) rfl
    obtain ⟨before, ne⟩ := setResult_waiting waiting
    obtain ⟨q, mem, future⟩ := awaited call before
    rw [pending, pc] at mem
    rcases List.mem_cons.mp mem with rfl | later
    · exact absurd future.symm ne
    · exact ⟨q, later, future⟩
  | sent c e => exact same rfl rfl
  | closed c code reason => exact same rfl rfl
  | taken c => exact same rfl rfl

/-! The loop on its own. -/

/-- What the loop does by itself while the link holds. `quiet` counts if there are requests to apply. -/
def Proceeds (h : Hub ε) : HubInput ε → Prop
  | .proceed => True
  | .quiet => h.requests ≠ []
  | _ => False

def toLink : LoopPc → Nat
  | .backoff => 4
  | .start | .closing => 3
  | .connecting _ => 2
  | .applying _ => 1
  | .receiving => 0

/-- A bound of the steps that are left until nothing is left to do. -/
def left (h : Hub ε) : Nat := toLink h.loop + 2 * h.requests.length + h.inbox.length

/-- The loop goes on to its requests, or to wait for a message. -/
theorem left_applyRequests {s : Hub ε} (requests : s.requests = h.requests)
    (inbox : s.inbox.length ≤ h.inbox.length)
    (less : 0 < toLink h.loop ∨ s.inbox.length < h.inbox.length ∨ s.requests ≠ []) :
    left s.applyRequests < left h := by
  unfold applyRequests
  split
  · rename_i none
    have same : h.requests.length = 0 := by rw [← requests, none]; rfl
    have less : 0 < toLink h.loop ∨ s.inbox.length < h.inbox.length := by
      simpa [none] using less
    have rests : toLink .receiving = 0 := rfl
    simp only [left, none, List.length_nil, rests]
    omega
  · rename_i r rest some
    have same : h.requests.length = rest.length + 1 := by rw [← requests, some]; rfl
    have applies : toLink (.applying r) = 1 := rfl
    simp only [left, applies]
    omega

structure Recovering (user : ConnId → UserId) (control : String) (start h : Hub ε) : Prop where
  registry : Registry user h
  subscriptions : Subscriptions control h
  awaited : h.Awaited
  registered : ∀ c, h.isRegistered c ↔ start.isRegistered c

theorem proceed_registered {i : HubInput ε} (calm : Proceeds h i) (step : Steps user control h i t)
    (c : ConnId) : t.isRegistered c ↔ h.isRegistered c := by
  have same : (∀ call, t.calls call = .idle ↔ h.calls call = .idle) →
      (t.isRegistered c ↔ h.isRegistered c) := fun idle => and_congr (not_congr (idle _)) (idle _)
  cases step with
  | looked pc => exact Iff.rfl
  | slept pc => exact Iff.rfl
  | connected channels pc => exact same fun call => by simp
  | applied r pc => exact same fun call => by simpa using setResult_idle r.future call
  | received m rest pc some => exact same fun call => by rw [applyRequests_calls, dispatch_eq]
  | quiet pc => exact same fun call => by simp
  | first | joins | last | leaves | resumed | timedOut | published | dropped | failed | failedApplying
  | sent | closed | taken => cases calm

theorem proceed_left {i : HubInput ε} (calm : Proceeds h i) (step : Steps user control h i t) :
    left t < left h := by
  cases step with
  | looked pc => rcases pc with pc | pc <;> simp [left, toLink, pc]
  | slept pc => simp [left, toLink, pc]
  | connected channels pc => exact left_applyRequests rfl le_rfl (.inl (by simp [toLink, pc]))
  | applied r pc => exact left_applyRequests rfl le_rfl (.inl (by simp [toLink, pc]))
  | received m rest pc some =>
    have shorter : rest.length < h.inbox.length := by simp [some]
    refine left_applyRequests ?_ ?_ (.inr (.inl ?_))
    · rw [dispatch_eq]
    · rw [dispatch_eq]
      exact shorter.le
    · rw [dispatch_eq]
      exact shorter
  | quiet pc => exact left_applyRequests rfl le_rfl (.inr (.inr calm))
  | first | joins | last | leaves | resumed | timedOut | published | dropped | failed | failedApplying
  | sent | closed | taken => cases calm

/-- Until everything is done, the loop can go on. -/
theorem proceed_goes (user : ConnId → UserId) (control : String) (h : Hub ε) :
    (h.loop = .receiving ∧ h.inbox = [] ∧ h.requests = []) ∨
      ∃ i t, Proceeds h i ∧ h.step user control i = some t := by
  have goes : ∀ i, Proceeds h i → (h.step user control i).isSome →
      ∃ i t, Proceeds h i ∧ h.step user control i = some t := fun i calm enabled =>
    ⟨i, _, calm, (Option.some_get enabled).symm⟩
  cases pc : h.loop with
  | start => exact .inr (goes .proceed trivial (by simp [step, proceed, pc]))
  | closing => exact .inr (goes .proceed trivial (by simp [step, proceed, pc]))
  | connecting channels => exact .inr (goes .proceed trivial (by simp [step, proceed, pc]))
  | applying r => exact .inr (goes .proceed trivial (by simp [step, proceed, pc]))
  | backoff => exact .inr (goes .proceed trivial (by simp [step, proceed, pc]))
  | receiving =>
    cases inbox : h.inbox with
    | cons m rest => exact .inr (goes .proceed trivial (by simp [step, proceed, pc, inbox]))
    | nil =>
      by_cases none : h.requests = []
      · exact .inl ⟨rfl, rfl, none⟩
      · exact .inr (goes .quiet none (by simp [step, pc]))

theorem settles (user : ConnId → UserId) (replicaId : String) (start : Hub ε) :
    Machine.Settles (hub ε user replicaId) Proceeds
      (Recovering user (controlChannel replicaId) start)
      (fun h => h.loop = .receiving ∧ h.inbox = [] ∧ h.requests = []) left where
  lowers h i t before calm step := by
    have steps := step_cases step
    exact ⟨⟨before.registry.step steps, before.subscriptions.step (controlChannel_ne replicaId) steps,
      before.awaited.step steps, fun c => (proceed_registered calm steps c).trans (before.registered c)⟩,
      proceed_left calm steps⟩
  goes h _ := proceed_goes user (controlChannel replicaId) h

end Hub

end ChatBackend
