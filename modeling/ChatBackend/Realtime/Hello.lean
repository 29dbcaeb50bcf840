import ChatBackend.Realtime.Registry

/-! When a socket says hello. The first device of a user waits for the subscription and any other
device does not, so what the others are told depends on where the request of the first one stands. -/

namespace ChatBackend

open Lib

namespace Hub

variable {ε : Type} {user : ConnId → UserId} {replicaId control : String}

/-- The user's channel is subscribed and no request is about to end that. -/
def Heard (h : Hub ε) (u : UserId) : Prop :=
  userChannel u ∈ h.subscribed ∧ ∀ r ∈ h.pending, r.channel = userChannel u → r.op = .subscribe

/-- Nothing is subscribed while the loop has no link. -/
def Linked (h : Hub ε) : Prop :=
  h.subscribed = ∅ ∨ h.loop = .receiving ∨ ∃ r, h.loop = .applying r

theorem Linked.step {h t : Hub ε} {i : HubInput ε} (inv : h.Linked) (step : Steps user control h i t) :
    t.Linked := by
  cases step with
  | looked pc =>
    refine .inl (inv.resolve_right ?_)
    rcases pc with pc | pc <;> simp [pc]
  | slept pc => exact .inl (inv.resolve_right (by simp [pc]))
  | connected channels pc => exact .inr (applyRequests_loop _)
  | applied r pc => exact .inr (applyRequests_loop _)
  | received m rest pc some => exact .inr (applyRequests_loop _)
  | quiet pc => exact .inr (applyRequests_loop _)
  | failed pc => exact .inl rfl
  | failedApplying r pc => exact .inl rfl
  | first c idle empty => exact inv
  | joins c conns idle some ne => exact inv
  | last c conns some mem empty => exact inv
  | leaves c conns some mem ne => exact inv
  | resumed call released => exact inv
  | timedOut call waiting => exact inv
  | published m mem => exact inv
  | dropped m away => exact inv
  | sent c e => exact inv
  | closed c code reason => exact inv
  | taken c => exact inv

/-- A step in which Redis does not fail and no wait runs out. -/
def Calm : HubInput ε → Prop
  | .fail => False
  | .timeout _ => False
  | _ => True

theorem Heard.of_pending {h t : Hub ε} {u : UserId} (heard : h.Heard u)
    (subscribed : t.subscribed = h.subscribed) (pending : t.pending = h.pending) : t.Heard u := by
  rw [Heard, subscribed, pending]
  exact heard

theorem mem_apply_edit {r : HubRequest} {channel : String} {s : Finset String} (mem : channel ∈ s)
    (other : r.channel = channel → r.op = .subscribe) : channel ∈ r.edit.apply s := by
  obtain ⟨op, target, future⟩ := r
  by_cases eq : target = channel
  · obtain rfl : op = .subscribe := other eq
    exact Finset.mem_insert_of_mem mem
  · have ne : channel ≠ (HubRequest.mk op target future).edit.target := by
      cases op with
      | subscribe => exact fun e => eq e.symm
      | unsubscribe => exact fun e => eq e.symm
    exact (Edit.mem_apply_other ne).mpr mem

/-- What is heard stays heard while the user has a device here. -/
theorem Heard.step {h t : Hub ε} {i : HubInput ε} {u : UserId} (heard : h.Heard u) (linked : h.Linked)
    (calm : Calm i) (step : Steps user control h i t) (still : u ∈ t.localUsers) : t.Heard u := by
  obtain ⟨here, ahead⟩ := heard
  have append : ∀ {r : HubRequest} {s : Hub ε}, s.requests = h.requests ++ [r] → s.loop = h.loop →
      s.subscribed = h.subscribed → (r.channel = userChannel u → r.op = .subscribe) → s.Heard u := by
    intro r s requests loop subscribed harmless
    rw [Heard, subscribed, pending_concat requests loop]
    refine ⟨here, fun q hq => ?_⟩
    rcases List.mem_append.mp hq with old | new
    · exact ahead q old
    · rw [List.mem_singleton.mp new]
      exact harmless
  have resumed : ∀ {s : Hub ε}, h.loop = .receiving → s.requests = h.requests →
      s.subscribed = h.subscribed → s.applyRequests.Heard u := by
    intro s pc requests subscribed
    rw [Heard, applyRequests_pending, applyRequests_subscribed, requests, subscribed]
    rw [pending, pc] at ahead
    exact ⟨here, ahead⟩
  cases step with
  | first c idle empty => exact append rfl rfl rfl (fun _ => rfl)
  | last c conns some mem empty =>
    refine append rfl rfl rfl (fun eq => ?_)
    obtain rfl := userChannel_injective eq
    exact absurd rfl (AList.mem_erase.mp still).1
  | looked pc =>
    refine Heard.of_pending ⟨here, ahead⟩ rfl ?_
    rcases pc with pc | pc <;> simp [pending, pc]
  | connected channels pc =>
    rcases linked with none | on | ⟨r, on⟩
    · rw [none] at here
      cases here
    · rw [pc] at on
      cases on
    · rw [pc] at on
      cases on
  | applied r pc =>
    rw [pending, pc] at ahead
    rw [Heard, applyRequests_pending, applyRequests_subscribed]
    exact ⟨mem_apply_edit here (ahead r List.mem_cons_self),
      fun q hq => ahead q (List.mem_cons_of_mem _ hq)⟩
  | received m rest pc some =>
    rw [dispatch_eq]
    exact resumed pc rfl rfl
  | quiet pc => exact resumed pc rfl rfl
  | slept pc => exact Heard.of_pending ⟨here, ahead⟩ rfl (by simp [pending, pc])
  | failed pc => cases calm
  | failedApplying r pc => cases calm
  | timedOut call waiting => cases calm
  | joins c conns idle some ne => exact ⟨here, ahead⟩
  | leaves c conns some mem ne => exact ⟨here, ahead⟩
  | resumed call released => exact ⟨here, ahead⟩
  | published m mem => exact ⟨here, ahead⟩
  | dropped m away => exact ⟨here, ahead⟩
  | sent c e => exact ⟨here, ahead⟩
  | closed c code reason => exact ⟨here, ahead⟩
  | taken c => exact ⟨here, ahead⟩

/-! No request that a connection waits for is followed by one that undoes it. -/

structure Queued (user : ConnId → UserId) (h : Hub ε) : Prop where
  own : ∀ r ∈ h.pending, ∀ c, r.future = .register c →
    r.op = .subscribe ∧ r.channel = userChannel (user c) ∧ h.calls (.register c) ≠ .idle
  order : h.pending.Pairwise (fun q r => ∀ c, q.future = .register c → h.isRegistered c →
    r.channel = userChannel (user c) → r.op = .subscribe)

theorem Queued.init : Queued user (Hub.init : Hub ε) :=
  ⟨by simp [Hub.init, pending], by simp [Hub.init, pending]⟩

theorem Queued.shrink {h t : Hub ε} {i : HubInput ε} (inv : Queued user h)
    (step : Steps user control h i t) (sub : t.pending.Sublist h.pending) : Queued user t := by
  refine ⟨fun r hr c eq => ?_, (inv.order.sublist sub).imp_of_mem fun {q r} hq hr fine c eq reg => ?_⟩
  · obtain ⟨op, channel, begun⟩ := inv.own r (sub.subset hr) c eq
    exact ⟨op, channel, fun idle => begun (step.begun idle)⟩
  · obtain ⟨_, _, begun⟩ := inv.own q (sub.subset hq) c eq
    exact fine c eq (step.registered begun reg)

theorem Queued.append {h t : Hub ε} {i : HubInput ε} {r : HubRequest} (inv : Queued user h)
    (step : Steps user control h i t) (more : t.pending = h.pending ++ [r])
    (own : ∀ c, r.future = .register c →
      r.op = .subscribe ∧ r.channel = userChannel (user c) ∧ t.calls (.register c) ≠ .idle)
    (harmless : ∀ c, t.isRegistered c → r.channel = userChannel (user c) → r.op = .subscribe) :
    Queued user t := by
  refine ⟨fun q hq => ?_, ?_⟩
  · rw [more] at hq
    rcases List.mem_append.mp hq with old | new
    · intro c eq
      obtain ⟨op, channel, begun⟩ := inv.own q old c eq
      exact ⟨op, channel, fun idle => begun (step.begun idle)⟩
    · rw [List.mem_singleton.mp new]
      exact own
  · rw [more, List.pairwise_append]
    refine ⟨inv.order.imp_of_mem fun {q r} hq _ fine c eq reg => ?_, List.pairwise_singleton _ _,
      fun q hq p hp c _ reg => ?_⟩
    · obtain ⟨_, _, begun⟩ := inv.own q hq c eq
      exact fine c eq (step.registered begun reg)
    · rw [List.mem_singleton.mp hp]
      exact harmless c reg

theorem Queued.step {h t : Hub ε} {i : HubInput ε} (inv : Queued user h) (registry : Registry user t)
    (step : Steps user control h i t) : Queued user t := by
  have made := step
  have same : t.pending = h.pending → Queued user t := fun eq => inv.shrink step (eq ▸ List.Sublist.refl _)
  cases step with
  | first c idle empty =>
    refine inv.append made (pending_concat rfl rfl) ?_ (fun _ _ _ => rfl)
    rintro d eq
    cases eq
    exact ⟨rfl, rfl, by simp [request]⟩
  | last c conns some mem empty =>
    refine inv.append made (pending_concat rfl rfl) (fun d eq => ?_)
      (fun d reg eq => ?_)
    · cases eq
    · -- nobody of that user is left
      have key := (registry.keys (user d)).mpr ⟨d, rfl, reg⟩
      rw [← userChannel_injective eq] at key
      exact absurd rfl (AList.mem_erase.mp key).1
  | looked pc => exact same (by rcases pc with pc | pc <;> simp [pending, pc])
  | connected channels pc =>
    refine inv.shrink made ?_
    rw [applyRequests_pending, pending, pc]
  | applied r pc =>
    refine inv.shrink made ?_
    rw [applyRequests_pending, pending, pc]
    exact List.sublist_cons_self r _
  | received m rest pc some =>
    refine inv.shrink made ?_
    rw [applyRequests_pending, dispatch_eq, pending, pc]
  | quiet pc =>
    refine inv.shrink made ?_
    rw [applyRequests_pending, pending, pc]
  | slept pc => exact same (by simp [pending, pc])
  | failed pc => exact inv.shrink made (List.nil_sublist _)
  | failedApplying r pc => exact inv.shrink made (List.nil_sublist _)
  | joins c conns idle some ne => exact same rfl
  | leaves c conns some mem ne => exact same rfl
  | resumed call released => exact same rfl
  | timedOut call waiting => exact same rfl
  | published m mem => exact same rfl
  | dropped m away => exact inv
  | sent c e => exact same rfl
  | closed c code reason => exact same rfl
  | taken c => exact same rfl

/-- The call has its answer, whether or not its task has run on since. -/
def answered (h : Hub ε) (c : ConnId) : Prop :=
  h.calls (.register c) = .released ∨ h.calls (.register c) = .returned

/-- Whoever was told that the subscription is there can hear. -/
def Told (user : ConnId → UserId) (h : Hub ε) : Prop :=
  ∀ c, h.isRegistered c → h.answered c → h.Heard (user c)

/-- A device that joins other devices of its user finds the user's channel subscribed and no request
about to end that. -/
def InForce (user : ConnId → UserId) (h : Hub ε) : HubInput ε → Prop
  | .register c => user c ∈ h.localUsers → h.Heard (user c)
  | _ => True

theorem Heard.of_applied {h : Hub ε} {r : HubRequest} {c : ConnId} (queued : Queued user h)
    (pc : h.loop = .applying r) (mine : r.future = .register c) (registered : h.isRegistered c) :
    Heard { h with
      subscribed := r.edit.apply h.subscribed
      calls := setResult h.calls r.future }.applyRequests (user c) := by
  have own := queued.own
  have order := queued.order
  rw [pending, pc] at own order
  obtain ⟨op, channel, _⟩ := own r List.mem_cons_self c mine
  rw [Heard, applyRequests_pending, applyRequests_subscribed]
  refine ⟨?_, fun q hq eq => (List.pairwise_cons.mp order).1 q hq c mine registered eq⟩
  obtain ⟨_, _, _⟩ := r
  subst op channel
  exact Finset.mem_insert_self _ _

theorem Told.step {h t : Hub ε} {i : HubInput ε} (told : Told user h) (registry : Registry user t)
    (linked : h.Linked) (queued : Queued user h) (calm : Calm i) (inForce : InForce user h i)
    (step : Steps user control h i t) : Told user t := by
  intro c registered answered
  have still : user c ∈ t.localUsers := (registry.keys (user c)).mpr ⟨c, rfl, registered⟩
  have past : h.answered c → t.Heard (user c) := by
    intro before
    have begun : h.calls (.register c) ≠ .idle := by
      rcases before with status | status <;> simp [status]
    exact (told c (step.registered begun registered) before).step linked calm step still
  have same : t.calls = h.calls → t.Heard (user c) := by
    intro eq
    rw [Hub.answered, eq] at answered
    exact past answered
  have other : ∀ {call : HubCall} {now : WaitStatus}, HubCall.register c ≠ call →
      t.calls = Function.update h.calls call now → t.Heard (user c) := by
    intro call now ne eq
    rw [Hub.answered, eq, Function.update_of_ne ne] at answered
    exact past answered
  have made := step
  cases step with
  | first d idle empty =>
    by_cases eq : c = d
    · simp [eq, Hub.answered, request] at answered
    · exact other (by simpa using eq) rfl
  | joins d conns idle some ne =>
    by_cases eq : c = d
    · subst eq
      exact (inForce (AList.lookup_isSome.mp (by rw [some]; rfl))).step linked calm made still
    · exact other (by simpa using eq) rfl
  | last d conns some mem empty => exact other (by simp) rfl
  | leaves d conns some mem ne => exact other (by simp) rfl
  | resumed call released =>
    by_cases eq : HubCall.register c = call
    · exact past (.inl (eq ▸ released))
    · exact other eq rfl
  | applied r pc =>
    by_cases eq : HubCall.register c = r.future
    · obtain ⟨_, _, begun⟩ := queued.own r (by simp [pending, pc]) c eq.symm
      exact Heard.of_applied queued pc eq.symm (made.registered begun registered)
    · simp only [Hub.answered, applyRequests_calls, setResult_other eq] at answered
      exact past answered
  | connected channels pc => exact same (by simp)
  | received m rest pc some =>
    exact same (by rw [dispatch_eq]; simp)
  | quiet pc => exact same (by simp)
  | timedOut call waiting => cases calm
  | failed pc => cases calm
  | failedApplying r pc => cases calm
  | looked pc => exact same rfl
  | slept pc => exact same rfl
  | published m mem => exact same rfl
  | dropped m away => exact same rfl
  | sent d e => exact same rfl
  | closed d code reason => exact same rfl
  | taken d => exact same rfl

/-- Everything that a calm run keeps. -/
structure Hearing (user : ConnId → UserId) (h : Hub ε) : Prop where
  registry : Registry user h
  linked : h.Linked
  queued : Queued user h
  told : Told user h

theorem Hearing.init : Hearing user (Hub.init : Hub ε) :=
  ⟨Registry.init, .inl rfl, Queued.init, fun _ registered => absurd rfl registered.1⟩

theorem Hearing.step {h t : Hub ε} {i : HubInput ε} (inv : Hearing user h) (calm : Calm i)
    (inForce : InForce user h i) (step : Steps user control h i t) : Hearing user t :=
  have registry := inv.registry.step step
  ⟨registry, inv.linked.step step, inv.queued.step registry step,
    inv.told.step registry inv.linked inv.queued calm inForce step⟩

end Hub

/-- At every point where `register` has returned for a connection, and from there on for as long as
its user has a device here, the user's channel is subscribed. -/
def HelloHeard (ε : Type) (user : ConnId → UserId) (replicaId : String) (is : List (HubInput ε)) : Prop :=
  ∀ before after, is = before ++ after → ∀ c,
    ((hub ε user replicaId).run before).isRegistered c →
    ((hub ε user replicaId).run before).calls (.register c) = .returned →
    (∀ x ∈ (hub ε user replicaId).moves ((hub ε user replicaId).run before) after,
      ∃ d, user d = user c ∧ x.after.isRegistered d) →
    userChannel (user c) ∈ ((hub ε user replicaId).run is).subscribed

/-- In runs without a failure or a timeout, every hello is heard if every device that joins others of
its user finds the channel subscribed and not about to be unsubscribed. -/
theorem hello_when_subscribed (ε : Type) (user : ConnId → UserId) (replicaId : String)
    (is : List (HubInput ε))
    (calm : ∀ x ∈ (hub ε user replicaId).history is, Hub.Calm x.action)
    (inForce : ∀ x ∈ (hub ε user replicaId).history is, Hub.InForce user x.before x.action) :
    HelloHeard ε user replicaId is := by
  rintro before after rfl c registered returned kept
  rw [Machine.history_append] at calm inForce
  let m := hub ε user replicaId
  have start : Hub.Hearing user (m.run before) := by
    apply m.exec_guarded (fun x => Hub.Calm x.action ∧ Hub.InForce user x.before x.action)
      (Hub.Hearing user) _ m.init Hub.Hearing.init before
    · exact fun x hx => ⟨calm x (List.mem_append_left _ hx), inForce x (List.mem_append_left _ hx)⟩
    · exact fun s i t inv ok step => inv.step ok.1 ok.2 (Hub.step_cases step)
  have heard : (m.run before).Heard (user c) := start.told c registered (.inr returned)
  rw [Machine.run_append]
  have fin : Hub.Hearing user (m.exec (m.run before) after) ∧
      (m.exec (m.run before) after).Heard (user c) := by
    apply m.exec_guarded (fun x => (Hub.Calm x.action ∧ Hub.InForce user x.before x.action) ∧
        ∃ d, user d = user c ∧ x.after.isRegistered d)
      (fun s => Hub.Hearing user s ∧ s.Heard (user c)) _ _ ⟨start, heard⟩ after
    · exact fun x hx => ⟨⟨calm x (List.mem_append_right _ hx), inForce x (List.mem_append_right _ hx)⟩,
        kept x hx⟩
    · rintro s i t ⟨inv, heard⟩ ⟨⟨calm, inForce⟩, left⟩ step
      have next := inv.step calm inForce (Hub.step_cases step)
      have still := (next.registry.keys (user c)).mpr left
      exact ⟨next, heard.step inv.linked calm (Hub.step_cases step) still⟩
  exact fin.2.1

namespace Hub

variable {ε : Type}

instance : (i : HubInput ε) → Decidable (Calm i)
  | .fail | .timeout _ => instDecidableFalse
  | .register _ | .unregister _ | .resume _ | .publish _ | .proceed | .quiet | .send _ _
  | .close _ _ _ | .next _ => instDecidableTrue

instance (h : Hub ε) (u : UserId) : Decidable (h.Heard u) := by
  unfold Heard
  infer_instance

instance (user : ConnId → UserId) (h : Hub ε) : (i : HubInput ε) → Decidable (InForce user h i)
  | .register c => inferInstanceAs (Decidable (user c ∈ h.localUsers → h.Heard (user c)))
  | .unregister _ | .resume _ | .timeout _ | .publish _ | .proceed | .quiet | .fail | .send _ _
  | .close _ _ _ | .next _ => instDecidableTrue

end Hub

/-- The first device waits for its subscription, and a second one joins after that. -/
theorem hello_after_subscription : HelloHeard Unit (fun _ => "a") "1"
    [.proceed, .proceed, .register 0, .quiet, .proceed, .resume (.register 0), .register 1] :=
  hello_when_subscribed Unit (fun _ => "a") "1" _ (by decide +kernel) (by decide +kernel)

/-- The second device of a user is told at once, before the first one's request is applied. -/
theorem second_device_unheard :
    ¬ ∀ is : List (HubInput Unit), (∀ x ∈ (hub Unit (fun _ => "a") "1").history is, Hub.Calm x.action) →
      HelloHeard Unit (fun _ => "a") "1" is := by
  intro claim
  have heard := claim [.proceed, .proceed, .register 0, .register 1] (by decide +kernel) _ []
    (List.append_nil _).symm 1 (by decide +kernel) (by decide +kernel) (by simp)
  revert heard
  decide +kernel

end ChatBackend
