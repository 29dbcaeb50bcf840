import ChatBackend.Realtime.EndToEnd

/-! The devices of a user are told the same events in the same order, whichever replicas hold their
sockets, as long as their hubs cover them. -/

namespace ChatBackend

open Lib

namespace Hub

variable {ε : Type} {user : ConnId → UserId} {control : String}

/-- Of what the connection was queued since, the events that others are told too were published, in this
order and none left out before the last. While the connection is not closing, what is still to come in is
all the rest. -/
def InStep (shared : ε → Bool) (channel : String) (c : ConnId) (old published : List ε) (h : Hub ε) :
    Prop :=
  ∃ more, (h.conns c).put = old ++ more ∧ more.filter shared <+: published ∧
    ((h.conns c).closing = false → more.filter shared ++ eventsOn channel h.inbox = published)

variable {shared : ε → Bool} {channel : String} {c : ConnId} {old published : List ε} {h t : Hub ε}

theorem InStep.congr (inStep : h.InStep shared channel c old published)
    (closing : (t.conns c).closing = (h.conns c).closing) (put : (t.conns c).put = (h.conns c).put)
    (inbox : eventsOn channel t.inbox = eventsOn channel h.inbox) :
    t.InStep shared channel c old published := by
  rw [InStep, closing, put, inbox]
  exact inStep

/-- A closing connection is told nothing more, whatever is published. -/
theorem InStep.closed (inStep : h.InStep shared channel c old published)
    (closing : (t.conns c).closing = true) (put : (t.conns c).put = (h.conns c).put) (more : List ε) :
    t.InStep shared channel c old (published ++ more) := by
  obtain ⟨told, queued, first, -⟩ := inStep
  refine ⟨told, put.trans queued, first.trans (List.prefix_append published more), fun up => ?_⟩
  rw [closing] at up
  cases up

/-- Queueing an event that has just been taken out of the buffer, or one of the session's own. -/
theorem InStep.send {e : ε} (inStep : h.InStep shared channel c old published)
    (conns : t.conns c = (h.conns c).sendNowait e)
    (inbox : [e].filter shared ++ eventsOn channel t.inbox = eventsOn channel h.inbox) :
    t.InStep shared channel c old published := by
  rcases (h.conns c).sendNowait_cases e with ⟨closing, put, -⟩ | ⟨up, after, queued⟩
  · rw [← conns] at closing put
    simpa using inStep.closed closing put []
  · obtain ⟨more, put, -, rest⟩ := inStep
    have whole : (more ++ [e]).filter shared ++ eventsOn channel t.inbox = published := by
      rw [List.filter_append, List.append_assoc, inbox, rest up]
    refine ⟨more ++ [e], by rw [conns, queued, put, List.append_assoc], ⟨_, whole⟩, fun _ => whole⟩

theorem InStep.received {m : Publication ε} {rest : List (Publication ε)} (registry : Registry user h)
    (registered : h.isRegistered c) (all : ∀ n ∈ h.inbox, ∀ e ∈ n.data, shared e = true)
    (some : h.inbox = m :: rest) (inStep : h.InStep shared (userChannel (user c)) c old published) :
    ({ h with inbox := rest }.dispatch m).applyRequests.InStep shared (userChannel (user c)) c old
      published := by
  have head : eventsOn (userChannel (user c)) h.inbox =
      eventsOn (userChannel (user c)) [m] ++ eventsOn (userChannel (user c)) rest := by
    rw [some, ← eventsOn_append, List.singleton_append]
  have inbox : ({ h with inbox := rest }.dispatch m).applyRequests.inbox = rest := by
    rw [dispatch_eq, applyRequests_inbox]
  have registry' : Registry user { h with inbox := rest } := registry.congr rfl (fun _ => Iff.rfl)
  rcases dispatch_conns registry' (c := c) registered m with ⟨e, one, conns⟩ | ⟨none, conns⟩
  · have told : shared e = true := by
      have mem : e ∈ eventsOn (userChannel (user c)) [m] := one ▸ List.mem_singleton_self e
      obtain ⟨n, here, data⟩ := List.mem_filterMap.mp mem
      split at data
      · exact all n (some ▸ List.mem_cons.mpr (.inl (List.mem_singleton.mp here))) e data
      · cases data
    refine inStep.send (by rw [applyRequests_conns, conns]) ?_
    rw [inbox, head, one, List.filter_cons_of_pos told, List.filter_nil]
  · refine inStep.congr (by rw [applyRequests_conns, conns]) (by rw [applyRequests_conns, conns]) ?_
    rw [inbox, head, none, List.nil_append]

theorem InStep.step {i : HubInput ε} (registry : Registry user h) (registered : h.isRegistered c)
    (all : ∀ n ∈ h.inbox, ∀ e ∈ n.data, shared e = true)
    (private_ : ∀ d e, i = .send d e → shared e = false) (covered : Covered user c h i)
    (inStep : h.InStep shared (userChannel (user c)) c old published)
    (step : Steps user control h i t) :
    t.InStep shared (userChannel (user c)) c old
      (published ++ eventsOn (userChannel (user c)) i.publishes) := by
  have keeps : ∀ {s : Hub ε}, (s.conns c).closing = (h.conns c).closing →
      (s.conns c).put = (h.conns c).put →
      eventsOn (userChannel (user c)) s.inbox = eventsOn (userChannel (user c)) h.inbox →
      s.InStep shared (userChannel (user c)) c old (published ++ []) := by
    intro s closing put inbox
    rw [List.append_nil]
    exact inStep.congr closing put inbox
  have quiet : ∀ {s : Hub ε}, s.conns = h.conns →
      eventsOn (userChannel (user c)) s.inbox = eventsOn (userChannel (user c)) h.inbox →
      s.InStep shared (userChannel (user c)) c old (published ++ []) :=
    fun conns inbox => keeps (by rw [conns]) (by rw [conns]) inbox
  have shut : ∀ {s : Hub ε}, (h.conns c).closing = true → s.conns = h.conns →
      s.InStep shared (userChannel (user c)) c old (published ++ []) :=
    fun closing conns => inStep.closed (by rw [conns]; exact closing) (by rw [conns]) []
  cases step with
  | published m mem =>
    obtain ⟨more, put, first, rest⟩ := inStep
    refine ⟨more, put, first.trans (List.prefix_append _ _), fun up => ?_⟩
    rw [← rest up, List.append_assoc, ← eventsOn_append]
    rfl
  | dropped m away =>
    rcases covered with closing | none | mem
    · exact inStep.closed closing rfl _
    · rw [HubInput.publishes, none]
      exact quiet rfl rfl
    · exact absurd mem away
  | received m rest pc some =>
    have taken := inStep.received registry registered all some
    simpa [eventsOn, HubInput.publishes] using taken
  | failed pc =>
    rcases covered with closing | empty
    · exact shut closing rfl
    · exact quiet rfl (by rw [empty]; rfl)
  | failedApplying r pc =>
    rcases covered with closing | empty
    · exact shut closing rfl
    · exact quiet rfl (by rw [empty]; rfl)
  | sent d e =>
    by_cases eq : d = c
    · subst eq
      have own : [e].filter shared = [] := by simp [private_ d e rfl]
      have queued := inStep.send (t := { h with
        conns := Function.update h.conns d ((h.conns d).sendNowait e) }) (Function.update_self _ _ _)
        (by rw [own, List.nil_append])
      exact (List.append_nil published).symm ▸ queued
    · have other : Function.update h.conns d ((h.conns d).sendNowait e) c = h.conns c :=
        Function.update_of_ne (Ne.symm eq) _ _
      exact keeps (by simp [other]) (by simp [other]) rfl
  | closed d code reason =>
    by_cases eq : d = c
    · subst eq
      exact inStep.closed (by simp [(h.conns d).close_closing code reason])
        (by simp [(h.conns d).put_close code reason]) []
    · have other : Function.update h.conns d ((h.conns d).close code reason) c = h.conns c :=
        Function.update_of_ne (Ne.symm eq) _ _
      exact keeps (by simp [other]) (by simp [other]) rfl
  | taken d =>
    by_cases eq : d = c
    · subst eq
      exact keeps (by simp [Connection.nextEvent]) (by simp [Connection.nextEvent]) rfl
    · have other : Function.update h.conns d (h.conns d).nextEvent c = h.conns c :=
        Function.update_of_ne (Ne.symm eq) _ _
      exact keeps (by simp [other]) (by simp [other]) rfl
  | first | joins | last | leaves | resumed | timedOut | looked | slept => exact quiet rfl rfl
  | connected channels pc => exact quiet (by simp) (by simp)
  | applied r pc => exact quiet (by simp) (by simp)
  | quiet pc => exact quiet (by simp) (by simp)

/-- A connection begins to close when it is asked to, or when an event meets a full queue. -/
theorem begins_closing {i : HubInput ε} (registry : Registry user h) (registered : h.isRegistered c)
    (up : (h.conns c).closing = false) (down : (t.conns c).closing = true)
    (step : Steps user control h i t) :
    (∃ code reason, i = .close c code reason) ∨ maxPendingEvents ≤ (h.conns c).queue.length := by
  have differs : (t.conns c).closing ≠ (h.conns c).closing := by
    rw [up, down]
    decide
  have met : ∀ e, ((h.conns c).sendNowait e).closing = true →
      maxPendingEvents ≤ (h.conns c).queue.length := by
    intro e closing
    rcases (h.conns c).sendNowait_cases e with ⟨-, -, old | full⟩ | ⟨-, still, -⟩
    · rw [up] at old
      cases old
    · exact full
    · rw [closing] at still
      cases still
  cases step with
  | first | joins | last | leaves | resumed | timedOut | looked | slept | published | dropped | failed
  | failedApplying => exact absurd rfl differs
  | connected channels pc => exact absurd (by simp) differs
  | applied r pc => exact absurd (by simp) differs
  | quiet pc => exact absurd (by simp) differs
  | received m rest pc some =>
    have registry' : Registry user { h with inbox := rest } := registry.congr rfl (fun _ => Iff.rfl)
    rw [applyRequests_conns] at down
    rcases dispatch_conns registry' (c := c) registered m with ⟨e, -, conns⟩ | ⟨-, conns⟩
    · rw [conns] at down
      exact .inr (met e down)
    · rw [conns] at down
      exact absurd (down.symm.trans up) (by decide)
  | sent d e =>
    by_cases eq : d = c
    · subst eq
      exact .inr (met e (by simpa using down))
    · exact absurd (by simp [Function.update_of_ne (Ne.symm eq)]) differs
  | closed d code reason =>
    by_cases eq : d = c
    · subst eq
      exact .inl ⟨code, reason, rfl⟩
    · exact absurd (by simp [Function.update_of_ne (Ne.symm eq)]) differs
  | taken d =>
    by_cases eq : d = c
    · subst eq
      exact absurd (by simp [Connection.nextEvent]) differs
    · exact absurd (by simp [Function.update_of_ne (Ne.symm eq)]) differs

theorem inbox_step {i : HubInput ε} (step : Steps user control h i t) :
    ∀ m ∈ t.inbox, m ∈ h.inbox ∨ m ∈ i.publishes := by
  intro m mem
  cases step with
  | published n here =>
    rcases List.mem_append.mp mem with old | new
    · exact .inl old
    · exact .inr new
  | received n rest pc some =>
    rw [applyRequests_inbox, dispatch_eq] at mem
    exact .inl (some ▸ List.mem_cons_of_mem n mem)
  | connected channels pc => exact .inl (by simpa using mem)
  | applied r pc => exact .inl (by simpa using mem)
  | quiet pc => exact .inl (by simpa using mem)
  | failed pc => cases mem
  | failedApplying r pc => cases mem
  | first | joins | last | leaves | resumed | timedOut | dropped | looked | slept | sent | closed
  | taken => exact .inl mem

end Hub

namespace Push

/-- Told to every device of a user. -/
def shared : Push → Bool
  | .own _ => false
  | _ => true

end Push

namespace Deployment

variable {cfg : DeploymentConfig} {s t : Deployment}

theorem publishes_shared (s : Deployment) (i : DeploymentInput) :
    ∀ m ∈ s.publishes i, ∀ p ∈ m.data, p.shared = true := by
  intro m mem p data
  unfold publishes at mem
  split at mem
  · obtain ⟨x, _, rfl⟩ := List.mem_map.mp mem
    cases data
    rfl
  · obtain ⟨x, _, rfl⟩ := List.mem_map.mp mem
    cases data
    rfl
  · obtain ⟨e, _, rfl⟩ := List.mem_map.mp mem
    cases data
    rfl
  · cases mem

/-- The events for every device that the connection was told since `start`. -/
def told (q : ReplicaId) (c : ConnId) (start s : Deployment) : List Push :=
  (((s.hubs q).conns c).put.drop ((start.hubs q).conns c).put.length).filter Push.shared

/-- What the hub has still to hand out to the connection's user. -/
def held (cfg : DeploymentConfig) (q : ReplicaId) (c : ConnId) (s : Deployment) : List Push :=
  Hub.eventsOn (userChannel (cfg.user q c)) (s.hubs q).inbox

/-- In this step the connection is asked to close, or an event may meet a queue of a thousand. -/
def Ends (q : ReplicaId) (c : ConnId) (x : Move Deployment DeploymentInput) : Prop :=
  (∃ code reason, x.action = .hub q (.close c code reason)) ∨
    1000 ≤ ((x.before.hubs q).conns c).queue.length

/-- After a stretch `xs` of a run from `start`: the connection was told what its hub held for it and then
what was published on the user's channel, each event once and in the order of Redis. It was told all but
what its hub holds now, unless it closes, and for that there was a reason. -/
structure Told (cfg : DeploymentConfig) (q : ReplicaId) (c : ConnId) (start : Deployment)
    (xs : List (Move Deployment DeploymentInput)) (s : Deployment) : Prop where
  kept : ((start.hubs q).conns c).put <+: ((s.hubs q).conns c).put
  ordered : told q c start s <+:
    held cfg q c start ++ publishedOn (userChannel (cfg.user q c)) xs
  whole : ((s.hubs q).conns c).closing = false → told q c start s ++ held cfg q c s =
    held cfg q c start ++ publishedOn (userChannel (cfg.user q c)) xs
  closing : ((s.hubs q).conns c).closing = true → ((start.hubs q).conns c).closing = true ∨
    ∃ x ∈ xs, Ends q c x

structure Aligned (cfg : DeploymentConfig) (q : ReplicaId) (c : ConnId) (start : Deployment)
    (xs : List (Move Deployment DeploymentInput)) (s : Deployment) : Prop where
  inv : s.Inv cfg
  begun : (s.hubs q).calls (.register c) ≠ .idle
  inbox : ∀ m ∈ (s.hubs q).inbox, ∀ p ∈ m.data, p.shared = true
  aligned : (∀ x ∈ xs, Covers cfg q c x.before x.action) → (s.hubs q).isRegistered c →
    (s.hubs q).InStep Push.shared (userChannel (cfg.user q c)) c ((start.hubs q).conns c).put
      (held cfg q c start ++ publishedOn (userChannel (cfg.user q c)) xs)
  ends : (s.hubs q).isRegistered c → ((s.hubs q).conns c).closing = true →
    ((start.hubs q).conns c).closing = true ∨ ∃ x ∈ xs, Ends q c x

theorem Aligned.told {q : ReplicaId} {c : ConnId} {start : Deployment}
    {xs : List (Move Deployment DeploymentInput)} (aligned : Aligned cfg q c start xs s)
    (covered : ∀ x ∈ xs, Covers cfg q c x.before x.action) (still : (s.hubs q).isRegistered c) :
    Told cfg q c start xs s := by
  obtain ⟨more, put, first, rest⟩ := aligned.aligned covered still
  have since : Deployment.told q c start s = more.filter Push.shared := by
    rw [Deployment.told, put, List.drop_left]
  exact ⟨⟨more, put.symm⟩, since ▸ first, since ▸ rest, aligned.ends still⟩

/-- What a step queues without publishing it is the session's own. -/
theorem private_sends {i : DeploymentInput} {q : ReplicaId} {d : ConnId} {e : Push}
    (step : Steps cfg s i t) (input : s.hubInputs q i = [.send d e]) : e.shared = false := by
  cases i with
  | hub p k =>
    cases step with
    | local_ _ _ h own ran =>
      have same : k = .send d e := by
        by_cases same : p = q
        · simpa [hubInputs, same] using input
        · simp [hubInputs, same] at input
      subst same
      cases e with
      | own r => rfl
      | message e => cases own
      | typing e => cases own
  | call | relay | repeated | typing =>
    have mem : .send d e ∈ s.hubInputs q _ := input ▸ List.mem_singleton_self _
    obtain ⟨m, _, eq⟩ := List.mem_map.mp mem
    cases eq

/-- Only its own input asks a connection to close. -/
theorem asked_to_close {i : DeploymentInput} {q : ReplicaId} {d : ConnId} {code : Nat} {reason : String}
    (input : s.hubInputs q i = [.close d code reason]) : i = .hub q (.close d code reason) := by
  cases i with
  | hub p k =>
    by_cases same : p = q
    · subst same
      have eq : k = .close d code reason := by simpa [hubInputs] using input
      rw [eq]
    · simp [hubInputs, same] at input
  | call | relay | repeated | typing =>
    have mem : .close d code reason ∈ s.hubInputs q _ := input ▸ List.mem_singleton_self _
    obtain ⟨m, _, eq⟩ := List.mem_map.mp mem
    cases eq

theorem Aligned.step {q : ReplicaId} {c : ConnId} {start : Deployment}
    {xs : List (Move Deployment DeploymentInput)} {i : DeploymentInput}
    (before : Aligned cfg q c start xs s) (step : Steps cfg s i t) :
    Aligned cfg q c start (xs ++ [⟨s, i, t⟩]) t := by
  have last : ⟨s, i, t⟩ ∈ xs ++ [⟨s, i, t⟩] := List.mem_append_right _ (List.mem_singleton_self _)
  have past : ∀ all : ∀ x ∈ xs ++ [⟨s, i, t⟩], Covers cfg q c x.before x.action,
      ∀ x ∈ xs, Covers cfg q c x.before x.action :=
    fun all x hx => all x (List.mem_append_left _ hx)
  have earlier : (∃ x ∈ xs, Ends q c x) → ∃ x ∈ xs ++ [⟨s, i, t⟩], Ends q c x :=
    fun ⟨x, hx, ends⟩ => ⟨x, List.mem_append_left _ hx, ends⟩
  rcases hub_step step q with ⟨_, quiet, same⟩ | ⟨j, input, said, moved⟩
  · refine ⟨before.inv.step step, same ▸ before.begun, same ▸ before.inbox, fun all later => ?_,
      fun later closing => ?_⟩
    · rw [same] at later ⊢
      rw [publishedOn_concat, quiet]
      simpa [Hub.eventsOn] using before.aligned (past all) later
    · rw [same] at later closing
      exact (before.ends later closing).imp_right earlier
  · refine ⟨before.inv.step step, fun idle => before.begun (moved.begun idle), fun m mem => ?_,
      fun all later => ?_, fun later closing => ?_⟩
    · rcases Hub.inbox_step moved m mem with old | new
      · exact before.inbox m old
      · exact publishes_shared s i m (said ▸ new)
    · have reg := moved.registered before.begun later
      have covered := all ⟨s, i, t⟩ last j (input ▸ List.mem_singleton_self _)
      rw [publishedOn_concat, said, ← List.append_assoc]
      exact (before.aligned (past all) reg).step (before.inv.registry q) reg before.inbox
        (fun d e sends => private_sends step (sends ▸ input)) covered moved
    · have reg := moved.registered before.begun later
      cases up : ((s.hubs q).conns c).closing with
      | true => exact (before.ends reg up).imp_right earlier
      | false =>
        refine .inr ⟨⟨s, i, t⟩, last, ?_⟩
        rcases Hub.begins_closing (before.inv.registry q) reg up closing moved with
          ⟨code, reason, rfl⟩ | full
        · exact .inl ⟨code, reason, asked_to_close input⟩
        · exact .inr full

end Deployment

/-- The buffer of a hub holds events for every device. -/
theorem Deployment.inbox_shared (cfg : DeploymentConfig) (is : List DeploymentInput) (q : ReplicaId) :
    ∀ m ∈ (((deployment cfg).run is).hubs q).inbox, ∀ p ∈ m.data, p.shared = true := by
  refine (deployment cfg).run_invariant
    (fun s => ∀ m ∈ (s.hubs q).inbox, ∀ p ∈ m.data, p.shared = true) ?_ (fun s i t inbox step => ?_) is
  · exact fun m mem => absurd mem List.not_mem_nil
  · rcases hub_step (step_cases step) q with ⟨_, _, same⟩ | ⟨j, _, said, moved⟩
    · exact same ▸ inbox
    · intro m mem
      rcases Hub.inbox_step moved m mem with old | new
      · exact inbox m old
      · exact publishes_shared s i m (said ▸ new)

/-- The socket is registered with its hub from `before` on, and covered in every step of `after`. -/
structure Deployment.Stays (cfg : DeploymentConfig) (before after : List DeploymentInput)
    (q : ReplicaId) (c : ConnId) : Prop where
  registered : (((deployment cfg).run before).hubs q).isRegistered c
  covered : ∀ x ∈ (deployment cfg).moves ((deployment cfg).run before) after,
    Deployment.Covers cfg q c x.before x.action
  still : (((deployment cfg).run (before ++ after)).hubs q).isRegistered c

theorem Deployment.Stays.told {cfg : DeploymentConfig} {before after : List DeploymentInput}
    {q : ReplicaId} {c : ConnId} (stays : Deployment.Stays cfg before after q c) :
    Deployment.Told cfg q c ((deployment cfg).run before)
      ((deployment cfg).moves ((deployment cfg).run before) after)
      ((deployment cfg).run (before ++ after)) := by
  let d := deployment cfg
  have aligned := d.moves_invariant
    (fun xs s => Deployment.Aligned cfg q c (d.run before) xs s)
    (fun xs s i t aligned step => aligned.step (Deployment.step_cases step)) (d.run before)
    ⟨Deployment.inv cfg before, stays.registered.1, Deployment.inbox_shared cfg before q,
      fun _ _ => ⟨[], (List.append_nil _).symm, List.nil_prefix, fun _ => (List.append_nil _).symm⟩,
      fun _ closing => .inl closing⟩ after
  rw [← Machine.run_append] at aligned
  exact aligned.told stays.covered stays.still

/-- The sockets of a user agree, on whatever replicas they are: each that stays is told what its hub held
and what is published on the user's channel, in one order. Two whose hubs held the same are never told
different things, only one of them less; and neither less while both are open and their hubs hold the
same. The sessions' own events come in between. -/
theorem devices_agree (cfg : DeploymentConfig) (before after : List DeploymentInput) :
    (∀ q c, Deployment.Stays cfg before after q c →
      Deployment.Told cfg q c ((deployment cfg).run before)
        ((deployment cfg).moves ((deployment cfg).run before) after)
        ((deployment cfg).run (before ++ after))) ∧
    ∀ q c p d, Deployment.Stays cfg before after q c → Deployment.Stays cfg before after p d →
      cfg.user q c = cfg.user p d →
      ((deployment cfg).run before).held cfg q c = ((deployment cfg).run before).held cfg p d →
      let start := (deployment cfg).run before
      let s := (deployment cfg).run (before ++ after)
      (Deployment.told q c start s <+: Deployment.told p d start s ∨
        Deployment.told p d start s <+: Deployment.told q c start s) ∧
      (((s.hubs q).conns c).closing = false → ((s.hubs p).conns d).closing = false →
        Deployment.told q c start s ++ s.held cfg q c =
          Deployment.told p d start s ++ s.held cfg p d) := by
  refine ⟨fun q c stays => stays.told, fun q c p d first second user same => ?_⟩
  have one := first.told
  have other := second.told
  have log : ((deployment cfg).run before).held cfg q c ++ Deployment.publishedOn
        (userChannel (cfg.user q c)) ((deployment cfg).moves ((deployment cfg).run before) after) =
      ((deployment cfg).run before).held cfg p d ++ Deployment.publishedOn
        (userChannel (cfg.user p d)) ((deployment cfg).moves ((deployment cfg).run before) after) := by
    rw [user, same]
  exact ⟨List.prefix_or_prefix_of_prefix (log ▸ one.ordered) other.ordered,
    fun up also => (one.whole up).trans (log.trans (other.whole also).symm)⟩

/-- Two devices of `b` on two replicas. -/
def twoReplicas : DeploymentConfig := ⟨.plain, 100, 0, fun _ _ => "b", fun q => toString q⟩

/-- Both open a socket; `a` writes, and each hub hands the message out. -/
theorem both_devices_hear :
    let opens (q : ReplicaId) : List DeploymentInput :=
      [.hub q .proceed, .hub q .proceed, .hub q (.register 0), .hub q .quiet, .hub q .proceed]
    let before := opens 0 ++ opens 1
    let after : List DeploymentInput :=
      (sendSteps 0 "a" .helloB 11 1).map (.call · []) ++ [.call (.act 0 .commit) [1, 2],
        .relay (.publishBatch 0 1), .relay (.visit 0), .relay (.visit 0), .relay (.selected 0),
        .relay (.publish 0 true), .hub 0 (.send 0 (.own .null)), .hub 0 .proceed, .hub 1 .proceed]
    let start := (deployment twoReplicas).run before
    let s := (deployment twoReplicas).run (before ++ after)
    (((s.hubs 0).conns 0).put.length = 2 ∧ ((s.hubs 1).conns 0).put.length = 1) ∧
      (Deployment.told 0 0 start s).length = 1 ∧
      Deployment.told 0 0 start s = Deployment.told 1 0 start s := by
  intro opens before after start s
  have stays : ∀ q < 2, Deployment.Stays twoReplicas before after q 0 := by
    intro q less
    refine ⟨?_, ?_, ?_⟩
    · revert q
      decide +kernel
    · revert q
      decide +kernel
    · revert q
      decide +kernel
  have held : ∀ (x : Deployment) (q : ReplicaId), (x.hubs q).inbox = [] →
      x.held twoReplicas q 0 = [] := by
    intro x q empty
    rw [Deployment.held, empty]
    rfl
  have none_ : ∀ q < 2, (((deployment twoReplicas).run before).hubs q).inbox = [] := by
    decide +kernel
  have left : ∀ q < 2, (((deployment twoReplicas).run (before ++ after)).hubs q).inbox = [] := by
    decide +kernel
  have up : ∀ q < 2, ((((deployment twoReplicas).run (before ++ after)).hubs q).conns 0).closing =
      false := by
    decide +kernel
  have same := (held _ 0 (none_ 0 (by decide))).trans (held _ 1 (none_ 1 (by decide))).symm
  have agree := ((devices_agree twoReplicas before after).2 0 0 1 0 (stays 0 (by decide))
    (stays 1 (by decide)) rfl same).2 (up 0 (by decide)) (up 1 (by decide))
  rw [held _ 0 (left 0 (by decide)), held _ 1 (left 1 (by decide)), List.append_nil,
    List.append_nil] at agree
  exact ⟨by decide +kernel, by decide +kernel, agree⟩

end ChatBackend
