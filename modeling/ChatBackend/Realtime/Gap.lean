import ChatBackend.Realtime.Registry

/-! What an open socket gets of what is published to its user. A publication that meets no
subscription is lost, and so is what the link has not handed over when it fails. The loop
subscribes again without telling the open sockets. -/

namespace ChatBackend

open Lib

theorem channelUser_userChannel (u : UserId) : channelUser (userChannel u) = some u := by
  have text : (userChannel u).toList = (userChannel "").toList ++ u.toList := by
    simp [userChannel, String.toList_append]
  have cut : (userChannel "").length = (userChannel "").toList.length := String.length_toList.symm
  rw [channelUser, text, if_pos (by rw [List.isPrefixOf_iff_prefix]; exact List.prefix_append _ _), cut,
    List.drop_left, String.ofList_toList]

theorem channelUser_some {channel : String} {u : UserId} (h : channelUser channel = some u) :
    channel = userChannel u := by
  unfold channelUser at h
  split at h
  · rename_i starts
    obtain ⟨rest, text⟩ := List.isPrefixOf_iff_prefix.mp starts
    have cut : (userChannel "").length = (userChannel "").toList.length := String.length_toList.symm
    rw [← text, cut, List.drop_left] at h
    obtain rfl := Option.some.inj h
    apply String.toList_injective
    rw [← text]
    simp [userChannel, String.toList_append]
  · cases h

namespace Connection

variable {ε : Type} (conn : Connection ε)

theorem close_closing (code : Nat) (reason : String) : (conn.close code reason).closing = true := by
  unfold close
  split
  · rename_i closing
    exact closing
  · rfl

theorem put_close (code : Nat) (reason : String) : (conn.close code reason).put = conn.put := by
  unfold close
  split <;> rfl

/-- An event is queued; or the connection was closing, or has met the bound and closes. -/
theorem sendNowait_cases (e : ε) :
    ((conn.sendNowait e).closing = true ∧ (conn.sendNowait e).put = conn.put ∧
      (conn.closing = true ∨ maxPendingEvents ≤ conn.queue.length)) ∨
    (conn.closing = false ∧ (conn.sendNowait e).closing = false ∧
      (conn.sendNowait e).put = conn.put ++ [e]) := by
  unfold sendNowait
  split
  · rename_i closing
    exact .inl ⟨closing, rfl, .inl closing⟩
  · rename_i up
    split
    · rename_i full
      exact .inl ⟨conn.close_closing _ _, conn.put_close _ _, .inr full⟩
    · exact .inr ⟨Bool.eq_false_iff.mpr up, Bool.eq_false_iff.mpr up, rfl⟩

/-- What `send_nowait` leaves queued was queued before or is the event. -/
theorem mem_sendNowait {conn : Connection ε} {e x : ε} (mem : x ∈ (conn.sendNowait e).put) :
    x ∈ conn.put ∨ x = e := by
  unfold sendNowait at mem
  split at mem
  · exact .inl mem
  · split at mem
    · exact .inl (put_close conn _ _ ▸ mem)
    · cases List.mem_append.mp mem with
      | inl old => exact .inl old
      | inr new => exact .inr (List.mem_singleton.mp new)

theorem sendNowait_closing {conn : Connection ε} (e : ε) (closing : conn.closing = true) :
    conn.sendNowait e = conn := if_pos closing

end Connection

def HubInput.publishes {ε : Type} : HubInput ε → List (Publication ε)
  | .publish m => [m]
  | _ => []

namespace Hub

variable {ε : Type} {user : ConnId → UserId} {control : String}

/-- The events of a channel, in the order they came in. -/
def eventsOn (channel : String) (ms : List (Publication ε)) : List ε :=
  ms.filterMap (fun m => if m.channel = channel then m.data else none)

theorem eventsOn_append (channel : String) (ms ns : List (Publication ε)) :
    eventsOn channel (ms ++ ns) = eventsOn channel ms ++ eventsOn channel ns :=
  List.filterMap_append

/-- What a dispatch does to a registered connection. -/
theorem dispatch_conns {h : Hub ε} (registry : Registry user h) {c : ConnId}
    (registered : h.isRegistered c) (m : Publication ε) :
    (∃ e, eventsOn (userChannel (user c)) [m] = [e] ∧
      (h.dispatch m).conns c = (h.conns c).sendNowait e) ∨
    (eventsOn (userChannel (user c)) [m] = [] ∧ (h.dispatch m).conns c = h.conns c) := by
  obtain ⟨conns, found, member⟩ := registry.known c registered
  obtain ⟨channel, data⟩ := m
  by_cases mine : channel = userChannel (user c)
  · subst mine
    cases data with
    | none =>
      right
      simp [eventsOn, dispatch, channelUser_userChannel, found]
    | some e =>
      left
      exact ⟨e, by simp [eventsOn], by simp [dispatch, channelUser_userChannel, found, member]⟩
  · right
    refine ⟨by simp [eventsOn, mine], ?_⟩
    unfold dispatch
    split
    · rfl
    · rename_i u owner
      split
      · rfl
      · rename_i others known
        have away : c ∉ others := by
          intro hc
          have same := ((registry.members u others known).2.2 c hc).1
          exact mine (same ▸ channelUser_some owner)
        split
        · rfl
        · simp [away]

/-- The connection closes, or all that was published has been queued or is still to come in. -/
def Kept (channel : String) (c : ConnId) (old published : List ε) (h : Hub ε) : Prop :=
  (h.conns c).closing = true ∨ ∃ more, (h.conns c).put = old ++ more ∧
    published.Sublist (more ++ eventsOn channel h.inbox)

/-- While the connection is not closing, its user's channel is subscribed whenever an event is
published on it, and the link fails only when it has handed all of these events over. -/
def Covered (user : ConnId → UserId) (c : ConnId) (h : Hub ε) : HubInput ε → Prop
  | .publish m => (h.conns c).closing = true ∨ eventsOn (userChannel (user c)) [m] = [] ∨
    m.channel ∈ h.subscribed
  | .fail => (h.conns c).closing = true ∨ eventsOn (userChannel (user c)) h.inbox = []
  | _ => True

theorem Kept.congr {h t : Hub ε} {channel : String} {c : ConnId} {old published : List ε}
    (kept : h.Kept channel c old published) (closing : (t.conns c).closing = (h.conns c).closing)
    (put : (t.conns c).put = (h.conns c).put)
    (inbox : eventsOn channel t.inbox = eventsOn channel h.inbox) :
    t.Kept channel c old published := by
  rw [Kept, closing, put, inbox]
  exact kept

/-- Queueing one more event keeps what was kept. -/
theorem Kept.send {h t : Hub ε} {channel : String} {c : ConnId} {old published : List ε} {e : ε}
    (kept : h.Kept channel c old published) (conns : t.conns c = (h.conns c).sendNowait e)
    (inbox : ∀ more, (more ++ eventsOn channel h.inbox).Sublist
      (more ++ [e] ++ eventsOn channel t.inbox)) : t.Kept channel c old published := by
  rw [Kept, conns]
  rcases kept with closing | ⟨more, put, sub⟩
  · rw [Connection.sendNowait_closing e closing]
    exact .inl closing
  · rcases (h.conns c).sendNowait_cases e with ⟨closing, -⟩ | ⟨-, -, queued⟩
    · exact .inl closing
    · exact .inr ⟨more ++ [e], by rw [queued, put, List.append_assoc], sub.trans (inbox more)⟩

theorem Kept.received {h : Hub ε} {c : ConnId} {old published : List ε} {m : Publication ε}
    {rest : List (Publication ε)} (registry : Registry user h) (registered : h.isRegistered c)
    (some : h.inbox = m :: rest) (kept : h.Kept (userChannel (user c)) c old published) :
    ({ h with inbox := rest }.dispatch m).applyRequests.Kept (userChannel (user c)) c old published := by
  have head : eventsOn (userChannel (user c)) h.inbox =
      eventsOn (userChannel (user c)) [m] ++ eventsOn (userChannel (user c)) rest := by
    rw [some, ← eventsOn_append, List.singleton_append]
  have inbox : ({ h with inbox := rest }.dispatch m).applyRequests.inbox = rest := by
    rw [dispatch_eq, applyRequests_inbox]
  have registry' : Registry user { h with inbox := rest } := registry.congr rfl (fun _ => Iff.rfl)
  rcases dispatch_conns registry' (c := c) registered m with ⟨e, one, conns⟩ | ⟨none, conns⟩
  · apply kept.send (e := e)
    · rw [applyRequests_conns, conns]
    · intro more
      rw [inbox, head, one, List.append_assoc]
  · apply kept.congr
    · rw [applyRequests_conns, conns]
    · rw [applyRequests_conns, conns]
    · rw [inbox, head, none, List.nil_append]

theorem Kept.lost {h t : Hub ε} {channel : String} {c : ConnId} {old published : List ε}
    (kept : h.Kept channel c old published) (conns : t.conns = h.conns) (inbox : t.inbox = [])
    (covered : (h.conns c).closing = true ∨ eventsOn channel h.inbox = []) :
    t.Kept channel c old published := by
  rcases covered with closing | empty
  · exact .inl (by rw [conns]; exact closing)
  · exact kept.congr (by rw [conns]) (by rw [conns]) (by rw [inbox, empty]; rfl)

theorem Kept.publish {h t : Hub ε} {channel : String} {c : ConnId} {old published : List ε}
    {m : Publication ε} (kept : h.Kept channel c old published) (conns : t.conns = h.conns)
    (arrived : (h.conns c).closing = true ∨
      eventsOn channel h.inbox ++ eventsOn channel [m] = eventsOn channel t.inbox) :
    t.Kept channel c old (published ++ eventsOn channel [m]) := by
  rw [Kept, conns]
  rcases kept with closing | ⟨more, put, sub⟩
  · exact .inl closing
  · rcases arrived with closing | eq
    · exact .inl closing
    · refine .inr ⟨more, put, ?_⟩
      rw [← eq, ← List.append_assoc]
      exact sub.append_right _

theorem Kept.step {h t : Hub ε} {i : HubInput ε} {c : ConnId} {old published : List ε}
    (registry : Registry user h) (registered : h.isRegistered c) (covered : Covered user c h i)
    (kept : h.Kept (userChannel (user c)) c old published) (step : Steps user control h i t) :
    t.Kept (userChannel (user c)) c old
      (published ++ eventsOn (userChannel (user c)) i.publishes) := by
  have quiet : ∀ {s : Hub ε}, s.conns = h.conns → s.inbox = h.inbox →
      s.Kept (userChannel (user c)) c old (published ++ []) := by
    intro s conns inbox
    rw [List.append_nil]
    exact kept.congr (by rw [conns]) (by rw [conns]) (by rw [inbox])
  have updated : ∀ (d : ConnId) {s : Hub ε} (f : Connection ε → Connection ε),
      s.conns = Function.update h.conns d (f (h.conns d)) → s.inbox = h.inbox →
      (∀ conn, (f conn).closing = conn.closing ∧ (f conn).put = conn.put ∨ (f conn).closing = true) →
      s.Kept (userChannel (user c)) c old (published ++ []) := by
    intro d s f conns inbox harmless
    rw [List.append_nil]
    by_cases eq : c = d
    · rw [← eq] at conns
      rcases harmless (h.conns c) with ⟨closing, put⟩ | closing
      · exact kept.congr (by simp [conns, closing]) (by simp [conns, put]) (by rw [inbox])
      · exact .inl (by simp [conns, closing])
    · have other : s.conns c = h.conns c := by rw [conns, Function.update_of_ne eq]
      exact kept.congr (by rw [other]) (by rw [other]) (by rw [inbox])
  cases step with
  | published m mem =>
    exact kept.publish rfl (.inr (eventsOn_append _ _ _).symm)
  | dropped m away =>
    rcases covered with closing | none | mem
    · exact kept.publish rfl (.inl closing)
    · exact kept.publish rfl (.inr (by rw [none, List.append_nil]))
    · exact absurd mem away
  | received m rest pc some =>
    have taken := kept.received registry registered some
    simpa [eventsOn, HubInput.publishes] using taken
  | failed pc =>
    have down := kept.lost (t := h.lost) rfl rfl covered
    simpa [eventsOn, HubInput.publishes] using down
  | failedApplying r pc =>
    have down := kept.lost (t := Hub.lost { h with calls := setResult h.calls r.future }) rfl rfl covered
    simpa [eventsOn, HubInput.publishes] using down
  | sent d e =>
    by_cases eq : c = d
    · subst eq
      simp only [HubInput.publishes, eventsOn, List.filterMap_nil, List.append_nil]
      apply kept.send (e := e) (Function.update_self _ _ _)
      intro more
      exact (List.sublist_append_left more [e]).append_right _
    · have other : Function.update h.conns d ((h.conns d).sendNowait e) c = h.conns c :=
        Function.update_of_ne eq _ _
      simp only [HubInput.publishes, eventsOn, List.filterMap_nil, List.append_nil]
      exact kept.congr (by simp [other]) (by simp [other]) rfl
  | closed d code reason =>
    exact updated d (fun conn => conn.close code reason) rfl rfl
      (fun conn => .inr (conn.close_closing code reason))
  | taken d => exact updated d Connection.nextEvent rfl rfl (fun conn => .inl ⟨rfl, rfl⟩)
  | first d idle empty => exact quiet rfl rfl
  | joins d conns idle some ne => exact quiet rfl rfl
  | last d conns some mem empty => exact quiet rfl rfl
  | leaves d conns some mem ne => exact quiet rfl rfl
  | resumed call released => exact quiet rfl rfl
  | timedOut call waiting => exact quiet rfl rfl
  | looked pc => exact quiet rfl rfl
  | connected channels pc => exact quiet (by simp) (by simp)
  | applied r pc => exact quiet (by simp) (by simp)
  | slept pc => exact quiet rfl rfl
  | quiet pc => exact quiet (by simp) (by simp)

end Hub

/-- The events that a stretch of a run publishes on a channel. -/
def publishedOn {ε : Type} (channel : String) (xs : List (Move (Hub ε) (HubInput ε))) : List ε :=
  Hub.eventsOn channel (xs.flatMap (fun x => x.action.publishes))

/-- A connection that was registered after `before`, with its channel subscribed, and is so still.
Once the loop is connected and has drained what came in, every event published meanwhile has been
queued, or the connection is closing. -/
def NoSilentGap (ε : Type) (user : ConnId → UserId) (replicaId : String)
    (before after : List (HubInput ε)) (c : ConnId) : Prop :=
  ((hub ε user replicaId).run before).isRegistered c →
  userChannel (user c) ∈ ((hub ε user replicaId).run before).subscribed →
  ((hub ε user replicaId).run (before ++ after)).isRegistered c →
  ((hub ε user replicaId).run (before ++ after)).connected = true →
  ((hub ε user replicaId).run (before ++ after)).inbox = [] →
  (((hub ε user replicaId).run (before ++ after)).conns c).closing = true ∨
    ∃ more, (((hub ε user replicaId).run (before ++ after)).conns c).put =
        (((hub ε user replicaId).run before).conns c).put ++ more ∧
      (publishedOn (userChannel (user c)) ((hub ε user replicaId).moves
        ((hub ε user replicaId).run before) after)).Sublist more

/-- There is no gap in a run that covers the connection at each of its steps. -/
theorem no_gap_when_covered (ε : Type) (user : ConnId → UserId) (replicaId : String)
    (before after : List (HubInput ε)) (c : ConnId)
    (covered : ∀ x ∈ (hub ε user replicaId).moves ((hub ε user replicaId).run before) after,
      Hub.Covered user c x.before x.action) :
    NoSilentGap ε user replicaId before after c := by
  intro start _ registered _ drained
  let m := hub ε user replicaId
  rw [Machine.run_append] at registered drained ⊢
  have registry : Hub.Registry user (m.run before) :=
    m.run_invariant (Hub.Registry user) Hub.Registry.init
      (fun _ _ _ inv step => inv.step (Hub.step_cases step)) before
  have run := m.moves_invariant
    (fun xs h => Hub.Registry user h ∧ h.calls (.register c) ≠ .idle ∧
      ((∀ x ∈ xs, Hub.Covered user c x.before x.action) → h.isRegistered c →
        h.Kept (userChannel (user c)) c ((m.run before).conns c).put
          (publishedOn (userChannel (user c)) xs)))
    ?_ (m.run before) ⟨registry, start.1, fun _ _ => ?_⟩ after
  · obtain ⟨_, _, kept⟩ := run
    rcases kept covered registered with closing | ⟨more, put, sub⟩
    · exact .inl closing
    · rw [drained] at sub
      exact .inr ⟨more, put, by simpa [Hub.eventsOn] using sub⟩
  · rintro xs h i t ⟨registry, begun, kept⟩ step
    have step := Hub.step_cases step
    refine ⟨registry.step step, fun idle => begun (step.begun idle), fun all later => ?_⟩
    have reg := step.registered begun later
    have past := kept (fun x hx => all x (List.mem_append_left _ hx)) reg
    have now := all ⟨h, i, t⟩ (List.mem_append_right _ (List.mem_singleton_self _))
    have next := past.step registry reg now step
    rw [publishedOn, List.flatMap_append, Hub.eventsOn_append, List.flatMap_singleton]
    exact next
  · exact .inr ⟨[], (List.append_nil _).symm, List.nil_sublist _⟩

instance {ε : Type} (user : ConnId → UserId) (c : ConnId) (h : Hub ε) :
    (i : HubInput ε) → Decidable (Hub.Covered user c h i)
  | .publish m => inferInstanceAs (Decidable ((h.conns c).closing = true ∨
      Hub.eventsOn (userChannel (user c)) [m] = [] ∨ m.channel ∈ h.subscribed))
  | .fail => inferInstanceAs (Decidable ((h.conns c).closing = true ∨
      Hub.eventsOn (userChannel (user c)) h.inbox = []))
  | .register _ | .unregister _ | .resume _ | .timeout _ | .proceed | .quiet | .send _ _
  | .close _ _ _ | .next _ => instDecidableTrue

/-- An event comes in over a link that fails only afterwards. -/
theorem no_gap_across_idle_outage :
    NoSilentGap Unit (fun _ => "a") "1" [.proceed, .proceed, .register 0, .quiet, .proceed]
      [.publish ⟨"chat:user:a", some ()⟩, .proceed, .fail, .proceed, .proceed, .proceed] 0 := by
  apply no_gap_when_covered
  decide +kernel

/-- An event published during an outage never reaches an open socket, which is not told. -/
theorem outage_leaves_gap :
    ¬ ∀ (before after : List (HubInput Unit)) (c : ConnId),
      NoSilentGap Unit (fun _ => "a") "1" before after c := by
  intro claim
  have kept := claim [.proceed, .proceed, .register 0, .quiet, .proceed]
    [.fail, .publish ⟨"chat:user:a", some ()⟩, .proceed, .proceed, .proceed] 0 (by decide +kernel)
    (by decide +kernel) (by decide +kernel) (by decide +kernel) (by decide +kernel)
  rcases kept with closing | ⟨more, put, sub⟩
  · revert closing
    decide +kernel
  · have quiet : (((hub Unit (fun _ => "a") "1").run ([.proceed, .proceed, .register 0, .quiet, .proceed] ++
        [.fail, .publish ⟨"chat:user:a", some ()⟩, .proceed, .proceed, .proceed])).conns 0).put = [] := by
      decide +kernel
    rw [quiet] at put
    obtain rfl := (List.append_eq_nil_iff.mp put.symm).2
    revert sub
    decide +kernel

end ChatBackend
