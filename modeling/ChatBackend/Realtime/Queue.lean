import ChatBackend.Realtime.Hub

/-! The queue of one socket, over any sequence of calls. Everything that was ever queued is what was
handed out and what is left; it is a prefix of what was passed, and at most one close request after it. -/

namespace ChatBackend

open Lib

variable {ε : Type}

def Item.event? : Item ε → Option ε
  | .event e => some e
  | .close _ _ => none

def Item.close? : Item ε → Option (Nat × String)
  | .event _ => none
  | .close code reason => some (code, reason)

/-- The arguments of the close in `send_nowait`. -/
def slowConsumer : Nat × String := (1013, "client too slow, reconnect and sync")

/-- A connection with every event passed to `send_nowait` and every item that `next_event` returned. -/
structure Feed (ε : Type) where
  conn : Connection ε
  passed : List ε
  handed : List (Item ε)

inductive FeedInput (ε : Type) where
  | sendNowait (e : ε)
  | close (code : Nat) (reason : String)
  | nextEvent

namespace Feed

def init : Feed ε := ⟨Connection.init, [], []⟩

/-- A `next_event` on an empty queue waits. -/
def step (s : Feed ε) : FeedInput ε → Option (Feed ε)
  | .sendNowait e => some { s with conn := s.conn.sendNowait e, passed := s.passed ++ [e] }
  | .close code reason => some { s with conn := s.conn.close code reason }
  | .nextEvent =>
    match s.conn.queue with
    | [] => none
    | item :: _ => some { s with conn := s.conn.nextEvent, handed := s.handed ++ [item] }

def queued (s : Feed ε) : List (Item ε) := s.handed ++ s.conn.queue

def accepted (s : Feed ε) : List ε := s.queued.filterMap Item.event?

def closes (s : Feed ε) : List (Nat × String) := s.queued.filterMap Item.close?

end Feed

def feed (ε : Type) : Machine (Feed ε) (FeedInput ε) := ⟨Feed.init, Feed.step⟩

namespace Feed

/-- What a call does to the flag and to what has been queued. -/
inductive Steps (s : Feed ε) : FeedInput ε → Feed ε → Prop where
  | ignored (e : ε) : s.conn.closing = true →
      Steps s (.sendNowait e) { s with passed := s.passed ++ [e] }
  | overflow (e : ε) (conn : Connection ε) : s.conn.closing = false →
      maxPendingEvents ≤ s.conn.queue.length → conn.closing = true →
      conn.queue = s.conn.queue ++ [.close slowConsumer.1 slowConsumer.2] →
      Steps s (.sendNowait e) { s with conn := conn, passed := s.passed ++ [e] }
  | queued (e : ε) (conn : Connection ε) : s.conn.closing = false →
      s.conn.queue.length < maxPendingEvents → conn.closing = false →
      conn.queue = s.conn.queue ++ [.event e] →
      Steps s (.sendNowait e) { s with conn := conn, passed := s.passed ++ [e] }
  | closedAgain (code : Nat) (reason : String) : s.conn.closing = true →
      Steps s (.close code reason) s
  | closed (code : Nat) (reason : String) (conn : Connection ε) : s.conn.closing = false →
      conn.closing = true → conn.queue = s.conn.queue ++ [.close code reason] →
      Steps s (.close code reason) { s with conn := conn }
  | handed (item : Item ε) (rest : List (Item ε)) (conn : Connection ε) : s.conn.queue = item :: rest →
      conn.closing = s.conn.closing → conn.queue = rest →
      Steps s .nextEvent { s with conn := conn, handed := s.handed ++ [item] }

theorem step_cases {s t : Feed ε} {i : FeedInput ε} (h : s.step i = some t) : Steps s i t := by
  cases i with
  | sendNowait e =>
    cases h
    by_cases closing : s.conn.closing = true
    · rw [Connection.sendNowait, if_pos closing]
      exact .ignored e closing
    · rw [Bool.not_eq_true] at closing
      by_cases full : s.conn.queue.length ≥ maxPendingEvents
      · refine .overflow e _ closing full ?_ ?_ <;>
          simp [Connection.sendNowait, Connection.close, closing, full, slowConsumer]
      · refine .queued e _ closing (not_le.mp full) ?_ ?_ <;>
          simp [Connection.sendNowait, closing, full]
  | close code reason =>
    cases h
    by_cases closing : s.conn.closing = true
    · rw [Connection.close, if_pos closing]
      exact .closedAgain code reason closing
    · rw [Bool.not_eq_true] at closing
      refine .closed code reason _ closing ?_ ?_ <;> simp [Connection.close, closing]
  | nextEvent =>
    simp only [step] at h
    split at h
    · cases h
    · rename_i item rest queue
      cases h
      exact .handed item rest _ queue rfl (by simp [Connection.nextEvent, queue])

/-- The sequence of everything ever queued: accepted events, then at most one close request. Until the
flag is set everything passed has been accepted. -/
structure Inv (s : Feed ε) : Prop where
  order : s.queued = s.accepted.map .event ++ s.closes.map (fun a => .close a.1 a.2)
  accepted : s.accepted <+: s.passed
  open_ : s.conn.closing = false →
    s.closes = [] ∧ s.accepted = s.passed ∧ s.conn.queue.length ≤ maxPendingEvents
  closed : s.conn.closing = true → s.closes.length = 1
  bound : s.conn.queue.length ≤ maxPendingEvents + 1

theorem Inv.init : (Feed.init : Feed ε).Inv :=
  ⟨rfl, List.nil_prefix, fun _ => ⟨rfl, rfl, Nat.zero_le _⟩, nofun, Nat.zero_le _⟩

/-- A call only adds to what has been queued, and nothing once the flag is set. -/
theorem Steps.queued_mono {s t : Feed ε} {i : FeedInput ε} (h : Steps s i t)
    (closing : s.conn.closing = true) : t.conn.closing = true ∧ t.queued = s.queued := by
  cases h with
  | ignored e _ => exact ⟨closing, rfl⟩
  | overflow e conn open_ => rw [open_] at closing; cases closing
  | queued e conn open_ => rw [open_] at closing; cases closing
  | closedAgain code reason _ => exact ⟨closing, rfl⟩
  | closed code reason conn open_ => rw [open_] at closing; cases closing
  | handed item rest conn queue flag after =>
    refine ⟨flag.trans closing, ?_⟩
    simp [Feed.queued, queue, after]

theorem queued_append {s t : Feed ε} {item : Item ε} (handed : t.handed = s.handed)
    (queue : t.conn.queue = s.conn.queue ++ [item]) : t.queued = s.queued ++ [item] := by
  rw [Feed.queued, Feed.queued, handed, queue, List.append_assoc]

theorem Inv.of_same {s : Feed ε} (t : Feed ε) (inv : s.Inv) (same : t.queued = s.queued)
    (closing : t.conn.closing = true) (passed : s.passed <+: t.passed) (one : s.closes.length = 1)
    (bound : t.conn.queue.length ≤ maxPendingEvents + 1) : t.Inv := by
  have events : t.accepted = s.accepted := by rw [Feed.accepted, same, Feed.accepted]
  have ends : t.closes = s.closes := by rw [Feed.closes, same, Feed.closes]
  refine ⟨?_, ?_, ?_, ?_, bound⟩
  · rw [same, events, ends]
    exact inv.order
  · rw [events]
    exact inv.accepted.trans passed
  · intro open_
    rw [closing] at open_
    cases open_
  · intro _
    rw [ends]
    exact one

/-- Closing an open connection queues its one close request behind everything that was accepted. -/
theorem Inv.of_close {s : Feed ε} (t : Feed ε) (inv : s.Inv) (open_ : s.conn.closing = false)
    {code : Nat} {reason : String} (queue : t.conn.queue = s.conn.queue ++ [.close code reason])
    (handed : t.handed = s.handed) (closing : t.conn.closing = true) (passed : s.passed <+: t.passed) :
    t.Inv ∧ t.closes = [(code, reason)] ∧ t.accepted = s.accepted := by
  have more := queued_append handed queue
  have events : t.accepted = s.accepted := by
    simp [Feed.accepted, more, Item.event?]
  obtain ⟨none, _, room⟩ := inv.open_ open_
  have ends : t.closes = [(code, reason)] := by
    rw [Feed.closes, more, List.filterMap_append]
    show s.closes ++ _ = _
    rw [none]
    rfl
  refine ⟨⟨?_, ?_, ?_, ?_, ?_⟩, ends, events⟩
  · rw [more, events, ends, inv.order, none]
    simp
  · rw [events]
    exact inv.accepted.trans passed
  · intro still
    rw [closing] at still
    cases still
  · intro _
    rw [ends]
    rfl
  · rw [queue, List.length_append]
    exact Nat.add_le_add_right room 1

theorem Inv.of_event {s : Feed ε} (t : Feed ε) (inv : s.Inv) (open_ : s.conn.closing = false)
    (room : s.conn.queue.length < maxPendingEvents) (still : t.conn.closing = false) {e : ε}
    (queue : t.conn.queue = s.conn.queue ++ [.event e]) (handed : t.handed = s.handed)
    (passed : t.passed = s.passed ++ [e]) : t.Inv := by
  obtain ⟨none, all, _⟩ := inv.open_ open_
  have more := queued_append handed queue
  have events : t.accepted = t.passed := by
    rw [passed, ← all]
    simp [Feed.accepted, more, Item.event?]
  have ends : t.closes = [] := by
    rw [Feed.closes, more, List.filterMap_append]
    show s.closes ++ _ = _
    rw [none]
    rfl
  have fits : t.conn.queue.length ≤ maxPendingEvents := by
    rw [queue, List.length_append]
    exact room
  refine ⟨?_, ?_, fun _ => ⟨ends, events, fits⟩, ?_, Nat.le_succ_of_le fits⟩
  · rw [more, events, ends, inv.order, none, passed, all]
    simp
  · rw [events]
  · intro closing
    rw [still] at closing
    cases closing

theorem Inv.step {s t : Feed ε} {i : FeedInput ε} (inv : s.Inv) (h : Steps s i t) : t.Inv := by
  cases h with
  | ignored e closing =>
    exact inv.of_same _ rfl closing (List.prefix_append _ _) (inv.closed closing) inv.bound
  | overflow e conn open_ full closing queue =>
    exact (inv.of_close ⟨conn, s.passed ++ [e], s.handed⟩ open_ queue rfl closing
      (List.prefix_append _ _)).1
  | closed code reason conn open_ closing queue =>
    exact (inv.of_close ⟨conn, s.passed, s.handed⟩ open_ queue rfl closing (List.prefix_refl _)).1
  | closedAgain code reason closing => exact inv
  | queued e conn open_ room still queue =>
    exact inv.of_event _ open_ room still queue rfl rfl
  | handed item rest conn queue flag after =>
    have same : ({ s with conn := conn, handed := s.handed ++ [item] } : Feed ε).queued = s.queued := by
      simp [Feed.queued, queue, after]
    have shorter : conn.queue.length ≤ s.conn.queue.length := by
      rw [after, queue]
      exact Nat.le_succ _
    have events : ({ s with conn := conn, handed := s.handed ++ [item] } : Feed ε).accepted =
        s.accepted := by rw [Feed.accepted, same, Feed.accepted]
    have ends : ({ s with conn := conn, handed := s.handed ++ [item] } : Feed ε).closes =
        s.closes := by rw [Feed.closes, same, Feed.closes]
    refine ⟨?_, ?_, ?_, ?_, shorter.trans inv.bound⟩
    · rw [same, events, ends]
      exact inv.order
    · rw [events]
      exact inv.accepted
    · intro open_
      obtain ⟨none, all, room⟩ := inv.open_ (flag.symm.trans open_)
      exact ⟨ends.trans none, events.trans all, shorter.trans room⟩
    · intro closing
      rw [ends]
      exact inv.closed (flag.symm.trans closing)

theorem inv (as : List (FeedInput ε)) : ((feed ε).run as).Inv :=
  (feed ε).run_invariant Feed.Inv Inv.init (fun _ _ _ ok step => ok.step (step_cases step)) as

/-- Once the flag is set, nothing is queued any more. -/
theorem settled (as bs : List (FeedInput ε)) (closing : ((feed ε).run as).conn.closing = true) :
    ((feed ε).run (as ++ bs)).conn.closing = true ∧
      ((feed ε).run (as ++ bs)).queued = ((feed ε).run as).queued := by
  rw [Machine.run_append]
  apply (feed ε).exec_invariant (fun s => s.conn.closing = true ∧ s.queued = ((feed ε).run as).queued)
  · rintro s i t ⟨flag, same⟩ step
    obtain ⟨flag', same'⟩ := (step_cases step).queued_mono flag
    exact ⟨flag', same'.trans same⟩
  · exact ⟨closing, rfl⟩

/-- The call that sets the flag decides on the close request. -/
theorem decided (as bs : List (FeedInput ε)) {i : FeedInput ε} {t : Feed ε}
    (step : Feed.step ((feed ε).run as) i = some t) (closing : t.conn.closing = true) :
    ((feed ε).run (as ++ i :: bs)).closes = t.closes := by
  have next : (feed ε).run (as ++ [i]) = t := by
    rw [Machine.run_concat]
    exact (feed ε).next_of_step step
  rw [← List.singleton_append, ← List.append_assoc, Feed.closes,
    (settled (as ++ [i]) bs (next ▸ closing)).2, next, Feed.closes]

/-- A close request has nothing behind it. -/
theorem Inv.nothing_behind {s : Feed ε} (inv : s.Inv) (one : s.closes.length ≤ 1)
    {front back : List (Item ε)} {code : Nat} {reason : String}
    (eq : s.queued = front ++ .close code reason :: back) : back = [] := by
  have order := inv.order
  rw [eq] at order
  have outside : (Item.close code reason : Item ε) ∉ s.accepted.map .event := by
    intro mem
    obtain ⟨e, _, same⟩ := List.mem_map.mp mem
    cases same
  cases ends : s.closes with
  | nil =>
    rw [ends, List.map_nil, List.append_nil] at order
    exact absurd (order ▸ List.mem_append_right front List.mem_cons_self) outside
  | cons a rest =>
    obtain rfl : rest = [] := by
      rw [ends] at one
      exact List.length_eq_zero_iff.mp (Nat.le_zero.mp (Nat.le_of_succ_le_succ one))
    cases back using List.reverseRecOn with
    | nil => rfl
    | append_singleton back last =>
      rw [ends, List.map_singleton, ← List.cons_append, ← List.append_assoc] at order
      have events := (List.append_inj' order rfl).1
      exact absurd (events ▸ List.mem_append_right front List.mem_cons_self) outside

/-- The close request of a call that closes first. -/
def asks : FeedInput ε → Nat × String
  | .close code reason => (code, reason)
  | _ => slowConsumer

theorem Steps.decides {s t : Feed ε} {i : FeedInput ε} (h : Steps s i t) (inv : s.Inv)
    (open_ : s.conn.closing = false) (closing : t.conn.closing = true) :
    t.closes = [asks i] ∧ t.accepted = s.accepted := by
  cases h with
  | ignored e closed => rw [open_] at closed; cases closed
  | overflow e conn _ full _ queue =>
    exact (inv.of_close ⟨conn, s.passed ++ [e], s.handed⟩ open_ queue rfl closing
      (List.prefix_append _ _)).2
  | queued e conn _ room still queue => rw [still] at closing; cases closing
  | closedAgain code reason closed => rw [open_] at closed; cases closed
  | closed code reason conn _ _ queue =>
    exact (inv.of_close ⟨conn, s.passed, s.handed⟩ open_ queue rfl closing (List.prefix_refl _)).2
  | handed item rest conn queue flag after => rw [flag, open_] at closing; cases closing

theorem Steps.next_flag {s t : Feed ε} (h : Steps s .nextEvent t) :
    t.conn.closing = s.conn.closing := by
  cases h with
  | handed item rest conn queue flag after => exact flag

theorem Steps.stays {s t : Feed ε} {i : FeedInput ε} (h : Steps s i t)
    (closing : s.conn.closing = true) :
    t.conn.closing = true ∧ t.closes = s.closes ∧ t.accepted = s.accepted := by
  obtain ⟨flag, same⟩ := h.queued_mono closing
  exact ⟨flag, by rw [Feed.closes, same, Feed.closes], by rw [Feed.accepted, same, Feed.accepted]⟩

end Feed

/-- For every sequence of calls. The events handed out are a prefix of those passed; once one was
refused a close request is queued and no event is accepted any more; the one close request has the
arguments of whoever closed first, and is the last item handed out; and the queue is bounded. -/
theorem queue_never_skips (as : List (FeedInput ε)) :
    let s := (feed ε).run as
    s.handed.filterMap Item.event? <+: s.passed ∧
    (s.accepted ≠ s.passed → s.closes ≠ [] ∧
      ∀ bs, ((feed ε).run (as ++ bs)).accepted = s.accepted) ∧
    s.closes.length ≤ 1 ∧
    (s.conn.closing = false → ∀ code reason bs,
      ((feed ε).run (as ++ .close code reason :: bs)).closes = [(code, reason)]) ∧
    (s.conn.closing = false → maxPendingEvents ≤ s.conn.queue.length → ∀ e bs,
      ((feed ε).run (as ++ .sendNowait e :: bs)).closes = [slowConsumer]) ∧
    (∀ front code reason back, s.handed = front ++ .close code reason :: back → back = []) ∧
    s.conn.queue.length ≤ maxPendingEvents + 1 := by
  intro s
  have inv : s.Inv := Feed.inv as
  have one : s.closes.length ≤ 1 := by
    cases closing : s.conn.closing with
    | false => rw [(inv.open_ closing).1]; exact Nat.zero_le _
    | true => exact (inv.closed closing).le
  refine ⟨?_, ?_, one, ?_, ?_, ?_, inv.bound⟩
  · have front : s.handed.filterMap Item.event? <+: s.accepted :=
      (List.prefix_append s.handed s.conn.queue).filterMap Item.event?
    exact front.trans inv.accepted
  · intro refused
    cases closing : s.conn.closing with
    | false => exact absurd (inv.open_ closing).2.1 refused
    | true =>
      refine ⟨?_, ?_⟩
      · intro none
        have length := inv.closed closing
        rw [none] at length
        cases length
      · intro bs
        rw [Feed.accepted, (Feed.settled as bs closing).2, Feed.accepted]
  · intro open_ code reason bs
    have queue : (s.conn.close code reason).queue = s.conn.queue ++ [.close code reason] := by
      simp [Connection.close, open_]
    have closing : (s.conn.close code reason).closing = true := by
      simp [Connection.close, open_]
    rw [Feed.decided as bs rfl closing]
    exact (inv.of_close ⟨_, _, _⟩ open_ queue rfl closing (List.prefix_refl _)).2.1
  · intro open_ full e bs
    have queue : (s.conn.sendNowait e).queue =
        s.conn.queue ++ [.close slowConsumer.1 slowConsumer.2] := by
      simp [Connection.sendNowait, Connection.close, open_, full, slowConsumer]
    have closing : (s.conn.sendNowait e).closing = true := by
      simp [Connection.sendNowait, Connection.close, open_, full]
    rw [Feed.decided as bs rfl closing]
    exact (inv.of_close ⟨_, _, _⟩ open_ queue rfl closing (List.prefix_append _ [e])).2.1
  · intro front code reason back eq
    have whole : s.queued = front ++ .close code reason :: (back ++ s.conn.queue) := by
      rw [Feed.queued, eq, List.append_assoc, List.cons_append]
    exact (List.append_eq_nil_iff.mp (inv.nothing_behind one whole)).1

end ChatBackend
