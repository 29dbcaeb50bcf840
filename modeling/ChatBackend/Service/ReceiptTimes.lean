import ChatBackend.Service.DeliveryState

/-! Receipt times against one shared clock. A command reads the clock before the statement
that writes the reading, so readings and commits can come in different orders. -/

namespace ChatBackend

open Lib

def Action.reading : Action → Option Timestamp
  | .fresh _ now => some now
  | .clock now => some now
  | _ => none

def Input.reading : Input → Option Timestamp
  | .start _ _ => none
  | .act _ a => a.reading

structure Clocked where
  clock : Timestamp
  sys : Sys

/-- The service on replicas that share one clock: no reading is earlier than one before it. -/
def clocked (env : Env) : Machine Clocked Input where
  init := ⟨0, Sys.init⟩
  step s i :=
    let now := i.reading.getD s.clock
    if s.clock ≤ now then (s.sys.step env i).map (fun t => ⟨now, t⟩) else none

theorem clocked_step {env : Env} {s t : Clocked} {i : Input} (h : (clocked env).step s i = some t) :
    s.clock ≤ t.clock ∧ t.clock = i.reading.getD s.clock ∧ s.sys.step env i = some t.sys := by
  dsimp only [clocked] at h
  split at h
  · rename_i le
    obtain ⟨u, hu, rfl⟩ := Option.map_eq_some_iff.mp h
    exact ⟨le, rfl, hu⟩
  · cases h

def SendTimed (clock : Timestamp) : SendPc → Prop
  | .insert m | .commit m => m.createdAt ≤ clock
  | _ => True

/-- `mark_read` samples the clock after it has read its anchor, so what it covers is no younger
than its reading. -/
def ReadTimed (clock : Timestamp) (own : List Write) : ReadPc → Prop
  | .clock _ upTo => upTo.createdAt ≤ clock
  | .update _ upTo now | .lock _ upTo now _ _ => upTo.createdAt ≤ now
  | .commit _ now _ => ∀ old new, .updateMessage old new ∈ own → old.createdAt ≤ now
  | _ => True

def CallTimed (clock : Timestamp) (own : List Write) : Call → Prop
  | .send _ _ (.running k) => SendTimed clock k
  | .read _ _ _ (.running k) => ReadTimed clock own k
  | _ => True

theorem CallTimed.later {a b : Timestamp} {own : List Write} {k : Call} (le : a ≤ b)
    (h : CallTimed a own k) : CallTimed b own k := by
  cases k with
  | idle => trivial
  | send u req p =>
    cases p with
    | running k => cases k <;> first | exact h.trans le | trivial
    | committed r => trivial
    | done r => trivial
  | deliver u id p => trivial
  | read u cid upTo p =>
    cases p with
    | running k => cases k <;> first | exact le_trans h le | exact h
    | committed r => trivial
    | done r => trivial

section Statements

variable {env : Env} {db : Db} {own : List Write} {blocked : Write → Bool} {clock : Timestamp}
  {a : Action}

theorem SendPc.next_timed {u : UserId} {req : SendMessageRequest} {k l : SendPc} {ws : List Write}
    (timed : SendTimed clock k) (h : k.next env db blocked u req a = some (.goto l ws)) :
    SendTimed (a.reading.getD clock) l := by
  unfold SendPc.next at h
  split at h
  case h_5 =>
    split at h
    · cases h
    · cases h
      exact le_rfl
  case h_3 =>
    simp only [insertPair] at h
    repeat' split at h
    all_goals
      cases h
      try trivial
  case h_6 =>
    simp only [insertMessage] at h
    repeat' split at h
    all_goals
      cases h
      try exact timed
  all_goals
    repeat' split at h
    all_goals
      cases h
      try trivial

theorem ReadPc.next_timed {u : UserId} {cid upTo : Uuid} {k l : ReadPc} {ws : List Write}
    (ok : ReadOk db own u cid k) (rows : ∀ m ∈ db.messages, m.createdAt ≤ clock)
    (le : clock ≤ a.reading.getD clock) (timed : ReadTimed clock own k)
    (h : k.next (store.commit db own) blocked u cid upTo a = some (.goto l ws)) :
    ReadTimed (a.reading.getD clock) (own ++ ws) l := by
  unfold ReadPc.next at h
  split at h
  case h_1 =>
    split at h <;> cases h
    trivial
  case h_2 =>
    obtain ⟨rfl, _⟩ := ok
    split at h
    · cases h
    · rename_i found
      cases h
      obtain ⟨found, _⟩ := checkAnchor_ok found
      exact rows _ (Db.message_some found).1
  case h_3 =>
    cases h
    exact timed.trans le
  case h_4 =>
    cases h
    exact timed
  case h_5 =>
    repeat' split at h
    all_goals
      cases h
      try exact timed
  case h_6 c anchor now todo ids =>
    obtain ⟨_, olds, rfl, rfl, hits⟩ := ok
    split at h
    · cases h
    · split at h
      · cases h
      · cases h
        intro old new mem
        rcases List.mem_append.mp mem with mem | mem
        · obtain ⟨o, ho, eq⟩ := List.mem_map.mp mem
          cases eq
          have hit := hits old ho
          simp only [readWhere, Bool.and_eq_true, decide_eq_true_eq] at hit
          have le : old.createdAt ≤ anchor.createdAt := by
            rcases Prod.Lex.le_iff.mp hit.2 with lt | ⟨eq, _⟩
            · exact lt.le
            · exact eq.le
          exact le.trans timed
        · obtain ⟨row, _, eq⟩ := List.mem_map.mp mem
          cases eq
  case h_7 => cases h
  case h_8 => cases h

theorem ReadPc.next_no_restart {u : UserId} {cid upTo : Uuid} {k l : ReadPc} :
    k.next db blocked u cid upTo a ≠ some (.restart l) := by
  intro h
  unfold ReadPc.next at h
  split at h
  all_goals
    repeat' split at h
    all_goals cases h

end Statements

structure Clocked.Inv (env : Env) (s : Clocked) : Prop where
  sys : s.sys.Inv env
  consistent : s.sys.db.Consistent
  rows : ∀ m ∈ s.sys.db.messages, m.createdAt ≤ s.clock
  calls : ∀ c, CallTimed s.clock (s.sys.pending.own c) (s.sys.calls c)

theorem Call.step_timed {env : Env} {db : Db} {own : List Write} {blocked : Write → Bool}
    {clock : Timestamp} {a : Action} {k l : Call} {e : Effect} (ok : CallOk env db own k)
    (rows : ∀ m ∈ db.messages, m.createdAt ≤ clock) (le : clock ≤ a.reading.getD clock)
    (timed : CallTimed clock own k)
    (h : k.step env (store.commit db own) blocked a = some (l, e)) :
    CallTimed (a.reading.getD clock) (e.leaves own) l := by
  cases k with
  | idle => cases h
  | send u req p =>
    obtain ⟨⟨q, f⟩, hp, pair⟩ := Option.map_eq_some_iff.mp h
    cases pair
    cases q with
    | running l =>
      obtain ⟨k, rfl, ⟨ws, hn, rfl⟩ | ⟨hn, rfl⟩⟩ := Phase.step_running hp
      · exact SendPc.next_timed timed hn
      · rw [SendPc.next_restart hn]
        trivial
    | committed r => trivial
    | done r => trivial
  | deliver u id p =>
    obtain ⟨⟨q, f⟩, hp, pair⟩ := Option.map_eq_some_iff.mp h
    cases pair
    trivial
  | read u cid upTo p =>
    obtain ⟨⟨q, f⟩, hp, pair⟩ := Option.map_eq_some_iff.mp h
    cases pair
    cases q with
    | running l =>
      obtain ⟨k, rfl, ⟨ws, hn, rfl⟩ | ⟨hn, rfl⟩⟩ := Phase.step_running hp
      · exact ReadPc.next_timed ok rows le timed hn
      · exact absurd hn ReadPc.next_no_restart
    | committed r => trivial
    | done r => trivial

theorem Clocked.Inv.rows_step {env : Env} {s t : Clocked} {i : Input} (inv : s.Inv env)
    (h : (clocked env).step s i = some t) : ∀ m ∈ t.sys.db.messages, m.createdAt ≤ t.clock := by
  obtain ⟨le, -, step⟩ := clocked_step h
  have db := inv.sys.step_change step
  intro n hn
  cases change : s.sys.change i with
  | none =>
    rw [change] at db
    rw [db] at hn
    exact (inv.rows n hn).trans le
  | some ch =>
    rw [change] at db
    rw [db.2] at hn
    rcases Change.mem_messages.mp hn with ⟨m, hm, rfl⟩ | new
    · rw [(Change.touch inv.sys.sound.keys db.1 hm).same.createdAt]
      exact (inv.rows m hm).trans le
    · cases ch with
      | sent opened m =>
        obtain rfl := List.mem_singleton.mp new
        clear step h
        unfold Sys.change at change
        split at change
        · rename_i c
          have timed := inv.calls c
          unfold Call.change at change
          split at change
          · rename_i call
            cases change
            rw [call] at timed
            exact (show n.createdAt ≤ s.clock from timed).trans le
          all_goals cases change
        · cases change
      | delivered u old now => cases new
      | read c u ids now => cases new

theorem Clocked.Inv.step {env : Env} {s t : Clocked} {i : Input} (inv : s.Inv env)
    (h : (clocked env).step s i = some t) : t.Inv env := by
  obtain ⟨le, now, step⟩ := clocked_step h
  refine ⟨inv.sys.step step, inv.sys.consistent_step inv.consistent step, inv.rows_step h, ?_⟩
  intro d
  have other : CallTimed t.clock (s.sys.pending.own d) (s.sys.calls d) := (inv.calls d).later le
  rw [now] at le other ⊢
  generalize hu : t.sys = u at step ⊢
  cases Sys.step_cases step with
  | start c r idle =>
    by_cases same : d = c
    · subst d
      have fresh : CallTimed (Input.reading (.start c r) |>.getD s.clock) (s.sys.pending.own c)
          (r.start env) := by
        cases r with
        | sendMessage u req =>
          simp only [Request.start]
          split <;> trivial
        | markDelivered u id => trivial
        | markRead u cid upTo => trivial
      simpa only [Function.update_self] using fresh
    · simpa only [Function.update_of_ne same] using other
  | act c a l e hk =>
    have timed := Call.step_timed (inv.sys.calls c) inv.rows le (inv.calls c) hk
    rw [settle_calls]
    by_cases same : d = c
    · subst d
      rwa [settle_own_self, Function.update_self]
    · rwa [settle_own_other s.sys l e same, Function.update_of_ne same]

theorem Clocked.Inv.init (env : Env) : (clocked env).init.Inv env :=
  ⟨Sys.Inv.init env, fun _ h => absurd h List.not_mem_nil, fun _ h => absurd h List.not_mem_nil,
    fun _ => trivial⟩

/-- What a committed `mark_read` covers was created before it read the clock. -/
theorem Clocked.Inv.read_covers {env : Env} {s : Clocked} {i : Input} (inv : s.Inv env)
    {c : Conversation} {u : UserId} {ids : List Uuid} {now : Timestamp}
    (change : s.sys.change i = some (.read c u ids now)) :
    ∀ m ∈ s.sys.db.messages, m.id ∈ ids → m.createdAt ≤ now := by
  intro m hm mem
  unfold Sys.change at change
  split at change
  · rename_i d
    have timed := inv.calls d
    have ok := inv.sys.calls d
    have fits := inv.sys.isolated.own_fits d
    unfold Call.change at change
    split at change
    case h_3 call =>
      cases change
      rw [call] at timed ok
      obtain ⟨_, _, anchor, olds, rfl, own, _⟩ := ok
      obtain ⟨o, ho, id⟩ := List.mem_map.mp mem
      have pending : Write.updateMessage o (readSet now o) ∈ s.sys.pending.own d := by
        rw [own]
        exact List.mem_append_left _ (List.mem_map.mpr ⟨o, ho, rfl⟩)
      rw [← inv.sys.sound.keys.message_unique (fits _ pending).1 hm id]
      exact timed o _ pending
    all_goals cases change
  · cases change

/-! Chronology, and the order of readings and commits that it amounts to. -/

structure Message.Chronological (m : Message) : Prop where
  delivered : ∀ d, m.deliveredAt = some d → m.createdAt ≤ d
  read : ∀ r, m.readAt = some r → ∃ d, m.deliveredAt = some d ∧ d ≤ r

def Db.Chronological (db : Db) : Prop := ∀ m ∈ db.messages, m.Chronological

/-- Of two commits in this order, the later one did not read the clock too early: an ack not
before the send it acknowledges, a read not before an ack of a message that it covers. -/
def Ordered : Change → Change → Prop
  | .sent _ m, .delivered _ old now => old.id = m.id → m.createdAt ≤ now
  | .delivered _ old before, .read _ _ ids now => old.id ∈ ids → before ≤ now
  | _, _ => True

/-- The changes committed in a run, in commit order. -/
def changes (h : List (Move Clocked Input)) : List Change :=
  h.filterMap (fun x => x.before.sys.change x.action)

def Timely (chs : List Change) : Prop := chs.Pairwise Ordered

/-- How the changes so far show in the rows. -/
structure Recorded (chs : List Change) (db : Db) : Prop where
  sent : ∀ opened x, .sent opened x ∈ chs →
    ∃ m ∈ db.messages, m.id = x.id ∧ m.createdAt = x.createdAt
  created : ∀ m ∈ db.messages, ∃ opened x, .sent opened x ∈ chs ∧ x.id = m.id ∧
    x.createdAt = m.createdAt
  acked : ∀ u old t, .delivered u old t ∈ chs →
    ∃ m ∈ db.messages, m.id = old.id ∧ m.deliveredAt = some t
  delivered : ∀ m ∈ db.messages, m.status = .delivered →
    ∃ u old t, .delivered u old t ∈ chs ∧ old.id = m.id ∧ m.deliveredAt = some t

section Changes

variable {env : Env} {chs : List Change} {db : Db} {ch : Change}

theorem Recorded.step (sound : db.Sound) (ok : db.Consistent) (valid : ch.Valid db)
    (rec : Recorded chs db) : Recorded (chs ++ [ch]) (ch.apply env db) := by
  have progress : db.Progress (ch.apply env db) := Change.progress sound valid ok
  constructor
  · intro opened x hx
    rcases List.mem_append.mp hx with old | new
    · obtain ⟨m, hm, id, created⟩ := rec.sent opened x old
      obtain ⟨n, hn, nid, later⟩ := progress m hm
      exact ⟨n, hn, nid.trans id, later.same.createdAt.trans created⟩
    · obtain rfl := List.mem_singleton.mp new
      exact ⟨x, Change.mem_messages.mpr (.inr (List.mem_singleton_self x)), rfl, rfl⟩
  · intro n hn
    rcases Change.mem_messages.mp hn with ⟨m, hm, rfl⟩ | new
    · obtain ⟨opened, x, hx, id, created⟩ := rec.created m hm
      refine ⟨opened, x, List.mem_append_left _ hx, id.trans (ch.update_id m).symm, ?_⟩
      rw [(Change.touch sound.keys valid hm).same.createdAt, created]
    · cases ch with
      | sent opened x =>
        obtain rfl := List.mem_singleton.mp new
        exact ⟨opened, n, List.mem_append_right _ (List.mem_singleton_self _), rfl, rfl⟩
      | delivered u old now => cases new
      | read c u ids now => cases new
  · intro u old t ht
    rcases List.mem_append.mp ht with before | new
    · obtain ⟨m, hm, id, set⟩ := rec.acked u old t before
      obtain ⟨n, hn, nid, later⟩ := progress m hm
      exact ⟨n, hn, nid.trans id, later.deliveredAt t set⟩
    · obtain rfl := List.mem_singleton.mp new
      refine ⟨_, Change.mem_messages.mpr (.inl ⟨old, valid.1, rfl⟩), Change.update_id _ _, ?_⟩
      simp [Change.update, deliverSet]
  · intro n hn status
    rcases Change.mem_messages.mp hn with ⟨m, hm, rfl⟩ | new
    · have touch := Change.touch sound.keys valid hm
      generalize Change.update ch m = k at touch status
      cases touch with
      | kept =>
        obtain ⟨u, old, t, ht, id, set⟩ := rec.delivered m hm status
        exact ⟨u, old, t, List.mem_append_left _ ht, id, set⟩
      | delivered _ now sent =>
        exact ⟨_, m, now, List.mem_append_right _ (List.mem_singleton_self _), rfl, rfl⟩
      | read _ _ ids now mem inside unread => cases status
    · cases ch with
      | sent opened x =>
        obtain rfl := List.mem_singleton.mp new
        rw [valid.status.1] at status
        cases status
      | delivered u old now => cases new
      | read c u ids now => cases new

theorem chronological_sent {opened : List Conversation} {x : Message}
    (valid : Change.Sends db opened x) :
    (Change.apply env db (.sent opened x)).Chronological ↔ db.Chronological := by
  constructor
  · intro h m hm
    exact h m (Change.mem_messages.mpr (.inl ⟨m, hm, rfl⟩))
  · intro h n hn
    rcases Change.mem_messages.mp hn with ⟨m, hm, kept⟩ | new
    · obtain rfl : n = m := kept
      exact h n hm
    · obtain rfl := List.mem_singleton.mp new
      obtain ⟨_, delivered, read⟩ := valid.status
      exact ⟨by simp [delivered], by simp [read]⟩

theorem chronological_delivered (sound : db.Sound) (ok : db.Consistent) {old : Message}
    {now : Timestamp} (hold : old ∈ db.messages) (sent : old.status = .sent) :
    (Change.apply env db (.delivered old.recipientId old now)).Chronological ↔
      db.Chronological ∧ old.createdAt ≤ now := by
  have unset := (ok old hold).sent.mp sent
  have set : (Change.delivered old.recipientId old now).update old = deliverSet now old := by
    simp [Change.update]
  constructor
  · intro h
    refine ⟨fun m hm => ?_, ?_⟩
    · have after := h _ (Change.mem_messages.mpr (.inl ⟨m, hm, rfl⟩))
      by_cases hit : m.id = old.id
      · obtain rfl := sound.keys.message_unique hm hold hit
        exact ⟨by simp [unset.1], by simp [unset.2]⟩
      · simpa [Change.update, hit] using after
    · have after := h _ (Change.mem_messages.mpr (.inl ⟨old, hold, rfl⟩))
      rw [set] at after
      exact after.delivered now rfl
  · rintro ⟨h, le⟩ n hn
    rcases Change.mem_messages.mp hn with ⟨m, hm, rfl⟩ | new
    · by_cases hit : m.id = old.id
      · obtain rfl := sound.keys.message_unique hm hold hit
        rw [set]
        refine ⟨fun d hd => ?_, ?_⟩
        · cases hd
          exact le
        · simp [deliverSet, unset.2]
      · simpa [Change.update, hit] using h m hm
    · cases new

theorem chronological_read (sound : db.Sound) (ok : db.Consistent) {c : Conversation} {u : UserId}
    {ids : List Uuid} {now : Timestamp} (valid : Change.Reads db c u ids)
    (covers : ∀ m ∈ db.messages, m.id ∈ ids → m.createdAt ≤ now) :
    (Change.apply env db (.read c u ids now)).Chronological ↔ db.Chronological ∧
      ∀ m ∈ db.messages, m.id ∈ ids → ∀ d, m.deliveredAt = some d → d ≤ now := by
  have unset : ∀ m ∈ db.messages, m.id ∈ ids → m.readAt = none := by
    intro m hm hit
    obtain ⟨x, hx, id, _, _, unread⟩ := valid.unread m.id hit
    obtain rfl := sound.keys.message_unique hx hm id
    cases status : x.status with
    | sent => exact ((ok x hx).sent.mp status).2
    | delivered => exact ((ok x hx).delivered.mp status).2
    | read => exact absurd status unread
  have set : ∀ m, m.id ∈ ids → (Change.read c u ids now).update m = readSet now m := by
    intro m hit
    simp [Change.update, hit]
  constructor
  · intro h
    have after : ∀ m ∈ db.messages, m.id ∈ ids → (readSet now m).Chronological := by
      intro m hm hit
      rw [← set m hit]
      exact h _ (Change.mem_messages.mpr (.inl ⟨m, hm, rfl⟩))
    refine ⟨fun m hm => ?_, ?_⟩
    · by_cases hit : m.id ∈ ids
      · refine ⟨fun d hd => (after m hm hit).delivered d ?_, by simp [unset m hm hit]⟩
        simp [readSet, hd]
      · have same := h _ (Change.mem_messages.mpr (.inl ⟨m, hm, rfl⟩))
        simpa [Change.update, hit] using same
    · intro m hm hit d hd
      obtain ⟨e, he, le⟩ := (after m hm hit).read now rfl
      obtain rfl : d = e := by simpa [readSet, hd] using he
      exact le
  · rintro ⟨h, early⟩ n hn
    rcases Change.mem_messages.mp hn with ⟨m, hm, rfl⟩ | new
    · by_cases hit : m.id ∈ ids
      · rw [set m hit]
        cases before : m.deliveredAt with
        | none =>
          refine ⟨fun d hd => ?_, fun r hr => ?_⟩
          · obtain rfl : now = d := by simpa [readSet, before] using hd
            exact covers m hm hit
          · obtain rfl : now = r := by simpa [readSet] using hr
            exact ⟨now, by simp [readSet, before], le_rfl⟩
        | some e =>
          refine ⟨fun d hd => ?_, fun r hr => ?_⟩
          · obtain rfl : e = d := by simpa [readSet, before] using hd
            exact (h m hm).delivered e before
          · obtain rfl : now = r := by simpa [readSet] using hr
            exact ⟨e, by simp [readSet, before], early m hm hit e before⟩
      · simpa [Change.update, hit] using h m hm
    · cases new

/-- One more commit keeps the times chronological exactly when it is in order with all before it. -/
theorem chronological_step (sound : db.Sound) (ok : db.Consistent) (valid : ch.Valid db)
    (rec : Recorded chs db)
    (covers : ∀ c u ids now, ch = .read c u ids now →
      ∀ m ∈ db.messages, m.id ∈ ids → m.createdAt ≤ now) :
    (ch.apply env db).Chronological ↔ db.Chronological ∧ ∀ e ∈ chs, Ordered e ch := by
  cases ch with
  | sent opened x =>
    have free : ∀ e ∈ chs, Ordered e (.sent opened x) := fun e _ => by cases e <;> trivial
    rw [chronological_sent valid, and_iff_left free]
  | delivered u old now =>
    obtain ⟨hold, rfl, sent⟩ := valid
    rw [chronological_delivered sound ok hold sent]
    apply and_congr_right'
    constructor
    · intro le e he
      cases e with
      | sent opened x =>
        intro id
        obtain ⟨m, hm, mid, created⟩ := rec.sent opened x he
        obtain rfl := sound.keys.message_unique hm hold (mid.trans id.symm)
        exact created ▸ le
      | delivered u' old' t => trivial
      | read c u' ids t => trivial
    · intro ordered
      obtain ⟨opened, x, hx, id, created⟩ := rec.created old hold
      exact created ▸ ordered _ hx id.symm
  | read c u ids now =>
    rw [chronological_read sound ok valid (covers c u ids now rfl)]
    apply and_congr_right'
    constructor
    · intro early e he
      cases e with
      | sent opened x => trivial
      | delivered u' old t =>
        intro mem
        obtain ⟨m, hm, id, set⟩ := rec.acked u' old t he
        exact early m hm (id ▸ mem) t set
      | read c' u' ids' t => trivial
    · intro ordered m hm mem d set
      obtain ⟨x, hx, id, _, _, unread⟩ := valid.unread m.id mem
      obtain rfl := sound.keys.message_unique hx hm id
      have status : x.status = .delivered := by
        cases status : x.status with
        | sent =>
          rw [((ok x hx).sent.mp status).1] at set
          cases set
        | delivered => rfl
        | read => exact absurd status unread
      obtain ⟨u', old, t, ht, oid, acked⟩ := rec.delivered x hx status
      obtain rfl : t = d := by simpa [acked] using set
      exact ordered _ ht (show old.id ∈ ids from oid ▸ mem)

end Changes

theorem clocked_timely (env : Env) (is : List Input) :
    ((clocked env).run is).sys.db.Chronological ↔ Timely (changes ((clocked env).history is)) := by
  have all := (clocked env).history_invariant
    (fun h s => s.Inv env ∧ Recorded (changes h) s.sys.db ∧
      (s.sys.db.Chronological ↔ Timely (changes h))) ?_ ?_ is
  · exact all.2.2
  · refine ⟨Clocked.Inv.init env, ⟨?_, ?_, ?_, ?_⟩, ?_⟩
    · exact fun _ _ h => absurd h List.not_mem_nil
    · exact fun _ h => absurd h List.not_mem_nil
    · exact fun _ _ _ h => absurd h List.not_mem_nil
    · exact fun _ h => absurd h List.not_mem_nil
    · exact iff_of_true (fun _ h => absurd h List.not_mem_nil) List.Pairwise.nil
  · rintro h s i t ⟨inv, rec, iff⟩ step
    refine ⟨inv.step step, ?_⟩
    have db := inv.sys.step_change (clocked_step step).2.2
    have tail : changes (h ++ [⟨s, i, t⟩]) = changes h ++ (s.sys.change i).toList := by
      cases change : s.sys.change i <;> simp [changes, change]
    rw [tail]
    cases change : s.sys.change i with
    | none =>
      rw [change] at db
      rw [db]
      simpa using ⟨rec, iff⟩
    | some ch =>
      rw [change] at db
      rw [db.2]
      have sound := inv.sys.sound
      refine ⟨rec.step sound inv.consistent db.1, ?_⟩
      rw [chronological_step sound inv.consistent db.1 rec
        (fun c u ids now eq => inv.read_covers (change.trans (congrArg some eq))), iff]
      simp [Timely, List.pairwise_append]

/-- In every state that a run passes through the receipt times are chronological, exactly when
its commits are in the order of their readings. -/
theorem receipt_times_chronological_iff (env : Env) (is : List Input) :
    (∀ bs, bs <+: is → ((clocked env).run bs).sys.db.Chronological) ↔
      Timely (changes ((clocked env).history is)) := by
  constructor
  · intro h
    exact (clocked_timely env is).mp (h is List.prefix_rfl)
  · rintro timely bs ⟨cs, rfl⟩
    rw [clocked_timely]
    rw [(clocked env).history_append, changes, List.filterMap_append] at timely
    exact (List.pairwise_append.mp timely).1

/-- A read that samples the clock at 5, is overtaken by an ack that samples it at 7, and commits
last. -/
def overtakenRead : List Input :=
  sendSteps 0 "a" .helloB 11 1 ++ [.act 0 .commit,
    .start 1 (.markRead "b" 10 11), .act 1 .query, .act 1 .query, .act 1 (.clock 5),
    .start 2 (.markDelivered "b" 11), .act 2 (.clock 7), .act 2 .query, .act 2 (.lock 11),
    .act 2 .commit,
    .act 1 .query, .act 1 (.lock 11), .act 1 .query, .act 1 .commit]

set_option maxRecDepth 4000 in
theorem receipt_times_can_invert :
    ¬ ∀ (env : Env) (is : List Input), ((clocked env).run is).sys.db.Chronological := by
  intro h
  have rows : ((clocked .plain).run overtakenRead).sys.db.messages.map
      (fun m => (m.deliveredAt, m.readAt)) = [(some 7, some 5)] := by decide
  have found : (some 7, some 5) ∈ ((clocked .plain).run overtakenRead).sys.db.messages.map
      (fun m => (m.deliveredAt, m.readAt)) := rows ▸ List.mem_singleton_self _
  obtain ⟨m, hm, times⟩ := List.mem_map.mp found
  obtain ⟨delivered, read⟩ := Prod.mk.inj times
  obtain ⟨d, hd, le⟩ := (h .plain overtakenRead m hm).read 5 read
  rw [delivered] at hd
  cases hd
  exact absurd le (by decide)

end ChatBackend
