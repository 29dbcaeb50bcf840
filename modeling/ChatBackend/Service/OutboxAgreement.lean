import ChatBackend.Service.DeliveryState

/-! The outbox and the message table agree: every committed change of a message is announced
by exactly the rows it should be, and no other row was ever committed. -/

namespace ChatBackend

open Lib

namespace Event

def announcesNew (id : Uuid) : Event → Bool
  | .messageNew data => data.id == id
  | _ => false

def announcesDelivered (id : Uuid) : Event → Bool
  | .messageDelivered messageId .. => messageId == id
  | _ => false

def announcesRead (id : Uuid) : Event → Bool
  | .messageRead _ _ messageIds _ => messageIds.contains id
  | _ => false

end Event

def announcing (p : Event → Bool) (rows : List Outbox) : List Outbox :=
  rows.filter (fun r => p r.payload)

/-- The row as its sender inserted it. -/
def Message.asSent (m : Message) : Message :=
  { m with status := .sent, deliveredAt := none, readAt := none }

def newRow (env : Env) (m : Message) (u : UserId) : Outbox :=
  ⟨userTopic u, .messageNew (toOut env m.asSent)⟩

def deliveredRow (m : Message) (t : Timestamp) : Outbox :=
  ⟨userTopic m.senderId, .messageDelivered m.id m.conversationId m.clientMsgId t⟩

def readRow (m : Message) (ids : List Uuid) (t : Timestamp) : Outbox :=
  ⟨userTopic m.senderId, .messageRead m.conversationId m.recipientId ids t⟩

/-- The rows that announce `m`, where `moved` counts its moves from `sent` to `delivered`. -/
structure Announced (env : Env) (moved : Nat) (outbox : List Outbox) (m : Message) : Prop where
  new : announcing (Event.announcesNew m.id) outbox =
    [newRow env m m.recipientId, newRow env m m.senderId]
  delivered : (moved = 0 ∧ announcing (Event.announcesDelivered m.id) outbox = []) ∨
    (moved = 1 ∧ ∃ t, m.deliveredAt = some t ∧
      announcing (Event.announcesDelivered m.id) outbox = [deliveredRow m t])
  read : (m.status ≠ .read ∧ announcing (Event.announcesRead m.id) outbox = []) ∨
    (m.status = .read ∧ ∃ ids t, m.readAt = some t ∧ ids.count m.id = 1 ∧
      announcing (Event.announcesRead m.id) outbox = [readRow m ids t])

/-- An event speaks about committed messages only. -/
def Event.Accounted (db : Db) : Event → Prop
  | .messageNew data => ∃ m ∈ db.messages, m.id = data.id
  | .messageDelivered id .. => ∃ m ∈ db.messages, m.id = id
  | .messageRead _ _ ids _ => ids ≠ [] ∧ ∀ id ∈ ids, ∃ m ∈ db.messages, m.id = id

structure Agrees (env : Env) (moved : Uuid → Nat) (db : Db) : Prop where
  announced : ∀ m ∈ db.messages, Announced env (moved m.id) db.outbox m
  accounted : ∀ r ∈ db.outbox, r.payload.Accounted db
  moved : ∀ id, moved id ≠ 0 → ∃ m ∈ db.messages, m.id = id

/-- The message went from `sent` to `delivered`. -/
def deliveredIn (a b : Db) (id : Uuid) : Bool :=
  a.messages.any (fun m => m.id == id && m.status == .sent) &&
    b.messages.any (fun m => m.id == id && m.status == .delivered)

theorem deliveredIn_eq {a b : Db} (ka : a.Keys) (kb : b.Keys) {m n : Message} (hm : m ∈ a.messages)
    (hn : n ∈ b.messages) (id : n.id = m.id) :
    deliveredIn a b m.id = (m.status == .sent && n.status == .delivered) := by
  have before : a.messages.any (fun x => x.id == m.id && x.status == .sent) = (m.status == .sent) := by
    rw [Bool.eq_iff_iff, List.any_eq_true]
    constructor
    · rintro ⟨x, hx, h⟩
      rw [Bool.and_eq_true, beq_iff_eq] at h
      rw [← ka.message_unique hx hm h.1]
      exact h.2
    · intro h
      exact ⟨m, hm, by simpa using h⟩
  have after : b.messages.any (fun x => x.id == m.id && x.status == .delivered) =
      (n.status == .delivered) := by
    rw [Bool.eq_iff_iff, List.any_eq_true]
    constructor
    · rintro ⟨x, hx, h⟩
      rw [Bool.and_eq_true, beq_iff_eq] at h
      rw [← kb.message_unique hx hn (h.1.trans id.symm)]
      exact h.2
    · intro h
      exact ⟨n, hn, by simpa [id] using h⟩
  rw [deliveredIn, before, after]

theorem deliveredIn_missing {a b : Db} {id : Uuid} (h : ∀ m ∈ a.messages, m.id ≠ id) :
    deliveredIn a b id = false := by
  rw [deliveredIn, Bool.and_eq_false_iff]
  left
  rw [List.any_eq_false]
  intro m hm
  simp [h m hm]

theorem deliveredIn_same {db : Db} (keys : db.Keys) (id : Uuid) : deliveredIn db db id = false := by
  by_cases known : ∃ m ∈ db.messages, m.id = id
  · obtain ⟨m, hm, rfl⟩ := known
    rw [deliveredIn_eq keys keys hm hm rfl]
    cases m.status <;> rfl
  · exact deliveredIn_missing (fun m hm e => known ⟨m, hm, e⟩)

@[simp] theorem announcing_append (p : Event → Bool) (xs ys : List Outbox) :
    announcing p (xs ++ ys) = announcing p xs ++ announcing p ys := List.filter_append ..

theorem announcing_none {p : Event → Bool} {rows : List Outbox} (h : ∀ r ∈ rows, p r.payload = false) :
    announcing p rows = [] := by
  rw [announcing, List.filter_eq_nil_iff]
  exact fun r hr => by simp [h r hr]

theorem Event.Accounted.grows {a b : Db} {e : Event} (keep : ∀ m ∈ a.messages, ∃ n ∈ b.messages, n.id = m.id)
    (h : e.Accounted a) : e.Accounted b := by
  cases e with
  | messageNew data =>
    obtain ⟨m, hm, id⟩ := h
    obtain ⟨n, hn, nm⟩ := keep m hm
    exact ⟨n, hn, nm.trans id⟩
  | messageDelivered id conversationId clientMsgId t =>
    obtain ⟨m, hm, id⟩ := h
    obtain ⟨n, hn, nm⟩ := keep m hm
    exact ⟨n, hn, nm.trans id⟩
  | messageRead conversationId readerId ids t =>
    refine ⟨h.1, fun id hid => ?_⟩
    obtain ⟨m, hm, id⟩ := h.2 id hid
    obtain ⟨n, hn, nm⟩ := keep m hm
    exact ⟨n, hn, nm.trans id⟩

/-- Nothing has been said about a message before it is committed. -/
theorem Event.Accounted.silent {db : Db} {e : Event} {id : Uuid} (h : e.Accounted db)
    (fresh : ∀ m ∈ db.messages, m.id ≠ id) :
    e.announcesNew id = false ∧ e.announcesDelivered id = false ∧ e.announcesRead id = false := by
  cases e with
  | messageNew data =>
    obtain ⟨m, hm, known⟩ := h
    have ne : data.id ≠ id := known ▸ fresh m hm
    simp [announcesNew, announcesDelivered, announcesRead, ne]
  | messageDelivered messageId conversationId clientMsgId t =>
    obtain ⟨m, hm, known⟩ := h
    have ne : messageId ≠ id := known ▸ fresh m hm
    simp [announcesNew, announcesDelivered, announcesRead, ne]
  | messageRead conversationId readerId ids t =>
    have out : id ∉ ids := fun mem => by
      obtain ⟨m, hm, known⟩ := h.2 id mem
      exact fresh m hm known
    simp [announcesNew, announcesDelivered, announcesRead, out]

theorem sentRows_eq {env : Env} {m : Message} (ne : m.senderId ≠ m.recipientId)
    (status : m.status = .sent ∧ m.deliveredAt = none ∧ m.readAt = none) :
    sentRows env m = [newRow env m m.recipientId, newRow env m m.senderId] := by
  have self : m.asSent = m := by
    cases m
    obtain ⟨rfl, rfl, rfl⟩ := status
    rfl
  rw [sentRows, enqueue_two ne.symm, newRow, newRow, self]

theorem deliveredRows_eq (m : Message) (t : Timestamp) : deliveredRows m t = [deliveredRow m t] :=
  enqueue_one _ _

theorem readRows_eq {c : Conversation} {m : Message} (pair : c.pair = sortedPair m.senderId m.recipientId)
    (ne : m.senderId ≠ m.recipientId) (id : c.id = m.conversationId) (ids : List Uuid) (t : Timestamp) :
    readRows c m.recipientId ids t = [readRow m ids t] := by
  rw [readRows, enqueue_one, peerOf_sorted ne pair, readRow, id]

/-- Rows that say nothing about a message leave what is announced of it as it was. -/
theorem Announced.kept {env : Env} {moved : Nat} {outbox more : List Outbox} {m : Message}
    (h : Announced env moved outbox m)
    (silent : ∀ r ∈ more, r.payload.announcesNew m.id = false ∧
      r.payload.announcesDelivered m.id = false ∧ r.payload.announcesRead m.id = false) :
    Announced env moved (outbox ++ more) m := by
  have new := announcing_none (fun r hr => (silent r hr).1)
  have delivered := announcing_none (fun r hr => (silent r hr).2.1)
  have read := announcing_none (fun r hr => (silent r hr).2.2)
  constructor
  · rw [announcing_append, new, List.append_nil]
    exact h.new
  · rw [announcing_append, delivered, List.append_nil]
    exact h.delivered
  · rw [announcing_append, read, List.append_nil]
    exact h.read

section Changes

variable {env : Env} {moved : Uuid → Nat} {a : Db}

theorem Agrees.silent (agrees : Agrees env moved a) {id : Uuid} (fresh : ∀ m ∈ a.messages, m.id ≠ id) :
    moved id = 0 ∧ announcing (Event.announcesNew id) a.outbox = [] ∧
    announcing (Event.announcesDelivered id) a.outbox = [] ∧
    announcing (Event.announcesRead id) a.outbox = [] := by
  have quiet := fun r hr => (agrees.accounted r hr).silent fresh
  refine ⟨?_, announcing_none (fun r hr => (quiet r hr).1),
    announcing_none (fun r hr => (quiet r hr).2.1), announcing_none (fun r hr => (quiet r hr).2.2)⟩
  by_contra some
  obtain ⟨m, hm, id⟩ := agrees.moved _ some
  exact fresh m hm id

theorem Announced.after_sent (agrees : Agrees env moved a) {opened : List Conversation} {m : Message}
    (valid : Change.Sends a opened m) : Announced env (moved m.id) (a.outbox ++ sentRows env m) m := by
  obtain ⟨count, new, delivered, read⟩ := agrees.silent (fun x hx => (valid.fresh x hx).1)
  rw [sentRows_eq valid.peers valid.status]
  constructor
  · rw [announcing_append, new]
    simp [announcing, newRow, Event.announcesNew, toOut, Message.asSent]
  · left
    rw [announcing_append, delivered]
    exact ⟨count, rfl⟩
  · left
    rw [announcing_append, read, valid.status.1]
    exact ⟨by decide, rfl⟩

theorem Announced.after_delivered {n : Nat} {m : Message} (ok : m.Consistent) (sent : m.status = .sent)
    (t : Timestamp) (h : Announced env n a.outbox m) :
    Announced env (n + 1) (a.outbox ++ deliveredRows m t) (deliverSet t m) := by
  have unset := (ok.sent.mp sent).1
  rw [deliveredRows_eq]
  constructor
  · rw [announcing_append]
    exact (List.append_nil _).trans h.new
  · rw [announcing_append]
    rcases h.delivered with ⟨rfl, none⟩ | ⟨_, u, set, _⟩
    · right
      refine ⟨rfl, t, rfl, ?_⟩
      show announcing (Event.announcesDelivered m.id) a.outbox ++ _ = _
      rw [none]
      simp [announcing, deliveredRow, Event.announcesDelivered, deliverSet]
    · rw [unset] at set
      cases set
  · rw [announcing_append]
    rcases h.read with ⟨_, none⟩ | ⟨read, _⟩
    · left
      exact ⟨by simp [deliverSet], (List.append_nil _).trans none⟩
    · rw [sent] at read
      cases read

theorem Announced.after_read {n : Nat} {m : Message} (unread : m.status ≠ .read) {ids : List Uuid}
    (mem : m.id ∈ ids) (distinct : ids.Nodup) (t : Timestamp) (h : Announced env n a.outbox m) :
    Announced env n (a.outbox ++ [readRow m ids t]) (readSet t m) := by
  constructor
  · rw [announcing_append]
    exact (List.append_nil _).trans h.new
  · rw [announcing_append]
    rcases h.delivered with ⟨count, none⟩ | ⟨count, u, set, one⟩
    · left
      exact ⟨count, (List.append_nil _).trans none⟩
    · right
      exact ⟨count, u, by simp [readSet, set], (List.append_nil _).trans one⟩
  · rw [announcing_append]
    rcases h.read with ⟨_, none⟩ | ⟨read, _⟩
    · right
      refine ⟨rfl, ids, t, rfl, List.count_eq_one_of_mem distinct mem, ?_⟩
      show announcing (Event.announcesRead m.id) a.outbox ++ _ = _
      rw [none]
      simp [announcing, readRow, Event.announcesRead, readSet, mem]
    · exact absurd read unread

/-- Messages that a change leaves alone are not mentioned by its rows either. -/
theorem Change.rows_silent {ch : Change} {id : Uuid} (h : match ch with
      | .sent _ m => m.id ≠ id
      | .delivered _ old _ => old.id ≠ id
      | .read _ _ ids _ => id ∉ ids) :
    ∀ r ∈ ch.rows env, r.payload.announcesNew id = false ∧
      r.payload.announcesDelivered id = false ∧ r.payload.announcesRead id = false := by
  intro r hr
  cases ch with
  | sent opened m =>
    obtain ⟨u, _, rfl⟩ := List.mem_map.mp hr
    simp [Event.announcesNew, Event.announcesDelivered, Event.announcesRead, toOut, h]
  | delivered u old now =>
    obtain ⟨u, _, rfl⟩ := List.mem_map.mp hr
    simp [Event.announcesNew, Event.announcesDelivered, Event.announcesRead, h]
  | read c u ids now =>
    obtain ⟨u, _, rfl⟩ := List.mem_map.mp hr
    simp [Event.announcesNew, Event.announcesDelivered, Event.announcesRead, h]

theorem Change.rows_accounted {ch : Change} (valid : ch.Valid a) :
    ∀ r ∈ ch.rows env, r.payload.Accounted (ch.apply env a) := by
  intro r hr
  have mem : ∀ m ∈ a.messages, ∃ n ∈ (ch.apply env a).messages, n.id = m.id := fun m hm =>
    ⟨ch.update m, Change.mem_messages.mpr (.inl ⟨m, hm, rfl⟩), ch.update_id m⟩
  cases ch with
  | sent opened m =>
    obtain ⟨u, _, rfl⟩ := List.mem_map.mp hr
    exact ⟨m, Change.mem_messages.mpr (.inr (List.mem_singleton_self m)), rfl⟩
  | delivered u old now =>
    obtain ⟨u, _, rfl⟩ := List.mem_map.mp hr
    exact mem old valid.1
  | read c u ids now =>
    obtain ⟨u, _, rfl⟩ := List.mem_map.mp hr
    refine ⟨valid.some, fun id hid => ?_⟩
    obtain ⟨m, hm, rfl, _⟩ := valid.unread id hid
    exact mem m hm

theorem Change.announced {ch : Change} (sound : a.Sound) (ok : a.Consistent) (valid : ch.Valid a)
    (agrees : Agrees env moved a) :
    ∀ n ∈ (ch.apply env a).messages,
      Announced env (moved n.id + (deliveredIn a (ch.apply env a) n.id).toNat)
        (ch.apply env a).outbox n := by
  intro n hn
  have keys : (ch.apply env a).Keys := Change.keys valid sound.keys
  rcases Change.mem_messages.mp hn with ⟨m, hm, rfl⟩ | new
  · have told := agrees.announced m hm
    rw [Change.update_id, deliveredIn_eq sound.keys keys hm hn (Change.update_id ch m)]
    cases ch with
    | sent opened x =>
      have fresh : x.id ≠ m.id := fun e => (valid.fresh m hm).1 e.symm
      have still : (m.status == .sent && m.status == .delivered) = false := by cases m.status <;> rfl
      show Announced env (moved m.id + (m.status == .sent && m.status == .delivered).toNat) _ m
      rw [still]
      exact told.kept (Change.rows_silent fresh)
    | delivered u old now =>
      obtain ⟨hold, rfl, sent⟩ := valid
      by_cases hit : m.id = old.id
      · obtain rfl := sound.keys.message_unique hm hold hit
        have after := Announced.after_delivered (ok m hm) sent now told
        have same : (Change.delivered m.recipientId m now).update m = deliverSet now m := by
          simp [Change.update]
        rw [same, sent]
        exact after
      · have still : (m.status == .sent && m.status == .delivered) = false := by
          cases m.status <;> rfl
        have same : (Change.delivered old.recipientId old now).update m = m := by simp [Change.update, hit]
        rw [same, still]
        exact told.kept (Change.rows_silent (Ne.symm hit))
    | read c u ids now =>
      by_cases hit : m.id ∈ ids
      · obtain ⟨x, hx, id, inside, rfl, unread⟩ := valid.unread m.id hit
        obtain rfl := sound.keys.message_unique hx hm id
        obtain ⟨ne, d, hd, did, pair⟩ := sound.placed x hx
        obtain rfl := sound.keys.conversation_unique hd valid.member.1 (did.trans inside)
        have after := Announced.after_read unread hit valid.distinct now told
        rw [← readRows_eq pair ne did] at after
        have still : (x.status == .sent && MessageStatus.read == .delivered) = false := by
          cases x.status <;> rfl
        have same : (Change.read d x.recipientId ids now).update x = readSet now x := by
          simp [Change.update, hit]
        rw [same, show (readSet now x).status = .read from rfl, still]
        exact after
      · have still : (m.status == .sent && m.status == .delivered) = false := by
          cases m.status <;> rfl
        have same : (Change.read c u ids now).update m = m := by simp [Change.update, hit]
        rw [same, still]
        exact told.kept (Change.rows_silent hit)
  · cases ch with
    | sent opened m =>
      obtain rfl := List.mem_singleton.mp new
      rw [deliveredIn_missing (fun x hx => (valid.fresh x hx).1)]
      exact Announced.after_sent agrees valid
    | delivered u old now => cases new
    | read c u ids now => cases new

theorem Agrees.step {ch : Change} (sound : a.Sound) (ok : a.Consistent) (valid : ch.Valid a)
    (agrees : Agrees env moved a) :
    Agrees env (fun id => moved id + (deliveredIn a (ch.apply env a) id).toNat) (ch.apply env a) := by
  have mem : ∀ m ∈ a.messages, ∃ n ∈ (ch.apply env a).messages, n.id = m.id := fun m hm =>
    ⟨ch.update m, Change.mem_messages.mpr (.inl ⟨m, hm, rfl⟩), ch.update_id m⟩
  refine ⟨Change.announced sound ok valid agrees, ?_, ?_⟩
  · intro r hr
    rcases List.mem_append.mp hr with old | new
    · exact (agrees.accounted r old).grows mem
    · exact Change.rows_accounted valid r new
  · intro id count
    have known : ∃ m ∈ a.messages, m.id = id := by
      by_contra missing
      have fresh : ∀ m ∈ a.messages, m.id ≠ id := fun m hm e => missing ⟨m, hm, e⟩
      rw [deliveredIn_missing fresh, (agrees.silent fresh).1] at count
      exact count rfl
    obtain ⟨m, hm, rfl⟩ := known
    exact mem m hm

end Changes

/-! The runs of the service. -/

/-- The call has not committed, and never will if it is over. -/
def Phase.uncommitted {κ ρ : Type} : Phase κ ρ → Bool
  | .running _ => true
  | .committed _ => false
  | .done reply => match reply with
    | .raised _ | .failed | .noop _ => true
    | .applied _ | .lost => false

def Call.uncommitted : Call → Bool
  | .idle => true
  | .send _ _ p => p.uncommitted
  | .deliver _ _ p => p.uncommitted
  | .read _ _ _ p => p.uncommitted

/-- How often the message went from `sent` to `delivered`. -/
def deliveries (h : List (Move Sys Input)) (id : Uuid) : Nat :=
  h.countP (fun x => deliveredIn x.before.db x.after.db id)

theorem chat_agrees (env : Env) (is : List Input) :
    Agrees env (deliveries ((chat env).history is)) ((chat env).run is).db := by
  have all := (chat env).history_invariant
    (fun h s => (s.Inv env ∧ s.db.Consistent) ∧ Agrees env (deliveries h) s.db) ?_ ?_ is
  · exact all.2
  · refine ⟨chat_consistent env [], ?_, ?_, ?_⟩
    · exact fun m hm => absurd hm List.not_mem_nil
    · exact fun r hr => absurd hr List.not_mem_nil
    · exact fun id some => absurd rfl some
  · rintro h s i t ⟨⟨inv, ok⟩, agrees⟩ step
    refine ⟨⟨inv.step step, inv.consistent_step ok step⟩, ?_⟩
    have count : ∀ id, deliveries (h ++ [⟨s, i, t⟩]) id =
        deliveries h id + (deliveredIn s.db t.db id).toNat := by
      intro id
      rw [deliveries, List.countP_append, deliveries]
      cases hit : deliveredIn s.db t.db id <;> simp [hit]
    have db := inv.step_change step
    rw [show deliveries (h ++ [⟨s, i, t⟩]) = _ from funext count]
    cases change : s.change i with
    | none =>
      rw [change] at db
      rw [db]
      simpa only [deliveredIn_same inv.sound.keys, Bool.toNat_false, Nat.add_zero] using agrees
    | some ch =>
      rw [change] at db
      rw [db.2]
      exact agrees.step inv.sound ok db.1

theorem Phase.step_uncommitted {κ ρ : Type} {p q : Phase κ ρ} {a : Action} {e : Effect}
    {next : κ → Action → Option (Outcome κ ρ)} (h : p.step next a = some (q, e))
    (open_ : q.uncommitted = true) : p.uncommitted = true ∧ e ≠ .commit := by
  unfold Phase.step at h
  split at h
  case h_1 =>
    cases h
    exact ⟨rfl, by simp⟩
  case h_2 k _ =>
    refine ⟨rfl, ?_⟩
    split at h
    case h_4 =>
      cases h
      cases open_
    all_goals
      cases h
      try simp
  all_goals
    cases h
    try cases open_

theorem Call.step_uncommitted {env : Env} {db : Db} {blocked : Write → Bool} {k l : Call} {a : Action}
    {e : Effect} (h : k.step env db blocked a = some (l, e)) (open_ : l.uncommitted = true) :
    k.uncommitted = true ∧ e ≠ .commit := by
  cases k with
  | idle => cases h
  | send u req p =>
    obtain ⟨⟨q, f⟩, hp, pair⟩ := Option.map_eq_some_iff.mp h
    cases pair
    exact Phase.step_uncommitted hp open_
  | deliver u id p =>
    obtain ⟨⟨q, f⟩, hp, pair⟩ := Option.map_eq_some_iff.mp h
    cases pair
    exact Phase.step_uncommitted hp open_
  | read u cid upTo p =>
    obtain ⟨⟨q, f⟩, hp, pair⟩ := Option.map_eq_some_iff.mp h
    cases pair
    exact Phase.step_uncommitted hp open_

/-- A call that has not committed has not touched the tables in any of its steps. -/
theorem uncommitted_untouched (env : Env) (is : List Input) (c : CallId)
    (open_ : (((chat env).run is).calls c).uncommitted = true) :
    ∀ x ∈ (chat env).history is, x.action.call = c → x.after.db = x.before.db := by
  have all := (chat env).history_invariant
    (fun h s => (s.calls c).uncommitted = true → ∀ x ∈ h, x.action.call = c → x.after.db = x.before.db)
    (fun _ _ hx => absurd hx List.not_mem_nil) ?_ is
  · exact all open_
  · intro h s i t ih step open_ x hx call
    have back : (s.calls c).uncommitted = true ∧ (i.call = c → t.db = s.db) := by
      cases Sys.step_cases step with
      | start d r idle =>
        by_cases same : c = d
        · subst d
          exact ⟨by rw [idle]; rfl, fun _ => rfl⟩
        · exact ⟨by simpa [Function.update_of_ne same] using open_, fun _ => rfl⟩
      | act d a l e hk =>
        rw [settle_calls] at open_
        by_cases same : c = d
        · subst d
          rw [Function.update_self] at open_
          have before := Call.step_uncommitted hk open_
          exact ⟨before.1, fun _ => settle_db before.2⟩
        · rw [Function.update_of_ne same] at open_
          exact ⟨open_, fun e => absurd e.symm same⟩
    rcases List.mem_append.mp hx with old | new
    · exact ih back.1 x old call
    · obtain rfl := List.mem_singleton.mp new
      exact back.2 call

/-- The outbox holds exactly the rows that the committed changes call for, and a call that
raised, failed or had nothing to do contributed to neither table. -/
theorem outbox_agrees_with_messages (env : Env) (is : List Input) :
    (∀ m ∈ ((chat env).run is).db.messages, Announced env
      (deliveries ((chat env).history is) m.id) ((chat env).run is).db.outbox m) ∧
    (∀ r ∈ ((chat env).run is).db.outbox, r.payload.Accounted ((chat env).run is).db) ∧
    (∀ c, (((chat env).run is).calls c).uncommitted = true →
      ∀ x ∈ (chat env).history is, x.action.call = c → x.after.db = x.before.db) :=
  ⟨(chat_agrees env is).announced, (chat_agrees env is).accounted, uncommitted_untouched env is⟩

end ChatBackend
