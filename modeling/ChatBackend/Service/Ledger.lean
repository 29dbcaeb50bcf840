import Mathlib.Data.List.Count
import ChatBackend.Lib.Machine
import ChatBackend.Service.Queries

/-! The abstract model: a ledger that takes one change at a time and announces it at once.
It has no transactions, no locks and no calls. The commits of the service refine it. -/

namespace ChatBackend

open Lib

/-- What a commit can do. `opened` is the conversation the sender had to create, if any. -/
inductive Change where
  | sent (opened : List Conversation) (m : Message)
  | delivered (userId : UserId) (old : Message) (now : Timestamp)
  | read (c : Conversation) (userId : UserId) (ids : List Uuid) (now : Timestamp)

namespace Change

def rows (env : Env) : Change → List Outbox
  | .sent _ m => sentRows env m
  | .delivered _ old now => deliveredRows old now
  | .read c userId ids now => readRows c userId ids now

/-- The version that the change leaves of a row. -/
def update : Change → Message → Message
  | .sent _ _, m => m
  | .delivered _ old now, m => if m.id = old.id then deliverSet now m else m
  | .read _ _ ids now, m => if m.id ∈ ids then readSet now m else m

def added : Change → List Message
  | .sent _ m => [m]
  | _ => []

def opened : Change → List Conversation
  | .sent opened _ => opened
  | _ => []

def apply (env : Env) (db : Db) (ch : Change) : Db where
  conversations := db.conversations ++ ch.opened
  messages := db.messages.map ch.update ++ ch.added
  outbox := db.outbox ++ ch.rows env

/-- The conversation of a new message is open, or is opened with it. -/
structure Sends (db : Db) (opened : List Conversation) (m : Message) : Prop where
  status : m.status = .sent ∧ m.deliveredAt = none ∧ m.readAt = none
  peers : m.senderId ≠ m.recipientId
  fresh : ∀ x ∈ db.messages, x.id ≠ m.id ∧ x.clientKey ≠ m.clientKey
  freshPair : ∀ c ∈ opened, ∀ x ∈ db.conversations, x.id ≠ c.id ∧ x.pair ≠ c.pair
  inside : ∃ c ∈ db.conversations ++ opened, (opened = [] ∨ opened = [c]) ∧
    c.pair = sortedPair m.senderId m.recipientId ∧ c.id = m.conversationId

/-- Every id stands for an unread message to `userId` in the conversation, and for no other. -/
structure Reads (db : Db) (c : Conversation) (userId : UserId) (ids : List Uuid) : Prop where
  member : c ∈ db.conversations ∧ c.hasMember userId = true
  some : ids ≠ []
  distinct : ids.Nodup
  unread : ∀ id ∈ ids, ∃ m ∈ db.messages, m.id = id ∧ m.conversationId = c.id ∧
    m.recipientId = userId ∧ m.status ≠ .read

def Valid (db : Db) : Change → Prop
  | .sent opened m => Sends db opened m
  | .delivered userId old _ => old ∈ db.messages ∧ old.recipientId = userId ∧ old.status = .sent
  | .read c userId ids _ => Reads db c userId ids

instance (db : Db) (opened : List Conversation) (m : Message) : Decidable (Sends db opened m) :=
  decidable_of_iff ((m.status = .sent ∧ m.deliveredAt = none ∧ m.readAt = none) ∧
      m.senderId ≠ m.recipientId ∧ (∀ x ∈ db.messages, x.id ≠ m.id ∧ x.clientKey ≠ m.clientKey) ∧
      (∀ c ∈ opened, ∀ x ∈ db.conversations, x.id ≠ c.id ∧ x.pair ≠ c.pair) ∧
      ∃ c ∈ db.conversations ++ opened, (opened = [] ∨ opened = [c]) ∧
        c.pair = sortedPair m.senderId m.recipientId ∧ c.id = m.conversationId)
    ⟨fun ⟨a, b, c, d, e⟩ => ⟨a, b, c, d, e⟩, fun ⟨a, b, c, d, e⟩ => ⟨a, b, c, d, e⟩⟩

instance (db : Db) (c : Conversation) (userId : UserId) (ids : List Uuid) :
    Decidable (Reads db c userId ids) :=
  decidable_of_iff ((c ∈ db.conversations ∧ c.hasMember userId = true) ∧ ids ≠ [] ∧ ids.Nodup ∧
      ∀ id ∈ ids, ∃ m ∈ db.messages, m.id = id ∧ m.conversationId = c.id ∧
        m.recipientId = userId ∧ m.status ≠ .read)
    ⟨fun ⟨a, b, c, d⟩ => ⟨a, b, c, d⟩, fun ⟨a, b, c, d⟩ => ⟨a, b, c, d⟩⟩

instance (db : Db) : (ch : Change) → Decidable (ch.Valid db)
  | .sent opened m => inferInstanceAs (Decidable (Sends db opened m))
  | .delivered _ _ _ => inferInstanceAs (Decidable (_ ∧ _ ∧ _))
  | .read c userId ids _ => inferInstanceAs (Decidable (Reads db c userId ids))

end Change

def ledger (env : Env) : Machine Db Change where
  init := Db.empty
  step db ch := if ch.Valid db then some (ch.apply env db) else none

theorem ledger_step {env : Env} {a b : Db} {ch : Change} :
    (ledger env).step a ch = some b ↔ ch.Valid a ∧ b = ch.apply env a := by
  simp only [ledger, Option.ite_none_right_eq_some, Option.some.injEq]
  constructor
  · rintro ⟨valid, rfl⟩
    exact ⟨valid, rfl⟩
  · rintro ⟨valid, rfl⟩
    exact ⟨valid, rfl⟩

/-- Every message lies in the conversation of its two ends. -/
def Db.Placed (db : Db) : Prop :=
  ∀ m ∈ db.messages, m.senderId ≠ m.recipientId ∧
    ∃ c ∈ db.conversations, c.id = m.conversationId ∧ c.pair = sortedPair m.senderId m.recipientId

/-- Every conversation is between two different users, in the order of the constraint. -/
def Db.Paired (db : Db) : Prop :=
  ∀ c ∈ db.conversations, ∃ u v, u ≠ v ∧ c.pair = sortedPair u v

/-- What holds of the tables after every change. -/
structure Db.Sound (db : Db) : Prop where
  keys : db.Keys
  placed : db.Placed
  paired : db.Paired

/-- What a valid change can do to a committed row. -/
inductive Touch : Change → Message → Message → Prop where
  | kept (ch : Change) (m : Message) : Touch ch m m
  | delivered (old : Message) (now : Timestamp) : old.status = .sent →
      Touch (.delivered old.recipientId old now) old (deliverSet now old)
  | read (c : Conversation) (m : Message) (ids : List Uuid) (now : Timestamp) : m.id ∈ ids →
      m.conversationId = c.id → m.status ≠ .read →
      Touch (.read c m.recipientId ids now) m (readSet now m)

theorem Touch.same {ch : Change} {m n : Message} (h : Touch ch m n) : SameColumns m n := by
  cases h with
  | kept => exact SameColumns.refl m
  | delivered _ now sent => exact (Receipt.delivered m now sent).same
  | read c _ ids now mem inside unread => exact (Receipt.read m now unread).same

namespace Change

variable {env : Env} {db : Db} {ch : Change}

@[simp] theorem update_sent (opened : List Conversation) (m : Message) :
    (Change.sent opened m).update = id := rfl

@[simp] theorem update_id (ch : Change) (m : Message) : (ch.update m).id = m.id := by
  cases ch with
  | sent opened n => rfl
  | delivered u old now => rw [update]; split <;> rfl
  | read c u ids now => rw [update]; split <;> rfl

@[simp] theorem update_clientKey (ch : Change) (m : Message) :
    (ch.update m).clientKey = m.clientKey := by
  cases ch with
  | sent opened n => rfl
  | delivered u old now => rw [update]; split <;> rfl
  | read c u ids now => rw [update]; split <;> rfl

theorem touch (keys : db.Keys) (valid : ch.Valid db) {m : Message} (mem : m ∈ db.messages) :
    Touch ch m (ch.update m) := by
  cases ch with
  | sent opened n => exact .kept _ m
  | delivered u old now =>
    obtain ⟨hold, rfl, sent⟩ := valid
    rw [update]
    split
    · rename_i id
      obtain rfl := keys.message_unique mem hold id
      exact .delivered m now sent
    · exact .kept _ m
  | read c u ids now =>
    rw [update]
    split
    · rename_i hit
      obtain ⟨x, hx, id, inside, rfl, unread⟩ := valid.unread m.id hit
      obtain rfl := keys.message_unique hx mem id
      exact .read c x ids now hit inside unread
    · exact .kept _ m

theorem mem_messages {n : Message} :
    n ∈ (ch.apply env db).messages ↔ (∃ m ∈ db.messages, n = ch.update m) ∨ n ∈ ch.added := by
  simp only [apply, List.mem_append, List.mem_map, eq_comm]

theorem keys (valid : ch.Valid db) (keys : db.Keys) : (ch.apply env db).Keys := by
  have ids : (db.messages.map ch.update).map Message.id = db.messages.map Message.id := by simp
  have clients : (db.messages.map ch.update).map Message.clientKey =
      db.messages.map Message.clientKey := by simp
  have old : ∀ rows, Db.Keys ⟨db.conversations, db.messages.map ch.update, rows⟩ :=
    fun _ => ⟨keys.conversationId, keys.pair, ids ▸ keys.messageId, clients ▸ keys.clientKey⟩
  cases ch with
  | delivered u o now => simpa only [apply, opened, added, List.append_nil] using old _
  | read c u ids now => simpa only [apply, opened, added, List.append_nil] using old _
  | sent opened m =>
    have rows : db.messages.map (Change.sent opened m).update = db.messages := List.map_id _
    have messages : ((db.messages ++ [m]).map Message.id).Nodup ∧
        ((db.messages ++ [m]).map Message.clientKey).Nodup :=
      ⟨nodup_concat _ keys.messageId (fun x hx => (valid.fresh x hx).1),
        nodup_concat _ keys.clientKey (fun x hx => (valid.fresh x hx).2)⟩
    have pairs : ((db.conversations ++ opened).map Conversation.id).Nodup ∧
        ((db.conversations ++ opened).map Conversation.pair).Nodup := by
      obtain ⟨c, _, rfl | rfl, _⟩ := valid.inside
      · simpa using ⟨keys.conversationId, keys.pair⟩
      · have fresh := valid.freshPair c (List.mem_singleton_self c)
        exact ⟨nodup_concat _ keys.conversationId (fun x hx => (fresh x hx).1),
          nodup_concat _ keys.pair (fun x hx => (fresh x hx).2)⟩
    rw [← rows] at messages
    exact ⟨pairs.1, pairs.2, messages.1, messages.2⟩

theorem placed (valid : ch.Valid db) (sound : db.Sound) : (ch.apply env db).Placed := by
  intro n hn
  rcases mem_messages.mp hn with ⟨m, hm, rfl⟩ | hn
  · have same := (touch sound.keys valid hm).same
    obtain ⟨ne, c, hc, id, pair⟩ := sound.placed m hm
    rw [same.senderId, same.recipientId, same.conversationId]
    exact ⟨ne, c, List.mem_append_left _ hc, id, pair⟩
  · cases ch with
    | sent opened m =>
      obtain rfl := List.mem_singleton.mp hn
      obtain ⟨c, hc, _, pair, id⟩ := valid.inside
      exact ⟨valid.peers, c, hc, id, pair⟩
    | delivered u o now => cases hn
    | read c u ids now => cases hn

theorem paired (valid : ch.Valid db) (paired : db.Paired) : (ch.apply env db).Paired := by
  intro c hc
  rcases List.mem_append.mp hc with old | new
  · exact paired c old
  · cases ch with
    | sent opened m =>
      obtain ⟨d, _, rfl | rfl, pair, _⟩ := valid.inside
      · cases new
      · obtain rfl := List.mem_singleton.mp new
        exact ⟨_, _, valid.peers, pair⟩
    | delivered u old now => cases new
    | read d u ids now => cases new

theorem sound (valid : ch.Valid db) (sound : db.Sound) : (ch.apply env db).Sound :=
  ⟨keys valid sound.keys, placed valid sound, paired valid sound.paired⟩

end Change

theorem Db.Sound.empty : Db.empty.Sound :=
  ⟨Db.Keys.empty, by simp [Db.Placed, Db.empty], by simp [Db.Paired, Db.empty]⟩

theorem ledger_keep (env : Env) (a : Db) (ch : Change) (b : Db) (sound : a.Sound)
    (step : (ledger env).step a ch = some b) : b.Sound := by
  obtain ⟨valid, rfl⟩ := ledger_step.mp step
  exact Change.sound valid sound

theorem ledger_sound (env : Env) (chs : List Change) : ((ledger env).run chs).Sound :=
  (ledger env).run_invariant Db.Sound Db.Sound.empty (ledger_keep env) chs

theorem sortedPair_comm (u v : UserId) : sortedPair u v = sortedPair v u := by
  unfold sortedPair
  by_cases lt : v < u
  · rw [if_pos lt, if_neg (String.lt_asymm lt)]
  · by_cases gt : u < v
    · rw [if_neg lt, if_pos gt]
    · rw [if_neg lt, if_neg gt, String.le_antisymm (String.not_lt.mp lt) (String.not_lt.mp gt)]

theorem peerOf_sorted {c : Conversation} {u v : UserId} (ne : u ≠ v) (pair : c.pair = sortedPair u v) :
    c.peerOf v = u := by
  unfold sortedPair Conversation.pair at pair
  unfold Conversation.peerOf
  split at pair
  · obtain ⟨a, b⟩ := Prod.mk.inj pair
    rw [if_pos a.symm, b]
  · obtain ⟨a, b⟩ := Prod.mk.inj pair
    rw [if_neg (fun e => ne (a.symm.trans e.symm)), a]

end ChatBackend
