import Mathlib.Data.List.Nodup
import ChatBackend.Lib.Transactions
import ChatBackend.Models

/-! The database: three tables, the writes a transaction can stage, and when two
writes need the same row or the same unique key. Outbox rows are only ever added here;
the relay that publishes and sweeps them has a model of its own. -/

namespace ChatBackend

open Lib

/-- The events of `make_event(event_type, data)`, by type. -/
inductive Event where
  | messageNew (data : MessageOut)
  | messageDelivered (messageId conversationId : Uuid) (clientMsgId : String)
      (deliveredAt : Timestamp)
  | messageRead (conversationId : Uuid) (readerId : UserId) (messageIds : List Uuid)
      (readAt : Timestamp)
  deriving DecidableEq, Repr

def Event.type : Event → String
  | .messageNew _ => "message.new"
  | .messageDelivered .. => "message.delivered"
  | .messageRead .. => "message.read"

structure Outbox where
  topic : String
  payload : Event
  deriving DecidableEq, Repr

def userTopic (userId : UserId) : String := "user:" ++ userId

theorem userTopic_injective {u v : UserId} (h : userTopic u = userTopic v) : u = v := by
  have lists := congrArg String.toList h
  simp only [userTopic, String.toList_append, List.append_cancel_left_eq] at lists
  exact String.toList_injective lists

/-- `ChatService.enqueue`: one row for each recipient, repeated names dropped. -/
def enqueue (recipients : List UserId) (event : Event) : List Outbox :=
  recipients.eraseDups.map (fun userId => ⟨userTopic userId, event⟩)

structure Db where
  conversations : List Conversation
  messages : List Message
  outbox : List Outbox

def Db.empty : Db := ⟨[], [], []⟩

inductive Write where
  | insertConversation (c : Conversation)
  | insertMessage (m : Message)
  | updateMessage (old new : Message)
  | insertOutbox (row : Outbox)
  deriving DecidableEq

def Db.apply (db : Db) : Write → Db
  | .insertConversation c => { db with conversations := db.conversations ++ [c] }
  | .insertMessage m => { db with messages := db.messages ++ [m] }
  | .updateMessage old new =>
    { db with messages := db.messages.map (fun m => if m.id = old.id then new else m) }
  | .insertOutbox row => { db with outbox := db.outbox ++ [row] }

/-- The pair of `uq_conversations_pair`. -/
def Conversation.pair (c : Conversation) : UserId × UserId := (c.userA, c.userB)

/-- The pair of `uq_messages_sender_client_msg`. -/
def Message.clientKey (m : Message) : UserId × String := (m.senderId, m.clientMsgId)

/-! The two UPDATE statements of the service: their WHERE clauses and what they SET. -/

def deliverWhere (userId : UserId) (messageId : Uuid) (m : Message) : Bool :=
  m.id == messageId && m.recipientId == userId && m.status == .sent

def deliverSet (now : Timestamp) (m : Message) : Message :=
  { m with status := .delivered, deliveredAt := some now }

def readWhere (conversationId : Uuid) (userId : UserId) (anchor : Timestamp ×ₗ Uuid) (m : Message) :
    Bool :=
  m.conversationId == conversationId && m.recipientId == userId && m.status != .read &&
    decide (m.key ≤ anchor)

def readSet (now : Timestamp) (m : Message) : Message :=
  { m with status := .read, readAt := some now, deliveredAt := some (m.deliveredAt.getD now) }

/-- A row and the version that one of the two statements makes of it. -/
inductive Receipt : Message → Message → Prop where
  | delivered (m : Message) (now : Timestamp) : m.status = .sent → Receipt m (deliverSet now m)
  | read (m : Message) (now : Timestamp) : m.status ≠ .read → Receipt m (readSet now m)

/-- The columns that no statement writes. -/
structure SameColumns (m n : Message) : Prop where
  id : n.id = m.id
  conversationId : n.conversationId = m.conversationId
  senderId : n.senderId = m.senderId
  recipientId : n.recipientId = m.recipientId
  clientMsgId : n.clientMsgId = m.clientMsgId
  body : n.body = m.body
  attachmentKey : n.attachmentKey = m.attachmentKey
  attachmentMime : n.attachmentMime = m.attachmentMime
  createdAt : n.createdAt = m.createdAt

theorem SameColumns.refl (m : Message) : SameColumns m m :=
  ⟨rfl, rfl, rfl, rfl, rfl, rfl, rfl, rfl, rfl⟩

theorem SameColumns.trans {m n k : Message} (h : SameColumns m n) (g : SameColumns n k) :
    SameColumns m k where
  id := g.id.trans h.id
  conversationId := g.conversationId.trans h.conversationId
  senderId := g.senderId.trans h.senderId
  recipientId := g.recipientId.trans h.recipientId
  clientMsgId := g.clientMsgId.trans h.clientMsgId
  body := g.body.trans h.body
  attachmentKey := g.attachmentKey.trans h.attachmentKey
  attachmentMime := g.attachmentMime.trans h.attachmentMime
  createdAt := g.createdAt.trans h.createdAt

theorem Receipt.same {m n : Message} (h : Receipt m n) : SameColumns m n := by
  cases h <;> exact ⟨rfl, rfl, rfl, rfl, rfl, rfl, rfl, rfl, rfl⟩

theorem SameColumns.key {m n : Message} (h : SameColumns m n) : n.key = m.key := by
  rw [Message.key, Message.key, h.id, h.createdAt]

theorem SameColumns.clientKey {m n : Message} (h : SameColumns m n) : n.clientKey = m.clientKey := by
  rw [Message.clientKey, Message.clientKey, h.senderId, h.clientMsgId]

/-- A write fits when it violates no key and, for an update, when the version it
replaces is the committed one. -/
def Fits (db : Db) : Write → Prop
  | .insertConversation c => ∀ x ∈ db.conversations, x.id ≠ c.id ∧ x.pair ≠ c.pair
  | .insertMessage m => ∀ x ∈ db.messages, x.id ≠ m.id ∧ x.clientKey ≠ m.clientKey
  | .updateMessage old new => old ∈ db.messages ∧ Receipt old new
  | .insertOutbox _ => True

def conflict : Write → Write → Bool
  | .insertConversation c, .insertConversation d => c.id == d.id || c.pair == d.pair
  | .insertMessage m, .insertMessage n => m.id == n.id || m.clientKey == n.clientKey
  | .updateMessage m _, .updateMessage n _ => m.id == n.id
  | _, _ => false

theorem conflict_symm (v w : Write) : conflict v w = conflict w v := by
  cases v <;> cases w <;> simp only [conflict] <;> rw [Bool.eq_iff_iff]
  · simp only [Bool.or_eq_true, beq_iff_eq]
    exact or_congr eq_comm eq_comm
  · simp only [Bool.or_eq_true, beq_iff_eq]
    exact or_congr eq_comm eq_comm
  · simp only [beq_iff_eq]
    exact eq_comm

theorem mem_apply_update {db : Db} {old new x : Message} :
    x ∈ (db.apply (.updateMessage old new)).messages ↔
      (∃ m ∈ db.messages, m.id = old.id ∧ x = new) ∨ (x ∈ db.messages ∧ x.id ≠ old.id) := by
  simp only [Db.apply, List.mem_map]
  constructor
  · rintro ⟨m, hm, rfl⟩
    split
    · rename_i h
      exact .inl ⟨m, hm, h, rfl⟩
    · rename_i h
      exact .inr ⟨hm, h⟩
  · rintro (⟨m, hm, h, rfl⟩ | ⟨hm, h⟩)
    · exact ⟨m, hm, if_pos h⟩
    · exact ⟨x, hm, if_neg h⟩

theorem fits_apply (db : Db) (v w : Write) (hv : Fits db v) (hw : Fits db w)
    (clear : conflict v w = false) : Fits (db.apply v) w := by
  cases v with
  | insertConversation c =>
    cases w with
    | insertConversation d =>
      intro x hx
      rcases List.mem_append.mp hx with hx | hx
      · exact hw x hx
      · obtain rfl := List.mem_singleton.mp hx
        simpa [conflict] using clear
    | insertMessage m => exact hw
    | updateMessage m n => exact hw
    | insertOutbox row => trivial
  | insertMessage m =>
    cases w with
    | insertConversation d => exact hw
    | insertMessage n =>
      intro x hx
      rcases List.mem_append.mp hx with hx | hx
      · exact hw x hx
      · obtain rfl := List.mem_singleton.mp hx
        simpa [conflict] using clear
    | updateMessage n k => exact ⟨List.mem_append_left _ hw.1, hw.2⟩
    | insertOutbox row => trivial
  | updateMessage m n =>
    cases w with
    | insertConversation d => exact hw
    | insertMessage k =>
      intro x hx
      rcases mem_apply_update.mp hx with ⟨y, hy, id, rfl⟩ | ⟨hx, _⟩
      · have same := hv.2.same
        have old := hw m hv.1
        exact ⟨same.id ▸ old.1, same.clientKey ▸ old.2⟩
      · exact hw x hx
    | updateMessage k l =>
      have ne : m.id ≠ k.id := by simpa [conflict] using clear
      exact ⟨mem_apply_update.mpr (.inr ⟨hw.1, ne.symm⟩), hw.2⟩
    | insertOutbox row => trivial
  | insertOutbox row =>
    cases w with
    | insertConversation d => exact hw
    | insertMessage k => exact hw
    | updateMessage k l => exact hw
    | insertOutbox row => trivial

def store : Semantics Db Write where
  apply := Db.apply
  Fits := Fits
  conflict := conflict
  symm := conflict_symm
  fits_apply := fits_apply

/-- Primary keys and unique constraints. -/
structure Db.Keys (db : Db) : Prop where
  conversationId : (db.conversations.map Conversation.id).Nodup
  pair : (db.conversations.map Conversation.pair).Nodup
  messageId : (db.messages.map Message.id).Nodup
  clientKey : (db.messages.map Message.clientKey).Nodup

theorem Db.Keys.empty : Db.empty.Keys := by constructor <;> exact List.nodup_nil

theorem map_update {α : Type} (f : Message → α) {old new : Message} {rows : List Message}
    (unique : (rows.map Message.id).Nodup) (mem : old ∈ rows) (same : f new = f old) :
    (rows.map (fun m => if m.id = old.id then new else m)).map f = rows.map f := by
  rw [List.map_map]
  apply List.map_congr_left
  intro m hm
  dsimp only [Function.comp_apply]
  split
  · rename_i h
    rw [same, List.inj_on_of_nodup_map unique hm mem h]
  · rfl

theorem nodup_concat {α β : Type} (f : α → β) {l : List α} {a : α} (h : (l.map f).Nodup)
    (fresh : ∀ x ∈ l, f x ≠ f a) : ((l ++ [a]).map f).Nodup := by
  rw [List.map_append, List.nodup_append]
  refine ⟨h, List.nodup_singleton _, ?_⟩
  intro x hx y hy
  obtain ⟨z, hz, rfl⟩ := List.mem_map.mp hx
  obtain rfl : y = f a := by simpa using hy
  exact fresh z hz

theorem Db.Keys.apply {db : Db} {w : Write} (h : db.Keys) (fits : Fits db w) : (db.apply w).Keys := by
  cases w with
  | insertConversation c =>
    exact ⟨nodup_concat _ h.conversationId (fun x hx => (fits x hx).1),
      nodup_concat _ h.pair (fun x hx => (fits x hx).2), h.messageId, h.clientKey⟩
  | insertMessage m =>
    exact ⟨h.conversationId, h.pair, nodup_concat _ h.messageId (fun x hx => (fits x hx).1),
      nodup_concat _ h.clientKey (fun x hx => (fits x hx).2)⟩
  | updateMessage old new =>
    have same := fits.2.same
    refine ⟨h.conversationId, h.pair, ?_, ?_⟩
    · show ((db.apply _).messages.map _).Nodup
      rw [Db.apply, map_update _ h.messageId fits.1 same.id]
      exact h.messageId
    · show ((db.apply _).messages.map _).Nodup
      rw [Db.apply, map_update _ h.messageId fits.1 same.clientKey]
      exact h.clientKey
  | insertOutbox row => exact ⟨h.conversationId, h.pair, h.messageId, h.clientKey⟩

theorem Db.Keys.message_unique {db : Db} (h : db.Keys) {m n : Message} (hm : m ∈ db.messages)
    (hn : n ∈ db.messages) (id : m.id = n.id) : m = n :=
  List.inj_on_of_nodup_map h.messageId hm hn id

theorem Db.Keys.client_unique {db : Db} (h : db.Keys) {m n : Message} (hm : m ∈ db.messages)
    (hn : n ∈ db.messages) (key : m.clientKey = n.clientKey) : m = n :=
  List.inj_on_of_nodup_map h.clientKey hm hn key

theorem Db.Keys.pair_unique {db : Db} (h : db.Keys) {c d : Conversation}
    (hc : c ∈ db.conversations) (hd : d ∈ db.conversations) (pair : c.pair = d.pair) : c = d :=
  List.inj_on_of_nodup_map h.pair hc hd pair

theorem Db.Keys.conversation_unique {db : Db} (h : db.Keys) {c d : Conversation}
    (hc : c ∈ db.conversations) (hd : d ∈ db.conversations) (id : c.id = d.id) : c = d :=
  List.inj_on_of_nodup_map h.conversationId hc hd id

end ChatBackend
