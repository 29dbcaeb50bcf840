import ChatBackend.Lib.Keyset
import ChatBackend.Service.Queries

/-! The two queries of the service. Both read one snapshot, so each is a function of the
committed rows. -/

namespace ChatBackend

open Lib

/-- A parameter that Python takes for true. -/
def given (raw : Option String) : Option String := raw.filter (fun s => s ≠ "")

/-- `ChatService._cursor`. -/
def cursorKey (env : Env) (raw : String) : Except AppError (Timestamp ×ₗ Uuid) :=
  match decodeCursor env.lenient raw with
  | some (createdAt, id) => .ok (toLex (createdAt, id))
  | none => .error ⟨400, "invalid_cursor", "Malformed pagination cursor"⟩

def Db.messagesOf (db : Db) (conversationId : Uuid) : List Message :=
  db.messages.filter (fun m => m.conversationId == conversationId)

def Message.newestKey (m : Message) : (Timestamp ×ₗ Uuid)ᵒᵈ := OrderDual.toDual m.key

/-- `rows` is cut at `limit + 1`, which shows whether more follow. -/
def catchUpPage (env : Env) (rows : List Message) (limit : Nat) (after : String) : MessagePage :=
  let items := (rows.take limit).map (toOut env)
  ⟨items, some ((items.getLast?.map MessageOut.cursor).getD after), decide (limit < rows.length)⟩

def historyPage (env : Env) (rows : List Message) (limit : Nat) : MessagePage :=
  let items := (rows.take limit).map (toOut env)
  ⟨items, if limit < rows.length then items.getLast?.map MessageOut.cursor else none,
    decide (limit < rows.length)⟩

def listAfter (env : Env) (db : Db) (c : Conversation) (limit : Nat) (after : String) :
    Except AppError MessagePage :=
  match cursorKey env after with
  | .error e => .error e
  | .ok key =>
    .ok (catchUpPage env (page Message.key (db.messagesOf c.id) key (limit + 1)) limit after)

def listBefore (env : Env) (db : Db) (c : Conversation) (limit : Nat) (before : String) :
    Except AppError MessagePage :=
  match cursorKey env before with
  | .error e => .error e
  | .ok key => .ok (historyPage env
      (page Message.newestKey (db.messagesOf c.id) (OrderDual.toDual key) (limit + 1)) limit)

def listLatest (env : Env) (db : Db) (c : Conversation) (limit : Nat) : MessagePage :=
  historyPage env ((byKey Message.newestKey (db.messagesOf c.id)).take (limit + 1)) limit

/-- `ChatService.list_messages`. The API asks for 1 to 200 rows. -/
def listMessages (env : Env) (db : Db) (userId : UserId) (conversationId : Uuid) (limit : Nat)
    (before after : Option String) : Except AppError MessagePage :=
  if (given before).isSome ∧ (given after).isSome then
    .error ⟨400, "bad_request", "Use either before or after, not both"⟩
  else
    match getConversation db userId conversationId with
    | .error e => .error e
    | .ok c =>
      match given after, given before with
      | some after, _ => listAfter env db c limit after
      | none, some before => listBefore env db c limit before
      | none, none => .ok (listLatest env db c limit)

def Db.lastMessage (db : Db) (conversationId : Uuid) : Option Message :=
  (byKey Message.newestKey (db.messagesOf conversationId)).head?

def Db.unreadCount (db : Db) (userId : UserId) (conversationId : Uuid) : Nat :=
  db.messages.countP (fun m => m.conversationId == conversationId && m.recipientId == userId &&
    m.status != .read)

/-- `coalesce(last.created_at, conversation.created_at)`, newest first. The statement leaves ties
open; here the id decides. -/
def Db.activityKey (db : Db) (c : Conversation) : Timestampᵒᵈ ×ₗ Uuid :=
  toLex (OrderDual.toDual (((db.lastMessage c.id).map Message.createdAt).getD c.createdAt), c.id)

def conversationOut (env : Env) (db : Db) (userId : UserId) (c : Conversation) : ConversationOut where
  id := c.id
  peerId := c.peerOf userId
  createdAt := c.createdAt
  lastMessage := (db.lastMessage c.id).map (toOut env)
  unreadCount := db.unreadCount userId c.id

/-- `ChatService.list_conversations`. -/
def listConversations (env : Env) (db : Db) (userId : UserId) (limit : Nat) : List ConversationOut :=
  ((byKey db.activityKey (db.conversations.filter (fun c => c.hasMember userId))).take limit).map
    (conversationOut env db userId)

theorem Db.Keys.key {db : Db} (keys : db.Keys) (conversationId : Uuid) :
    ((db.messagesOf conversationId).map Message.key).Nodup := by
  have ids : ((db.messages.map Message.key).map (fun k => (ofLex k).2)).Nodup := by
    rw [List.map_map]
    exact keys.messageId
  exact ids.of_map.sublist (List.filter_sublist.map _)

theorem decodeCursor_empty (env : Lenient) : decodeCursor env "" = none := rfl

theorem encodeCursor_ne_empty (t : Timestamp) (id : Uuid) : encodeCursor t id ≠ "" := by
  intro empty
  have round := decodeCursor_encodeCursor ⟨fun _ => none, fun _ => none⟩ t id
  rw [empty, decodeCursor_empty] at round
  cases round

theorem cursorKey_encodeCursor (env : Env) (t : Timestamp) (id : Uuid) :
    cursorKey env (encodeCursor t id) = .ok (toLex (t, id)) := by
  rw [cursorKey, decodeCursor_encodeCursor]

theorem getConversation_member {db : Db} {userId : UserId} {c : Conversation} (keys : db.Keys)
    (mem : c ∈ db.conversations) (member : c.hasMember userId = true) :
    getConversation db userId c.id = .ok c := by
  rw [getConversation, Db.conversation_mem keys mem]
  exact if_pos member

/-- A member that asks for what follows one of the service's own cursors gets a page. -/
theorem listMessages_after {env : Env} {db : Db} {userId : UserId} {conversationId : Uuid}
    {c : Conversation} (member : getConversation db userId conversationId = .ok c) (limit : Nat)
    (k : Timestamp ×ₗ Uuid) :
    listMessages env db userId conversationId limit none
        (some (encodeCursor (ofLex k).1 (ofLex k).2)) =
      .ok (catchUpPage env (page Message.key (db.messagesOf c.id) k (limit + 1)) limit
        (encodeCursor (ofLex k).1 (ofLex k).2)) := by
  have text : given (some (encodeCursor (ofLex k).1 (ofLex k).2)) =
      some (encodeCursor (ofLex k).1 (ofLex k).2) := by
    simp [given, encodeCursor_ne_empty]
  have none_ : given none = none := rfl
  rw [listMessages, text, none_, member]
  simp only [Option.isSome_none, Bool.false_eq_true, false_and, if_false, listAfter,
    cursorKey_encodeCursor]
  rfl

end ChatBackend
