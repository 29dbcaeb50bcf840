import ChatBackend.Store

/-! What the service reads from the database and the checks it makes on what it read. -/

namespace ChatBackend

open Lib

def Db.byClientMsgId (db : Db) (senderId : UserId) (clientMsgId : String) : Option Message :=
  db.messages.find? (fun m => m.senderId == senderId && m.clientMsgId == clientMsgId)

def Db.message (db : Db) (id : Uuid) : Option Message := db.messages.find? (fun m => m.id == id)

def Db.conversation (db : Db) (id : Uuid) : Option Conversation :=
  db.conversations.find? (fun c => c.id == id)

def Db.conversationOf (db : Db) (pair : UserId × UserId) : Option Conversation :=
  db.conversations.find? (fun c => c.pair == pair)

/-- Python's `sorted` on two strings: code point order, stable. -/
def sortedPair (u v : UserId) : UserId × UserId := if v < u then (v, u) else (u, v)

def toOut (env : Env) (m : Message) : MessageOut where
  id := m.id
  conversationId := m.conversationId
  senderId := m.senderId
  recipientId := m.recipientId
  clientMsgId := m.clientMsgId
  body := m.body
  attachmentKey := m.attachmentKey
  attachmentMime := m.attachmentMime
  attachmentUrl := (m.attachmentKey.filter (fun k => k ≠ "")).map env.presignDownload
  status := m.status
  createdAt := m.createdAt
  deliveredAt := m.deliveredAt
  readAt := m.readAt
  cursor := encodeCursor m.createdAt m.id

def getConversation (db : Db) (userId : UserId) (conversationId : Uuid) :
    Except AppError Conversation :=
  match db.conversation conversationId with
  | some c => if c.hasMember userId then .ok c else .error (notFoundError "Conversation not found")
  | none => .error (notFoundError "Conversation not found")

def sameContent (existing : Message) (req : SendMessageRequest) : Bool :=
  existing.recipientId == req.recipientId && existing.body.map text == req.body &&
    existing.attachmentKey == req.attachmentKey

def idempotencyConflict : AppError :=
  ⟨409, "idempotency_conflict", "client_msg_id was already used for another message"⟩

/-- `ChatService._replay`. -/
def replay (env : Env) (existing : Message) (req : SendMessageRequest) :
    Except AppError MessageOut :=
  if sameContent existing req then .ok (toOut env existing) else .error idempotencyConflict

/-- `ChatService._check_attachment`. The prefix is checked before storage is asked. -/
def checkAttachment (s : Settings) (senderId key : String) (stored : Option StoredObject) :
    Except AppError String :=
  if !("u/" ++ senderId ++ "/").toList.isPrefixOf key.toList then
    .error ⟨422, "invalid_attachment", "attachment_key was not issued to you"⟩
  else
    match stored with
    | none => .error ⟨422, "attachment_not_found", "Upload the file before sending it"⟩
    | some object =>
      if object.size > s.attachmentMaxBytes then
        .error ⟨413, "payload_too_large", "Attachment exceeds the size limit"⟩
      else if !s.attachmentAllowedMime.contains object.contentType then
        .error ⟨415, "unsupported_media_type", "Attachment type is not allowed"⟩
      else .ok object.contentType

/-- The checks `send_message` makes before it asks the database. -/
def checkRequest (env : Env) (senderId : UserId) (req : SendMessageRequest) : Except AppError Unit :=
  if req.recipientId = senderId then
    .error ⟨422, "invalid_recipient", "You cannot message yourself"⟩
  else
    match req.body with
    | none => .ok ()
    | some body =>
      if env.graphemeLength body > env.settings.messageMaxGraphemes then
        .error ⟨422, "body_too_long", "Message body exceeds " ++
          toString env.settings.messageMaxGraphemes ++ " characters"⟩
      else .ok ()

/-- What `mark_delivered` answers when its UPDATE returned no row. -/
def deliveredAlready (env : Env) (userId : UserId) (found : Option Message) :
    Except AppError MessageOut :=
  match found with
  | none => .error (notFoundError "Message not found")
  | some m =>
    if userId ≠ m.senderId ∧ userId ≠ m.recipientId then .error (notFoundError "Message not found")
    else if m.recipientId ≠ userId then
      .error ⟨403, "access_denied", "Only the recipient can confirm delivery"⟩
    else .ok (toOut env m)

/-- The anchor check of `mark_read`. -/
def checkAnchor (c : Conversation) (found : Option Message) : Except AppError Message :=
  match found with
  | none => .error (notFoundError "Message not found in this conversation")
  | some m =>
    if m.conversationId ≠ c.id then .error (notFoundError "Message not found in this conversation")
    else .ok m

/-- The body as the driver binds it, encoded in UTF-8. It raises on a surrogate. -/
def encodeBody (body : Option Text) : Option (Option String) :=
  match body with
  | none => some none
  | some b => (plainString b).map some

/-- The row that `send_message` inserts, with the body that was bound. -/
def newMessage (senderId : UserId) (req : SendMessageRequest) (body mime : Option String)
    (conversationId id : Uuid) (now : Timestamp) : Message where
  id := id
  conversationId := conversationId
  senderId := senderId
  recipientId := req.recipientId
  clientMsgId := req.clientMsgId
  body := body
  attachmentKey := req.attachmentKey
  attachmentMime := mime
  status := .sent
  createdAt := now
  deliveredAt := none
  readAt := none

def sentRows (env : Env) (m : Message) : List Outbox :=
  enqueue [m.recipientId, m.senderId] (.messageNew (toOut env m))

def deliveredRows (m : Message) (now : Timestamp) : List Outbox :=
  enqueue [m.senderId] (.messageDelivered m.id m.conversationId m.clientMsgId now)

def readRows (c : Conversation) (userId : UserId) (ids : List Uuid) (now : Timestamp) :
    List Outbox :=
  enqueue [c.peerOf userId] (.messageRead c.id userId ids now)

theorem encodeBody_eq_some {body : Option Text} {bound : Option String} :
    encodeBody body = some bound ↔ bound.map text = body := by
  cases body with
  | none =>
    rw [Option.map_eq_none_iff]
    exact ⟨fun h => (Option.some.inj h).symm, fun h => h ▸ rfl⟩
  | some b =>
    rw [encodeBody, Option.map_eq_some_iff, Option.map_eq_some_iff]
    constructor
    · rintro ⟨s, read, rfl⟩
      exact ⟨s, rfl, plainString_eq_some.mp read⟩
    · rintro ⟨s, rfl, same⟩
      exact ⟨s, plainString_eq_some.mpr same, rfl⟩

theorem encodeBody_eq_none {body : Option Text} :
    encodeBody body = none ↔ ∃ b ∈ body, encodable b = false := by
  cases body with
  | none => simp [encodeBody]
  | some b => simp [encodeBody, plainString_eq_none]

theorem checkRequest_ne {env : Env} {senderId : UserId} {req : SendMessageRequest}
    (h : checkRequest env senderId req = .ok ()) : senderId ≠ req.recipientId := by
  unfold checkRequest at h
  split at h
  · cases h
  · rename_i ne
    exact fun e => ne e.symm

theorem getConversation_ok {db : Db} {userId : UserId} {id : Uuid} {c : Conversation}
    (h : getConversation db userId id = .ok c) :
    c ∈ db.conversations ∧ c.id = id ∧ c.hasMember userId = true := by
  unfold getConversation at h
  split at h
  · rename_i d found
    split at h
    · rename_i member
      cases h
      have mem := List.mem_of_find?_eq_some found
      have id := List.find?_some found
      exact ⟨mem, by simpa using id, member⟩
    · cases h
  · cases h

theorem checkAnchor_ok {c : Conversation} {found : Option Message} {m : Message}
    (h : checkAnchor c found = .ok m) : found = some m ∧ m.conversationId = c.id := by
  unfold checkAnchor at h
  split at h
  · cases h
  · split at h
    · cases h
    · rename_i inside
      cases h
      exact ⟨rfl, by simpa using inside⟩

theorem Db.byClientMsgId_some {db : Db} {u : UserId} {k : String} {m : Message}
    (h : db.byClientMsgId u k = some m) : m ∈ db.messages ∧ m.clientKey = (u, k) := by
  have key := List.find?_some h
  simp only [Bool.and_eq_true, beq_iff_eq] at key
  exact ⟨List.mem_of_find?_eq_some h, by rw [Message.clientKey, key.1, key.2]⟩

theorem Db.byClientMsgId_none {db : Db} {u : UserId} {k : String} :
    db.byClientMsgId u k = none ↔ ∀ m ∈ db.messages, m.clientKey ≠ (u, k) := by
  simp only [Db.byClientMsgId, List.find?_eq_none, Bool.and_eq_true, beq_iff_eq, Message.clientKey,
    ne_eq, Prod.mk.injEq]

theorem Db.message_some {db : Db} {id : Uuid} {m : Message} (h : db.message id = some m) :
    m ∈ db.messages ∧ m.id = id :=
  ⟨List.mem_of_find?_eq_some h, by simpa using List.find?_some h⟩

theorem Db.message_none {db : Db} {id : Uuid} :
    db.message id = none ↔ ∀ m ∈ db.messages, m.id ≠ id := by
  simp [Db.message]

theorem Db.conversation_none {db : Db} {id : Uuid} :
    db.conversation id = none ↔ ∀ c ∈ db.conversations, c.id ≠ id := by
  simp [Db.conversation]

theorem Db.conversation_mem {db : Db} (keys : db.Keys) {c : Conversation}
    (hc : c ∈ db.conversations) : db.conversation c.id = some c := by
  cases found : db.conversation c.id with
  | none => exact absurd rfl (Db.conversation_none.mp found c hc)
  | some d =>
    have id := List.find?_some found
    rw [keys.conversation_unique (List.mem_of_find?_eq_some found) hc (by simpa using id)]

theorem Db.message_mem {db : Db} (keys : db.Keys) {m : Message} (hm : m ∈ db.messages) :
    db.message m.id = some m := by
  cases found : db.message m.id with
  | none => exact absurd rfl (Db.message_none.mp found m hm)
  | some n =>
    obtain ⟨hn, id⟩ := Db.message_some found
    rw [keys.message_unique hn hm id]

theorem Db.conversationOf_some {db : Db} {p : UserId × UserId} {c : Conversation}
    (h : db.conversationOf p = some c) : c ∈ db.conversations ∧ c.pair = p :=
  ⟨List.mem_of_find?_eq_some h, by simpa using List.find?_some h⟩

theorem Db.conversationOf_none {db : Db} {p : UserId × UserId} :
    db.conversationOf p = none ↔ ∀ c ∈ db.conversations, c.pair ≠ p := by
  simp [Db.conversationOf]

theorem enqueue_two {u v : UserId} (ne : u ≠ v) (e : Event) :
    enqueue [u, v] e = [⟨userTopic u, e⟩, ⟨userTopic v, e⟩] := by
  have flag : (v == u) = false := by simpa using ne.symm
  simp [enqueue, List.eraseDups_cons, flag]

theorem enqueue_one (u : UserId) (e : Event) : enqueue [u] e = [⟨userTopic u, e⟩] := by
  simp [enqueue, List.eraseDups_cons]

end ChatBackend
