import Mathlib.Data.Prod.Lex
import Mathlib.Order.Fin.Basic
import ChatBackend.Ids
import ChatBackend.Lib.Text

/-! The rows of the schema and the request and response models of the API. -/

namespace ChatBackend

open Lib

abbrev UserId := String

inductive MessageStatus where
  | sent | delivered | read
  deriving DecidableEq, Repr

structure Conversation where
  id : Uuid
  userA : UserId
  userB : UserId
  createdAt : Timestamp
  deriving DecidableEq, Repr

def Conversation.peerOf (c : Conversation) (userId : UserId) : UserId :=
  if userId = c.userA then c.userB else c.userA

def Conversation.hasMember (c : Conversation) (userId : UserId) : Bool :=
  userId == c.userA || userId == c.userB

structure Message where
  id : Uuid
  conversationId : Uuid
  senderId : UserId
  recipientId : UserId
  clientMsgId : String
  body : Option String
  attachmentKey : Option String
  attachmentMime : Option String
  status : MessageStatus
  createdAt : Timestamp
  deliveredAt : Option Timestamp
  readAt : Option Timestamp
  deriving DecidableEq, Repr

/-- `(created_at, id)`, compared as SQL compares row values. -/
def Message.key (m : Message) : Timestamp ×ₗ Uuid := toLex (m.createdAt, m.id)

structure AppError where
  statusCode : Nat
  code : String
  message : String
  deriving DecidableEq, Repr

def notFoundError (message : String) : AppError := ⟨404, "not_found", message⟩

structure Settings where
  attachmentMaxBytes : Nat
  attachmentAllowedMime : List String
  messageMaxGraphemes : Nat

/-- The parts that come from outside: the configuration, the grapheme counter, the storage
signer, the database's text order, and the parsers on texts no encoder of ours writes. -/
structure Env where
  settings : Settings
  graphemeLength : Text → Nat
  presignDownload : String → String
  textLt : String → String → Bool
  lenient : Lenient

/-- A configuration to run the model with. -/
def Env.plain : Env where
  settings := ⟨10485760, ["image/png"], 4096⟩
  graphemeLength := List.length
  presignDownload := id
  textLt u v := decide (u < v)
  lenient := ⟨fun _ => none, fun _ => none⟩

structure StoredObject where
  size : Nat
  contentType : String

/-- `str.isspace` on the character of this code. -/
def isSpaceCode (n : Nat) : Bool :=
  (9 ≤ n && n ≤ 13) || (28 ≤ n && n ≤ 32) || (8192 ≤ n && n ≤ 8202) ||
  [133, 160, 5760, 8232, 8233, 8239, 8287, 12288].contains n

def isSpace (c : Char) : Bool := isSpaceCode c.toNat

/-- `not s.strip()`. -/
def isBlank (s : Text) : Bool := s.all (fun c => isSpaceCode c.val)

def userIdChar (c : Char) : Bool :=
  ('A' ≤ c && c ≤ 'Z') || ('a' ≤ c && c ≤ 'z') || ('0' ≤ c && c ≤ '9') ||
  "_.@:-".toList.contains c

/-- The language of `^[A-Za-z0-9_.@:-]{1,64}$` where the anchors bind at the very ends. -/
def isUserId (s : String) : Bool :=
  1 ≤ s.length && s.length ≤ 64 && s.toList.all userIdChar

/-- U+0000. -/
def nul : CodePoint := codePoint (Char.ofNat 0)

/-- A request that passed validation. The body is normalised: a blank one is absent. It is the one
string that no constraint makes the library encode, so it may have surrogates. -/
structure SendMessageRequest where
  recipientId : UserId
  clientMsgId : String
  body : Option Text
  attachmentKey : Option String
  recipientPattern : isUserId recipientId = true
  clientMsgIdLength : 1 ≤ clientMsgId.length ∧ clientMsgId.length ≤ 64
  attachmentKeyLength : ∀ k ∈ attachmentKey, 1 ≤ k.length ∧ k.length ≤ 512
  bodyText : ∀ b ∈ body, nul ∉ b ∧ isBlank b = false
  hasContent : body ≠ none ∨ attachmentKey ≠ none

/-- `SendMessageRequest._has_content`, after the field constraints. -/
def normaliseBody (body : Option Text) : Except String (Option Text) :=
  match body with
  | none => .ok none
  | some b =>
    if nul ∈ b then .error "body must not contain NUL characters"
    else if isBlank b then .ok none
    else .ok (some b)

theorem normaliseBody_text {body out : Option Text} (h : normaliseBody body = .ok out) :
    ∀ b ∈ out, nul ∉ b ∧ isBlank b = false := by
  unfold normaliseBody at h
  split at h
  · cases h
    intro b hb
    cases hb
  · split at h
    · cases h
    · rename_i clean
      split at h
      · cases h
        intro b hb
        cases hb
      · rename_i full
        cases h
        intro b hb
        cases hb
        exact ⟨clean, by simpa using full⟩

def SendMessageRequest.validate (recipientId clientMsgId : String) (body : Option Text)
    (attachmentKey : Option String) : Except String SendMessageRequest :=
  if r : isUserId recipientId = true then
    if c : 1 ≤ clientMsgId.length ∧ clientMsgId.length ≤ 64 then
      if k : ∀ k ∈ attachmentKey, 1 ≤ k.length ∧ k.length ≤ 512 then
        match e : normaliseBody body with
        | .error reason => .error reason
        | .ok out =>
          if h : out ≠ none ∨ attachmentKey ≠ none then
            .ok ⟨recipientId, clientMsgId, out, attachmentKey, r, c, k, normaliseBody_text e, h⟩
          else .error "either body or attachment_key is required"
      else .error "attachment_key: string length"
    else .error "client_msg_id: string length"
  else .error "recipient_id: string pattern"

/-- A text message that passes validation. -/
def SendMessageRequest.hello (recipientId : UserId) (clientMsgId : String)
    (pattern : isUserId recipientId = true)
    (length : 1 ≤ clientMsgId.length ∧ clientMsgId.length ≤ 64) : SendMessageRequest where
  recipientId := recipientId
  clientMsgId := clientMsgId
  body := some (text "hello")
  attachmentKey := none
  recipientPattern := pattern
  clientMsgIdLength := length
  attachmentKeyLength := by simp
  bodyText := by decide
  hasContent := by simp

def SendMessageRequest.helloB : SendMessageRequest := .hello "b" "1" (by decide) (by decide)

structure MessageOut where
  id : Uuid
  conversationId : Uuid
  senderId : UserId
  recipientId : UserId
  clientMsgId : String
  body : Option String
  attachmentKey : Option String
  attachmentMime : Option String
  attachmentUrl : Option String
  status : MessageStatus
  createdAt : Timestamp
  deliveredAt : Option Timestamp
  readAt : Option Timestamp
  cursor : String
  deriving DecidableEq, Repr

structure ConversationOut where
  id : Uuid
  peerId : UserId
  createdAt : Timestamp
  lastMessage : Option MessageOut
  unreadCount : Nat
  deriving DecidableEq, Repr

structure MessagePage where
  items : List MessageOut
  nextCursor : Option String
  hasMore : Bool
  deriving DecidableEq, Repr

structure ReadResult where
  conversationId : Uuid
  messageIds : List Uuid
  readAt : Option Timestamp
  deriving DecidableEq, Repr

end ChatBackend
