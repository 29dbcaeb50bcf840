import ChatBackend.Lib.Machine
import ChatBackend.Service.Queries

/-! The three commands of the service as concurrent calls.
Every statement of a command is one action, and other calls run between any two of them.
Statements read the latest committed rows and the call's own writes (READ COMMITTED); writes
stay pending until the commit. A statement that needs a row or a key of another open
transaction is disabled until that one ends, and an UPDATE evaluates its WHERE clause again
on the row it has locked. A call may fail at any step before its commit, and the answer to
a committed call may be lost. -/

namespace ChatBackend

open Lib

/-- The steps that a call can be asked to take, with what they read from outside. -/
inductive Action where
  | query
  | head (stored : Option StoredObject)
  | fresh (id : Uuid) (now : Timestamp)
  | clock (now : Timestamp)
  | lock (id : Uuid)
  | commit
  | fail
  | reply
  | lose

/-- How a call ended. `noop` returned without a commit, `applied` after one. -/
inductive Reply (ρ : Type) where
  | raised (e : AppError)
  | failed
  | noop (r : ρ)
  | applied (r : ρ)
  | lost

inductive Phase (κ ρ : Type) where
  | running (k : κ)
  | committed (r : ρ)
  | done (reply : Reply ρ)

/-- What a statement does: stage writes and go on, roll back and go on, leave
without committing, or commit. -/
inductive Outcome (κ ρ : Type) where
  | goto (k : κ) (writes : List Write)
  | restart (k : κ)
  | finish (reply : Reply ρ)
  | commit (r : ρ)

inductive Effect where
  | stage (writes : List Write)
  | rollback
  | commit

def answer {ρ : Type} : Except AppError ρ → Reply ρ
  | .error e => .raised e
  | .ok r => .noop r

/-- Where `send_message` stands, with its local variables. -/
inductive SendPc where
  | lookup
  | attachment (key : String)
  | pair (mime : Option String)
  | conversation (mime : Option String)
  | values (mime : Option String) (conversationId : Uuid)
  | insert (m : Message)
  | reread
  | commit (m : Message)

/-- Where `mark_delivered` stands. `lock` has found the row in its snapshot and waits for it. -/
inductive DeliverPc where
  | clock
  | update (now : Timestamp)
  | lock (now : Timestamp)
  | get
  | commit (old : Message) (now : Timestamp)

/-- Where `mark_read` stands. `lock` holds the rows its snapshot found and
has still to reach, and the ids it has updated. -/
inductive ReadPc where
  | conversation
  | anchor (c : Conversation)
  | clock (c : Conversation) (anchor : Message)
  | update (c : Conversation) (anchor : Message) (now : Timestamp)
  | lock (c : Conversation) (anchor : Message) (now : Timestamp) (todo ids : List Uuid)
  | commit (c : Conversation) (now : Timestamp) (ids : List Uuid)

section Statements

variable (env : Env) (db : Db) (blocked : Write → Bool)

/-- `_get_or_create_conversation`, the INSERT ... ON CONFLICT DO NOTHING. -/
def insertPair (pair : UserId × UserId) (id : Uuid) (now : Timestamp) (next : SendPc) :
    Option (Outcome SendPc (MessageOut × Bool)) :=
  let row : Conversation := ⟨id, pair.1, pair.2, now⟩
  if !env.textLt row.userA row.userB then some (.finish .failed)  -- ck_conversations_sorted_pair
  else if (db.conversationOf pair).isSome then some (.goto next [])
  else if blocked (.insertConversation row) then none
  else if (db.conversation id).isSome then some (.finish .failed)
  else some (.goto next [.insertConversation row])

/-- The INSERT of the message, and `enqueue` when it returned the row. -/
def insertMessage (m : Message) : Option (Outcome SendPc (MessageOut × Bool)) :=
  if (db.byClientMsgId m.senderId m.clientMsgId).isSome then some (.restart .reread)
  else if blocked (.insertMessage m) then none
  else if (db.message m.id).isSome then some (.finish .failed)
  else some (.goto (.commit m) (.insertMessage m :: (sentRows env m).map .insertOutbox))

def SendPc.next (senderId : UserId) (req : SendMessageRequest) :
    SendPc → Action → Option (Outcome SendPc (MessageOut × Bool))
  | .lookup, .query =>
    match db.byClientMsgId senderId req.clientMsgId with
    | some existing => some (.finish (answer ((replay env existing req).map (·, false))))
    | none =>
      match req.attachmentKey with
      | some key => some (.goto (.attachment key) [])
      | none => some (.goto (.pair none) [])
  | .attachment key, .head stored =>
    match checkAttachment env.settings senderId key stored with
    | .error e => some (.finish (.raised e))
    | .ok mime => some (.goto (.pair (some mime)) [])
  | .pair mime, .fresh id now =>
    insertPair env db blocked (sortedPair senderId req.recipientId) id now (.conversation mime)
  | .conversation mime, .query =>
    match db.conversationOf (sortedPair senderId req.recipientId) with
    | some c => some (.goto (.values mime c.id) [])
    | none => some (.finish .failed)
  | .values mime conversationId, .fresh id now =>
    match encodeBody req.body with
    | none => some (.finish .failed)
    | some body =>
      some (.goto (.insert (newMessage senderId req body mime conversationId id now)) [])
  | .insert m, .query => insertMessage env db blocked m
  | .reread, .query =>
    match db.byClientMsgId senderId req.clientMsgId with
    | none => some (.finish (.raised ⟨409, "conflict", "Concurrent send, retry"⟩))
    | some existing => some (.finish (answer ((replay env existing req).map (·, false))))
  | .commit m, .commit => some (.commit (toOut env m, true))
  | _, _ => none

def DeliverPc.next (userId : UserId) (messageId : Uuid) :
    DeliverPc → Action → Option (Outcome DeliverPc MessageOut)
  | .clock, .clock now => some (.goto (.update now) [])
  | .update now, .query =>
    if db.messages.any (deliverWhere userId messageId) then some (.goto (.lock now) [])
    else some (.goto .get [])
  | .lock now, .lock id =>
    match db.message messageId with
    | none => some (.goto .get [])
    | some old =>
      if id ≠ messageId ∨ blocked (.updateMessage old old) then none
      else if deliverWhere userId messageId old then
        some (.goto (.commit old now) (.updateMessage old (deliverSet now old) ::
          (deliveredRows old now).map .insertOutbox))
      else some (.goto .get [])
  | .get, .query => some (.finish (answer (deliveredAlready env userId (db.message messageId))))
  | .commit old now, .commit => some (.commit (toOut env (deliverSet now old)))
  | _, _ => none

def ReadPc.next (userId : UserId) (conversationId upToMessageId : Uuid) :
    ReadPc → Action → Option (Outcome ReadPc ReadResult)
  | .conversation, .query =>
    match getConversation db userId conversationId with
    | .error e => some (.finish (.raised e))
    | .ok c => some (.goto (.anchor c) [])
  | .anchor c, .query =>
    match checkAnchor c (db.message upToMessageId) with
    | .error e => some (.finish (.raised e))
    | .ok upTo => some (.goto (.clock c upTo) [])
  | .clock c upTo, .clock now => some (.goto (.update c upTo now) [])
  | .update c upTo now, .query =>
    let todo := (db.messages.filter (readWhere c.id userId upTo.key)).map Message.id
    some (.goto (.lock c upTo now todo []) [])
  | .lock c upTo now todo ids, .lock id =>
    if id ∉ todo then none
    else
      match db.message id with
      | none => some (.goto (.lock c upTo now (todo.erase id) ids) [])
      | some old =>
        if blocked (.updateMessage old old) then none
        else if readWhere c.id userId upTo.key old then
          some (.goto (.lock c upTo now (todo.erase id) (ids ++ [id]))
            [.updateMessage old (readSet now old)])
        else some (.goto (.lock c upTo now (todo.erase id) ids) [])
  | .lock c _ now todo ids, .query =>
    if todo ≠ [] then none
    else if ids = [] then some (.finish (.noop ⟨c.id, [], none⟩))
    else some (.goto (.commit c now ids) ((readRows c userId ids now).map .insertOutbox))
  | .commit c now ids, .commit => some (.commit ⟨c.id, ids, some now⟩)
  | _, _ => none

end Statements

/-- One step of a call whose running part is given. Leaving without a commit rolls back. -/
def Phase.step {κ ρ : Type} (next : κ → Action → Option (Outcome κ ρ)) :
    Phase κ ρ → Action → Option (Phase κ ρ × Effect)
  | .running _, .fail => some (.done .failed, .rollback)
  | .running k, a =>
    match next k a with
    | some (.goto k writes) => some (.running k, .stage writes)
    | some (.restart k) => some (.running k, .rollback)
    | some (.finish reply) => some (.done reply, .rollback)
    | some (.commit r) => some (.committed r, .commit)
    | none => none
  | .committed r, .reply => some (.done (.applied r), .stage [])
  | .committed _, .lose => some (.done .lost, .stage [])
  | _, _ => none

inductive Call where
  | idle
  | send (senderId : UserId) (req : SendMessageRequest) (phase : Phase SendPc (MessageOut × Bool))
  | deliver (userId : UserId) (messageId : Uuid) (phase : Phase DeliverPc MessageOut)
  | read (userId : UserId) (conversationId upToMessageId : Uuid) (phase : Phase ReadPc ReadResult)

inductive Request where
  | sendMessage (senderId : UserId) (req : SendMessageRequest)
  | markDelivered (userId : UserId) (messageId : Uuid)
  | markRead (userId : UserId) (conversationId upToMessageId : Uuid)

def Request.start (env : Env) : Request → Call
  | .sendMessage senderId req =>
    match checkRequest env senderId req with
    | .error e => .send senderId req (.done (.raised e))
    | .ok () => .send senderId req (.running .lookup)
  | .markDelivered userId messageId => .deliver userId messageId (.running .clock)
  | .markRead userId conversationId upToMessageId =>
    .read userId conversationId upToMessageId (.running .conversation)

def Call.step (env : Env) (db : Db) (blocked : Write → Bool) : Call → Action → Option (Call × Effect)
  | .idle, _ => none
  | .send senderId req phase, a =>
    (phase.step (SendPc.next env db blocked senderId req) a).map
      (fun p => (.send senderId req p.1, p.2))
  | .deliver userId messageId phase, a =>
    (phase.step (DeliverPc.next env db blocked userId messageId) a).map
      (fun p => (.deliver userId messageId p.1, p.2))
  | .read userId conversationId upToMessageId phase, a =>
    (phase.step (ReadPc.next db blocked userId conversationId upToMessageId) a).map
      (fun p => (.read userId conversationId upToMessageId p.1, p.2))

abbrev CallId := Nat

/-- The shared database, the uncommitted writes, and every call of every replica. -/
structure Sys where
  db : Db
  pending : Pending CallId Write
  calls : CallId → Call

inductive Input where
  | start (c : CallId) (r : Request)
  | act (c : CallId) (a : Action)

def Input.call : Input → CallId
  | .start c _ => c
  | .act c _ => c

namespace Sys

def init : Sys := ⟨Db.empty, [], fun _ => .idle⟩

/-- What a statement of call `c` can see. -/
def view (s : Sys) (c : CallId) : Db := store.commit s.db (s.pending.own c)

def settle (s : Sys) (c : CallId) (k : Call) : Effect → Sys
  | .stage writes => ⟨s.db, s.pending.stage c writes, Function.update s.calls c k⟩
  | .rollback => ⟨s.db, s.pending.drop c, Function.update s.calls c k⟩
  | .commit =>
    ⟨store.commit s.db (s.pending.own c), s.pending.drop c, Function.update s.calls c k⟩

def step (env : Env) (s : Sys) : Input → Option Sys
  | .start c r =>
    match s.calls c with
    | .idle => some { s with calls := Function.update s.calls c (r.start env) }
    | _ => none
  | .act c a =>
    ((s.calls c).step env (s.view c) (store.blocked s.pending c) a).map
      (fun p => s.settle c p.1 p.2)

end Sys

def chat (env : Env) : Machine Sys Input := ⟨Sys.init, Sys.step env⟩

/-- The steps of a send of text up to its commit, when nothing is in its way. -/
def sendSteps (c : CallId) (senderId : UserId) (req : SendMessageRequest) (id : Uuid)
    (now : Timestamp) : List Input :=
  [.start c (.sendMessage senderId req), .act c .query, .act c (.fresh 10 now), .act c .query,
    .act c (.fresh id now), .act c .query]

end ChatBackend
