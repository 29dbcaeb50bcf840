import ChatBackend.Service.Ledger
import ChatBackend.Service.Listing

/-! Every operation as one atomic step, with its fresh ids and clock readings as inputs. A command
decides on the change it commits, if any, and on its answer. -/

namespace ChatBackend

open Lib

/-- How a command that runs alone can end. -/
inductive Ending (ρ : Type) where
  | raised (e : AppError)
  | failed
  | returned (r : ρ)
  deriving DecidableEq

def Ending.ofExcept {ρ : Type} : Except AppError ρ → Ending ρ
  | .error e => .raised e
  | .ok r => .returned r

def attachmentMime (env : Env) (senderId : UserId) (req : SendMessageRequest)
    (stored : Option StoredObject) : Except AppError (Option String) :=
  match req.attachmentKey with
  | none => .ok none
  | some key => (checkAttachment env.settings senderId key stored).map some

/-- The conversation to send in and the rows opened for it. Nothing, when the INSERT fails. -/
def getOrCreateConversation (env : Env) (db : Db) (pair : UserId × UserId)
    (fresh : Uuid × Timestamp) : Option (List Conversation × Conversation) :=
  if env.textLt pair.1 pair.2 then
    match db.conversationOf pair with
    | some c => some ([], c)
    | none =>
      let c : Conversation := ⟨fresh.1, pair.1, pair.2, fresh.2⟩
      if (db.conversation c.id).isSome then none else some ([c], c)
  else none

def sendMessage (env : Env) (db : Db) (senderId : UserId) (req : SendMessageRequest)
    (stored : Option StoredObject) (conversation message : Uuid × Timestamp) :
    Option Change × Ending (MessageOut × Bool) :=
  match checkRequest env senderId req with
  | .error e => (none, .raised e)
  | .ok () =>
    match db.byClientMsgId senderId req.clientMsgId with
    | some existing => (none, .ofExcept ((replay env existing req).map (·, false)))
    | none =>
      match attachmentMime env senderId req stored with
      | .error e => (none, .raised e)
      | .ok mime =>
        match getOrCreateConversation env db (sortedPair senderId req.recipientId) conversation with
        | none => (none, .failed)
        | some (opened, c) =>
          match encodeBody req.body with
          | none => (none, .failed)
          | some body =>
            if (db.message message.1).isSome then (none, .failed)
            else
              let m := newMessage senderId req body mime c.id message.1 message.2
              (some (.sent opened m), .returned (toOut env m, true))

def markDelivered (env : Env) (db : Db) (userId : UserId) (messageId : Uuid) (now : Timestamp) :
    Option Change × Ending MessageOut :=
  match db.messages.find? (deliverWhere userId messageId) with
  | some old => (some (.delivered userId old now), .returned (toOut env (deliverSet now old)))
  | none => (none, .ofExcept (deliveredAlready env userId (db.message messageId)))

def markRead (db : Db) (userId : UserId) (conversationId upToMessageId : Uuid) (now : Timestamp) :
    Option Change × Ending ReadResult :=
  match getConversation db userId conversationId with
  | .error e => (none, .raised e)
  | .ok c =>
    match checkAnchor c (db.message upToMessageId) with
    | .error e => (none, .raised e)
    | .ok anchor =>
      let ids := (db.messages.filter (readWhere c.id userId anchor.key)).map Message.id
      if ids = [] then (none, .returned ⟨c.id, [], none⟩)
      else (some (.read c userId ids now), .returned ⟨c.id, ids, some now⟩)

/-- The tables after a command. -/
def Db.after (env : Env) (db : Db) : Option Change → Db
  | some ch => ch.apply env db
  | none => db

/-- One WebSocket session of a user. -/
structure Session where
  userId : UserId
  number : Nat
  deriving DecidableEq

structure TypingEvent where
  conversationId : Uuid
  userId : UserId
  isTyping : Bool
  deriving DecidableEq

/-- The database, the `_peers` of every session, and the typing events with whom they went to. -/
structure Service where
  db : Db
  peers : List (Session × Uuid × UserId)
  typing : List (UserId × TypingEvent)

def Service.init : Service := ⟨Db.empty, [], []⟩

def Service.peer (s : Service) (session : Session) (conversationId : Uuid) : Option UserId :=
  (s.peers.find? (fun e => e.1 == session && e.2.1 == conversationId)).map (fun e => e.2.2)

def Service.publish (s : Service) (session : Session) (conversationId : Uuid) (isTyping : Bool)
    (peer : UserId) : Service :=
  { s with typing := s.typing ++ [(peer, ⟨conversationId, session.userId, isTyping⟩)] }

/-- `SocketSession._typing`. -/
def sendTyping (s : Service) (session : Session) (conversationId : Uuid) (isTyping : Bool) :
    Service × Except AppError Unit :=
  match s.peer session conversationId with
  | some peer => (s.publish session conversationId isTyping peer, .ok ())
  | none =>
    match getConversation s.db session.userId conversationId with
    | .error e => (s, .error e)
    | .ok c =>
      let peer := c.peerOf session.userId
      let cached := { s with peers := s.peers ++ [(session, conversationId, peer)] }
      (cached.publish session conversationId isTyping peer, .ok ())

inductive Operation where
  | sendMessage (senderId : UserId) (req : SendMessageRequest) (stored : Option StoredObject)
      (conversation message : Uuid × Timestamp)
  | markDelivered (userId : UserId) (messageId : Uuid) (now : Timestamp)
  | markRead (userId : UserId) (conversationId upToMessageId : Uuid) (now : Timestamp)
  | listConversations (userId : UserId) (limit : Nat)
  | listMessages (userId : UserId) (conversationId : Uuid) (limit : Nat) (before after : Option String)
  | typing (session : Session) (conversationId : Uuid) (isTyping : Bool)

def Operation.actor : Operation → UserId
  | .sendMessage senderId .. => senderId
  | .markDelivered userId .. => userId
  | .markRead userId .. => userId
  | .listConversations userId _ => userId
  | .listMessages userId .. => userId
  | .typing session .. => session.userId

inductive Answer where
  | sent (r : Ending (MessageOut × Bool))
  | delivered (r : Ending MessageOut)
  | read (r : Ending ReadResult)
  | conversations (r : List ConversationOut)
  | messages (r : Except AppError MessagePage)
  | typing (r : Except AppError Unit)

def Service.commit (env : Env) (s : Service) : Option Change → Service
  | some ch => { s with db := ch.apply env s.db }
  | none => s

def Service.step (env : Env) (s : Service) : Operation → Service × Answer
  | .sendMessage senderId req stored conversation message =>
    let r := sendMessage env s.db senderId req stored conversation message
    (s.commit env r.1, .sent r.2)
  | .markDelivered userId messageId now =>
    let r := markDelivered env s.db userId messageId now
    (s.commit env r.1, .delivered r.2)
  | .markRead userId conversationId upToMessageId now =>
    let r := markRead s.db userId conversationId upToMessageId now
    (s.commit env r.1, .read r.2)
  | .listConversations userId limit => (s, .conversations (listConversations env s.db userId limit))
  | .listMessages userId conversationId limit before after =>
    (s, .messages (listMessages env s.db userId conversationId limit before after))
  | .typing session conversationId isTyping =>
    let r := sendTyping s session conversationId isTyping
    (r.1, .typing r.2)

/-! What a command commits is valid. -/

theorem getOrCreateConversation_spec {env : Env} {db : Db} {pair : UserId × UserId}
    {fresh : Uuid × Timestamp} {opened : List Conversation} {c : Conversation}
    (h : getOrCreateConversation env db pair fresh = some (opened, c)) :
    c.pair = pair ∧ c ∈ db.conversations ++ opened ∧ (opened = [] ∨ opened = [c]) ∧
    (∀ d ∈ opened, d = ⟨fresh.1, pair.1, pair.2, fresh.2⟩ ∧
      ∀ x ∈ db.conversations, x.id ≠ d.id ∧ x.pair ≠ d.pair) := by
  unfold getOrCreateConversation at h
  split at h
  · split at h
    · rename_i d found
      cases h
      obtain ⟨mem, eq⟩ := Db.conversationOf_some found
      exact ⟨eq, List.mem_append_left _ mem, .inl rfl, by simp⟩
    · rename_i absent
      dsimp only at h
      split at h
      · cases h
      · rename_i unused
        cases h
        refine ⟨rfl, List.mem_append_right _ (List.mem_singleton_self _), .inr rfl, ?_⟩
        intro d hd
        obtain rfl := List.mem_singleton.mp hd
        have noId := Db.conversation_none.mp (Option.not_isSome_iff_eq_none.mp unused)
        have noPair := Db.conversationOf_none.mp absent
        exact ⟨rfl, fun x hx => ⟨noId x hx, noPair x hx⟩⟩
  · cases h

theorem sendMessage_change {env : Env} {db : Db} {u : UserId} {req : SendMessageRequest}
    {stored : Option StoredObject} {conversation message : Uuid × Timestamp} {ch : Change}
    (h : (sendMessage env db u req stored conversation message).1 = some ch) :
    ∃ opened body mime, ∃ c : Conversation,
      ch = .sent opened (newMessage u req body mime c.id message.1 message.2) ∧
      c.pair = sortedPair u req.recipientId ∧
      (∀ d : Conversation, d ∈ opened → d.pair = sortedPair u req.recipientId ∧
        d.id = conversation.1) ∧
      ch.Valid db := by
  unfold sendMessage at h
  split at h
  · cases h
  · rename_i passed
    split at h
    · cases h
    · rename_i absent
      split at h
      · cases h
      · rename_i mime _
        split at h
        · cases h
        · rename_i opened c placed
          split at h
          · cases h
          · rename_i body _
            split at h
            · cases h
            · rename_i unused
              cases h
              obtain ⟨pair, inside, one, new⟩ := getOrCreateConversation_spec placed
              refine ⟨opened, body, mime, c, rfl, pair, fun d hd => ?_, ?_⟩
              · rw [(new d hd).1]
                exact ⟨rfl, rfl⟩
              · have noId := Db.message_none.mp (Option.not_isSome_iff_eq_none.mp unused)
                have noKey := Db.byClientMsgId_none.mp absent
                exact ⟨⟨rfl, rfl, rfl⟩, checkRequest_ne passed, fun x hx => ⟨noId x hx, noKey x hx⟩,
                  fun d hd => (new d hd).2, c, inside, one, pair, rfl⟩

theorem getOrCreateConversation_ok {env : Env} {db : Db} {pair : UserId × UserId}
    {fresh : Uuid × Timestamp}
    (order : env.textLt pair.1 pair.2 = true) (new : db.conversation fresh.1 = none) :
    ∃ opened c, getOrCreateConversation env db pair fresh = some (opened, c) := by
  unfold getOrCreateConversation
  rw [if_pos order]
  split
  · exact ⟨_, _, rfl⟩
  · simp only [new, Option.isSome_none, Bool.false_eq_true, if_false]
    exact ⟨_, _, rfl⟩

theorem markDelivered_change {env : Env} {db : Db} {u : UserId} {id : Uuid} {now : Timestamp}
    {ch : Change} (h : (markDelivered env db u id now).1 = some ch) :
    ∃ old : Message, ch = .delivered u old now ∧ old.id = id ∧ ch.Valid db := by
  unfold markDelivered at h
  split at h
  · rename_i old found
    cases h
    have hit := List.find?_some found
    simp only [deliverWhere, Bool.and_eq_true, beq_iff_eq] at hit
    exact ⟨old, rfl, hit.1.1, List.mem_of_find?_eq_some found, hit.1.2, hit.2⟩
  · cases h

theorem markRead_change {db : Db} {u : UserId} {cid upTo : Uuid} {now : Timestamp} {ch : Change}
    (keys : db.Keys) (h : (markRead db u cid upTo now).1 = some ch) :
    ∃ c : Conversation, ∃ ids, ch = .read c u ids now ∧ c.id = cid ∧ ch.Valid db := by
  unfold markRead at h
  split at h
  · cases h
  · rename_i c found
    split at h
    · cases h
    · rename_i anchor _
      dsimp only at h
      split at h
      · cases h
      · rename_i some
        cases h
        obtain ⟨mem, id, member⟩ := getConversation_ok found
        refine ⟨c, _, rfl, id, ⟨mem, member⟩, some, ?_, ?_⟩
        · exact keys.messageId.sublist (List.filter_sublist.map _)
        · intro i hi
          obtain ⟨m, hm, rfl⟩ := List.mem_map.mp hi
          obtain ⟨hm, hit⟩ := List.mem_filter.mp hm
          simp only [readWhere, Bool.and_eq_true, beq_iff_eq, bne_iff_ne] at hit
          exact ⟨m, hm, rfl, hit.1.1.1, hit.1.1.2, hit.1.2⟩

/-! `mark_delivered` looks its row up by id: the WHERE clause needs no search of its own. -/

theorem find?_filter_unique {α : Type} {p q : α → Bool} {l : List α}
    (unique : ∀ a ∈ l, ∀ b ∈ l, q a = true → q b = true → a = b) :
    (l.find? q).filter p = (l.filter p).find? q := by
  cases found : l.find? q with
  | none =>
    rw [eq_comm, Option.filter_none, List.find?_eq_none]
    exact fun b hb => List.find?_eq_none.mp found b (List.mem_of_mem_filter hb)
  | some a =>
    have mem := List.mem_of_find?_eq_some found
    have hit := List.find?_some found
    cases own : p a with
    | true =>
      rw [Option.filter_some, if_pos own, eq_comm]
      cases again : (l.filter p).find? q with
      | none => exact absurd hit (List.find?_eq_none.mp again a (List.mem_filter.mpr ⟨mem, own⟩))
      | some b =>
        have mem' := List.mem_of_mem_filter (List.mem_of_find?_eq_some again)
        rw [unique b mem' a mem (List.find?_some again) hit]
    | false =>
      rw [Option.filter_some, if_neg (by simp [own]), eq_comm, List.find?_eq_none]
      intro b hb other
      obtain ⟨mem', kept⟩ := List.mem_filter.mp hb
      rw [unique b mem' a mem other hit, own] at kept
      cases kept

/-- What `mark_delivered` does, by the message of that id. -/
def deliverFound (env : Env) (userId : UserId) (now : Timestamp) (found : Option Message) :
    Option Change × Ending MessageOut :=
  match found.filter (fun m => m.recipientId == userId && m.status == .sent) with
  | some old => (some (.delivered userId old now), .returned (toOut env (deliverSet now old)))
  | none => (none, .ofExcept (deliveredAlready env userId found))

theorem find?_deliverWhere {db : Db} (keys : db.Keys) (userId : UserId) (id : Uuid) :
    db.messages.find? (deliverWhere userId id) =
      (db.message id).filter (fun m => m.recipientId == userId && m.status == .sent) := by
  rw [Db.message, find?_filter_unique, List.find?_filter]
  · congr 1
    funext m
    rw [deliverWhere, Bool.eq_iff_iff]
    simp only [Bool.and_eq_true, decide_eq_true_eq]
    tauto
  · intro a ha b hb ea eb
    exact keys.message_unique ha hb ((beq_iff_eq.mp ea).trans (beq_iff_eq.mp eb).symm)

theorem markDelivered_eq {env : Env} {db : Db} (keys : db.Keys) (userId : UserId) (id : Uuid)
    (now : Timestamp) :
    markDelivered env db userId id now = deliverFound env userId now (db.message id) := by
  rw [markDelivered, find?_deliverWhere keys]
  rfl

end ChatBackend
