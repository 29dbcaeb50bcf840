import ChatBackend.Lib.JsonGrammar
import ChatBackend.Service.Alone
import ChatBackend.Service.CursorText
import ChatBackend.Service.SendPaths

/-! What the statements of a send bind to their parameters, and which of it PostgreSQL takes. -/

namespace ChatBackend

open Lib

def nulFree (s : String) : Bool := s.toList.all (fun c => c ≠ Char.ofNat 0)

/-- A text can be bound when it has no surrogate, and is taken when it has no U+0000. -/
def fitsText (t : Text) : Bool := encodable t && t.all (fun c => c ≠ nul)

def fitsLeaf : Json → Bool
  | .str s => fitsText s
  | _ => true

/-- Every string of the document, and every key, fits. -/
def fitsJson : Json → Bool := Json.every fitsText fitsLeaf

/-- A bound value: a text, with the length of its column if it is to be stored in one that has one, or a
JSONB document. -/
inductive Bound where
  | text (limit : Option Nat) (value : Text)
  | jsonb (value : Json)

def Bound.fits : Bound → Bool
  | .text limit value => fitsText value && limit.all (fun n => value.length ≤ n)
  | .jsonb value => fitsJson value

/-! The payload of an outbox row. -/

def uuidJson (id : Uuid) : Json := .str ((uuidText id).map codePoint)

/-- `datetime.isoformat()`. -/
def isoJson (t : Timestamp) : Json := .str ((isoformat t).map codePoint)

/-- How a model dumps a UTC time: with a `Z` in place of the offset. -/
def utcJson (t : Timestamp) : Json :=
  .str (((isoformat t).rdrop "+00:00".length ++ ['Z']).map codePoint)

def stringJson (s : String) : Json := .str (text s)

def optionJson {α : Type} (f : α → Json) : Option α → Json
  | none => .null
  | some a => f a

def MessageStatus.value : MessageStatus → String
  | .sent => "sent"
  | .delivered => "delivered"
  | .read => "read"

/-- `model_dump(mode="json")`. -/
def MessageOut.dump (m : MessageOut) : Json := .obj [
  (text "id", uuidJson m.id),
  (text "conversation_id", uuidJson m.conversationId),
  (text "sender_id", stringJson m.senderId),
  (text "recipient_id", stringJson m.recipientId),
  (text "client_msg_id", stringJson m.clientMsgId),
  (text "body", optionJson stringJson m.body),
  (text "attachment_key", optionJson stringJson m.attachmentKey),
  (text "attachment_mime", optionJson stringJson m.attachmentMime),
  (text "attachment_url", optionJson stringJson m.attachmentUrl),
  (text "status", stringJson m.status.value),
  (text "created_at", utcJson m.createdAt),
  (text "delivered_at", optionJson utcJson m.deliveredAt),
  (text "read_at", optionJson utcJson m.readAt),
  (text "cursor", stringJson m.cursor)]

def Event.data : Event → Json
  | .messageNew data => data.dump
  | .messageDelivered messageId conversationId clientMsgId deliveredAt => .obj [
    (text "message_id", uuidJson messageId),
    (text "conversation_id", uuidJson conversationId),
    (text "client_msg_id", stringJson clientMsgId),
    (text "delivered_at", isoJson deliveredAt)]
  | .messageRead conversationId readerId messageIds readAt => .obj [
    (text "conversation_id", uuidJson conversationId),
    (text "reader_id", stringJson readerId),
    (text "message_ids", .arr (messageIds.map uuidJson)),
    (text "read_at", isoJson readAt)]

def makeEvent (eventType : String) (data : Json) : Json :=
  .obj [(text "type", stringJson eventType), (text "data", data)]

/-! What each statement binds. -/

/-- `USER_ID_LENGTH`. -/
def userIdLength : Nat := 64

def Message.bounds (m : Message) : List Bound :=
  [.text (some userIdLength) (text m.senderId), .text (some userIdLength) (text m.recipientId),
    .text (some 64) (text m.clientMsgId)] ++
  m.body.toList.map (fun b => .text none (text b)) ++
  m.attachmentKey.toList.map (fun k => .text (some 512) (text k)) ++
  m.attachmentMime.toList.map (fun t => .text (some 100) (text t))

def Outbox.bounds (row : Outbox) : List Bound :=
  [.text (some 128) (text row.topic), .jsonb (makeEvent row.payload.type row.payload.data)]

/-- A SELECT compares its parameters with the columns and bounds no length. The INSERT of the message
has its body encoded at `values`, and the outbox rows that `enqueue` staged are sent with the commit. -/
def SendPc.bounds (env : Env) (senderId : UserId) (req : SendMessageRequest) : SendPc → List Bound
  | .lookup | .reread => [.text none (text senderId), .text none (text req.clientMsgId)]
  | .pair _ =>
    [.text (some userIdLength) (text (sortedPair senderId req.recipientId).1),
      .text (some userIdLength) (text (sortedPair senderId req.recipientId).2)]
  | .conversation _ =>
    [.text none (text (sortedPair senderId req.recipientId).1),
      .text none (text (sortedPair senderId req.recipientId).2)]
  | .values _ _ => req.body.toList.map (.text none)
  | .insert m => m.bounds
  | .commit m => (sentRows env m).flatMap Outbox.bounds
  | .attachment _ => []

/-- `_dependency_down`: the answer to a call whose statement PostgreSQL refuses. -/
def dependencyDown : AppError :=
  ⟨503, "service_unavailable", "A backing service is unavailable, retry"⟩

def dataError (bounds : List Bound) : Option AppError :=
  if bounds.all Bound.fits then none else some dependencyDown

/-! Texts that fit. -/

theorem nulFree_iff {s : String} : nulFree s = true ↔ Char.ofNat 0 ∉ s.toList := by
  simp only [nulFree, List.all_eq_true, decide_eq_true_eq]
  exact ⟨fun h mem => h _ mem rfl, fun h c hc e => h (e ▸ hc)⟩

theorem nulFree_mem {s : String} (h : nulFree s = true) : ∀ c ∈ s.toList, c ≠ Char.ofNat 0 := by
  simpa [nulFree] using h

theorem fitsText_map {cs : List Char} (clean : ∀ c ∈ cs, c ≠ Char.ofNat 0) :
    fitsText (cs.map codePoint) = true := by
  rw [fitsText, encodable_chars, Bool.true_and, List.all_map, List.all_eq_true]
  exact fun c hc => decide_eq_true fun same => clean c hc (codePoint_injective same)

theorem fitsText_text {s : String} (h : nulFree s = true) : fitsText (text s) = true :=
  fitsText_map (nulFree_mem h)

theorem fitsText_iff {t : Text} : fitsText t = true ↔ encodable t = true ∧ nul ∉ t := by
  rw [fitsText, Bool.and_eq_true, List.all_eq_true]
  refine and_congr_right fun _ => ⟨fun h mem => ?_, fun h c hc => ?_⟩
  · exact of_decide_eq_true (h nul mem) rfl
  · exact decide_eq_true fun same => h (same ▸ hc)

theorem fitsText_text_iff {s : String} : fitsText (text s) = true ↔ nulFree s = true := by
  refine ⟨fun h => nulFree_iff.mpr fun mem => ?_, fitsText_text⟩
  exact (fitsText_iff.mp h).2 (List.mem_map_of_mem mem)

theorem nulFree_of_class {p : Char → Bool} (nul : p (Char.ofNat 0) = false) {s : String}
    (h : ∀ c ∈ s.toList, p c = true) : nulFree s = true := by
  rw [nulFree, List.all_eq_true]
  intro c hc
  apply decide_eq_true
  rintro rfl
  exact Bool.false_ne_true (nul.symm.trans (h _ hc))

/-- An id that the columns for user ids take. -/
structure FitsUserId (u : UserId) : Prop where
  clean : nulFree u = true
  short : u.length ≤ userIdLength

theorem isUserId_fits {u : UserId} (h : isUserId u = true) : FitsUserId u := by
  simp only [isUserId, Bool.and_eq_true, decide_eq_true_eq, List.all_eq_true] at h
  exact ⟨nulFree_of_class (by decide) h.2, h.1.2⟩

theorem nulFree_append {s t : String} (hs : nulFree s = true) (ht : nulFree t = true) :
    nulFree (s ++ t) = true := by
  rw [nulFree, String.toList_append, List.all_append, Bool.and_eq_true]
  exact ⟨hs, ht⟩

theorem encodeCursor_nulFree (t : Timestamp) (m : Uuid) : nulFree (encodeCursor t m) = true :=
  nulFree_of_class (by decide) (encodeCursor_unreserved t m)

theorem isoformat_ne_nul (t : Timestamp) : ∀ c ∈ isoformat t, c ≠ Char.ofNat 0 := by
  have clean : ∀ c ∈ "0123456789abcdef-T:.+".toList, c ≠ Char.ofNat 0 := eachChar (by decide)
  exact fun c hc => clean c (mem_isoformat hc)

theorem uuidJson_fits (id : Uuid) : fitsJson (uuidJson id) = true := by
  have clean : ∀ c ∈ "0123456789abcdef-".toList, c ≠ Char.ofNat 0 := eachChar (by decide)
  exact fitsText_map fun c hc => clean c (mem_uuidText hc)

theorem utcJson_fits (t : Timestamp) : fitsJson (utcJson t) = true := by
  apply fitsText_map
  intro c hc
  rcases List.mem_append.mp hc with hc | hc
  · exact isoformat_ne_nul t c (List.mem_of_mem_take hc)
  · obtain rfl := List.mem_singleton.mp hc
    decide

theorem optionJson_fits {α : Type} {f : α → Json} {o : Option α}
    (h : ∀ a ∈ o, fitsJson (f a) = true) : fitsJson (optionJson f o) = true := by
  cases o with
  | none => rfl
  | some a => exact h a rfl

theorem stringJson_fits {s : String} (h : nulFree s = true) : fitsJson (stringJson s) = true :=
  fitsText_text h

/-- A document fits when its keys and its members do. -/
theorem obj_fits {members : List (Text × Json)}
    (keys : (members.map Prod.fst).all fitsText = true)
    (values : ∀ v ∈ members.map Prod.snd, fitsJson v = true) :
    fitsJson (.obj members) = true := by
  rw [fitsJson, Json.every]
  refine everyMember_of fun m mem => ⟨?_, values m.2 (List.mem_map_of_mem mem)⟩
  exact List.all_eq_true.mp keys m.1 (List.mem_map_of_mem mem)

theorem toOut_dump_fits {env : Env} {m : Message}
    (url : ∀ key, nulFree key = true → nulFree (env.presignDownload key) = true)
    (sender : nulFree m.senderId = true) (recipient : nulFree m.recipientId = true)
    (clientMsgId : nulFree m.clientMsgId = true) (body : ∀ b ∈ m.body, nulFree b = true)
    (key : ∀ k ∈ m.attachmentKey, nulFree k = true)
    (mime : ∀ t ∈ m.attachmentMime, nulFree t = true) : fitsJson (toOut env m).dump = true := by
  have status : ∀ st : MessageStatus, nulFree st.value = true := by
    intro st
    cases st <;> decide
  have link : ∀ t ∈ (toOut env m).attachmentUrl, nulFree t = true := by
    intro t ht
    obtain ⟨k, hk, rfl⟩ := Option.map_eq_some_iff.mp ht
    exact url k (key k (Option.mem_filter_iff.mp hk).1)
  apply obj_fits
  · simp only [List.map_cons, List.map_nil]
    decide +kernel
  · simp only [List.map_cons, List.map_nil, List.forall_mem_cons]
    exact ⟨uuidJson_fits _, uuidJson_fits _, stringJson_fits sender,
      stringJson_fits recipient, stringJson_fits clientMsgId,
      optionJson_fits fun b hb => stringJson_fits (body b hb),
      optionJson_fits fun k hk => stringJson_fits (key k hk),
      optionJson_fits fun t ht => stringJson_fits (mime t ht),
      optionJson_fits fun t ht => stringJson_fits (link t ht),
      stringJson_fits (status _), utcJson_fits _,
      optionJson_fits fun t _ => utcJson_fits t,
      optionJson_fits fun t _ => utcJson_fits t,
      stringJson_fits (encodeCursor_nulFree _ _), List.forall_mem_nil _⟩

/-! Every bound value of a send. -/

/-- What is taken from outside: MIME types that fit their column, and URLs without U+0000. -/
structure Env.Clean (env : Env) : Prop where
  mime : ∀ t ∈ env.settings.attachmentAllowedMime, nulFree t = true ∧ t.length ≤ 100
  url : ∀ key, nulFree key = true → nulFree (env.presignDownload key) = true

def HoldsNulFree (key : String) : Prop := nulFree key = true

theorem length_text (s : String) : (text s).length = s.length := by
  rw [text, List.length_map, String.length_toList]

theorem text_fits {limit : Option Nat} {s : String} (clean : nulFree s = true)
    (short : ∀ n ∈ limit, s.length ≤ n) : (Bound.text limit (text s)).fits = true := by
  cases limit with
  | none => simp [Bound.fits, fitsText_text clean]
  | some n => simpa [Bound.fits, fitsText_text clean, length_text] using short n rfl

theorem param_fits {s : String} (clean : nulFree s = true) : (Bound.text none (text s)).fits = true :=
  text_fits clean (fun n some => by cases some)

theorem userId_fits {u : UserId} (h : FitsUserId u) :
    (Bound.text (some userIdLength) (text u)).fits = true :=
  text_fits h.clean (by
    rintro n ⟨⟩
    exact h.short)

theorem userTopic_fits {u : UserId} (h : FitsUserId u) :
    (Bound.text (some 128) (text (userTopic u))).fits = true := by
  have small : u.length ≤ 64 := h.short
  have size : (userTopic u).length ≤ 128 := by
    calc (userTopic u).length = 5 + u.length := String.length_append ..
      _ ≤ 128 := by omega
  apply text_fits (nulFree_append (by decide) h.clean)
  rintro n ⟨⟩
  exact size

/-- The driver can encode the body. -/
def SendMessageRequest.Encodable (req : SendMessageRequest) : Prop := ∀ b ∈ req.body, encodable b = true

section Send

variable {env : Env} {u : UserId} {req : SendMessageRequest} (clean : env.Clean)
  (sender : FitsUserId u) (idClean : nulFree req.clientMsgId = true)

include idClean in
theorem clientMsgId_fits : (Bound.text (some 64) (text req.clientMsgId)).fits = true :=
  text_fits idClean (by
    rintro n ⟨⟩
    exact req.clientMsgIdLength.2)

include sender in
theorem sortedPair_fits : FitsUserId (sortedPair u req.recipientId).1 ∧
    FitsUserId (sortedPair u req.recipientId).2 := by
  have recipient := isUserId_fits req.recipientPattern
  unfold sortedPair
  split
  · exact ⟨recipient, sender⟩
  · exact ⟨sender, recipient⟩

theorem body_fits (whole : req.Encodable) : ∀ b ∈ req.body, (Bound.text none b).fits = true := by
  intro b hb
  rw [Bound.fits, fitsText_iff.mpr ⟨whole b hb, (req.bodyText b hb).1⟩]
  rfl

/-- The body that was bound is the body of the request. -/
theorem bound_nulFree {body : Option String} (bound : body.map text = req.body) :
    ∀ b ∈ body, nulFree b = true := by
  rintro b rfl
  have given : text b ∈ req.body := bound ▸ rfl
  exact nulFree_iff.mpr fun mem => (req.bodyText _ given).1 (List.mem_map_of_mem mem)

include clean sender idClean

theorem row_bounds_fit {m : Message} (checked : Checked env HoldsNulFree u req m) :
    ∀ b ∈ m.bounds, b.fits = true := by
  obtain ⟨body, mime, conversationId, id, now, bound, rfl, attached⟩ := checked
  have key : ∀ k ∈ req.attachmentKey, (Bound.text (some 512) (text k)).fits = true := by
    intro k hk
    refine text_fits (attached.key k hk).1 ?_
    rintro n ⟨⟩
    exact (req.attachmentKeyLength k hk).2
  have type : ∀ t ∈ mime, (Bound.text (some 100) (text t)).fits = true := by
    intro t ht
    obtain ⟨free, short⟩ := clean.mime t (attached.mime t ht)
    refine text_fits free ?_
    rintro n ⟨⟩
    exact short
  have content : ∀ b ∈ body, (Bound.text none (text b)).fits = true :=
    fun b hb => param_fits (bound_nulFree bound b hb)
  simp only [Message.bounds, newMessage, List.forall_mem_append, List.forall_mem_cons,
    List.forall_mem_map, Option.mem_toList]
  exact ⟨⟨⟨⟨userId_fits sender, userId_fits (isUserId_fits req.recipientPattern),
    clientMsgId_fits idClean, List.forall_mem_nil _⟩, content⟩, key⟩, type⟩

theorem event_fits {m : Message} (checked : Checked env HoldsNulFree u req m) :
    (Bound.jsonb (makeEvent "message.new" (toOut env m).dump)).fits = true := by
  obtain ⟨body, mime, conversationId, id, now, bound, rfl, attached⟩ := checked
  have data := toOut_dump_fits (m := newMessage u req body mime conversationId id now) clean.url
    sender.clean (isUserId_fits req.recipientPattern).clean idClean (bound_nulFree bound)
    (fun k hk => (attached.key k hk).1) (fun t ht => (clean.mime t (attached.mime t ht)).1)
  apply obj_fits
  · simp only [List.map_cons, List.map_nil]
    decide +kernel
  · simp only [List.map_cons, List.map_nil, List.forall_mem_cons]
    exact ⟨stringJson_fits (by decide), data, List.forall_mem_nil _⟩

/-- Only at `values` can a value fail to fit, and that is the body. -/
theorem bounds_fit {k : SendPc} (knows : SendKnows env HoldsNulFree u req k)
    (whole : ∀ mime cid, k = .values mime cid → req.Encodable) :
    ∀ b ∈ k.bounds env u req, b.fits = true := by
  have lookup : ∀ b ∈ [Bound.text none (text u), .text none (text req.clientMsgId)],
      b.fits = true := by
    simp only [List.forall_mem_cons]
    exact ⟨param_fits sender.clean, param_fits idClean, List.forall_mem_nil _⟩
  have sorted : FitsUserId (sortedPair u req.recipientId).1 ∧
      FitsUserId (sortedPair u req.recipientId).2 := sortedPair_fits sender
  obtain ⟨first, second⟩ := sorted
  cases k with
  | lookup => exact lookup
  | attachment key => exact List.forall_mem_nil _
  | pair mime =>
    simp only [SendPc.bounds, List.forall_mem_cons]
    exact ⟨userId_fits first, userId_fits second, List.forall_mem_nil _⟩
  | conversation mime =>
    simp only [SendPc.bounds, List.forall_mem_cons]
    exact ⟨param_fits first.clean, param_fits second.clean, List.forall_mem_nil _⟩
  | values mime cid =>
    simp only [SendPc.bounds, List.forall_mem_map, Option.mem_toList]
    exact body_fits (whole mime cid rfl)
  | insert m => exact row_bounds_fit clean sender idClean knows
  | reread => exact lookup
  | commit m =>
    have event := event_fits clean sender idClean knows
    obtain ⟨body, mime, conversationId, id, now, bound, rfl, attached⟩ := knows
    intro b hb
    obtain ⟨row, hrow, hb⟩ := List.mem_flatMap.mp hb
    obtain ⟨v, hv, rfl⟩ := List.mem_map.mp hrow
    have user : FitsUserId v := by
      rw [List.mem_eraseDups] at hv
      rcases List.mem_cons.mp hv with rfl | hv
      · exact isUserId_fits req.recipientPattern
      · obtain rfl := List.mem_singleton.mp hv
        exact sender
    rcases List.mem_cons.mp hb with rfl | hb
    · exact userTopic_fits user
    · obtain rfl := List.mem_singleton.mp hb
      exact event

end Send

/-- In no run does a statement of this send bind a value that PostgreSQL refuses. -/
def Storable (env : Env) (u : UserId) (req : SendMessageRequest) : Prop :=
  ∀ is, (∀ x ∈ (chat env).history is, HeadFinds HoldsNulFree x) →
    ∀ c k, ((chat env).run is).calls c = .send u req (.running k) →
      (∀ b ∈ k.bounds env u req, b.fits = true) ∧ dataError (k.bounds env u req) = none

/-- The send can come as far as the INSERT of its row: an object under its key can pass the check,
and the database orders the two users as Python does. -/
structure CanInsert (env : Env) (u : UserId) (req : SendMessageRequest) : Prop where
  held : ∀ key ∈ req.attachmentKey, HoldsNulFree key
  passes : ∃ stored mime, attachmentMime env u req stored = .ok mime
  sorted : Sorted env u req

theorem dataError_none {bounds : List Bound} (h : ∀ b ∈ bounds, b.fits = true) :
    dataError bounds = none := if_pos (List.all_eq_true.mpr h)

section Reach

variable {env : Env} {u : UserId} {req : SendMessageRequest}

/-- A send by itself from the start. -/
def sendRun (u : UserId) (req : SendMessageRequest) (as : List Action) : List Input :=
  .start 0 (.sendMessage u req) :: as.map (.act 0)

theorem sendRun_call (passed : checkRequest env u req = .ok ()) (as : List Action) :
    ((chat env).run (sendRun u req as)).calls 0 =
      (Solo.run env ⟨Db.empty, [], .send u req (.running .lookup)⟩ as).call := by
  have start : (Request.sendMessage u req).start env = .send u req (.running .lookup) := by
    simp only [Request.start, passed]
  have first : (chat env).next (chat env).init (.start 0 (.sendMessage u req)) =
      Solo.sys ⟨Db.empty, [], .send u req (.running .lookup)⟩ (fun _ => .idle) 0 := by
    rw [← start]
    rfl
  rw [sendRun, Machine.run, Machine.exec_cons, first, Solo.run_sys]
  simp only [Solo.sys, Function.update_self]

theorem sendRun_heads {held : String → Prop} {as : List Action}
    (asks : ∀ key ∈ req.attachmentKey, held key) :
    ∀ x ∈ (chat env).history (sendRun u req as), HeadFinds held x := by
  apply chat_heads
  intro c v r start
  rcases List.mem_cons.mp start with same | act
  · cases same
    exact asks
  · obtain ⟨_, _, eq⟩ := List.mem_map.mp act
    cases eq

theorem lookup_run_heads (held : String → Prop) :
    ∀ x ∈ (chat env).history (sendRun u req []), HeadFinds held x := by
  intro x hx c o v r key head
  have action := List.mem_singleton.mp ((chat env).action_mem hx)
  rw [action] at head
  cases head

/-- Where the INSERT can be reached, it is reached in an empty database. -/
theorem reaches_values (passed : checkRequest env u req = .ok ()) (can : CanInsert env u req) :
    ∃ as mime cid, ((chat env).run (sendRun u req as)).calls 0 =
      .send u req (.running (.values mime cid)) := by
  obtain ⟨stored, mime, passes⟩ := can.passes
  have new : Db.empty.conversation ((10, 0) : Uuid × Timestamp).1 = none := rfl
  obtain ⟨opened, c, placed⟩ := getOrCreateConversation_ok can.sorted new
  have absent : Db.empty.byClientMsgId u req.clientMsgId = none := rfl
  refine ⟨[.query, .head stored] ++ [.fresh 10 0, .query], mime, c.id, ?_⟩
  rw [sendRun_call passed, Solo.run_append, send_lookup, absent, passes]
  simp only
  rw [send_pair env Db.empty u req mime (10, 0), placed]

/-- And only there. -/
theorem canInsert_of_values {mime : Option String} {cid : Uuid}
    (knows : SendKnows env HoldsNulFree u req (.values mime cid)) : CanInsert env u req := by
  obtain ⟨attached, sorted⟩ := knows
  refine ⟨fun key given => (attached.key key given).1, ?_, sorted⟩
  cases given : req.attachmentKey with
  | none => exact ⟨none, none, by rw [attachmentMime, given]⟩
  | some key =>
    obtain ⟨-, own, t, allowed, -⟩ := attached.key key given
    have checked : checkAttachment env.settings u key (some ⟨0, t⟩) = .ok t :=
      checkAttachment_own own (Nat.zero_le _) allowed
    exact ⟨some ⟨0, t⟩, some t, by rw [attachmentMime, given]; simp only [checked, Except.map]⟩

end Reach

/-- All columns are guarded but two: nothing keeps U+0000 out of `client_msg_id`, which the first
look-up binds, nor a surrogate out of the body, which the INSERT binds. -/
theorem storable_iff {env : Env} (clean : env.Clean) {u : UserId} (sender : isUserId u = true)
    (req : SendMessageRequest) : Storable env u req ↔
      checkRequest env u req ≠ .ok () ∨
      Char.ofNat 0 ∉ req.clientMsgId.toList ∧ (CanInsert env u req → req.Encodable) := by
  constructor
  · intro storable
    by_cases passed : checkRequest env u req = .ok ()
    · refine .inr ⟨?_, fun can b hb => ?_⟩
      · have first := (storable _ (lookup_run_heads _) 0 .lookup (sendRun_call passed [])).1
        have id := first (.text none (text req.clientMsgId)) (by simp [SendPc.bounds])
        rw [Bound.fits, Bool.and_eq_true, fitsText_text_iff] at id
        exact nulFree_iff.mp id.1
      · obtain ⟨as, mime, cid, running⟩ := reaches_values passed can
        have last := (storable _ (sendRun_heads can.held) 0 _ running).1
        have body := last (.text none b) (List.mem_map_of_mem (Option.mem_toList.mpr hb))
        rw [Bound.fits, Bool.and_eq_true, fitsText_iff] at body
        exact body.1.1
    · exact .inl passed
  · intro cond is found c k running
    have knows := chat_knows is found c
    rw [running] at knows
    obtain ⟨idClean, whole⟩ := cond.resolve_left fun refused => refused knows.1
    have fit := bounds_fit clean (isUserId_fits sender) (nulFree_iff.mpr idClean) knows.2
      (fun mime cid at_ => whole (canInsert_of_values (at_ ▸ knows.2)))
    exact ⟨fit, dataError_none fit⟩

/-- A body of one surrogate is valid, and no driver can send it. -/
example : ∃ req, SendMessageRequest.validate "bob" "m1" (some [0xD800]) none = .ok req ∧
    dataError ((SendPc.values none 10).bounds Env.plain "alice" req) = some dependencyDown :=
  ⟨_, rfl, by decide⟩

theorem plain_clean : Env.plain.Clean where
  mime := by decide
  url := fun key h => h

theorem storable_hello : Storable Env.plain "alice" (.hello "bob" "m1" (by decide) (by decide)) :=
  (storable_iff plain_clean (by decide) (.hello "bob" "m1" (by decide) (by decide))).mpr
    (.inr ⟨by decide, by
      rintro - b ⟨⟩
      decide⟩)

/-- The same message under the id of one U+0000 is valid, and is answered as an outage. -/
theorem nul_client_msg_id :
    SendMessageRequest.validate "bob" "\x00" (some (text "hello")) none =
      .ok (.hello "bob" "\x00" (by decide) (by decide)) ∧
    dataError (SendPc.lookup.bounds Env.plain "alice" (.hello "bob" "\x00" (by decide) (by decide))) =
      some ⟨503, "service_unavailable", "A backing service is unavailable, retry"⟩ ∧
    ¬ Storable Env.plain "alice" (.hello "bob" "\x00" (by decide) (by decide)) := by
  have passed : checkRequest Env.plain "alice" (.hello "bob" "\x00" (by decide) (by decide)) =
      .ok () := rfl
  have refused : dataError (SendPc.lookup.bounds Env.plain "alice"
      (.hello "bob" "\x00" (by decide) (by decide))) = some dependencyDown := by decide
  refine ⟨by rfl, refused, ?_⟩
  intro storable
  have fine := (storable _ (lookup_run_heads _) 0 .lookup (sendRun_call passed [])).2
  rw [refused] at fine
  cases fine

end ChatBackend
