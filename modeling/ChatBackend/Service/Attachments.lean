import ChatBackend.Auth
import ChatBackend.Service.Atomic
import ChatBackend.Service.Refinement
import ChatBackend.Service.Storable

/-! Attachments from the presigned upload to the committed message. The owner, the type and the size
are limited three times: by the presign endpoint, by the policy that storage enforces, and by the
check of a send. -/

namespace ChatBackend

open Lib

/-! `AttachmentStorage`. -/

structure StorageSettings where
  bucket : String
  presignExpirySeconds : Nat

/-- What a POST policy demands of the form and of the file. -/
inductive Condition where
  | field (name value : String)
  | contentLengthRange (low high : Nat)
  deriving DecidableEq

/-- The arguments of `generate_presigned_post`. -/
structure PresignedPost where
  bucket : String
  key : String
  fields : List (String × String)
  conditions : List Condition
  expiresIn : Nat
  deriving DecidableEq

def presignUpload (storage : StorageSettings) (s : Settings) (key contentType : String) :
    PresignedPost where
  bucket := storage.bucket
  key := key
  fields := [("Content-Type", contentType)]
  conditions := [.field "Content-Type" contentType, .contentLengthRange 1 s.attachmentMaxBytes]
  expiresIn := storage.presignExpirySeconds

def Condition.holds (object : StoredObject) : Condition → Bool
  | .field name value => name != "Content-Type" || object.contentType == value
  | .contentLengthRange low high => low ≤ object.size && object.size ≤ high

/-- Storage accepts the object under the policy, at the policy's key. -/
def PresignedPost.admits (post : PresignedPost) (key : String) (object : StoredObject) : Bool :=
  key == post.key && post.conditions.all (Condition.holds object)

/-- The metadata of `head_object`. -/
structure ObjectMeta where
  contentLength : Option Nat
  contentType : Option String

/-- An error of the storage client is given by its code. -/
def AttachmentStorage.head (answer : Except String ObjectMeta) : Except String (Option StoredObject) :=
  match answer with
  | .error code => if code ∈ ["404", "NoSuchKey", "NotFound"] then .ok none else .error code
  | .ok info => .ok (some ⟨info.contentLength.getD 0,
      info.contentType.getD "application/octet-stream"⟩)

/-! The presign endpoint. -/

structure PresignRequest where
  filename : String
  contentType : String
  size : Nat
  filenameLength : 1 ≤ filename.length ∧ filename.length ≤ 255
  contentTypeLength : 3 ≤ contentType.length ∧ contentType.length ≤ 100
  sizePositive : 0 < size

def strip (s : String) : String :=
  String.ofList ((s.toList.dropWhile isSpace).rdropWhile isSpace)

/-- `content_type.split(";", 1)[0].strip().lower()`. -/
def mediaType (lower : String → String) (contentType : String) : String :=
  lower (strip (String.ofList (contentType.toList.takeWhile (fun c => c ≠ ';'))))

/-- `_EXTENSIONS`. -/
def extensions : List (String × String) := [
  ("image/jpeg", ".jpg"),
  ("image/png", ".png"),
  ("image/gif", ".gif"),
  ("image/webp", ".webp"),
  ("application/pdf", ".pdf")]

def attachmentKey (user : UserId) (id : Uuid) (contentType : String) : String :=
  "u/" ++ user ++ "/" ++ String.ofList (uuidText id) ++ (extensions.lookup contentType).getD ""

/-- `presign_attachment`, up to what it hands to the signer. -/
def presignAttachment (lower : String → String) (storage : StorageSettings) (s : Settings)
    (user : UserId) (payload : PresignRequest) (id : Uuid) : Except AppError PresignedPost :=
  let contentType := mediaType lower payload.contentType
  if contentType ∉ s.attachmentAllowedMime then
    .error ⟨415, "unsupported_media_type",
      "Allowed types: " ++ ", ".intercalate s.attachmentAllowedMime⟩
  else if payload.size > s.attachmentMaxBytes then
    .error ⟨413, "payload_too_large", "Limit is " ++ toString s.attachmentMaxBytes ++ " bytes"⟩
  else .ok (presignUpload storage s (attachmentKey user id contentType) contentType)

structure PresignResponse where
  url : String
  fields : List (String × String)
  key : String
  expiresIn : Nat
  maxBytes : Nat

/-- The answer, with the URL and the form fields that the signer makes of the policy. -/
def presignResponse (sign : PresignedPost → String × List (String × String))
    (storage : StorageSettings) (s : Settings) (post : PresignedPost) : PresignResponse where
  url := (sign post).1
  fields := (sign post).2
  key := post.key
  expiresIn := storage.presignExpirySeconds
  maxBytes := s.attachmentMaxBytes

/-! Who can use a key. -/

theorem takeWhile_separator {sep : Char} {cs : List Char} (clean : sep ∉ cs) (rest : List Char) :
    (cs ++ sep :: rest).takeWhile (fun c => c ≠ sep) = cs := by
  have all : ∀ c ∈ cs, decide (c ≠ sep) = true := fun c hc =>
    decide_eq_true fun e => clean (e ▸ hc)
  rw [List.takeWhile_append_of_pos all, List.takeWhile_cons_of_neg (by simp), List.append_nil]

theorem issuedTo_iff {u key : String} :
    issuedTo u key = true ↔ ∃ rest, key.toList = 'u' :: '/' :: (u.toList ++ '/' :: rest) := by
  have opening : ("u/" ++ u ++ "/").toList = 'u' :: '/' :: (u.toList ++ ['/']) := by
    rw [String.toList_append, String.toList_append]
    rfl
  rw [issuedTo, List.isPrefixOf_iff_prefix, opening]
  constructor
  · rintro ⟨rest, eq⟩
    exact ⟨rest, by rw [← eq]; simp⟩
  · rintro ⟨rest, eq⟩
    exact ⟨rest, by rw [eq]; simp⟩

/-- Two users without a slash in their ids share no key, even where one id begins the other. -/
theorem issuedTo_unique {u v key : String} (hu : '/' ∉ u.toList) (hv : '/' ∉ v.toList)
    (first : issuedTo u key = true) (second : issuedTo v key = true) : u = v := by
  obtain ⟨rest, key_u⟩ := issuedTo_iff.mp first
  obtain ⟨more, key_v⟩ := issuedTo_iff.mp second
  have tails : u.toList ++ '/' :: rest = v.toList ++ '/' :: more :=
    (List.cons.inj (List.cons.inj (key_u.symm.trans key_v)).2).2
  apply String.toList_injective
  calc u.toList = (u.toList ++ '/' :: rest).takeWhile (fun c => c ≠ '/') :=
        (takeWhile_separator hu rest).symm
    _ = (v.toList ++ '/' :: more).takeWhile (fun c => c ≠ '/') := by rw [tails]
    _ = v.toList := takeWhile_separator hv more

theorem AcceptedId.no_slash {u : UserId} (h : AcceptedId u) : '/' ∉ u.toList :=
  h.not_mem (by decide) (by decide)

theorem issuedTo_attachmentKey (u : UserId) (id : Uuid) (t : String) :
    issuedTo u (attachmentKey u id t) = true := by
  have eq : attachmentKey u id t = "u/" ++ u ++ "/" ++
      (String.ofList (uuidText id) ++ (extensions.lookup t).getD "") := String.append_assoc ..
  rw [issuedTo, List.isPrefixOf_iff_prefix, eq, String.toList_append (s := "u/" ++ u ++ "/")]
  exact List.prefix_append _ _

theorem extension_mem (t : String) :
    (extensions.lookup t).getD "" ∈ ["", ".jpg", ".png", ".gif", ".webp", ".pdf"] := by
  simp only [extensions, List.lookup_cons, List.lookup_nil]
  repeat' split
  all_goals decide

theorem AcceptedId.nulFree {u : UserId} (h : AcceptedId u) : nulFree u = true :=
  nulFree_iff.mpr (h.not_mem (by decide) (by decide))

theorem length_attachmentKey {u : UserId} (h : AcceptedId u) (id : Uuid) (t : String) :
    1 ≤ (attachmentKey u id t).length ∧ (attachmentKey u id t).length ≤ 512 := by
  have ends : ∀ e ∈ ["", ".jpg", ".png", ".gif", ".webp", ".pdf"], e.length ≤ 5 := by decide
  have extension := ends _ (extension_mem t)
  have user := h.length
  have size : (attachmentKey u id t).length =
      2 + u.length + 1 + 36 + ((extensions.lookup t).getD "").length := by
    simp only [attachmentKey, String.length_append, String.length_ofList, length_uuidText]
    rfl
  omega

theorem attachmentKey_nulFree {u : UserId} (h : AcceptedId u) (id : Uuid) (t : String) :
    nulFree (attachmentKey u id t) = true := by
  have ends : ∀ e ∈ ["", ".jpg", ".png", ".gif", ".webp", ".pdf"], ChatBackend.nulFree e = true := by
    decide
  have hex : ∀ c ∈ "0123456789abcdef-".toList, c ≠ Char.ofNat 0 := eachChar (by decide)
  have uuid : ChatBackend.nulFree (String.ofList (uuidText id)) = true := by
    rw [nulFree_iff, String.toList_ofList]
    exact fun mem => hex _ (mem_uuidText mem) rfl
  exact nulFree_append (nulFree_append (nulFree_append (nulFree_append (by decide) h.nulFree)
    (by decide)) uuid) (ends _ (extension_mem t))

/-! From the endpoint through storage to the check of a send. -/

section Issued

variable {lower : String → String} {storage : StorageSettings} {s : Settings} {u : UserId}
  {payload : PresignRequest} {id : Uuid} {post : PresignedPost}

theorem presignAttachment_ok (issued : presignAttachment lower storage s u payload id = .ok post) :
    mediaType lower payload.contentType ∈ s.attachmentAllowedMime ∧
    payload.size ≤ s.attachmentMaxBytes ∧
    post = presignUpload storage s (attachmentKey u id (mediaType lower payload.contentType))
      (mediaType lower payload.contentType) := by
  unfold presignAttachment at issued
  dsimp only at issued
  split at issued
  · cases issued
  · rename_i allowed
    split at issued
    · cases issued
    · rename_i small
      cases issued
      exact ⟨not_not.mp allowed, Nat.le_of_not_gt small, rfl⟩

theorem presignUpload_admits {key t : String} {object : StoredObject}
    (uploaded : (presignUpload storage s key t).admits key object = true) :
    object.contentType = t ∧ 1 ≤ object.size ∧ object.size ≤ s.attachmentMaxBytes := by
  simpa [PresignedPost.admits, presignUpload, Condition.holds] using uploaded

theorem checkAttachment_other {key : String} (other : issuedTo u key = false)
    (found : Option StoredObject) : checkAttachment s u key found =
      .error ⟨422, "invalid_attachment", "attachment_key was not issued to you"⟩ := by
  rw [issuedTo] at other
  simp only [checkAttachment, other, Bool.not_false, if_true]

end Issued

/-! A send of what was uploaded. -/

/-- An upload that the endpoint and then storage let through. -/
structure Upload (lower : String → String) (storage : StorageSettings) (s : Settings)
    (u : UserId) where
  payload : PresignRequest
  id : Uuid
  post : PresignedPost
  object : StoredObject
  issued : presignAttachment lower storage s u payload id = .ok post
  admitted : post.admits post.key object = true

/-- The rest of a send of the user: it is valid, new, and gets fresh ids. -/
structure Draft (env : Env) (db : Db) (u : UserId) where
  recipientId : UserId
  clientMsgId : String
  body : Option Text
  content : Option Text
  conversation : Uuid × Timestamp
  message : Uuid × Timestamp
  recipientPattern : isUserId recipientId = true
  clientMsgIdLength : 1 ≤ clientMsgId.length ∧ clientMsgId.length ≤ 64
  normalised : normaliseBody body = .ok content
  other : recipientId ≠ u
  short : ∀ b ∈ content, env.graphemeLength b ≤ env.settings.messageMaxGraphemes
  new : db.byClientMsgId u clientMsgId = none
  freshConversation : db.conversation conversation.1 = none
  freshMessage : db.message message.1 = none

/-- The statements that a send which commits `m` has run. -/
def sendPath (key : String) (m : Message) : List SendPc :=
  [.lookup, .attachment key, .pair m.attachmentMime, .conversation m.attachmentMime,
    .values m.attachmentMime m.conversationId, .insert m, .commit m]

section Send

variable {env : Env} {lower : String → String} {storage : StorageSettings} {db : Db} {u : UserId}

/-- The send commits a row with the type, by statements that bind only what PostgreSQL takes. -/
def StoredAs (env : Env) (db : Db) (u : UserId) (req : SendMessageRequest) (object : StoredObject)
    (conversation message : Uuid × Timestamp) (key contentType : String) : Prop :=
  ∃ opened m, sendMessage env db u req (some object) conversation message =
      (some (.sent opened m), .returned (toOut env m, true)) ∧
    m.attachmentKey = some key ∧ m.attachmentMime = some contentType ∧
    ∀ k ∈ sendPath key m, ∀ b ∈ k.bounds env u req, b.fits = true

/-- What presigning promises for the send: the schema and the check pass, the row is stored with
the type of the policy, and nobody else can use the key. -/
structure Agree (up : Upload lower storage env.settings u) (d : Draft env db u) : Prop where
  accepted : ∃ req, SendMessageRequest.validate d.recipientId d.clientMsgId d.body
      (some up.post.key) = .ok req ∧
    checkAttachment env.settings u up.post.key (some up.object) = .ok up.object.contentType ∧
    .field "Content-Type" up.object.contentType ∈ up.post.conditions ∧
    StoredAs env db u req up.object d.conversation d.message up.post.key up.object.contentType
  refused : ∀ v, AcceptedId v → v ≠ u → ∀ found, checkAttachment env.settings v up.post.key found =
    .error ⟨422, "invalid_attachment", "attachment_key was not issued to you"⟩

theorem checkRequest_ok {req : SendMessageRequest} (other : req.recipientId ≠ u)
    (short : ∀ b ∈ req.body, env.graphemeLength b ≤ env.settings.messageMaxGraphemes) :
    checkRequest env u req = .ok () := by
  unfold checkRequest
  rw [if_neg other]
  split
  · rfl
  · rename_i b some_
    exact if_neg (Nat.not_lt.mpr (short b some_))

/-- The request that the draft and a key make. -/
def Draft.request (d : Draft env db u) (key : String) (length : 1 ≤ key.length ∧ key.length ≤ 512) :
    SendMessageRequest where
  recipientId := d.recipientId
  clientMsgId := d.clientMsgId
  body := d.content
  attachmentKey := some key
  recipientPattern := d.recipientPattern
  clientMsgIdLength := d.clientMsgIdLength
  attachmentKeyLength := by
    rintro k ⟨⟩
    exact length
  bodyText := normaliseBody_text d.normalised
  hasContent := .inr (by simp)

theorem Draft.validate (d : Draft env db u) {key : String}
    (length : 1 ≤ key.length ∧ key.length ≤ 512) :
    SendMessageRequest.validate d.recipientId d.clientMsgId d.body (some key) =
      .ok (d.request key length) := by
  have keys : ∀ k ∈ some key, 1 ≤ k.length ∧ k.length ≤ 512 := by
    rintro k ⟨⟩
    exact length
  unfold SendMessageRequest.validate
  rw [dif_pos d.recipientPattern, dif_pos d.clientMsgIdLength, dif_pos keys]
  split
  · rename_i reason bad
    rw [d.normalised] at bad
    cases bad
  · rename_i out good
    rw [d.normalised] at good
    cases good
    exact dif_pos (.inr (by simp))

theorem sendMessage_attachment (d : Draft env db u) {key : String} {object : StoredObject}
    (length : 1 ≤ key.length ∧ key.length ≤ 512)
    (checked : checkAttachment env.settings u key (some object) = .ok object.contentType)
    (order : env.textLt (sortedPair u d.recipientId).1 (sortedPair u d.recipientId).2 = true)
    (whole : ∀ b ∈ d.content, encodable b = true) :
    ∃ opened body conversationId, body.map text = d.content ∧
      let m := newMessage u (d.request key length) body (some object.contentType) conversationId
        d.message.1 d.message.2
      sendMessage env db u (d.request key length) (some object) d.conversation d.message =
        (some (.sent opened m), .returned (toOut env m, true)) := by
  obtain ⟨opened, c, conversation⟩ := getOrCreateConversation_ok order d.freshConversation
  obtain ⟨body, bound⟩ : ∃ body, encodeBody (d.request key length).body = some body := by
    refine Option.ne_none_iff_exists'.mp fun surrogate => ?_
    obtain ⟨b, hb, bad⟩ := encodeBody_eq_none.mp surrogate
    exact Bool.false_ne_true (bad.symm.trans (whole b hb))
  have mime : attachmentMime env u (d.request key length) (some object) =
      .ok (some object.contentType) := by
    simp only [attachmentMime, Draft.request, checked]
    rfl
  have passed : checkRequest env u (d.request key length) = .ok () := checkRequest_ok d.other d.short
  have new : db.byClientMsgId u (d.request key length).clientMsgId = none := d.new
  have pair : getOrCreateConversation env db (sortedPair u (d.request key length).recipientId)
      d.conversation = some (opened, c) := conversation
  refine ⟨opened, body, c.id, encodeBody_eq_some.mp bound, ?_⟩
  simp only [sendMessage, passed, new, mime, pair, bound, d.freshMessage, Option.isSome_none,
    Bool.false_eq_true, if_false]

/-- The limits that do not concern the attachment: the sender's column, the id of the message, a
body that can be encoded, and an order of the two users that the database shares with Python. -/
structure Draft.Fits (d : Draft env db u) : Prop where
  sender : u.length ≤ userIdLength
  clientMsgId : Char.ofNat 0 ∉ d.clientMsgId.toList
  body : ∀ b ∈ d.content, encodable b = true
  order : env.textLt (sortedPair u d.recipientId).1 (sortedPair u d.recipientId).2 = true

theorem path_bounds_fit {req : SendMessageRequest} {key : String} {m : Message}
    (clean : env.Clean) (sender : FitsUserId u) (idClean : nulFree req.clientMsgId = true)
    (whole : req.Encodable) (given : req.attachmentKey = some key)
    (attached : Attached env HoldsNulFree u req m.attachmentMime) (sorted : Sorted env u req)
    (checked : Checked env HoldsNulFree u req m) :
    ∀ k ∈ sendPath key m, ∀ b ∈ k.bounds env u req, b.fits = true := by
  have fit : ∀ k, SendKnows env HoldsNulFree u req k → ∀ b ∈ k.bounds env u req, b.fits = true :=
    fun k knows => bounds_fit clean sender idClean knows (fun _ _ _ => whole)
  simp only [sendPath, List.forall_mem_cons]
  exact ⟨fit .lookup trivial, fit (.attachment key) given, fit (.pair _) attached,
    fit (.conversation _) ⟨attached, sorted⟩, fit (.values _ _) ⟨attached, sorted⟩,
    fit (.insert m) checked, fit (.commit m) checked, List.forall_mem_nil _⟩

/-- What the endpoint and storage have made sure of. -/
structure Upload.Sound (up : Upload lower storage env.settings u) : Prop where
  length : 1 ≤ up.post.key.length ∧ up.post.key.length ≤ 512
  own : issuedTo u up.post.key = true
  held : HoldsNulFree up.post.key
  type : .field "Content-Type" up.object.contentType ∈ up.post.conditions
  allowed : up.object.contentType ∈ env.settings.attachmentAllowedMime
  small : up.object.size ≤ env.settings.attachmentMaxBytes

theorem Upload.sound (user : AcceptedId u) (up : Upload lower storage env.settings u) : up.Sound := by
  obtain ⟨allowed, -, eq⟩ := presignAttachment_ok up.issued
  have admitted := up.admitted
  rw [eq] at admitted
  obtain ⟨type, -, small⟩ := presignUpload_admits admitted
  have key : up.post.key = attachmentKey u up.id (mediaType lower up.payload.contentType) := by
    rw [eq]
    rfl
  exact {
    length := key ▸ length_attachmentKey user up.id _
    own := key ▸ issuedTo_attachmentKey u up.id _
    held := key ▸ attachmentKey_nulFree user up.id _
    type := by
      rw [eq, type]
      exact List.mem_cons_self
    allowed := type ▸ allowed
    small := small }

theorem agree_of_fits (clean : env.Clean) (user : AcceptedId u)
    (up : Upload lower storage env.settings u) (d : Draft env db u) (fits : d.Fits) :
    Agree up d := by
  have sound := up.sound user
  have checked := checkAttachment_own sound.own sound.small sound.allowed
  refine ⟨⟨d.request up.post.key sound.length, d.validate sound.length, checked, sound.type, ?_⟩, ?_⟩
  · obtain ⟨opened, body, cid, bound, stored⟩ :=
      sendMessage_attachment d sound.length checked fits.order fits.body
    have attached : Attached env HoldsNulFree u (d.request up.post.key sound.length)
        (some up.object.contentType) := ⟨sound.held, sound.own, sound.allowed⟩
    exact ⟨opened, _, stored, rfl, rfl, path_bounds_fit clean ⟨user.nulFree, fits.sender⟩
      (nulFree_iff.mpr fits.clientMsgId) fits.body rfl attached fits.order
      ⟨body, _, _, _, _, bound, rfl, attached⟩⟩
  · intro v other ne found
    apply checkAttachment_other
    rw [← Bool.not_eq_true]
    exact fun also => ne (issuedTo_unique other.no_slash user.no_slash also sound.own)

/-- The sender is one of the pair, whose columns have the length. -/
theorem sender_short {req : SendMessageRequest} {mime : Option String}
    (fit : ∀ b ∈ (SendPc.pair mime).bounds env u req, b.fits = true) : u.length ≤ userIdLength := by
  simp only [SendPc.bounds, List.forall_mem_cons, Bound.fits, Bool.and_eq_true, Option.all_some,
    decide_eq_true_eq, length_text] at fit
  obtain ⟨⟨-, first⟩, ⟨-, second⟩, -⟩ := fit
  unfold sortedPair at first second
  split at second
  · exact second
  · rename_i before
    rw [if_neg before] at first
    exact first

theorem fits_of_agree (user : AcceptedId u) {up : Upload lower storage env.settings u}
    {d : Draft env db u} (agree : Agree up d) : d.Fits := by
  obtain ⟨req, valid, checked, -, opened, m, stored, -, -, bounds⟩ := agree.accepted
  have length := (up.sound user).length
  rw [d.validate length] at valid
  cases valid
  simp only [sendPath, List.forall_mem_cons] at bounds
  obtain ⟨lookup, -, pair, -, values, -, -, -⟩ := bounds
  refine ⟨sender_short pair, ?_, fun b hb => ?_, ?_⟩
  · have id := lookup (.text none (text d.clientMsgId)) (List.mem_of_mem_tail List.mem_cons_self)
    rw [Bound.fits, Bool.and_eq_true, fitsText_text_iff] at id
    exact nulFree_iff.mp id.1
  · have body := values (.text none b) (List.mem_map_of_mem (Option.mem_toList.mpr hb))
    rw [Bound.fits, Bool.and_eq_true, fitsText_iff] at body
    exact body.1.1
  by_contra order
  have none_ : getOrCreateConversation env db
      (sortedPair u (d.request up.post.key length).recipientId) d.conversation = none :=
    if_neg order
  have passed : checkRequest env u (d.request up.post.key length) = .ok () :=
    checkRequest_ok d.other d.short
  have new : db.byClientMsgId u (d.request up.post.key length).clientMsgId = none := d.new
  simp only [sendMessage, passed, new, none_] at stored
  split at stored <;> cases stored

end Send

/-! Every committed attachment. -/

/-- The row names an accepted sender, and its key and type passed the check for that sender. -/
structure Message.Owned (env : Env) (m : Message) : Prop where
  sender : AcceptedId m.senderId
  attachment : ∀ key ∈ m.attachmentKey, issuedTo m.senderId key = true ∧
    ∃ t ∈ env.settings.attachmentAllowedMime, m.attachmentMime = some t

theorem SameColumns.owned {env : Env} {m n : Message} (h : SameColumns m n) (owned : m.Owned env) :
    n.Owned env where
  sender := h.senderId ▸ owned.sender
  attachment := by
    rw [h.attachmentKey, h.senderId, h.attachmentMime]
    exact owned.attachment

/-- A send commits a row that has passed its own check. -/
theorem Sys.added_owned {env : Env} {s : Sys} {i : Input} {ch : Change}
    (knows : ∀ c, CallKnows env (fun _ => True) (s.calls c))
    (by_ : ∀ c, CallBy (fun v _ => AcceptedId v) (s.calls c))
    (h : s.change i = some ch) : ∀ m ∈ ch.added, m.Owned env := by
  intro m hm
  unfold Sys.change at h
  split at h
  · rename_i c
    have known := knows c
    have user := by_ c
    unfold Call.change at h
    split at h
    · rename_i u req n call
      cases h
      rw [call] at known user
      obtain rfl := List.mem_singleton.mp hm
      obtain ⟨-, body, mime, cid, id, now, -, rfl, attached⟩ := known
      exact ⟨user, fun key given => (attached.key key given).2⟩
    · cases h
      cases hm
    · cases h
      cases hm
    · cases h
  · cases h

structure Sys.Owned (env : Env) (s : Sys) : Prop where
  inv : s.Inv env
  knows : ∀ c, CallKnows env (fun _ => True) (s.calls c)
  users : ∀ c, CallBy (fun v _ => AcceptedId v) (s.calls c)
  rows : ∀ m ∈ s.db.messages, m.Owned env

theorem Sys.Owned.step {env : Env} {s t : Sys} {i : Input} (owned : s.Owned env)
    (starts : SentBy (fun v _ => AcceptedId v) ⟨s, i, t⟩) (h : s.step env i = some t) : t.Owned env where
  inv := owned.inv.step h
  knows := Sys.step_knows owned.knows (fun _ _ _ _ _ _ _ => trivial) h
  users := Sys.step_by owned.users starts h
  rows := by
    have change := owned.inv.step_change h
    intro n hn
    cases e : s.change i with
    | none =>
      rw [e] at change
      rw [change] at hn
      exact owned.rows n hn
    | some ch =>
      rw [e] at change
      obtain ⟨valid, db⟩ := change
      rw [db] at hn
      rcases Change.mem_messages.mp hn with ⟨m, hm, rfl⟩ | new
      · exact (Change.touch owned.inv.sound.keys valid hm).same.owned (owned.rows m hm)
      · exact Sys.added_owned owned.knows owned.users e n new

theorem chat_owned (env : Env) (is : List Input)
    (users : ∀ c u req, .start c (.sendMessage u req) ∈ is → AcceptedId u) :
    ((chat env).run is).Owned env := by
  have initial : (chat env).init.Owned env :=
    ⟨Sys.Inv.init env, fun _ => trivial, fun _ => trivial, List.forall_mem_nil _⟩
  exact (chat env).exec_guarded (SentBy (fun v _ => AcceptedId v)) (Sys.Owned env)
    (fun _ _ _ owned starts step => owned.step starts step) _ initial is
    (fun x hx c u req start => users c u req (start ▸ (chat env).action_mem hx))

/-- Whatever keys clients make up: an attachment that was committed is its sender's and of an
allowed type, and every other user is refused its key. -/
def Unshared (env : Env) (db : Db) : Prop :=
  ∀ m ∈ db.messages, ∀ key ∈ m.attachmentKey, issuedTo m.senderId key = true ∧
    (∀ v, AcceptedId v → v ≠ m.senderId → ∀ found, checkAttachment env.settings v key found =
      .error ⟨422, "invalid_attachment", "attachment_key was not issued to you"⟩) ∧
    ∃ t ∈ env.settings.attachmentAllowedMime, m.attachmentMime = some t

theorem Sys.Owned.unshared {env : Env} {s : Sys} (owned : s.Owned env) : Unshared env s.db := by
  intro m hm key given
  obtain ⟨sender, attachment⟩ := owned.rows m hm
  obtain ⟨own, mime⟩ := attachment key given
  refine ⟨own, ?_, mime⟩
  intro v user ne found
  apply checkAttachment_other
  rw [← Bool.not_eq_true]
  exact fun also => ne (issuedTo_unique user.no_slash sender.no_slash also own)

/-- Presigning and sending agree on everything about the attachment. What can still fail a send is
the rest of it: an id that only the token check accepts does not fit its column. -/
theorem presign_and_send_agree_iff (env : Env) (clean : env.Clean) (lower : String → String)
    (storage : StorageSettings) :
    (∀ (db : Db) (u : UserId), AcceptedId u → ∀ (up : Upload lower storage env.settings u)
      (d : Draft env db u), Agree up d ↔ d.Fits) ∧
    ∀ is, (∀ c u req, .start c (.sendMessage u req) ∈ is → AcceptedId u) →
      Unshared env ((chat env).run is).db :=
  ⟨fun _ _ user up d => ⟨fits_of_agree user, agree_of_fits clean user up d⟩,
    fun is users => (chat_owned env is users).unshared⟩

/-- An upload of one byte under the user's name. -/
def pngUpload (u : UserId) :
    Upload String.toLower ⟨"chat-attachments", 600⟩ Env.plain.settings u where
  payload := ⟨"a.png", "Image/PNG ; q=1", 1, by decide, by decide, by decide⟩
  id := 7
  post := presignUpload ⟨"chat-attachments", 600⟩ Env.plain.settings (attachmentKey u 7 "image/png")
    "image/png"
  object := ⟨1, "image/png"⟩
  issued := by
    have type : mediaType String.toLower "Image/PNG ; q=1" = "image/png" := by decide +kernel
    simp [presignAttachment, type, Env.plain]
  admitted := by
    simp [PresignedPost.admits, presignUpload, Condition.holds, Env.plain]

/-- A send to an empty database. -/
def helloDraft (u : UserId) (other : "bob" ≠ u) : Draft Env.plain Db.empty u where
  recipientId := "bob"
  clientMsgId := "m1"
  body := some (text "hello")
  content := some (text "hello")
  conversation := (10, 0)
  message := (11, 0)
  recipientPattern := by decide
  clientMsgIdLength := by decide
  normalised := rfl
  other := other
  short := by decide
  new := rfl
  freshConversation := rfl
  freshMessage := rfl

/-- The steps of a send of what `u` uploaded. -/
def uploadSteps (u : UserId) (req : SendMessageRequest) : List Input :=
  [.start 0 (.sendMessage u req), .act 0 .query, .act 0 (.head (some ⟨1, "image/png"⟩)),
    .act 0 (.fresh 10 0), .act 0 .query, .act 0 (.fresh 11 0), .act 0 .query, .act 0 .commit]

theorem presign_and_send_agree_alice : Agree (pngUpload "alice") (helloDraft "alice" (by decide)) ∧
    Unshared Env.plain ((chat Env.plain).run (uploadSteps "alice"
      ((helloDraft "alice" (by decide)).request "u/alice/1.png" (by decide)))).db := by
  obtain ⟨agree, unshared⟩ := presign_and_send_agree_iff Env.plain plain_clean String.toLower
    ⟨"chat-attachments", 600⟩
  have user : AcceptedId "alice" := accepted_iff.mpr (.inl (by decide))
  constructor
  · exact (agree Db.empty "alice" user _ _).mpr ⟨by decide, by decide, by decide, by decide⟩
  · apply unshared
    intro c u req start
    rcases List.mem_cons.mp start with eq | rest
    · cases eq
      exact user
    · simp at rest

/-- 64 characters of the pattern and a newline: `verify` lets the user in, and no column takes it. -/
def overlongUser : UserId := String.ofList (List.replicate 64 'a') ++ "\n"

theorem overlong_user_cannot_send : AcceptedId overlongUser ∧
    ¬ Agree (pngUpload overlongUser) (helloDraft overlongUser (by decide)) := by
  have user : AcceptedId overlongUser :=
    accepted_iff.mpr (.inr ⟨String.ofList (List.replicate 64 'a'), by decide, rfl⟩)
  refine ⟨user, fun agree => ?_⟩
  have short : overlongUser.length ≤ 64 := (fits_of_agree user agree).sender
  have long : overlongUser.length = 65 := by decide
  omega

end ChatBackend
