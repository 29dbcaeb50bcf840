import Mathlib.Data.Set.List
import ChatBackend.Lib.PyText
import ChatBackend.Lib.Regex
import ChatBackend.Models

/-! Who the caller is. The claim of a bearer token and the `recipient_id` of a request run through
one pattern, in two engines: Python's `re`, and the one of the validation library. -/

namespace ChatBackend

open Lib

def newline : CodePoint := codePoint '\n'

def between (low high : Char) (c : CodePoint) : Bool := low.toNat ≤ c.val && c.val ≤ high.toNat

/-- `[A-Za-z0-9_.@:-]`. -/
def userIdClass (c : CodePoint) : Bool :=
  between 'A' 'Z' c || between 'a' 'z' c || between '0' '9' c || (text "_.@:-").contains c

/-- `^[A-Za-z0-9_.@:-]{1,64}$`, as both `auth.py` and `schemas.py` write it. -/
def userIdPattern : Regex CodePoint := .whole userIdClass 1 64

/-- `USER_ID_PATTERN.match`. -/
def matchUserId (s : Text) : Bool := Regex.accepts (Regex.looseEnd newline) userIdPattern s

/-- The field type `UserId`. The validator takes the string as UTF-8 and searches it. -/
def schemaUserId (s : Text) : Bool := encodable s && Regex.search Regex.strictEnd userIdPattern s

inductive AuthMode where
  | hs256 | jwks
  deriving DecidableEq

structure AuthSettings where
  authMode : AuthMode
  jwtSecret : String
  jwksUrl : Option String
  jwtAlgorithms : List String
  jwtIssuer : Option String
  jwtAudience : Option String
  jwtUserClaim : String
  jwtLeewaySeconds : Int

structure DecodeOptions where
  algorithms : List String
  audience : Option String
  issuer : Option String
  leeway : Int
  require : List String
  verifyAud : Bool

/-- The token library: the key of a secret, the key that a provider signed a token with, and the
claims of a token that passes every check. -/
structure Jwt (Key : Type) where
  secretKey : String → Key
  signingKey : String → String → Except String Key
  decode : String → Key → DecodeOptions → Except String (List (Text × Json))

structure TokenVerifier (Key : Type) where
  settings : AuthSettings
  jwt : Jwt Key

namespace TokenVerifier

variable {Key : Type} (v : TokenVerifier Key)

/-- The URL of `_jwk_client`, where there is one. -/
def jwkClient : Option String :=
  if v.settings.authMode = .jwks then v.settings.jwksUrl.filter (fun url => url ≠ "") else none

def keyAndAlgorithms (token : String) : Except String (Key × List String) :=
  match v.jwkClient with
  | none => .ok (v.jwt.secretKey v.settings.jwtSecret, ["HS256"])
  | some url => (v.jwt.signingKey url token).map fun key => (key, v.settings.jwtAlgorithms)

/-- What `jwt.decode` gives `verify`, or the text of the error. -/
def claims (token : String) : Except String (List (Text × Json)) := do
  let (key, algorithms) ← v.keyAndAlgorithms token
  v.jwt.decode token key ⟨algorithms, v.settings.jwtAudience, v.settings.jwtIssuer,
    v.settings.jwtLeewaySeconds, ["exp"], v.settings.jwtAudience.isSome⟩

def notUserId : AppError :=
  ⟨401, "invalid_token", "Claim '" ++ v.settings.jwtUserClaim ++ "' is not a user id"⟩

def verify (token : String) : Except AppError Text :=
  match v.claims token with
  | .error exc => .error ⟨401, "invalid_token", "Token rejected: " ++ exc⟩
  | .ok claims =>
    match getItem claims v.settings.jwtUserClaim with
    | .str userId => if matchUserId userId then .ok userId else .error v.notUserId
    | _ => .error v.notUserId

end TokenVerifier

/-! The two languages. -/

/-- The texts of user ids. -/
def IsUserIdText (s : Text) : Prop := ∃ id : String, isUserId id = true ∧ s = text id

theorem userIdClass_codePoint (c : Char) : userIdClass (codePoint c) = userIdChar c := by
  have same : (codePoint c).val = c.toNat := rfl
  have signs : (text "_.@:-").contains (codePoint c) = "_.@:-".toList.contains c := by
    rw [Bool.eq_iff_iff, List.contains_iff_mem, List.contains_iff_mem, text]
    exact List.mem_map_of_injective fun _ _ h => codePoint_injective h
  simp only [userIdClass, userIdChar, between, same, signs, Char.le_def]
  rfl

theorem userIdClass_ascii {c : CodePoint} (h : userIdClass c = true) : c.val < 128 := by
  have signs : ∀ c ∈ text "_.@:-", c.val < 128 := each (by decide)
  have high : 'Z'.toNat < 128 ∧ 'z'.toNat < 128 ∧ '9'.toNat < 128 := by decide
  simp only [userIdClass, between, Bool.or_eq_true, Bool.and_eq_true, decide_eq_true_eq,
    List.contains_iff_mem] at h
  rcases h with ((⟨-, h⟩ | ⟨-, h⟩) | ⟨-, h⟩) | h
  · omega
  · omega
  · omega
  · exact signs c h

theorem exists_char {c : CodePoint} (h : c.val < 128) : ∃ a : Char, codePoint a = c :=
  ⟨Char.ofNatAux c.val (.inl (by omega)), rfl⟩

theorem exists_text {s : Text} (ascii : ∀ c ∈ s, c.val < 128) : ∃ t : String, text t = s := by
  have chars : s ∈ Set.range (List.map codePoint) := by
    rw [Set.range_list_map]
    exact fun c hc => exists_char (ascii c hc)
  obtain ⟨cs, rfl⟩ := chars
  exact ⟨String.ofList cs, by rw [text, String.toList_ofList]⟩

theorem word_text (id : String) : Regex.Word userIdClass 1 64 (text id) ↔ isUserId id = true := by
  have length : (text id).length = id.length := by rw [text, List.length_map, String.length_toList]
  have letters : (∀ c ∈ text id, userIdClass c = true) ↔ id.toList.all userIdChar = true := by
    rw [List.all_eq_true, text, List.forall_mem_map]
    simp only [userIdClass_codePoint]
  rw [isUserId, Bool.and_eq_true, Bool.and_eq_true, decide_eq_true_eq, decide_eq_true_eq,
    ← letters, ← length]
  constructor
  · rintro ⟨lower, upper, letters⟩
    exact ⟨⟨lower, upper⟩, letters⟩
  · rintro ⟨⟨lower, upper⟩, letters⟩
    exact ⟨lower, upper, letters⟩

theorem word_iff {s : Text} : Regex.Word userIdClass 1 64 s ↔ IsUserIdText s := by
  constructor
  · intro word
    obtain ⟨id, rfl⟩ := exists_text fun c hc => userIdClass_ascii (word.letters c hc)
    exact ⟨id, (word_text id).mp word, rfl⟩
  · rintro ⟨id, good, rfl⟩
    exact (word_text id).mpr good

theorem schemaUserId_iff {s : Text} : schemaUserId s = true ↔ IsUserIdText s := by
  have search : Regex.search Regex.strictEnd userIdPattern s = true ↔ IsUserIdText s := by
    rw [userIdPattern, Regex.whole, Regex.search_first]
    exact Regex.accepts_strict.trans word_iff
  rw [schemaUserId, Bool.and_eq_true, search]
  constructor
  · exact fun h => h.2
  · rintro ⟨id, good, rfl⟩
    exact ⟨encodable_text id, id, good, rfl⟩

theorem matchUserId_iff {s : Text} : matchUserId s = true ↔
    IsUserIdText s ∨ ∃ id : String, isUserId id = true ∧ s = text id ++ [newline] := by
  rw [matchUserId, userIdPattern, Regex.accepts_loose, word_iff]
  apply or_congr_right
  constructor
  · rintro ⟨cs, rfl, word⟩
    obtain ⟨id, good, rfl⟩ := word_iff.mp word
    exact ⟨id, good, rfl⟩
  · rintro ⟨id, good, rfl⟩
    exact ⟨text id, rfl, (word_text id).mpr good⟩

/-- `verify` lets a user of this id in. -/
def AcceptedId (u : UserId) : Prop := matchUserId (text u) = true

theorem accepted_iff {u : UserId} :
    AcceptedId u ↔ isUserId u = true ∨ ∃ id : String, isUserId id = true ∧ u = id ++ "\n" := by
  have same : ∀ id : String, text u = text id ++ [newline] ↔ u = id ++ "\n" := by
    intro id
    have join : text (id ++ "\n") = text id ++ [newline] := by
      rw [text, String.toList_append, List.map_append]
      rfl
    rw [← join]
    exact text_inj
  rw [AcceptedId, matchUserId_iff, ← word_iff, word_text]
  simp only [same]

/-- No id that is let in holds a character that neither the pattern nor a final newline has. -/
theorem AcceptedId.not_mem {u : UserId} (h : AcceptedId u) {c : Char} (outside : userIdChar c = false)
    (ne : c ≠ '\n') : c ∉ u.toList := by
  have word : ∀ id : String, isUserId id = true → c ∉ id.toList := by
    intro id good mem
    simp only [isUserId, Bool.and_eq_true, List.all_eq_true] at good
    rw [good.2 c mem] at outside
    cases outside
  rcases accepted_iff.mp h with good | ⟨id, good, rfl⟩
  · exact word u good
  · rw [String.toList_append, List.mem_append]
    rintro (mem | mem)
    · exact word id good mem
    · exact ne (List.mem_singleton.mp mem)

theorem AcceptedId.length {u : UserId} (h : AcceptedId u) : 1 ≤ u.length ∧ u.length ≤ 65 := by
  have word : ∀ id : String, isUserId id = true → 1 ≤ id.length ∧ id.length ≤ 64 := by
    intro id good
    simp only [isUserId, Bool.and_eq_true, decide_eq_true_eq] at good
    exact good.1
  rcases accepted_iff.mp h with good | ⟨id, good, rfl⟩
  · obtain ⟨lower, upper⟩ := word u good
    exact ⟨lower, by omega⟩
  · obtain ⟨lower, upper⟩ := word id good
    have size : (id ++ "\n").length = id.length + 1 := String.length_append ..
    omega

/-! One notion of a user id. -/

/-- A separator in a storage key, a wildcard of a channel pattern, a blank or a control. -/
def isSpecial (c : CodePoint) : Bool :=
  c.val ≤ 32 || c.val == 127 || (text "/\\*?[]").contains c

theorem userIdClass_plain {c : CodePoint} (h : userIdClass c = true) : isSpecial c = false := by
  have all : ∀ n < 128, ∀ small : n < 0x110000, userIdClass ⟨n, small⟩ = true →
      isSpecial ⟨n, small⟩ = false := by decide +kernel
  exact all c.val (userIdClass_ascii h) c.isLt h

variable {Key : Type}

/-- The user that `token` names as `s` is let in just when others can write to `s`. -/
structure OneNotion (v : TokenVerifier Key) (token : String) (s : Text) : Prop where
  agree : v.verify token = .ok s ↔ schemaUserId s = true
  authenticated : v.verify token = .ok s ↔ IsUserIdText s
  addressed : schemaUserId s = true ↔ IsUserIdText s
  fits : v.verify token = .ok s → s.length ≤ 64
  plain : v.verify token = .ok s → ∀ c ∈ s, isSpecial c = false

theorem verify_claim {v : TokenVerifier Key} {token : String} {claims : List (Text × Json)} {s : Text}
    (valid : v.claims token = .ok claims)
    (claim : getItem claims v.settings.jwtUserClaim = .str s) :
    v.verify token = .ok s ↔ matchUserId s = true := by
  simp only [TokenVerifier.verify, valid, claim]
  split
  · rename_i hit
    exact ⟨fun _ => hit, fun _ => rfl⟩
  · rename_i miss
    constructor
    · intro h
      cases h
    · intro h
      exact absurd h miss

theorem not_isUserIdText_newline (id : String) : ¬ IsUserIdText (text id ++ [newline]) := by
  intro h
  have last : userIdClass newline = true := (word_iff.mpr h).letters newline (by simp)
  have refused : userIdClass newline = false := by decide +kernel
  rw [refused] at last
  cases last

/-- A service whose one valid token names `s`. -/
def TokenVerifier.naming (s : Text) : TokenVerifier String where
  settings := ⟨.hs256, "a shared secret of thirty-two chars", none, ["RS256"], none, none, "sub", 30⟩
  jwt := {
    secretKey := id
    signingKey := fun _ _ => .error "no key set"
    decode := fun token key options =>
      if token = "token" ∧ key = "a shared secret of thirty-two chars" ∧
          "HS256" ∈ options.algorithms then
        .ok [(text "sub", .str s), (text "exp", .int 2000000000)]
      else .error "Signature verification failed" }

theorem naming_claims (s : Text) : (TokenVerifier.naming s).claims "token" =
    .ok [(text "sub", .str s), (text "exp", .int 2000000000)] := by
  have keys : (TokenVerifier.naming s).keyAndAlgorithms "token" =
      .ok ("a shared secret of thirty-two chars", ["HS256"]) := rfl
  rw [TokenVerifier.claims, keys]
  simp [TokenVerifier.naming, bind, Except.bind]

/-- The two sides part at one kind of text: an id and a newline, which only Python's `$` lets by. -/
theorem one_user_id_iff (v : TokenVerifier Key) {token : String} {claims : List (Text × Json)}
    {s : Text} (valid : v.claims token = .ok claims)
    (claim : getItem claims v.settings.jwtUserClaim = .str s) :
    OneNotion v token s ↔ ¬ ∃ id : String, isUserId id = true ∧ s = text id ++ [newline] := by
  have accepted := verify_claim valid claim
  constructor
  · rintro one ⟨id, good, rfl⟩
    have through : v.verify token = .ok (text id ++ [newline]) :=
      accepted.mpr (matchUserId_iff.mpr (.inr ⟨id, good, rfl⟩))
    exact not_isUserIdText_newline id (one.authenticated.mp through)
  · intro clean
    have language : v.verify token = .ok s ↔ IsUserIdText s := by
      rw [accepted, matchUserId_iff]
      exact or_iff_left clean
    have word : v.verify token = .ok s → Regex.Word userIdClass 1 64 s :=
      fun h => word_iff.mpr (language.mp h)
    exact {
      agree := language.trans schemaUserId_iff.symm
      authenticated := language
      addressed := schemaUserId_iff
      fits := fun h => (word h).upper
      plain := fun h c hc => userIdClass_plain ((word h).letters c hc) }

theorem one_user_id_alice : OneNotion (.naming (text "alice")) "token" (text "alice") := by
  refine (one_user_id_iff (.naming (text "alice")) (naming_claims (text "alice")) rfl).mpr ?_
  rintro ⟨id, -, eq⟩
  have last : newline ∈ text "alice" := eq ▸ List.mem_append_right _ (List.mem_singleton_self _)
  have clean : ∀ c ∈ text "alice", c ≠ newline := each (by decide)
  exact clean newline last rfl

theorem final_newline_accepted :
    (TokenVerifier.naming (text "alice\n")).verify "token" = .ok (text "alice\n") ∧
    schemaUserId (text "alice\n") = false ∧
    ¬ OneNotion (.naming (text "alice\n")) "token" (text "alice\n") := by
  have claims := naming_claims (text "alice\n")
  have eq : text "alice\n" = text "alice" ++ [newline] := by decide
  have good : isUserId "alice" = true := by decide
  have through : (TokenVerifier.naming (text "alice\n")).verify "token" = .ok (text "alice\n") :=
    (verify_claim claims rfl).mpr (matchUserId_iff.mpr (.inr ⟨"alice", good, eq⟩))
  have refused : ¬ IsUserIdText (text "alice\n") := eq ▸ not_isUserIdText_newline "alice"
  refine ⟨through, ?_, fun one => refused (one.authenticated.mp through)⟩
  rw [← Bool.not_eq_true, schemaUserId_iff]
  exact refused

end ChatBackend
