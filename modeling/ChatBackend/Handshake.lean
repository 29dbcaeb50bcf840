import ChatBackend.Auth
import ChatBackend.Lib.Fields
import ChatBackend.Lib.JsonItems

/-! How a token is made, and the ways it comes in: the header of a request, and the two places where a
WebSocket handshake can carry it. -/

namespace ChatBackend

open Lib

/-! Making a token. -/

/-- `encode` signs claims with a secret, `HS256`. -/
structure Mint where
  encode : List (Text × Json) → String → String
  now : Int

/-- A value that Python takes for true. -/
def truthyString (value : Option String) : Option String := value.filter (fun s => s ≠ "")

/-- `if value: claims[key] = value`. -/
def setIfGiven (claims : List (Text × Json)) (key : String) (value : Option String) :
    List (Text × Json) :=
  match truthyString value with
  | some s => setItem claims (text key) (.str (text s))
  | none => claims

def mintClaims (userId : Text) (now ttlSeconds : Int) (userClaim : String)
    (issuer audience : Option String) : List (Text × Json) :=
  let claims := setItem (setItem (setItem [] (text userClaim) (.str userId)) (text "iat") (.int now))
    (text "exp") (.int (now + ttlSeconds))
  setIfGiven (setIfGiven claims "iss" issuer) "aud" audience

def Mint.mintToken (m : Mint) (userId : Text) (secret : String) (ttlSeconds : Int) (userClaim : String)
    (issuer audience : Option String) : String :=
  m.encode (mintClaims userId m.now ttlSeconds userClaim issuer audience) secret

/-! Where it comes in. -/

/-- `get_current_user`. -/
def TokenVerifier.getCurrentUser {Key : Type} (v : TokenVerifier Key) (credentials : Option String) :
    Except AppError Text :=
  match credentials with
  | none => .error ⟨401, "unauthorized", "Missing bearer token"⟩
  | some token => v.verify token

def wsSubprotocol : String := "bearer"

/-- The token and the subprotocol to echo. -/
def websocketToken (header queryToken : Option String) : Option String × Option String :=
  match fields ',' isSpace (header.getD "").toList with
  | first :: second :: _ =>
    if first = wsSubprotocol.toList ∧ second ≠ [] then (some (String.ofList second), some wsSubprotocol)
    else (queryToken, none)
  | _ => (queryToken, none)

def closeUnauthorized : Nat := 4401

inductive Handshake where
  | closed (code : Nat) (reason : String)
  | registered (userId : Text)

/-- `chat_socket`, up to the registration. The socket is accepted first, with the subprotocol. -/
def TokenVerifier.chatSocket {Key : Type} (v : TokenVerifier Key) (header queryToken : Option String) :
    Option String × Handshake :=
  let (token, subprotocol) := websocketToken header queryToken
  (subprotocol,
    match truthyString token with
    | none => .closed closeUnauthorized "missing token"
    | some t =>
      match v.verify t with
      | .error exc => .closed closeUnauthorized exc.code
      | .ok userId => .registered userId)

/-! What the library checks of such claims. -/

structure Passes (now : Int) (options : DecodeOptions) (claims : List (Text × Json)) : Prop where
  required : ∀ key ∈ options.require, getItem claims key ≠ .null
  alive : ∀ t, getItem claims "exp" = .int t → now < t + options.leeway
  issued : ∀ t, getItem claims "iat" = .int t → t ≤ now + options.leeway
  issuer : ∀ i ∈ options.issuer, getItem claims "iss" = .str (text i)
  audience : options.verifyAud = true → ∀ a ∈ options.audience, getItem claims "aud" = .str (text a)

/-- The library gives back the claims of a token that it has encoded, when they pass. `nbf` it would
check as well. -/
def Decodes {Key : Type} (jwt : Jwt Key) (m : Mint) (now : Int) (claims : List (Text × Json))
    (secret : String) (options : DecodeOptions) : Prop :=
  "HS256" ∈ options.algorithms → getItem claims "nbf" = .null → ∀ decoded,
    jwt.decode (m.encode claims secret) (jwt.secretKey secret) options = .ok decoded ↔
      decoded = claims ∧ Passes now options claims

/-! The claims of a minted token. -/

/-- The item `j` where `key` has been set to `value` if that was given. -/
def setOr (key j : String) (value : Option String) (rest : Json) : Json :=
  match truthyString value with
  | some s => if j = key then .str (text s) else rest
  | none => rest

theorem getItem_setIfGiven (claims : List (Text × Json)) (key j : String) (value : Option String) :
    getItem (setIfGiven claims key value) j = setOr key j value (getItem claims j) := by
  unfold setIfGiven setOr
  cases truthyString value with
  | none => rfl
  | some s => exact getItem_setItem claims key j (.str (text s))

theorem setOr_other {key j : String} (ne : j ≠ key) (value : Option String) (rest : Json) :
    setOr key j value rest = rest := by
  unfold setOr
  cases truthyString value with
  | none => rfl
  | some s => exact if_neg ne

theorem setOr_same {key : String} {value : Option String} {s : String}
    (some : truthyString value = .some s) (rest : Json) : setOr key key value rest = .str (text s) := by
  rw [setOr, some]
  exact if_pos rfl

section Minted

variable {u : Text} {now ttl : Int} {claim : String} {issuer audience : Option String}

theorem getItem_mintClaims (j : String) :
    getItem (mintClaims u now ttl claim issuer audience) j =
      setOr "aud" j audience (setOr "iss" j issuer (if j = "exp" then .int (now + ttl)
        else if j = "iat" then .int now else if j = claim then .str u else .null)) := by
  have empty : getItem [] j = .null := rfl
  rw [mintClaims, getItem_setIfGiven, getItem_setIfGiven, getItem_setItem, getItem_setItem,
    getItem_setItem, empty]

theorem minted_exp : getItem (mintClaims u now ttl claim issuer audience) "exp" = .int (now + ttl) := by
  rw [getItem_mintClaims, setOr_other (by decide), setOr_other (by decide), if_pos rfl]

theorem minted_iat : getItem (mintClaims u now ttl claim issuer audience) "iat" = .int now := by
  rw [getItem_mintClaims, setOr_other (by decide), setOr_other (by decide), if_neg (by decide),
    if_pos rfl]

theorem minted_nbf (ne : claim ≠ "nbf") :
    getItem (mintClaims u now ttl claim issuer audience) "nbf" = .null := by
  rw [getItem_mintClaims, setOr_other (by decide), setOr_other (by decide), if_neg (by decide),
    if_neg (by decide), if_neg ne.symm]

/-- No other claim has taken the place of the user's. -/
structure Keeps (u : Text) (claim : String) (issuer audience : Option String) : Prop where
  times : claim ≠ "iat" ∧ claim ≠ "exp"
  issuer : claim = "iss" → ∀ i ∈ truthyString issuer, text i = u
  audience : claim = "aud" → ∀ a ∈ truthyString audience, text a = u

theorem setOr_user {key : String} {value : Option String} :
    setOr key key value (.str u) = .str u ↔ ∀ s ∈ truthyString value, text s = u := by
  unfold setOr
  cases truthyString value with
  | none => simp
  | some s => simp

theorem minted_claim_iff : getItem (mintClaims u now ttl claim issuer audience) claim = .str u ↔
    Keeps u claim issuer audience := by
  constructor
  · intro kept
    have times : claim ≠ "iat" ∧ claim ≠ "exp" := by
      constructor
      · rintro rfl
        rw [minted_iat] at kept
        cases kept
      · rintro rfl
        rw [minted_exp] at kept
        cases kept
    rw [getItem_mintClaims, if_neg times.2, if_neg times.1, if_pos rfl] at kept
    refine ⟨times, ?_, ?_⟩
    · rintro rfl
      rw [setOr_other (by decide)] at kept
      exact setOr_user.mp kept
    · rintro rfl
      have aside : setOr "iss" "aud" issuer (.str u) = .str u := setOr_other (by decide) issuer _
      rw [aside] at kept
      exact setOr_user.mp kept
  · rintro ⟨⟨iat, exp⟩, iss, aud⟩
    rw [getItem_mintClaims, if_neg exp, if_neg iat, if_pos rfl]
    by_cases one : claim = "iss"
    · rw [setOr_other (by rw [one]; decide), one]
      exact setOr_user.mpr (iss one)
    · rw [setOr_other one]
      by_cases two : claim = "aud"
      · rw [two]
        exact setOr_user.mpr (aud two)
      · rw [setOr_other two]

theorem truthyString_empty : truthyString (some "") = none := rfl

theorem truthyString_some {s : String} (ne : s ≠ "") : truthyString (some s) = some s := by
  rw [truthyString, Option.filter_some, if_pos (by simpa using ne)]

/-- A claim that is set where it is not empty and checked wherever it is configured. -/
theorem setOr_checked {key : String} {value : Option String} {rest : Json} (other : rest ≠ .str []) :
    (∀ s ∈ value, setOr key key value rest = .str (text s)) ↔ value ≠ some "" := by
  constructor
  · rintro all rfl
    have empty := all "" rfl
    rw [setOr, truthyString_empty] at empty
    exact other empty
  · rintro ne s mem
    obtain rfl := Option.mem_def.mp mem
    exact setOr_same (truthyString_some fun empty => ne (by rw [empty])) rest

theorem user_not_empty (named : u ≠ []) {j claim : String} :
    (if j = claim then Json.str u else .null) ≠ .str [] := by
  split
  · simpa using named
  · simp

theorem minted_issuer (named : u ≠ []) :
    (∀ i ∈ issuer, getItem (mintClaims u now ttl claim issuer audience) "iss" = .str (text i)) ↔
      issuer ≠ some "" := by
  rw [getItem_mintClaims, setOr_other (by decide), if_neg (by decide), if_neg (by decide)]
  exact setOr_checked (user_not_empty named)

theorem minted_audience (named : u ≠ []) :
    (∀ a ∈ audience, getItem (mintClaims u now ttl claim issuer audience) "aud" = .str (text a)) ↔
      audience ≠ some "" := by
  have aside : ∀ rest, setOr "iss" "aud" issuer rest = rest := setOr_other (by decide) issuer
  rw [getItem_mintClaims, aside, if_neg (by decide), if_neg (by decide)]
  exact setOr_checked (user_not_empty named)

end Minted

/-! The three ways in. -/

section Doors

variable {Key : Type} {v : TokenVerifier Key} {m : Mint} {u : Text} {later ttl : Int}

/-- The token that the settings of a service mint. -/
def TokenVerifier.minted (v : TokenVerifier Key) (m : Mint) (u : Text) (ttl : Int) : String :=
  m.mintToken u v.settings.jwtSecret ttl v.settings.jwtUserClaim v.settings.jwtIssuer
    v.settings.jwtAudience

/-- When the service lets the user of its own token in. -/
structure LetsIn (v : TokenVerifier Key) (m : Mint) (u : Text) (ttl later : Int) : Prop where
  id : matchUserId u = true
  kept : Keeps u v.settings.jwtUserClaim v.settings.jwtIssuer v.settings.jwtAudience
  issuer : v.settings.jwtIssuer ≠ some ""
  audience : v.settings.jwtAudience ≠ some ""
  alive : later < m.now + ttl + v.settings.jwtLeewaySeconds
  issued : m.now ≤ later + v.settings.jwtLeewaySeconds

theorem matchUserId_ne_nil (good : matchUserId u = true) : u ≠ [] := by
  rintro rfl
  have refused : matchUserId [] = false := by decide
  rw [refused] at good
  cases good

theorem verify_item {token : String} {claims : List (Text × Json)} (read : v.claims token = .ok claims)
    (through : v.verify token = .ok u) : getItem claims v.settings.jwtUserClaim = .str u := by
  simp only [TokenVerifier.verify, read] at through
  split at through
  · rename_i s item
    split at through
    · cases through
      exact item
    · cases through
  · cases through

/-- What `verify` asks of the library. -/
def TokenVerifier.options (v : TokenVerifier Key) : DecodeOptions :=
  ⟨["HS256"], v.settings.jwtAudience, v.settings.jwtIssuer, v.settings.jwtLeewaySeconds, ["exp"],
    v.settings.jwtAudience.isSome⟩

theorem claims_hs256 (mode : v.settings.authMode = .hs256) (token : String) :
    v.claims token = v.jwt.decode token (v.jwt.secretKey v.settings.jwtSecret) v.options := by
  have local_ : v.jwkClient = none := by
    rw [TokenVerifier.jwkClient, if_neg (by rw [mode]; decide)]
  have key : v.keyAndAlgorithms token = .ok (v.jwt.secretKey v.settings.jwtSecret, ["HS256"]) := by
    rw [TokenVerifier.keyAndAlgorithms, local_]
  rw [TokenVerifier.claims, key]
  rfl

theorem minted_passes_iff (named : u ≠ []) :
    Passes later v.options (mintClaims u m.now ttl v.settings.jwtUserClaim v.settings.jwtIssuer
      v.settings.jwtAudience) ↔
    v.settings.jwtIssuer ≠ some "" ∧ v.settings.jwtAudience ≠ some "" ∧
      later < m.now + ttl + v.settings.jwtLeewaySeconds ∧
      m.now ≤ later + v.settings.jwtLeewaySeconds := by
  constructor
  · rintro ⟨-, alive, issued, issuer, audience⟩
    have checked : ∀ a ∈ v.settings.jwtAudience, getItem (mintClaims u m.now ttl
        v.settings.jwtUserClaim v.settings.jwtIssuer v.settings.jwtAudience) "aud" = .str (text a) :=
      fun a mem => audience (Option.isSome_iff_exists.mpr ⟨a, mem⟩) a mem
    exact ⟨(minted_issuer named).mp issuer, (minted_audience named).mp checked, alive _ minted_exp,
      issued _ minted_iat⟩
  · rintro ⟨issuer, audience, alive, issued⟩
    refine ⟨fun key mem => ?_, fun t exp => ?_, fun t iat => ?_, (minted_issuer named).mpr issuer,
      fun _ => (minted_audience named).mpr audience⟩
    · rw [List.mem_singleton.mp mem, minted_exp]
      exact Json.noConfusion
    · rw [minted_exp] at exp
      cases exp
      exact alive
    · rw [minted_iat] at iat
      cases iat
      exact issued

theorem verify_minted_iff (mode : v.settings.authMode = .hs256)
    (claim : v.settings.jwtUserClaim ≠ "nbf")
    (decodes : Decodes v.jwt m later (mintClaims u m.now ttl v.settings.jwtUserClaim
      v.settings.jwtIssuer v.settings.jwtAudience) v.settings.jwtSecret v.options) :
    v.verify (v.minted m u ttl) = .ok u ↔ LetsIn v m u ttl later := by
  have decoded := decodes (List.mem_singleton_self _) (minted_nbf claim)
  rw [← Mint.mintToken, ← TokenVerifier.minted, ← claims_hs256 mode] at decoded
  constructor
  · intro through
    cases read : v.claims (v.minted m u ttl) with
    | error e =>
      rw [TokenVerifier.verify, read] at through
      cases through
    | ok claims =>
      obtain ⟨rfl, passes⟩ := (decoded claims).mp read
      have kept := verify_item read through
      have good := (verify_claim read kept).mp through
      obtain ⟨issuer, audience, alive, issued⟩ := (minted_passes_iff (matchUserId_ne_nil good)).mp passes
      exact ⟨good, minted_claim_iff.mp kept, issuer, audience, alive, issued⟩
  · rintro ⟨good, kept, issuer, audience, alive, issued⟩
    have passes := (minted_passes_iff (m := m) (matchUserId_ne_nil good)).mpr
      ⟨issuer, audience, alive, issued⟩
    have read := (decoded _).mpr ⟨rfl, passes⟩
    exact (verify_claim read (minted_claim_iff.mpr kept)).mpr good

/-- A token as a header can carry it in a list. -/
def Carried (token : String) : Prop := token ≠ "" ∧ ∀ c ∈ token.toList, c ≠ ',' ∧ isSpace c = false

theorem Carried.clean {token : String} (carried : Carried token) :
    Clean ',' isSpace token.toList := by
  refine ⟨fun mem => (carried.2 _ mem).1 rfl, ?_⟩
  have front : token.toList.dropWhile isSpace = token.toList := by
    cases chars : token.toList with
    | nil => rfl
    | cons c cs =>
      have plain := (carried.2 c (by rw [chars]; exact List.mem_cons_self)).2
      exact List.dropWhile_cons_of_neg (by rw [plain]; decide)
  rw [strip, front, List.rdropWhile_eq_self_iff]
  intro some last
  rw [(carried.2 _ (List.getLast_mem some)).2] at last
  cases last

theorem websocketToken_offered {token : String} (carried : Carried token) (queryToken : Option String) :
    websocketToken (some ("bearer, " ++ token)) queryToken = (some token, some wsSubprotocol) := by
  have bearer : Clean ',' isSpace wsSubprotocol.toList :=
    Carried.clean ⟨by decide, eachChar (by decide)⟩
  have both : fields ',' isSpace ("bearer, " ++ token).toList =
      [wsSubprotocol.toList, token.toList] := by
    have none_ : ∀ c ∈ [], isSpace c = true := List.forall_mem_nil _
    have blanks : ∀ c ∈ [' '], isSpace c = true := eachChar (by decide)
    let parts : List (Padded ',' isSpace) := [⟨[], wsSubprotocol.toList, [], none_, none_, bearer⟩,
      ⟨[' '], token.toList, [], blanks, none_, carried.clean⟩]
    have joined : ("bearer, " ++ token).toList = [','].intercalate (parts.map Padded.written) := by
      simp only [parts, List.map_cons, List.map_nil, List.intercalate_cons_cons,
        List.intercalate_singleton, Padded.written, String.toList_append, List.append_nil]
      rfl
    rw [joined]
    exact fields_written (by decide) (List.cons_ne_nil _ _)
  have some : token.toList ≠ [] := fun none => carried.1 (String.toList_eq_nil_iff.mp none)
  rw [websocketToken, Option.getD_some, both]
  simp [some, wsSubprotocol]

theorem chatSocket_registered {header queryToken subprotocol : Option String} {token : String}
    (offer : websocketToken header queryToken = (some token, subprotocol)) (some : token ≠ "") :
    v.chatSocket header queryToken = (subprotocol, .registered u) ↔ v.verify token = .ok u := by
  have here : truthyString (.some token) = .some token := truthyString_some some
  simp only [TokenVerifier.chatSocket, offer, here]
  cases v.verify token with
  | error e => simp
  | ok user => simp

end Doors

/-- The service lets the user of a token of its own in just under these conditions, by whichever way the
token comes. -/
theorem minted_token_opens_iff {Key : Type} (v : TokenVerifier Key) (m : Mint) (u : Text)
    (ttl later : Int) (mode : v.settings.authMode = .hs256) (claim : v.settings.jwtUserClaim ≠ "nbf")
    (carried : Carried (v.minted m u ttl))
    (decodes : Decodes v.jwt m later (mintClaims u m.now ttl v.settings.jwtUserClaim
      v.settings.jwtIssuer v.settings.jwtAudience) v.settings.jwtSecret v.options) :
    (v.getCurrentUser (some (v.minted m u ttl)) = .ok u ↔ LetsIn v m u ttl later) ∧
    (v.chatSocket none (some (v.minted m u ttl)) = (none, .registered u) ↔ LetsIn v m u ttl later) ∧
    ∀ queryToken, v.chatSocket (some ("bearer, " ++ v.minted m u ttl)) queryToken =
      (some wsSubprotocol, .registered u) ↔ LetsIn v m u ttl later := by
  have verified := verify_minted_iff mode claim decodes
  refine ⟨verified, ?_, fun queryToken => ?_⟩
  · rw [chatSocket_registered rfl carried.1]
    exact verified
  · rw [chatSocket_registered (websocketToken_offered carried queryToken) carried.1]
    exact verified

/-- A service at noon whose library knows the one token that it has minted. -/
def mintingService : TokenVerifier String where
  settings :=
    ⟨.hs256, "a shared secret of thirty-two chars", none, ["RS256"], some "chat", none, "sub", 30⟩
  jwt := {
    secretKey := id
    signingKey := fun _ _ => .error "no key set"
    decode := fun token _ _ =>
      if token = "minted" then .ok (mintClaims (text "alice") 43200 3600 "sub" (some "chat") none)
      else .error "Signature verification failed" }

def noonMint : Mint := ⟨fun _ _ => "minted", 43200⟩

theorem alice_is_let_in : LetsIn mintingService noonMint (text "alice") 3600 46000 where
  id := by decide
  kept := ⟨by decide, fun same => absurd same (by decide), fun same => absurd same (by decide)⟩
  issuer := by decide
  audience := by decide
  alive := by decide
  issued := by decide

theorem minted_token_opens_alice :
    mintingService.chatSocket
      (some ("bearer, " ++ mintingService.minted noonMint (text "alice") 3600)) none =
      (some wsSubprotocol, .registered (text "alice")) := by
  refine ((minted_token_opens_iff mintingService noonMint (text "alice") 3600 46000 rfl (by decide)
    ⟨by decide, eachChar (by decide)⟩ ?_).2.2 none).mpr alice_is_let_in
  intro _ _ decoded
  have passes : Passes 46000 mintingService.options
      (mintClaims (text "alice") 43200 3600 "sub" (some "chat") none) :=
    (minted_passes_iff (v := mintingService) (m := noonMint) (matchUserId_ne_nil alice_is_let_in.id)).mpr
      ⟨alice_is_let_in.issuer, alice_is_let_in.audience, alice_is_let_in.alive, alice_is_let_in.issued⟩
  have known : mintingService.jwt.decode "minted" "a shared secret of thirty-two chars"
      mintingService.options = .ok (mintClaims (text "alice") 43200 3600 "sub" (some "chat") none) := rfl
  constructor
  · intro read
    exact ⟨(Except.ok.inj (known.symm.trans read)).symm, passes⟩
  · rintro ⟨rfl, -⟩
    exact known

end ChatBackend
