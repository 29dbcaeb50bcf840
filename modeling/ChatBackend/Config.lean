import ChatBackend.Handshake

/-! The settings: lists that the environment writes in one variable, and what the settings of the
verifier have to be for the service to start. -/

namespace ChatBackend

open Lib

/-! Lists. -/

/-- `_split_csv` of a variable's text. -/
def splitCsv (value : String) : List String :=
  ((fields ',' isSpace value.toList).filter (fun item => item ≠ [])).map String.ofList

structure CsvItem (item : String) : Prop where
  some : item ≠ ""
  clean : Clean ',' isSpace item.toList

/-- An item as it may be written. One of blanks only is none. -/
abbrev CsvPart := Padded ',' isSpace

def CsvPart.item (p : CsvPart) : String := String.ofList p.field

def joinCsv (parts : List CsvPart) : String :=
  String.ofList ([','].intercalate (parts.map Padded.written))

theorem splitCsv_item {value item : String} (mem : item ∈ splitCsv value) : CsvItem item := by
  obtain ⟨chars, kept, rfl⟩ := List.mem_map.mp mem
  obtain ⟨field, some⟩ := List.mem_filter.mp kept
  have some : chars ≠ [] := of_decide_eq_true some
  refine ⟨fun empty => some ?_, by rw [String.toList_ofList]; exact fields_clean field⟩
  have none := congrArg String.toList empty
  rwa [String.toList_ofList] at none

theorem splitCsv_joinCsv (parts : List CsvPart) :
    splitCsv (joinCsv parts) = (parts.map CsvPart.item).filter (fun item => item ≠ "") := by
  have full : (fun item : String => decide (item ≠ "")) ∘ String.ofList =
      fun field => decide (field ≠ []) := by
    funext field
    refine decide_eq_decide.mpr (not_congr ⟨fun empty => ?_, fun none => none ▸ rfl⟩)
    exact String.ofList_injective (empty.trans rfl)
  have items : parts.map CsvPart.item = (parts.map Padded.field).map String.ofList := by
    rw [List.map_map]
    rfl
  rw [splitCsv, joinCsv, String.toList_ofList, items, List.filter_map, full]
  cases parts with
  | nil => rfl
  | cons p parts => rw [fields_written (by decide) (List.cons_ne_nil p parts)]

/-- Every list of items can be written. -/
theorem exists_parts {items : List String} (good : ∀ item ∈ items, CsvItem item) :
    ∃ parts : List CsvPart, parts.map CsvPart.item = items := by
  induction items with
  | nil => exact ⟨[], rfl⟩
  | cons item items ih =>
    obtain ⟨parts, rest⟩ := ih fun other mem => good other (List.mem_cons_of_mem item mem)
    refine ⟨⟨[], item.toList, [], List.forall_mem_nil _, List.forall_mem_nil _,
      (good item List.mem_cons_self).clean⟩ :: parts, ?_⟩
    rw [List.map_cons, rest, CsvPart.item, String.ofList_toList]

/-- What a variable lists is a list of items, every list of items can be listed, and it is read whatever
blanks stand before and behind the items and whatever commas stand beside each other. -/
theorem csv_lists_round_trip :
    (∀ value, ∀ item ∈ splitCsv value, CsvItem item) ∧
    (∀ parts : List CsvPart,
      splitCsv (joinCsv parts) = (parts.map CsvPart.item).filter (fun item => item ≠ "")) ∧
    ∀ items, (∀ item ∈ items, CsvItem item) →
      (∃ parts : List CsvPart, parts.map CsvPart.item = items) ∧
      ∀ parts : List CsvPart, parts.map CsvPart.item = items → splitCsv (joinCsv parts) = items := by
  refine ⟨fun _ _ mem => splitCsv_item mem, splitCsv_joinCsv, fun items good =>
    ⟨exists_parts good, fun parts same => ?_⟩⟩
  rw [splitCsv_joinCsv, same]
  exact List.filter_eq_self.mpr fun item mem => decide_eq_true (good item mem).some

example : splitCsv " image/png,, image/jpeg ," = ["image/png", "image/jpeg"] := by decide +kernel

/-! The verifier. -/

/-- `_check_auth`. -/
def checkAuth (s : AuthSettings) : Except String Unit :=
  if s.authMode = .hs256 ∧ s.jwtSecret.length < 32 then
    .error "AUTH_MODE=hs256 requires JWT_SECRET of at least 32 characters"
  else if s.authMode = .jwks ∧ truthyString s.jwksUrl = none then
    .error "AUTH_MODE=jwks requires JWKS_URL"
  else .ok ()

/-- The library took the token with this key, and it names this user. -/
structure Vouched {Key : Type} (v : TokenVerifier Key) (token : String) (key : Key)
    (algorithms : List String) (u : Text) : Prop where
  decoded : ∃ claims, v.jwt.decode token key ⟨algorithms, v.settings.jwtAudience, v.settings.jwtIssuer,
      v.settings.jwtLeewaySeconds, ["exp"], v.settings.jwtAudience.isSome⟩ = .ok claims ∧
    getItem claims v.settings.jwtUserClaim = .str u
  id : matchUserId u = true

theorem verify_ok {Key : Type} {v : TokenVerifier Key} {token : String} {u : Text}
    (through : v.verify token = .ok u) :
    ∃ key algorithms, v.keyAndAlgorithms token = .ok (key, algorithms) ∧
      Vouched v token key algorithms u := by
  cases found : v.keyAndAlgorithms token with
  | error e =>
    have refused : v.claims token = .error e := by
      rw [TokenVerifier.claims, found]
      rfl
    rw [TokenVerifier.verify, refused] at through
    cases through
  | ok pair =>
    obtain ⟨key, algorithms⟩ := pair
    have asked : v.claims token = v.jwt.decode token key ⟨algorithms, v.settings.jwtAudience,
        v.settings.jwtIssuer, v.settings.jwtLeewaySeconds, ["exp"], v.settings.jwtAudience.isSome⟩ := by
      rw [TokenVerifier.claims, found]
      rfl
    cases read : v.claims token with
    | error e =>
      rw [TokenVerifier.verify, read] at through
      cases through
    | ok claims =>
      have item := verify_item read through
      exact ⟨key, algorithms, rfl, ⟨claims, asked ▸ read, item⟩, (verify_claim read item).mp through⟩

/-- Once the settings have passed, a token is let in by the long secret under its one algorithm, or by a
key of the provider under the algorithms of the settings. -/
theorem only_configured_keys_vouch {Key : Type} (v : TokenVerifier Key) (token : String) (u : Text)
    (accepted : checkAuth v.settings = .ok ()) (through : v.verify token = .ok u) :
    (v.settings.authMode = .hs256 ∧ 32 ≤ v.settings.jwtSecret.length ∧
      Vouched v token (v.jwt.secretKey v.settings.jwtSecret) ["HS256"] u) ∨
    (v.settings.authMode = .jwks ∧ ∃ url key, v.settings.jwksUrl = some url ∧ url ≠ "" ∧
      v.jwt.signingKey url token = .ok key ∧ Vouched v token key v.settings.jwtAlgorithms u) := by
  obtain ⟨key, algorithms, found, vouched⟩ := verify_ok through
  unfold checkAuth at accepted
  split at accepted
  · cases accepted
  rename_i long
  split at accepted
  · cases accepted
  rename_i provided
  cases mode : v.settings.authMode with
  | hs256 =>
    have local_ : v.jwkClient = none := by
      rw [TokenVerifier.jwkClient, if_neg (by rw [mode]; decide)]
    rw [TokenVerifier.keyAndAlgorithms, local_] at found
    cases found
    exact .inl ⟨rfl, Nat.le_of_not_lt fun short => long ⟨mode, short⟩, vouched⟩
  | jwks =>
    cases url : truthyString v.settings.jwksUrl with
    | none => exact absurd ⟨mode, url⟩ provided
    | some url' =>
      obtain ⟨named, some⟩ := Option.filter_eq_some_iff.mp url
      have client : v.jwkClient = .some url' := by
        rw [TokenVerifier.jwkClient, if_pos mode]
        exact url
      rw [TokenVerifier.keyAndAlgorithms, client] at found
      cases signed : v.jwt.signingKey url' token with
      | error e =>
        simp only [signed] at found
        cases found
      | ok key' =>
        simp only [signed] at found
        cases found
        exact .inr ⟨rfl, url', key, named, of_decide_eq_true some, signed, vouched⟩

theorem alice_is_vouched_for :
    Vouched (.naming (text "alice")) "token" "a shared secret of thirty-two chars" ["HS256"]
      (text "alice") := by
  have through : (TokenVerifier.naming (text "alice")).verify "token" = .ok (text "alice") :=
    (verify_claim (naming_claims (text "alice")) rfl).mpr (by decide)
  rcases only_configured_keys_vouch (.naming (text "alice")) "token" (text "alice") (by decide)
    through with ⟨-, -, vouched⟩ | ⟨mode, -⟩
  · exact vouched
  · cases mode

end ChatBackend
