import ChatBackend.Service.Listing

/-! The cursor as a client carries it: a text that a URL query takes as it is, within the length
that the list endpoint checks before the service sees it. -/

namespace ChatBackend

open Lib

/-- The characters that stand for themselves in a URL query. -/
def unreserved (c : Char) : Bool :=
  ('A' ≤ c && c ≤ 'Z') || ('a' ≤ c && c ≤ 'z') || ('0' ≤ c && c ≤ '9') || "-._~".toList.contains c

/-- A value that the framework refuses: where it stands and why. -/
structure FieldError where
  loc : List String
  msg : String
  deriving DecidableEq, Repr

def FieldError.text (e : FieldError) : String :=
  let loc := ".".intercalate (e.loc.filter (fun p => p ≠ "body"))
  if loc = "" then e.msg else loc ++ ": " ++ e.msg

/-- `_validation_error`. Only the first five errors are told. -/
def validationError (errors : List FieldError) : AppError :=
  let text := "; ".intercalate ((errors.take 5).map FieldError.text)
  ⟨422, "validation_error", if text = "" then "Invalid request" else text⟩

/-- `Annotated[int, Query(ge=low, le=high)]`. -/
def rangeErrors (name : String) (low high limit : Int) : List FieldError :=
  if limit < low then
    [⟨["query", name], s!"Input should be greater than or equal to {low}"⟩]
  else if high < limit then [⟨["query", name], s!"Input should be less than or equal to {high}"⟩]
  else []

/-- `Annotated[str | None, Query(max_length=high)]`. -/
def lengthErrors (name : String) (high : Nat) (raw : Option String) : List FieldError :=
  match raw with
  | none => []
  | some text =>
    if high < text.length then
      [⟨["query", name], s!"String should have at most {high} characters"⟩]
    else []

@[simp] theorem lengthErrors_none (name : String) (high : Nat) : lengthErrors name high none = [] :=
  rfl

def listErrors (limit : Int) (before after : Option String) : List FieldError :=
  rangeErrors "limit" 1 200 limit ++ lengthErrors "before" 200 before ++
    lengthErrors "after" 200 after

/-- `GET /v1/conversations/{conversation_id}/messages`. -/
def getMessages (env : Env) (db : Db) (userId : UserId) (conversationId : Uuid) (limit : Int)
    (before after : Option String) : Except AppError MessagePage :=
  match listErrors limit before after with
  | [] => listMessages env db userId conversationId limit.toNat before after
  | errors => .error (validationError errors)

theorem length_ordToText (days : Nat) : (ordToText days).length = 10 := by
  simp only [ordToText, List.length_append, List.length_cons, length_numeral]

theorem length_isoformat (t : Timestamp) : (isoformat t).length ≤ 32 := by
  have zone : "+00:00".toList.length = 6 := by decide
  have fraction : (if t.val % 1000000 = 0 then []
      else '.' :: numeral 10 6 (t.val % 1000000)).length ≤ 7 := by
    split
    · simp
    · rw [List.length_cons, length_numeral]
  simp only [isoformat, isoText, List.length_append, List.length_cons, length_numeral,
    length_ordToText, zone]
  omega

theorem length_b64encode (bs : List Nat) : (b64encode bs).length = (bs.length + 2) / 3 * 4 := by
  fun_induction b64encode bs with
  | case1 => simp
  | case2 a => simp
  | case3 a b => simp
  | case4 a b c rest ih =>
    simp only [List.length_cons, ih]
    omega

theorem length_utf8Bytes {cs : List Char} (ascii : ∀ c ∈ cs, c.toNat < 128) :
    (utf8Bytes cs).length = cs.length := by
  have bytes : utf8Bytes cs = (cs.flatMap String.utf8EncodeChar).map UInt8.toNat := by
    simp [utf8Bytes, List.utf8Encode]
  have one : ∀ c ∈ cs, (String.utf8EncodeChar c).length = 1 := by
    intro c hc
    have value : c.toNat = c.val.toNat := rfl
    have bound : (127 : UInt32).toNat = 127 := rfl
    have small := ascii c hc
    rw [String.length_utf8EncodeChar, Char.utf8Size_eq_one_iff, UInt32.le_iff_toNat_le]
    omega
  have ones : cs.map (fun c => (String.utf8EncodeChar c).length) = cs.map (fun _ => 1) :=
    List.map_congr_left one
  rw [bytes, List.length_map, List.length_flatMap, ones]
  simp

theorem cursor_ascii (t : Timestamp) (m : Uuid) :
    ∀ c ∈ isoformat t ++ '|' :: uuidText m, c.toNat < 128 := by
  have stamp : ∀ c ∈ "0123456789abcdef-T:.+".toList, c.toNat < 128 := eachChar (by decide)
  have id : ∀ c ∈ "0123456789abcdef-".toList, c.toNat < 128 := eachChar (by decide)
  exact List.forall_mem_append.mpr ⟨fun c hc => stamp c (mem_isoformat hc),
    List.forall_mem_cons.mpr ⟨by decide, fun c hc => id c (mem_uuidText hc)⟩⟩

/-- Even with a microsecond part the text is well under the limit of the query. -/
theorem length_encodeCursor (t : Timestamp) (m : Uuid) : (encodeCursor t m).length ≤ 92 := by
  have raw : (isoformat t ++ '|' :: uuidText m).length ≤ 69 := by
    have stamp := length_isoformat t
    rw [List.length_append, List.length_cons, length_uuidText]
    omega
  have encoded : (b64encode (utf8Bytes (isoformat t ++ '|' :: uuidText m))).length ≤ 92 := by
    rw [length_b64encode, length_utf8Bytes (cursor_ascii t m)]
    omega
  have stripped := (List.rdropWhile_prefix (fun c => c = '=')
    (b64encode (utf8Bytes (isoformat t ++ '|' :: uuidText m)))).length_le
  rw [encodeCursor, String.length_ofList]
  exact Nat.le_trans stripped encoded

theorem encodeCursor_unreserved (t : Timestamp) (m : Uuid) :
    ∀ c ∈ (encodeCursor t m).toList, unreserved c = true := by
  have alphabet : ∀ c ∈ b64Alphabet, unreserved c = true := eachChar (by decide +kernel)
  intro c hc
  rw [encodeCursor, String.toList_ofList] at hc
  exact alphabet c ((b64_repad _).2 c hc)

theorem encodeCursor_injective :
    Function.Injective (fun p : Timestamp × Uuid => encodeCursor p.1 p.2) := by
  intro p q same
  have back : ∀ p : Timestamp × Uuid,
      decodeCursor Env.plain.lenient (encodeCursor p.1 p.2) = some p :=
    fun p => decodeCursor_encodeCursor _ p.1 p.2
  exact Option.some.inj (calc
    some p = decodeCursor Env.plain.lenient (encodeCursor p.1 p.2) := (back p).symm
    _ = decodeCursor Env.plain.lenient (encodeCursor q.1 q.2) := congrArg _ same
    _ = some q := back q)

/-- The endpoint has nothing to object to in a cursor of ours, in either parameter. -/
theorem lengthErrors_encodeCursor (name : String) (t : Timestamp) (m : Uuid) :
    lengthErrors name 200 (some (encodeCursor t m)) = [] := by
  have short : ¬ 200 < (encodeCursor t m).length := by
    have h := length_encodeCursor t m
    omega
  simp only [lengthErrors, if_neg short]

/-- With a cursor of ours in place a member gets the page that follows it. -/
theorem getMessages_cursor {env : Env} {db : Db} {userId : UserId} {conversationId : Uuid}
    {c : Conversation} (member : getConversation db userId conversationId = .ok c) {limit : Nat}
    (range : 1 ≤ limit ∧ limit ≤ 200) (t : Timestamp) (m : Uuid) :
    getMessages env db userId conversationId limit none (some (encodeCursor t m)) =
      .ok (catchUpPage env (page Message.key (db.messagesOf c.id) (toLex (t, m)) (limit + 1)) limit
        (encodeCursor t m)) := by
  have low : ¬ (limit : Int) < 1 := by omega
  have high : ¬ (200 : Int) < limit := by omega
  have clean : listErrors limit none (some (encodeCursor t m)) = [] := by
    simp only [listErrors, lengthErrors_encodeCursor, lengthErrors_none, rangeErrors, if_neg low,
      if_neg high, List.append_nil]
  rw [getMessages, clean]
  exact listMessages_after member limit (toLex (t, m))

theorem cursor_codec (lenient : Lenient) :
    (∀ t m, decodeCursor lenient (encodeCursor t m) = some (t, m)) ∧
    (∀ t m, ∀ c ∈ (encodeCursor t m).toList, unreserved c = true) ∧
    (∀ t m, (encodeCursor t m).length ≤ 200) ∧
    (∀ t m limit,
      listErrors limit (some (encodeCursor t m)) none = listErrors limit none none ∧
      listErrors limit none (some (encodeCursor t m)) = listErrors limit none none) ∧
    Function.Injective (fun p : Timestamp × Uuid => encodeCursor p.1 p.2) := by
  refine ⟨decodeCursor_encodeCursor lenient, encodeCursor_unreserved, ?_, ?_,
    encodeCursor_injective⟩
  · intro t m
    exact Nat.le_trans (length_encodeCursor t m) (by decide)
  · intro t m limit
    constructor
    · simp only [listErrors, lengthErrors_encodeCursor, lengthErrors_none]
    · simp only [listErrors, lengthErrors_encodeCursor, lengthErrors_none]

end ChatBackend
