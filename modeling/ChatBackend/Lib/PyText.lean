import ChatBackend.Lib.JsonEncoder

/-! Other texts Python makes: `repr` and `str` of a decoded value, which never have a surrogate that
the value did not show as one, and `bytes.decode("utf-8", "replace")`. -/

namespace Lib

/-- `str.isprintable` on a character, from the Unicode database. -/
structure Printing where
  printable : CodePoint → Bool
  surrogate : ∀ c, isSurrogate c = true → printable c = false

def hexText (width n : Nat) : Text :=
  (List.range width).reverse.map fun i => hexDigit (n / 16 ^ i % 16)

def apostrophe : CodePoint := 39

namespace Printing

variable (unicode : Printing)

def charRepr (quote c : CodePoint) : Text :=
  if c = quote ∨ c = codePoint '\\' then [codePoint '\\', c]
  else if c = codePoint '\t' then text "\\t"
  else if c = codePoint '\n' then text "\\n"
  else if c = codePoint '\r' then text "\\r"
  else if c.val < 32 ∨ c.val = 127 then text "\\x" ++ hexText 2 c.val
  else if c.val < 127 ∨ unicode.printable c then [c]
  else if c.val < 0x100 then text "\\x" ++ hexText 2 c.val
  else if c.val < 0x10000 then text "\\u" ++ hexText 4 c.val
  else text "\\U" ++ hexText 8 c.val

def strRepr (s : Text) : Text :=
  let quote := if apostrophe ∈ s ∧ codePoint '"' ∉ s then codePoint '"' else apostrophe
  [quote] ++ s.flatMap (unicode.charRepr quote) ++ [quote]

def floatRepr : PyFloat → Text
  | .nan => text "nan"
  | .infinite negative => signText negative ++ text "inf"
  | .finite d => floatText (.finite d)

mutual

def repr : Json → Text
  | .null => text "None"
  | .bool true => text "True"
  | .bool false => text "False"
  | .int i => intText i
  | .float f => floatRepr f
  | .str s => unicode.strRepr s
  | .arr items => text "[" ++ reprItems items ++ text "]"
  | .obj members => text "\x7b" ++ reprMembers members ++ text "\x7d"

def reprItems : List Json → Text
  | [] => []
  | v :: rest =>
    match rest with
    | [] => repr v
    | _ :: _ => repr v ++ text ", " ++ reprItems rest

def reprMembers : List (Text × Json) → Text
  | [] => []
  | (k, v) :: rest =>
    match rest with
    | [] => unicode.strRepr k ++ text ": " ++ repr v
    | _ :: _ => unicode.strRepr k ++ text ": " ++ repr v ++ text ", " ++ reprMembers rest

end

/-- `str(v)`. -/
def str : Json → Text
  | .str s => s
  | v => unicode.repr v

/-! No surrogate gets through. -/

theorem encodable_hexText (width n : Nat) : encodable (hexText width n) = true := by
  refine List.all_eq_true.mpr fun c hc => ?_
  obtain ⟨i, -, rfl⟩ := List.mem_map.mp hc
  rw [hexDigit, isSurrogate_codePoint]
  rfl

theorem charRepr_encodable (quote c : CodePoint) (plain : isSurrogate quote = false) :
    encodable (unicode.charRepr quote c) = true := by
  have slash := isSurrogate_codePoint '\\'
  have low : c.val < 127 → isSurrogate c = false := by
    intro small
    simp only [isSurrogate, Bool.and_eq_false_iff, decide_eq_false_iff_not]
    omega
  unfold charRepr
  split_ifs with special _ _ _ _ shown
  · obtain rfl | rfl := special <;> simp [encodable, *]
  iterate 3 exact encodable_text _
  · simp [encodable_text, encodable_hexText]
  · have kept : isSurrogate c = false := by
      obtain small | printable := shown
      · exact low small
      · cases surrogate : isSurrogate c with
        | false => rfl
        | true =>
          rw [unicode.surrogate c surrogate] at printable
          cases printable
    simp [encodable, kept]
  all_goals simp [encodable_text, encodable_hexText]

theorem strRepr_encodable (s : Text) : encodable (unicode.strRepr s) = true := by
  unfold strRepr
  generalize same : (if apostrophe ∈ s ∧ codePoint '"' ∉ s then codePoint '"' else apostrophe) = quote
  have plain : isSurrogate quote = false := by
    rw [← same]
    split
    · exact isSurrogate_codePoint '"'
    · decide
  have mark : encodable [quote] = true := by simp [encodable, plain]
  have chars : ∀ u : Text, encodable (u.flatMap (unicode.charRepr quote)) = true := by
    intro u
    induction u with
    | nil => rfl
    | cons c u ih =>
      rw [List.flatMap_cons, encodable_append, unicode.charRepr_encodable quote c plain, ih]
      rfl
  rw [encodable_append, encodable_append, mark, chars]
  rfl

theorem reprItems_encodable {items : List Json} (ih : ∀ v ∈ items, encodable (unicode.repr v) = true) :
    encodable (unicode.reprItems items) = true := by
  induction items with
  | nil => rfl
  | cons v rest next =>
    have value := ih v List.mem_cons_self
    have others := next fun u mem => ih u (List.mem_cons_of_mem _ mem)
    cases rest with
    | nil => exact value
    | cons w rest =>
      rw [reprItems, encodable_append, encodable_append, value, encodable_text, others]
      rfl

theorem reprMembers_encodable {members : List (Text × Json)}
    (ih : ∀ m ∈ members, encodable (unicode.repr m.2) = true) :
    encodable (unicode.reprMembers members) = true := by
  induction members with
  | nil => rfl
  | cons m rest next =>
    have value := ih m List.mem_cons_self
    have key := unicode.strRepr_encodable m.1
    have others := next fun u mem => ih u (List.mem_cons_of_mem _ mem)
    cases rest with
    | nil =>
      rw [reprMembers, encodable_append, encodable_append, key, encodable_text, value]
      rfl
    | cons w rest =>
      rw [reprMembers]
      simp only [encodable_append, key, encodable_text, value, others]
      rfl

theorem repr_encodable (v : Json) : encodable (unicode.repr v) = true := by
  induction v with
  | null => exact encodable_text _
  | bool b =>
    cases b with
    | false => exact encodable_text _
    | true => exact encodable_text _
  | int i => exact encodable_number (intText_number i)
  | float f =>
    cases f with
    | nan => exact encodable_text _
    | infinite negative =>
      cases negative with
      | false => exact encodable_text _
      | true => exact encodable_text _
    | finite d => exact encodable_number (floatText_number d)
  | str s => exact unicode.strRepr_encodable s
  | arr items ih =>
    rw [repr, encodable_append, encodable_append, encodable_text, encodable_text,
      unicode.reprItems_encodable ih]
    rfl
  | obj members ih =>
    rw [repr, encodable_append, encodable_append, encodable_text, encodable_text,
      unicode.reprMembers_encodable ih]
    rfl

end Printing

/-! UTF-8. What cannot belong to a character is replaced, up to the byte that shows it. -/

structure Partial where
  left : Nat
  low : Nat
  high : Nat
  value : Nat

def replacement : CodePoint := 0xFFFD

/-- The lead byte of two, three or four. -/
def leadByte (b : Nat) : Option Partial :=
  if 0xC2 ≤ b ∧ b ≤ 0xDF then some ⟨1, 0x80, 0xBF, b - 0xC0⟩
  else if b = 0xE0 then some ⟨2, 0xA0, 0xBF, 0⟩
  else if b = 0xED then some ⟨2, 0x80, 0x9F, 13⟩
  else if 0xE1 ≤ b ∧ b ≤ 0xEF then some ⟨2, 0x80, 0xBF, b - 0xE0⟩
  else if b = 0xF0 then some ⟨3, 0x90, 0xBF, 0⟩
  else if 0xF1 ≤ b ∧ b ≤ 0xF3 then some ⟨3, 0x80, 0xBF, b - 0xF0⟩
  else if b = 0xF4 then some ⟨3, 0x80, 0x8F, 4⟩
  else none

def firstByte (b : Nat) : Text × Option Partial :=
  if b < 0x80 then ([Fin.ofNat _ b], none)
  else
    match leadByte b with
    | some p => ([], some p)
    | none => ([replacement], none)

def nextByte (pending : Option Partial) (b : Nat) : Text × Option Partial :=
  match pending with
  | none => firstByte b
  | some p =>
    if p.low ≤ b ∧ b ≤ p.high then
      let value := 64 * p.value + (b - 0x80)
      if p.left = 1 then ([Fin.ofNat _ value], none) else ([], some ⟨p.left - 1, 0x80, 0xBF, value⟩)
    else (replacement :: (firstByte b).1, (firstByte b).2)

def decodeFrom : Option Partial → List (Fin 256) → Text
  | none, [] => []
  | some _, [] => [replacement]
  | pending, b :: rest => (nextByte pending b).1 ++ decodeFrom (nextByte pending b).2 rest

/-- `b.decode("utf-8", "replace")`. -/
def decodeReplace (bytes : List (Fin 256)) : Text := decodeFrom none bytes

-- an overlong form, a cut-off character, and a whole one
example : decodeReplace [0xC0, 0x80, 0xE2, 0x82, 0x41, 0xF0, 0x9F, 0x98, 0x80] =
    [replacement, replacement, replacement, 0x41, 0x1F600] := by decide

end Lib
