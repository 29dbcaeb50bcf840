import Mathlib.Algebra.Ring.Nat
import Mathlib.Tactic.Tauto
import ChatBackend.Lib.Text

/-! JSON values as Python decodes them, and the text that `json.dumps(v, ensure_ascii=False)` makes
of them. Strings may have surrogates, and floats may be NaN or infinite. -/

namespace Lib

/-- A finite float by the shortest digits that read back as it: `0.d₁d₂… × 10 ^ point`. -/
structure Decimal where
  negative : Bool
  digits : List (Fin 10)
  point : Int
  nonempty : digits ≠ []
  lead : digits.head? = some 0 → digits = [0] ∧ point = 1

inductive PyFloat where
  | nan
  | infinite (negative : Bool)
  | finite (d : Decimal)

inductive Json where
  | null
  | bool (b : Bool)
  | int (i : Int)
  | float (f : PyFloat)
  | str (s : Text)
  | arr (items : List Json)
  | obj (members : List (Text × Json))

/-! Numbers. -/

def digit (d : Fin 10) : CodePoint := ⟨48 + d.val, by omega⟩

def natText (n : Nat) : Text := text (toString n)

def intText : Int → Text
  | .ofNat n => natText n
  | .negSucc n => text "-" ++ natText (n + 1)

/-- At least two digits. -/
def exponentText (n : Nat) : Text := if n < 10 then text "0" ++ natText n else natText n

/-- `float.__repr__` without the sign. -/
def Decimal.magnitude (d : Decimal) : Text :=
  let ds := d.digits.map digit
  if d.point ≤ -4 ∨ 16 < d.point then
    let e := d.point - 1
    ds.take 1 ++ (if ds.length ≤ 1 then [] else text "." ++ ds.drop 1) ++ text "e" ++
      (if e < 0 then text "-" else text "+") ++ exponentText e.natAbs
  else if d.point ≤ 0 then
    text "0." ++ List.replicate d.point.natAbs (codePoint '0') ++ ds
  else if d.point.toNat < ds.length then
    ds.take d.point.toNat ++ text "." ++ ds.drop d.point.toNat
  else ds ++ List.replicate (d.point.toNat - ds.length) (codePoint '0') ++ text ".0"

def signText (negative : Bool) : Text := if negative then text "-" else []

def floatText : PyFloat → Text
  | .nan => text "NaN"
  | .infinite negative => signText negative ++ text "Infinity"
  | .finite d => signText d.negative ++ d.magnitude

/-! Strings. -/

def hexDigit (n : Nat) : CodePoint := codePoint ("0123456789abcdef".toList.getD n '0')

/-- What `ESCAPE` matches is replaced, and everything else stays. -/
def escape (c : CodePoint) : Text :=
  if c = codePoint '"' then text "\\\""
  else if c = codePoint '\\' then text "\\\\"
  else if c.val = 8 then text "\\b"
  else if c.val = 9 then text "\\t"
  else if c.val = 10 then text "\\n"
  else if c.val = 12 then text "\\f"
  else if c.val = 13 then text "\\r"
  else if c.val < 32 then text "\\u00" ++ [hexDigit (c.val / 16), hexDigit (c.val % 16)]
  else [c]

def strText (s : Text) : Text := text "\"" ++ s.flatMap escape ++ text "\""

mutual

def dumps : Json → Text
  | .null => text "null"
  | .bool true => text "true"
  | .bool false => text "false"
  | .int i => intText i
  | .float f => floatText f
  | .str s => strText s
  | .arr items => text "[" ++ dumpsItems items ++ text "]"
  | .obj members => text "\x7b" ++ dumpsMembers members ++ text "\x7d"

def dumpsItems : List Json → Text
  | [] => []
  | v :: rest =>
    match rest with
    | [] => dumps v
    | _ :: _ => dumps v ++ text ", " ++ dumpsItems rest

def dumpsMembers : List (Text × Json) → Text
  | [] => []
  | (k, v) :: rest =>
    match rest with
    | [] => strText k ++ text ": " ++ dumps v
    | _ :: _ => strText k ++ text ": " ++ dumps v ++ text ", " ++ dumpsMembers rest

end

/-! What can spoil the text. -/

mutual

/-- Every key, and every value that is neither an array nor an object. -/
def Json.every (key : Text → Bool) (leaf : Json → Bool) : Json → Bool
  | .arr items => everyItem key leaf items
  | .obj members => everyMember key leaf members
  | v => leaf v

def everyItem (key : Text → Bool) (leaf : Json → Bool) : List Json → Bool
  | [] => true
  | v :: rest => v.every key leaf && everyItem key leaf rest

def everyMember (key : Text → Bool) (leaf : Json → Bool) : List (Text × Json) → Bool
  | [] => true
  | (k, v) :: rest => key k && v.every key leaf && everyMember key leaf rest

end

def Json.leafFinite : Json → Bool
  | .float .nan => false
  | .float (.infinite _) => false
  | _ => true

/-- No NaN and no infinity anywhere. -/
def Json.isFinite : Json → Bool := Json.every (fun _ => true) Json.leafFinite

def Json.leafScalar : Json → Bool
  | .str s => encodable s
  | _ => true

/-- No surrogate in any string or key. -/
def Json.isScalar : Json → Bool := Json.every encodable Json.leafScalar

/-- `sys.int_info.default_max_str_digits`: longer integers are neither read nor written. -/
def maxStrDigits : Nat := 4300

def Json.leafShort : Json → Bool
  | .int i => decide (i.natAbs < 10 ^ maxStrDigits)
  | _ => true

def Json.isShort : Json → Bool := Json.every (fun _ => true) Json.leafShort

theorem everyItem_of {key : Text → Bool} {leaf : Json → Bool} {items : List Json}
    (h : ∀ v ∈ items, v.every key leaf = true) : everyItem key leaf items = true := by
  induction items with
  | nil => rfl
  | cons v rest ih =>
    rw [everyItem, Bool.and_eq_true]
    exact ⟨h v List.mem_cons_self, ih fun u mem => h u (List.mem_cons_of_mem _ mem)⟩

theorem everyMember_of {key : Text → Bool} {leaf : Json → Bool} {members : List (Text × Json)}
    (h : ∀ m ∈ members, key m.1 = true ∧ m.2.every key leaf = true) :
    everyMember key leaf members = true := by
  induction members with
  | nil => rfl
  | cons m rest ih =>
    rw [everyMember, Bool.and_eq_true, Bool.and_eq_true]
    exact ⟨h m List.mem_cons_self, ih fun u mem => h u (List.mem_cons_of_mem _ mem)⟩

/-! What Python asks of a value. -/

inductive PyError where
  | attributeError
  | keyError
  | typeError
  | valueError
  | recursionError
  deriving DecidableEq

def Decimal.isZero (d : Decimal) : Bool := d.digits == [0]

/-- `bool(v)`. -/
def Json.truthy : Json → Bool
  | .null => false
  | .bool b => b
  | .int i => i != 0
  | .float (.finite d) => !d.isZero
  | .float _ => true
  | .str s => !s.isEmpty
  | .arr items => !items.isEmpty
  | .obj members => !members.isEmpty

/-- `v == s` for a string `s`. -/
def Json.isText (v : Json) (s : Text) : Bool :=
  match v with
  | .str t => t == s
  | _ => false

/-- `isinstance(v, dict)`. -/
def Json.isObject : Json → Bool
  | .obj _ => true
  | _ => false

/-- `d.get(key)`. -/
def getItem (members : List (Text × Json)) (key : String) : Json :=
  (members.lookup (text key)).getD .null

example : dumps (.arr [.int (-3), .float (.finite ⟨false, [1, 5], -6, by decide, by decide⟩),
    .obj [(text "a\n", .null)]]) = text "[-3, 1.5e-07, \x7b\"a\\n\": null\x7d]" := by decide

end Lib
