import Mathlib.Algebra.Ring.Nat
import Mathlib.Data.List.Basic

/-! Python's strings: sequences of code points, surrogates included. -/

namespace Lib

abbrev CodePoint := Fin 0x110000

instance CodePoint.size_ne_zero : NeZero 0x110000 := ⟨by decide⟩

instance CodePoint.lawfulBEq : LawfulBEq CodePoint := instLawfulBEq

abbrev Text := List CodePoint

def codePoint (c : Char) : CodePoint := ⟨c.toNat, by
  have valid := c.valid
  simp only [UInt32.isValidChar, Nat.isValidChar] at valid
  simp only [Char.toNat]
  omega⟩

def text (s : String) : Text := s.toList.map codePoint

def isSurrogate (c : CodePoint) : Bool := 0xD800 ≤ c.val && c.val ≤ 0xDFFF

/-- UTF-8 has no form for a surrogate: to encode one raises. -/
def encodable (t : Text) : Bool := t.all (fun c => !isSurrogate c)

def charOf (c : CodePoint) : Option Char :=
  if h : c.val.isValidChar then some (Char.ofNatAux c.val h) else none

/-- The text as a string of characters, unless it has a surrogate. -/
def plainString (t : Text) : Option String := (t.mapM charOf).map String.ofList

theorem codePoint_injective {a b : Char} (h : codePoint a = codePoint b) : a = b :=
  Char.toNat_inj.mp (Fin.mk.inj h)

theorem text_inj {s t : String} : text s = text t ↔ s = t := by
  constructor
  · intro h
    exact String.toList_injective (List.map_injective_iff.mpr (fun _ _ eq => codePoint_injective eq) h)
  · intro h
    rw [h]

theorem isSurrogate_codePoint (c : Char) : isSurrogate (codePoint c) = false := by
  have valid : c.toNat < 0xD800 ∨ 0xDFFF < c.toNat ∧ c.toNat < 0x110000 := c.valid
  have same : (codePoint c).val = c.toNat := rfl
  simp only [isSurrogate, Bool.and_eq_false_iff, decide_eq_false_iff_not]
  omega

theorem encodable_chars (cs : List Char) : encodable (cs.map codePoint) = true := by
  refine List.all_eq_true.mpr fun c hc => ?_
  obtain ⟨a, -, rfl⟩ := List.mem_map.mp hc
  rw [isSurrogate_codePoint]
  rfl

theorem encodable_text (s : String) : encodable (text s) = true := encodable_chars s.toList

theorem charOf_eq_some {c : CodePoint} {a : Char} : charOf c = some a ↔ codePoint a = c := by
  constructor
  · intro h
    by_cases valid : c.val.isValidChar
    · rw [charOf, dif_pos valid] at h
      rw [← Option.some.inj h]
      rfl
    · rw [charOf, dif_neg valid] at h
      cases h
  · rintro rfl
    have valid : (codePoint a).val.isValidChar := a.valid
    rw [charOf, dif_pos valid]
    exact congrArg some (Char.toNat_inj.mp rfl)

theorem isSurrogate_iff {c : CodePoint} : isSurrogate c = true ↔ ¬ c.val.isValidChar := by
  have small := c.isLt
  simp only [isSurrogate, Nat.isValidChar, Bool.and_eq_true, decide_eq_true_eq]
  omega

theorem charOf_eq_none {c : CodePoint} : charOf c = none ↔ isSurrogate c = true := by
  rw [isSurrogate_iff]
  constructor
  · intro none valid
    rw [charOf, dif_pos valid] at none
    cases none
  · intro invalid
    rw [charOf, dif_neg invalid]

theorem mapM_charOf_eq_some {t : Text} {cs : List Char} :
    t.mapM charOf = some cs ↔ cs.map codePoint = t := by
  induction t generalizing cs with
  | nil =>
    rw [List.mapM_nil, List.map_eq_nil_iff]
    exact ⟨fun h => (Option.some.inj h).symm, fun h => h ▸ rfl⟩
  | cons c t ih =>
    rw [List.mapM_cons]
    simp only [Option.bind_eq_bind, Option.bind_eq_some_iff, Option.pure_def, Option.some.injEq,
      charOf_eq_some, ih]
    constructor
    · rintro ⟨a, rfl, as, rfl, rfl⟩
      rfl
    · intro h
      obtain ⟨a, as, rfl, head, tail⟩ := List.map_eq_cons_iff.mp h
      exact ⟨a, head, as, tail, rfl⟩

/-- A text can be read as a string just when it is that string's. -/
theorem plainString_eq_some {t : Text} {s : String} : plainString t = some s ↔ text s = t := by
  rw [plainString, Option.map_eq_some_iff]
  constructor
  · rintro ⟨cs, read, rfl⟩
    rw [text, String.toList_ofList]
    exact mapM_charOf_eq_some.mp read
  · intro same
    exact ⟨s.toList, mapM_charOf_eq_some.mpr same, String.ofList_toList⟩

theorem plainString_eq_none {t : Text} : plainString t = none ↔ encodable t = false := by
  have chars : t.mapM charOf = none ↔ ∃ c ∈ t, isSurrogate c = true := by
    induction t with
    | nil => simp
    | cons c t ih =>
      rw [List.mapM_cons, List.exists_mem_cons_iff, ← ih, ← charOf_eq_none]
      cases charOf c with
      | none => simp
      | some a => cases t.mapM charOf <;> simp
  rw [plainString, Option.map_eq_none_iff, chars, encodable, List.all_eq_false]
  simp

end Lib
