import Mathlib.Data.List.DropRight
import Mathlib.Tactic.Common

/-! Several fields in one text, with a separator between them and blanks around them. -/

namespace Lib

universe u

variable {α : Type u}

/-- `str.strip`, with any notion of a blank. -/
def strip (blank : α → Bool) (t : List α) : List α := (t.dropWhile blank).rdropWhile blank

theorem strip_pad {blank : α → Bool} {pad : List α} (blanks : ∀ c ∈ pad, blank c = true) (t : List α) :
    strip blank (pad ++ t) = strip blank t := by
  induction pad with
  | nil => rfl
  | cons c pad ih =>
    rw [strip, List.cons_append, List.dropWhile_cons_of_pos (blanks c List.mem_cons_self)]
    exact ih fun d mem => blanks d (List.mem_cons_of_mem c mem)

theorem strip_append_pad {blank : α → Bool} {pad : List α} (blanks : ∀ c ∈ pad, blank c = true)
    (t : List α) : strip blank (t ++ pad) = strip blank t := by
  have behind : ∀ u : List α, (u ++ pad).rdropWhile blank = u.rdropWhile blank := by
    intro u
    have turned : ∀ c ∈ pad.reverse, blank c = true := fun c mem => blanks c (List.mem_reverse.mp mem)
    rw [List.rdropWhile, List.rdropWhile, List.reverse_append, List.dropWhile_append_of_pos turned]
  have none_left : pad.dropWhile blank = [] := List.dropWhile_eq_nil_iff.mpr blanks
  rw [strip, strip, List.dropWhile_append, none_left]
  split
  · rename_i empty
    rw [List.isEmpty_iff.mp empty]
  · exact behind _

theorem strip_subset (blank : α → Bool) (t : List α) : strip blank t ⊆ t := fun _ mem =>
  List.dropWhile_subset blank ((List.rdropWhile_prefix blank _).subset mem)

theorem strip_strip (blank : α → Bool) (t : List α) : strip blank (strip blank t) = strip blank t := by
  -- nothing is left to drop in front, as what is left begins like the text without its first blanks
  have front : (strip blank t).dropWhile blank = strip blank t := by
    have first : strip blank t <+: t.dropWhile blank := List.rdropWhile_prefix blank _
    cases inner : strip blank t with
    | nil => rfl
    | cons c cs =>
      rw [inner] at first
      obtain ⟨more, eq⟩ := first
      have head := List.head?_dropWhile_not blank t
      rw [← eq] at head
      simp only [List.cons_append, List.head?_cons] at head
      rw [List.dropWhile_cons_of_neg (by simpa using head)]
  rw [strip, front]
  exact List.rdropWhile_idempotent blank _

section Fields

variable (sep : α) (blank : α → Bool)

/-- A field of a text, as it is without what stands around it. -/
structure Clean (field : List α) : Prop where
  whole : sep ∉ field
  bare : strip blank field = field

/-- A field as it is written, with blanks on both sides. -/
structure Padded where
  left : List α
  field : List α
  right : List α
  leftBlank : ∀ c ∈ left, blank c = true
  rightBlank : ∀ c ∈ right, blank c = true
  clean : Clean sep blank field

variable {sep blank}

namespace Padded

def written (p : Padded sep blank) : List α := p.left ++ (p.field ++ p.right)

theorem strip_written (p : Padded sep blank) : strip blank p.written = p.field := by
  rw [written, strip_pad p.leftBlank, strip_append_pad p.rightBlank, p.clean.bare]

theorem written_whole (visible : blank sep = false) (p : Padded sep blank) : sep ∉ p.written := by
  have apart : ∀ pad : List α, (∀ c ∈ pad, blank c = true) → sep ∉ pad := fun pad blanks mem =>
    Bool.false_ne_true (visible.symm.trans (blanks sep mem))
  intro mem
  rcases List.mem_append.mp mem with left | mem
  · exact apart p.left p.leftBlank left
  rcases List.mem_append.mp mem with inside | right
  · exact p.clean.whole inside
  · exact apart p.right p.rightBlank right

end Padded

variable [DecidableEq α]

variable (sep blank) in
/-- `[p.strip() for p in t.split(sep)]`. -/
def fields (t : List α) : List (List α) := (t.splitOn sep).map (strip blank)

theorem not_mem_splitOn {t piece : List α} (mem : piece ∈ t.splitOn sep) : sep ∉ piece := by
  induction t generalizing piece with
  | nil =>
    rw [List.splitOn_nil, List.mem_singleton] at mem
    rw [mem]
    exact List.not_mem_nil
  | cons c t ih =>
    rw [List.splitOn_cons_eq_if_modifyHead] at mem
    split at mem
    · rcases List.mem_cons.mp mem with rfl | mem
      · exact List.not_mem_nil
      · exact ih mem
    · rename_i other
      obtain ⟨head, tail, eq⟩ := List.exists_cons_of_ne_nil (List.splitOn_ne_nil sep t)
      rw [eq, List.modifyHead_cons] at mem
      rw [eq] at ih
      rcases List.mem_cons.mp mem with rfl | mem
      · rintro (_ | ⟨_, inside⟩)
        · exact other (beq_self_eq_true sep)
        · exact ih List.mem_cons_self inside
      · exact ih (List.mem_cons_of_mem _ mem)

theorem fields_clean {t field : List α} (mem : field ∈ fields sep blank t) : Clean sep blank field := by
  obtain ⟨piece, inside, rfl⟩ := List.mem_map.mp mem
  exact ⟨fun has => not_mem_splitOn inside (strip_subset blank piece has), strip_strip blank piece⟩

/-- Fields come back as they were written, whatever blanks stand around them. -/
theorem fields_written (visible : blank sep = false) {parts : List (Padded sep blank)}
    (some : parts ≠ []) :
    fields sep blank ([sep].intercalate (parts.map Padded.written)) = parts.map Padded.field := by
  induction parts with
  | nil => exact absurd rfl some
  | cons p parts ih =>
    have whole := p.written_whole visible
    cases parts with
    | nil =>
      simp only [List.map_cons, List.map_nil, List.intercalate_singleton, fields,
        List.splitOn_eq_singleton whole, p.strip_written]
    | cons q parts =>
      have rest := ih (List.cons_ne_nil q parts)
      simp only [List.map_cons] at rest ⊢
      rw [List.intercalate_cons_cons, List.append_assoc, List.singleton_append, fields,
        List.splitOn_append_cons_self_of_not_mem whole, List.map_cons, p.strip_written,
        ← rest, fields]

end Fields

end Lib
