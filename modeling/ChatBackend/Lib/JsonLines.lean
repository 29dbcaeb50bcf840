import ChatBackend.Lib.Fields
import ChatBackend.Lib.JsonRoundTrip

/-! One document a line. The encoder writes no control character, so a line never breaks inside a
document, and a stream of documents is taken apart where it was put together. -/

namespace Lib

def printable (t : Text) : Bool := t.all (fun c => decide (32 ≤ c.val))

@[simp] theorem printable_append (t u : Text) : printable (t ++ u) = (printable t && printable u) :=
  List.all_append

theorem printable_number {t : Text} (h : IsNumber t) : printable t = true := by
  refine List.all_eq_true.mpr fun c mem => decide_eq_true ?_
  have marks : ∀ c ∈ text "+-.eE", 32 ≤ c.val := each (by decide)
  cases number_chars h c mem with
  | inl digit =>
    simp only [isDigit, Bool.and_eq_true, decide_eq_true_eq] at digit
    omega
  | inr mark => exact marks c mark

theorem printable_escape (c : CodePoint) : printable (escape c) = true := by
  have hex : ∀ n < 16, 32 ≤ (hexDigit n).val := by decide
  unfold escape
  split_ifs with quote slash b t n f r control
  · decide
  · decide
  iterate 5
    · decide
  · have opening : printable (text "\\u00") = true := by decide
    have digits : printable [hexDigit (c.val / 16), hexDigit (c.val % 16)] = true := by
      simp only [printable, List.all_cons, List.all_nil, hex (c.val / 16) (by omega),
        hex (c.val % 16) (by omega), decide_true, Bool.and_true]
    rw [printable_append, opening, digits]
    rfl
  · simp only [printable, List.all_cons, List.all_nil, Bool.and_true]
    exact decide_eq_true (Nat.le_of_not_lt control)

theorem printable_strText (s : Text) : printable (strText s) = true := by
  have chars : printable (s.flatMap escape) = true := by
    induction s with
    | nil => rfl
    | cons c s ih =>
      rw [List.flatMap_cons, printable_append, printable_escape, ih]
      rfl
  have quote : printable (text "\"") = true := by decide
  rw [strText, printable_append, printable_append, quote, chars]
  rfl

theorem dumpsItems_printable {items : List Json} (ih : ∀ v ∈ items, printable (dumps v) = true) :
    printable (dumpsItems items) = true := by
  have comma : printable (text ", ") = true := by decide
  induction items with
  | nil => rfl
  | cons v rest next =>
    have value := ih v List.mem_cons_self
    have others := next fun u mem => ih u (List.mem_cons_of_mem _ mem)
    cases rest with
    | nil => exact value
    | cons w rest =>
      rw [dumpsItems, printable_append, printable_append, value, comma, others]
      rfl

theorem dumpsMembers_printable {members : List (Text × Json)}
    (ih : ∀ m ∈ members, printable (dumps m.2) = true) : printable (dumpsMembers members) = true := by
  have comma : printable (text ", ") = true := by decide
  have colon : printable (text ": ") = true := by decide
  induction members with
  | nil => rfl
  | cons m rest next =>
    obtain ⟨k, v⟩ := m
    have value := ih (k, v) List.mem_cons_self
    have others := next fun u mem => ih u (List.mem_cons_of_mem _ mem)
    cases rest with
    | nil =>
      rw [dumpsMembers, printable_append, printable_append, printable_strText, colon, value]
      rfl
    | cons w rest =>
      rw [dumpsMembers, printable_append, printable_append, printable_append, printable_append,
        printable_strText, colon, value, comma, others]
      rfl

theorem dumps_printable (v : Json) : printable (dumps v) = true := by
  induction v with
  | null => decide
  | bool b =>
    cases b with
    | false => decide
    | true => decide
  | int i => exact printable_number (intText_number i)
  | float f =>
    cases f with
    | nan => decide
    | infinite negative =>
      cases negative with
      | false => decide
      | true => decide
    | finite d => exact printable_number (floatText_number d)
  | str s => exact printable_strText s
  | arr items ih =>
    have brackets : printable (text "[") = true ∧ printable (text "]") = true := by decide
    rw [dumps, printable_append, printable_append, brackets.1, brackets.2, dumpsItems_printable ih]
    rfl
  | obj members ih =>
    have braces : printable (text "\x7b") = true ∧ printable (text "\x7d") = true := by decide
    rw [dumps, printable_append, printable_append, braces.1, braces.2, dumpsMembers_printable ih]
    rfl

/-- A text in lines, each with the separator behind it, comes apart into the lines. -/
theorem splitOn_lines {α : Type} [DecidableEq α] {sep : α} {lines : List (List α)}
    (whole : ∀ line ∈ lines, sep ∉ line) :
    (lines.flatMap (fun line => line ++ [sep])).splitOn sep = lines ++ [[]] := by
  induction lines with
  | nil => rfl
  | cons line lines ih =>
    rw [List.flatMap_cons, List.append_assoc, List.singleton_append,
      List.splitOn_append_cons_self_of_not_mem (whole line List.mem_cons_self),
      ih fun l mem => whole l (List.mem_cons_of_mem line mem), List.cons_append]

end Lib
