import Mathlib.Data.List.Basic
import Mathlib.Tactic.Common

/-! Regular expressions with anchors and bounded repetition. Engines differ in what `$` accepts as
the end of the text and in whether a match may begin later, so both are parameters here. -/

namespace Lib

inductive Regex (α : Type) where
  /-- The anchor `^`. -/
  | first
  /-- The anchor `$`. -/
  | last
  | set (p : α → Bool)
  | seq (r s : Regex α)
  | rep (r : Regex α) (low high : Nat)

/-- Where a match stands: whether at the beginning of the text, and what is left of it. -/
structure Place (α : Type) where
  first : Bool
  rest : List α

namespace Regex

variable {α : Type} (atEnd : List α → Bool)

/-- What an expression can read from one place to another. -/
inductive Reads : Regex α → Place α → Place α → Prop where
  | first {rest : List α} : Reads .first ⟨true, rest⟩ ⟨true, rest⟩
  | last {a : Place α} (stop : atEnd a.rest = true) : Reads .last a a
  | set {p : α → Bool} {b : Bool} {c : α} {rest : List α} (hit : p c = true) :
      Reads (.set p) ⟨b, c :: rest⟩ ⟨false, rest⟩
  | seq {r s : Regex α} {a b c : Place α} (left : Reads r a b) (right : Reads s b c) :
      Reads (.seq r s) a c
  | done {r : Regex α} {high : Nat} {a : Place α} : Reads (.rep r 0 high) a a
  | more {r : Regex α} {low high : Nat} {a b c : Place α} (one : Reads r a b)
      (others : Reads (.rep r (low - 1) high) b c) : Reads (.rep r low (high + 1)) a c

/-- All places a repetition can end at. -/
def repEnds (ends : Place α → List (Place α)) : Nat → Nat → Place α → List (Place α)
  | low, 0, a => if low = 0 then [a] else []
  | low, high + 1, a =>
    (if low = 0 then [a] else []) ++ (ends a).flatMap (repEnds ends (low - 1) high)

def ends : Regex α → Place α → List (Place α)
  | .first, a => if a.first then [a] else []
  | .last, a => if atEnd a.rest then [a] else []
  | .set p, a =>
    match a.rest with
    | [] => []
    | c :: rest => if p c then [⟨false, rest⟩] else []
  | .seq r s, a => (r.ends a).flatMap s.ends
  | .rep r low high, a => repEnds r.ends low high a

theorem mem_repEnds {r : Regex α} (sound : ∀ a b, b ∈ ends atEnd r a ↔ Reads atEnd r a b)
    (low high : Nat) (a b : Place α) :
    b ∈ repEnds (ends atEnd r) low high a ↔ Reads atEnd (.rep r low high) a b := by
  induction high generalizing low a with
  | zero =>
    rw [repEnds, List.mem_ite_nil_right, List.mem_singleton]
    constructor
    · rintro ⟨rfl, rfl⟩
      exact .done
    · intro h
      cases h
      exact ⟨rfl, rfl⟩
  | succ high ih =>
    rw [repEnds, List.mem_append, List.mem_flatMap, List.mem_ite_nil_right, List.mem_singleton]
    constructor
    · rintro (⟨rfl, rfl⟩ | ⟨c, one, others⟩)
      · exact .done
      · exact .more ((sound a c).mp one) ((ih _ _).mp others)
    · intro h
      cases h with
      | done => exact .inl ⟨rfl, rfl⟩
      | more one others => exact .inr ⟨_, (sound _ _).mpr one, (ih _ _).mpr others⟩

/-- The matcher finds exactly the readings. -/
theorem mem_ends (r : Regex α) (a b : Place α) : b ∈ ends atEnd r a ↔ Reads atEnd r a b := by
  induction r generalizing a b with
  | first =>
    obtain ⟨begins, rest⟩ := a
    rw [ends, List.mem_ite_nil_right, List.mem_singleton]
    constructor
    · rintro ⟨rfl, rfl⟩
      exact .first
    · intro h
      cases h
      exact ⟨rfl, rfl⟩
  | last =>
    rw [ends, List.mem_ite_nil_right, List.mem_singleton]
    constructor
    · rintro ⟨stop, rfl⟩
      exact .last stop
    · intro h
      cases h with
      | last stop => exact ⟨stop, rfl⟩
  | set p =>
    obtain ⟨begins, rest⟩ := a
    cases rest with
    | nil =>
      constructor
      · intro h
        cases h
      · intro h
        cases h
    | cons c rest =>
      simp only [ends, List.mem_ite_nil_right, List.mem_singleton]
      constructor
      · rintro ⟨hit, rfl⟩
        exact .set hit
      · intro h
        cases h with
        | set hit => exact ⟨hit, rfl⟩
  | seq r s left right =>
    rw [ends, List.mem_flatMap]
    constructor
    · rintro ⟨c, one, two⟩
      exact .seq ((left a c).mp one) ((right c b).mp two)
    · intro h
      cases h with
      | seq one two => exact ⟨_, (left _ _).mpr one, (right _ _).mpr two⟩
  | rep r low high ih => exact mem_repEnds atEnd ih low high a b

/-- A match that begins where the text begins. -/
def accepts (r : Regex α) (s : List α) : Bool := !(ends atEnd r ⟨true, s⟩).isEmpty

def searchFrom (r : Regex α) : Bool → List α → Bool
  | begins, [] => !(ends atEnd r ⟨begins, []⟩).isEmpty
  | begins, c :: cs => !(ends atEnd r ⟨begins, c :: cs⟩).isEmpty || searchFrom r false cs

/-- A match that may begin anywhere in the text. -/
def search (r : Regex α) (s : List α) : Bool := searchFrom atEnd r true s

theorem accepts_iff (r : Regex α) (s : List α) :
    accepts atEnd r s = true ↔ ∃ b, Reads atEnd r ⟨true, s⟩ b := by
  have some_end : accepts atEnd r s = true ↔ ∃ b, b ∈ ends atEnd r ⟨true, s⟩ := by
    cases found : ends atEnd r ⟨true, s⟩ with
    | nil => simp [accepts, found]
    | cons b bs => exact ⟨fun _ => ⟨b, by simp⟩, fun _ => by simp [accepts, found]⟩
  rw [some_end]
  exact exists_congr fun b => mem_ends atEnd r _ b

/-- Where the expression opens with `^`, searching is matching. -/
theorem search_first (r : Regex α) (s : List α) :
    search atEnd (.seq .first r) s = accepts atEnd (.seq .first r) s := by
  have later : ∀ cs : List α, searchFrom atEnd (.seq .first r) false cs = false := by
    intro cs
    induction cs with
    | nil => rfl
    | cons c cs ih =>
      rw [searchFrom, ih]
      rfl
  cases s with
  | nil => rfl
  | cons c cs => rw [search, searchFrom, later, Bool.or_false, accepts]

/-- `^[p]{low,high}$`. -/
def whole (p : α → Bool) (low high : Nat) : Regex α :=
  .seq .first (.seq (.rep (.set p) low high) .last)

/-- `cs` is a word of `low` to `high` letters of the class `p`. -/
structure Word (p : α → Bool) (low high : Nat) (cs : List α) : Prop where
  lower : low ≤ cs.length
  upper : cs.length ≤ high
  letters : ∀ c ∈ cs, p c = true

theorem reads_rep_set {p : α → Bool} {low high : Nat} {a b : Place α}
    (h : Reads atEnd (.rep (.set p) low high) a b) :
    ∃ cs, Word p low high cs ∧ a.rest = cs ++ b.rest := by
  induction high generalizing low a with
  | zero =>
    cases h
    exact ⟨[], ⟨by simp, by simp, by simp⟩, rfl⟩
  | succ high ih =>
    cases h with
    | done => exact ⟨[], ⟨by simp, by simp, by simp⟩, rfl⟩
    | more one others =>
      cases one with
      | @set _ _ c rest hit =>
        obtain ⟨cs, word, rfl⟩ := ih others
        have lower := word.lower
        have upper := word.upper
        exact ⟨c :: cs, ⟨by rw [List.length_cons]; omega, by rw [List.length_cons]; omega,
          List.forall_mem_cons.mpr ⟨hit, word.letters⟩⟩, rfl⟩

theorem rep_set_reads {p : α → Bool} {low high : Nat} {cs : List α} (word : Word p low high cs)
    (begins : Bool) (rest : List α) :
    ∃ b, Reads atEnd (.rep (.set p) low high) ⟨begins, cs ++ rest⟩ ⟨b, rest⟩ := by
  induction cs generalizing low high begins with
  | nil =>
    have zero : low = 0 := Nat.le_zero.mp word.lower
    subst zero
    exact ⟨begins, .done⟩
  | cons c cs ih =>
    cases high with
    | zero => cases word.upper
    | succ high =>
      have lower := word.lower
      have upper := word.upper
      rw [List.length_cons] at lower upper
      have shorter : Word p (low - 1) high cs :=
        ⟨by omega, by omega, fun d hd => word.letters d (List.mem_cons_of_mem c hd)⟩
      obtain ⟨b, others⟩ := ih shorter false
      exact ⟨b, .more (.set (word.letters c (List.mem_cons_self))) others⟩

theorem accepts_whole {p : α → Bool} {low high : Nat} {s : List α} :
    accepts atEnd (whole p low high) s = true ↔
      ∃ cs rest, s = cs ++ rest ∧ Word p low high cs ∧ atEnd rest = true := by
  rw [accepts_iff]
  constructor
  · rintro ⟨b, h⟩
    cases h with
    | seq start tail =>
      cases start
      cases tail with
      | seq letters stop =>
        obtain ⟨cs, word, eq⟩ := reads_rep_set atEnd letters
        cases stop with
        | last stop => exact ⟨cs, b.rest, eq, word, stop⟩
  · rintro ⟨cs, rest, rfl, word, stop⟩
    obtain ⟨b, letters⟩ := rep_set_reads atEnd word true rest
    exact ⟨⟨b, rest⟩, .seq .first (.seq letters (.last stop))⟩

/-- `$` stands for the very end. -/
def strictEnd (rest : List α) : Bool := rest.isEmpty

/-- `$` also stands before one final newline. -/
def looseEnd [DecidableEq α] (newline : α) (rest : List α) : Bool :=
  rest.isEmpty || rest == [newline]

theorem accepts_strict {p : α → Bool} {low high : Nat} {s : List α} :
    accepts strictEnd (whole p low high) s = true ↔ Word p low high s := by
  rw [accepts_whole]
  constructor
  · rintro ⟨cs, rest, rfl, word, stop⟩
    rw [List.isEmpty_iff.mp stop, List.append_nil]
    exact word
  · intro word
    exact ⟨s, [], (List.append_nil s).symm, word, rfl⟩

theorem accepts_loose [DecidableEq α] {newline : α} {p : α → Bool} {low high : Nat} {s : List α} :
    accepts (looseEnd newline) (whole p low high) s = true ↔
      Word p low high s ∨ ∃ cs, s = cs ++ [newline] ∧ Word p low high cs := by
  rw [accepts_whole]
  constructor
  · rintro ⟨cs, rest, rfl, word, stop⟩
    rcases Bool.or_eq_true _ _ ▸ stop with empty | final
    · left
      rw [List.isEmpty_iff.mp empty, List.append_nil]
      exact word
    · right
      exact ⟨cs, by rw [eq_of_beq final], word⟩
  · rintro (word | ⟨cs, rfl, word⟩)
    · exact ⟨s, [], (List.append_nil s).symm, word, rfl⟩
    · exact ⟨cs, [newline], rfl, word, by simp [looseEnd]⟩

end Regex

end Lib
