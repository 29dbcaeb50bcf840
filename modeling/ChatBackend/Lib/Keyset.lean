import Mathlib.Data.List.Sort
import Mathlib.Order.Lattice

/-! Keyset pagination over rows with distinct keys: a page is the beginning of what lies beyond
a key, in key order. Pages in the other direction are pages over the dual order. -/

namespace Lib

universe u v

variable {α : Type u} {κ : Type v} [LinearOrder κ] (key : α → κ)

def byKey (rows : List α) : List α := rows.insertionSort (fun x y => key x ≤ key y)

/-- The rows beyond `c`, in order. -/
def beyond (rows : List α) (c : κ) : List α := byKey key (rows.filter (fun x => c < key x))

def page (rows : List α) (c : κ) (n : Nat) : List α := (beyond key rows c).take n

variable {key}

@[simp] theorem mem_byKey {rows : List α} {x : α} : x ∈ byKey key rows ↔ x ∈ rows :=
  List.mem_insertionSort _

theorem orderedInsert_congr {r s : α → α → Prop} [DecidableRel r] [DecidableRel s] {a : α} {l : List α}
    (h : ∀ b ∈ l, r a b ↔ s a b) : l.orderedInsert r a = l.orderedInsert s a := by
  induction l with
  | nil => rfl
  | cons b l ih =>
    rw [List.orderedInsert_cons, List.orderedInsert_cons]
    have head := h b List.mem_cons_self
    have tail := ih (fun c hc => h c (List.mem_cons_of_mem _ hc))
    by_cases le : r a b
    · rw [if_pos le, if_pos (head.mp le)]
    · rw [if_neg le, if_neg (fun other => le (head.mpr other)), tail]

/-- Only the keys of the rows themselves matter. -/
theorem byKey_congr {f g : α → κ} {rows : List α} (h : ∀ x ∈ rows, f x = g x) :
    byKey f rows = byKey g rows := by
  induction rows with
  | nil => rfl
  | cons a rows ih =>
    have tail := ih (fun x hx => h x (List.mem_cons_of_mem _ hx))
    simp only [byKey, List.insertionSort_cons] at tail ⊢
    rw [tail]
    apply orderedInsert_congr
    intro b hb
    rw [h a List.mem_cons_self, h b (List.mem_cons_of_mem _ (List.mem_insertionSort _ |>.mp hb))]

theorem byKey_sorted (rows : List α) : (byKey key rows).Pairwise (fun x y => key x ≤ key y) := by
  have : Std.Total (fun x y : α => key x ≤ key y) := ⟨fun x y => le_total (key x) (key y)⟩
  have : IsTrans α (fun x y : α => key x ≤ key y) := ⟨fun _ _ _ => le_trans⟩
  exact List.pairwise_insertionSort _ rows

theorem byKey_strict {rows : List α} (distinct : (rows.map key).Nodup) :
    (byKey key rows).Pairwise (fun x y => key x < key y) := by
  have perm : ((byKey key rows).map key).Perm (rows.map key) :=
    (List.perm_insertionSort _ rows).map key
  have nodup : ((byKey key rows).map key).Nodup := perm.nodup_iff.mpr distinct
  have sorted : (byKey key rows).Pairwise (fun x y => key x ≤ key y) := byKey_sorted rows
  have both := sorted.and (List.pairwise_map.mp nodup)
  exact both.imp (fun h => lt_of_le_of_ne h.1 h.2)

theorem byKey_nodup {rows : List α} (distinct : (rows.map key).Nodup) :
    ((byKey key rows).map key).Nodup :=
  List.pairwise_map.mpr ((byKey_strict distinct).imp ne_of_lt)

@[simp] theorem mem_beyond {rows : List α} {c : κ} {x : α} :
    x ∈ beyond key rows c ↔ x ∈ rows ∧ c < key x := by
  simp [beyond]

theorem beyond_strict {rows : List α} (distinct : (rows.map key).Nodup) (c : κ) :
    (beyond key rows c).Pairwise (fun x y => key x < key y) :=
  byKey_strict (distinct.sublist (List.filter_sublist.map key))

theorem mem_page {rows : List α} {c : κ} {n : Nat} {x : α} (h : x ∈ page key rows c n) :
    x ∈ rows ∧ c < key x :=
  mem_beyond.mp (List.mem_of_mem_take h)

theorem page_strict {rows : List α} (distinct : (rows.map key).Nodup) (c : κ) (n : Nat) :
    (page key rows c n).Pairwise (fun x y => key x < key y) :=
  (beyond_strict distinct c).sublist (List.take_sublist _ _)

/-- A page leaves no gap below any of its rows. -/
theorem page_closed {rows : List α} (distinct : (rows.map key).Nodup) {c : κ} {n : Nat} {x y : α}
    (hx : x ∈ rows) (above : c < key x) (hy : y ∈ page key rows c n) (le : key x ≤ key y) :
    x ∈ page key rows c n := by
  have split := beyond_strict distinct c
  rw [← List.take_append_drop n (beyond key rows c)] at split
  have mem := mem_beyond.mpr ⟨hx, above⟩
  rw [← List.take_append_drop n (beyond key rows c)] at mem
  rcases List.mem_append.mp mem with early | late
  · exact early
  · have lt := (List.pairwise_append.mp split).2.2 y hy x late
    exact absurd le (not_le.mpr lt)

/-- A page that is not cut off holds everything beyond the key. -/
theorem page_whole {rows : List α} {c : κ} {n : Nat} (short : (beyond key rows c).length ≤ n) :
    page key rows c n = beyond key rows c :=
  List.take_of_length_le short

/-- The last row of a page has its largest key. -/
theorem page_last {rows : List α} (distinct : (rows.map key).Nodup) {c : κ} {n : Nat} {x y : α}
    (last : (page key rows c n).getLast? = some y) (hx : x ∈ page key rows c n) : key x ≤ key y := by
  obtain ⟨init, eq⟩ := List.getLast?_eq_some_iff.mp last
  have strict := page_strict distinct c n
  rw [eq] at strict hx
  rcases List.mem_append.mp hx with early | final
  · exact ((List.pairwise_append.mp strict).2.2 x early y (List.mem_singleton_self y)).le
  · rw [List.mem_singleton.mp final]

/-! The keys of a page are the page of the keys. -/

theorem byKey_map (rows : List α) : (byKey key rows).map key = byKey id (rows.map key) :=
  List.map_insertionSort _ _ key rows (fun _ _ _ _ => Iff.rfl)

theorem beyond_map (rows : List α) (c : κ) :
    (beyond key rows c).map key = beyond id (rows.map key) c := by
  rw [beyond, byKey_map, beyond, List.filter_map]
  rfl

theorem page_map (rows : List α) (c : κ) (n : Nat) :
    (page key rows c n).map key = page id (rows.map key) c n := by
  rw [page, List.map_take, beyond_map, page]

theorem page_take (rows : List α) (c : κ) (n : Nat) : (page key rows c (n + 1)).take n = page key rows c n := by
  rw [page, List.take_take, Nat.min_eq_left (Nat.le_succ n), page]

/-- Asking for one row more than is shown tells whether something lies beyond the page. -/
theorem page_more (rows : List α) (c : κ) (n : Nat) :
    n < (page key rows c (n + 1)).length ↔ n < (beyond key rows c).length := by
  rw [page, List.length_take]
  omega

end Lib
