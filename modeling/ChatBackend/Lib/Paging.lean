import ChatBackend.Lib.Keyset

/-! Reading to the end, page by page. What is left after a page is what lies beyond its last key,
so a reader that keeps only that key gets every row once. -/

namespace Lib

universe u v

variable {α : Type u} {κ : Type v} [LinearOrder κ] {key : α → κ}

theorem strict_ext {l r : List α} (hl : l.Pairwise (fun x y => key x < key y))
    (hr : r.Pairwise (fun x y => key x < key y)) (same : ∀ x, x ∈ l ↔ x ∈ r) : l = r := by
  have : Std.Antisymm (fun x y : α => key x < key y) := ⟨fun _ _ h g => absurd h (lt_asymm g)⟩
  have : Std.Irrefl (fun x y : α => key x < key y) := ⟨fun x => lt_irrefl (key x)⟩
  exact hl.eq_of_mem_iff hr same

/-- In a list that holds every row beyond any of its own, what follows the first `n` lies beyond
the last of them. -/
theorem beyond_last {rows l : List α} (distinct : (rows.map key).Nodup)
    (strict : l.Pairwise (fun x y => key x < key y)) (inside : ∀ x ∈ l, x ∈ rows)
    (closed : ∀ x ∈ rows, ∀ y ∈ l, key y < key x → x ∈ l) {n : Nat} {y : α}
    (last : (l.take n).getLast? = some y) : beyond key rows (key y) = l.drop n := by
  obtain ⟨init, front⟩ := List.getLast?_eq_some_iff.mp last
  have parts : l = (init ++ [y]) ++ l.drop n := by rw [← front, List.take_append_drop]
  have order := parts ▸ strict
  have ends := List.pairwise_append.mp order
  have final : y ∈ init ++ [y] := by simp
  apply strict_ext (beyond_strict distinct (key y)) (strict.sublist (List.drop_sublist n l))
  intro x
  rw [mem_beyond]
  constructor
  · rintro ⟨hx, above⟩
    have mem := closed x hx y (parts ▸ List.mem_append_left _ final) above
    rw [parts] at mem
    rcases List.mem_append.mp mem with early | late
    · have upTo : key x ≤ key y := by
        rcases List.mem_append.mp early with first | final
        · exact ((List.pairwise_append.mp ends.1).2.2 x first y (List.mem_singleton_self y)).le
        · rw [List.mem_singleton.mp final]
      exact absurd above (not_lt.mpr upTo)
    · exact late
  · intro late
    exact ⟨inside x (List.mem_of_mem_drop late), ends.2.2 y final x late⟩

theorem byKey_drop {rows : List α} (distinct : (rows.map key).Nodup) {n : Nat} {y : α}
    (last : ((byKey key rows).take n).getLast? = some y) :
    beyond key rows (key y) = (byKey key rows).drop n :=
  beyond_last distinct (byKey_strict distinct) (fun _ h => mem_byKey.mp h)
    (fun _ h _ _ _ => mem_byKey.mpr h) last

theorem beyond_drop {rows : List α} (distinct : (rows.map key).Nodup) {c : κ} {n : Nat} {y : α}
    (last : ((beyond key rows c).take n).getLast? = some y) :
    beyond key rows (key y) = (beyond key rows c).drop n :=
  beyond_last distinct (beyond_strict distinct c) (fun _ h => (mem_beyond.mp h).1)
    (fun _ h _ hy above => mem_beyond.mpr ⟨h, (mem_beyond.mp hy).2.trans above⟩) last

/-- The pages in which a list is read, each with whether more follow. -/
inductive Pages (limit : Nat) : List α → List (List α × Bool) → Prop where
  | last {l : List α} : l.length ≤ limit → Pages limit l [(l, false)]
  | more {l : List α} {ps : List (List α × Bool)} : limit < l.length →
      Pages limit (l.drop limit) ps → Pages limit l ((l.take limit, true) :: ps)

theorem Pages.exists {limit : Nat} (pos : 0 < limit) (l : List α) :
    ∃ ps, Pages limit l ps ∧ ps.length ≤ l.length + 1 := by
  induction h : l.length using Nat.strong_induction_on generalizing l with
  | _ n ih =>
    by_cases whole : l.length ≤ limit
    · exact ⟨_, .last whole, by simp⟩
    · have longer : limit < l.length := not_le.mp whole
      have shorter : (l.drop limit).length < n := by
        rw [List.length_drop]
        omega
      obtain ⟨ps, pages, bound⟩ := ih _ shorter (l.drop limit) rfl
      refine ⟨_, .more longer pages, ?_⟩
      rw [List.length_cons]
      omega

theorem Pages.flatten {limit : Nat} {l : List α} {ps : List (List α × Bool)} (h : Pages limit l ps) :
    ps.flatMap Prod.fst = l := by
  induction h with
  | last short => simp
  | more longer pages ih => rw [List.flatMap_cons, ih, List.take_append_drop]

/-- At every page, what has been read so far and what is left make up the whole. -/
theorem Pages.split {limit : Nat} {l : List α} {ps : List (List α × Bool)} (h : Pages limit l ps)
    {xs ys : List (List α × Bool)} {p : List α × Bool} (eq : ps = xs ++ p :: ys) :
    ∃ rest, l = (xs ++ [p]).flatMap Prod.fst ++ rest ∧ rest = ys.flatMap Prod.fst ∧
      (p.2 = true ↔ rest ≠ []) := by
  induction h generalizing xs with
  | @last l short =>
    cases xs with
    | nil =>
      cases eq
      exact ⟨[], by simp⟩
    | cons x xs => simp at eq
  | @more l ps longer pages ih =>
    cases xs with
    | nil =>
      obtain ⟨rfl, rfl⟩ := List.cons.inj eq
      have left : l.drop limit ≠ [] := by
        rw [ne_eq, List.drop_eq_nil_iff]
        omega
      exact ⟨l.drop limit, by simp, pages.flatten.symm, by simp [left]⟩
    | cons x xs =>
      obtain ⟨rfl, rfl⟩ := List.cons.inj eq
      obtain ⟨rest, whole, same, more⟩ := ih rfl
      refine ⟨rest, ?_, same, more⟩
      rw [List.cons_append, List.flatMap_cons, List.append_assoc, ← whole, List.take_append_drop]

end Lib
