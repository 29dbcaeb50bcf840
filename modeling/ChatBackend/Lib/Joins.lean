import Mathlib.Data.List.Perm.Basic
import Mathlib.Order.Lattice

/-! Operations that join. Each raises what is seen of the state to the least upper bound with a
contribution of its own, and no operation changes the contributions of the others. Then only
the contributions matter: not their order, and not how often they come. -/

namespace Lib

universe u v w x

variable {σ : Type u} {κ : Type v} {L : Type w} [SemilatticeSup L]

structure Joins (run : σ → κ → σ) (view : σ → L) (gives : σ → κ → L) (P : σ → Prop) : Prop where
  keep : ∀ s k, P s → P (run s k)
  join : ∀ s k, P s → view (run s k) = view s ⊔ gives s k
  fixed : ∀ s k j, P s → gives (run s k) j = gives s j

def joinAll (a : L) (bs : List L) : L := bs.foldl (· ⊔ ·) a

@[simp] theorem joinAll_nil (a : L) : joinAll a [] = a := rfl

@[simp] theorem joinAll_cons (a b : L) (bs : List L) : joinAll a (b :: bs) = joinAll (a ⊔ b) bs := rfl

theorem joinAll_perm (a : L) {bs cs : List L} (h : bs.Perm cs) : joinAll a bs = joinAll a cs := by
  have : RightCommutative (fun x y : L => x ⊔ y) := ⟨fun x y z => sup_right_comm x y z⟩
  exact h.foldl_eq a

theorem le_joinAll (a : L) (bs : List L) : a ≤ joinAll a bs := by
  induction bs generalizing a with
  | nil => exact le_rfl
  | cons b bs ih => exact le_sup_left.trans (ih (a ⊔ b))

theorem mem_le_joinAll (a : L) {b : L} {bs : List L} (h : b ∈ bs) : b ≤ joinAll a bs := by
  induction bs generalizing a with
  | nil => cases h
  | cons c bs ih =>
    rcases List.mem_cons.mp h with rfl | later
    · exact le_sup_right.trans (le_joinAll (a ⊔ b) bs)
    · exact ih (a ⊔ c) later

/-- The answers of a list of operations, each in the state that the ones before it left. -/
def replies {α : Type x} (run : σ → κ → σ) (answer : σ → κ → α) : σ → List κ → List α
  | _, [] => []
  | s, k :: ks => answer s k :: replies run answer (run s k) ks

namespace Joins

variable {run : σ → κ → σ} {view : σ → L} {gives : σ → κ → L} {P : σ → Prop}
  (joins : Joins run view gives P)

include joins

theorem keeps (s : σ) (ks : List κ) (start : P s) : P (ks.foldl run s) := by
  induction ks generalizing s with
  | nil => exact start
  | cons k ks ih => exact ih (run s k) (joins.keep s k start)

theorem fixed_foldl (s : σ) (ks : List κ) (j : κ) (start : P s) :
    gives (ks.foldl run s) j = gives s j := by
  induction ks generalizing s with
  | nil => rfl
  | cons k ks ih => exact (ih (run s k) (joins.keep s k start)).trans (joins.fixed s k j start)

theorem foldl (s : σ) (ks : List κ) (start : P s) :
    view (ks.foldl run s) = joinAll (view s) (ks.map (gives s)) := by
  induction ks generalizing s with
  | nil => rfl
  | cons k ks ih =>
    have next := joins.keep s k start
    have same : ks.map (gives (run s k)) = ks.map (gives s) :=
      List.map_congr_left (fun j _ => joins.fixed s k j start)
    rw [List.foldl_cons, ih (run s k) next, same, joins.join s k start, List.map_cons, joinAll_cons]

/-- The order of the operations does not show. -/
theorem perm (s : σ) {ks js : List κ} (start : P s)
    (same : (ks.map (gives s)).Perm (js.map (gives s))) :
    view (ks.foldl run s) = view (js.foldl run s) := by
  rw [joins.foldl s ks start, joins.foldl s js start, joinAll_perm (view s) same]

/-- An operation whose contribution has been made already does not show. -/
theorem absorb (s : σ) {ks : List κ} {j k : κ} (start : P s) (mem : k ∈ ks)
    (same : gives s j = gives s k) : view (run (ks.foldl run s) j) = view (ks.foldl run s) := by
  have le : gives s k ≤ joinAll (view s) (ks.map (gives s)) :=
    mem_le_joinAll (view s) (List.mem_map.mpr ⟨k, mem, rfl⟩)
  rw [joins.join _ j (joins.keeps s ks start), joins.fixed_foldl s ks j start, same,
    joins.foldl s ks start]
  exact sup_eq_left.mpr le

/-- Two operations show like one that contributes as much as both. -/
theorem merge (s : σ) {i j k : κ} (start : P s) (both : gives s i ⊔ gives s j = gives s k) :
    view (run (run s i) j) = view (run s k) := by
  rw [joins.join _ j (joins.keep s i start), joins.fixed s i j start, joins.join s i start,
    joins.join s k start, sup_assoc, both]

theorem replies_fixed {α : Type x} {answer : σ → κ → α}
    (fixed : ∀ s k j, P s → answer (run s k) j = answer s j) (s : σ) (ks : List κ) (start : P s) :
    replies run answer s ks = ks.map (answer s) := by
  induction ks generalizing s with
  | nil => rfl
  | cons k ks ih =>
    rw [replies, ih (run s k) (joins.keep s k start), List.map_cons]
    congr 1
    exact List.map_congr_left (fun j _ => fixed s k j start)

end Joins

end Lib
