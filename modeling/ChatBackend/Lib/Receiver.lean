import Mathlib.Data.List.Nodup
import Mathlib.Data.List.Induction

/-! A receiver that keeps the first copy of each item. Whatever comes again, it has each item once and in
the order in which the first copies came. -/

namespace Lib

universe u v

section Receiver

variable {α : Type u} {κ : Type v} [DecidableEq κ] {key : α → κ} {xs : List α} {x : α} {k : κ}

def keepFirst (key : α → κ) (kept : List α) (x : α) : List α :=
  if key x ∈ kept.map key then kept else kept ++ [x]

def firsts (key : α → κ) (xs : List α) : List α := xs.foldl (keepFirst key) []

@[simp] theorem firsts_nil : firsts key ([] : List α) = [] := rfl

theorem firsts_concat (key : α → κ) (xs : List α) (x : α) :
    firsts key (xs ++ [x]) = keepFirst key (firsts key xs) x := by
  rw [firsts, List.foldl_append]
  rfl

theorem firsts_known (known : key x ∈ (firsts key xs).map key) :
    firsts key (xs ++ [x]) = firsts key xs := by
  rw [firsts_concat, keepFirst, if_pos known]

theorem firsts_new (new : key x ∉ (firsts key xs).map key) :
    firsts key (xs ++ [x]) = firsts key xs ++ [x] := by
  rw [firsts_concat, keepFirst, if_neg new]

theorem firsts_sublist (key : α → κ) (xs : List α) : (firsts key xs).Sublist xs := by
  induction xs using List.reverseRecOn with
  | nil => exact List.Sublist.refl []
  | append_singleton xs x ih =>
    by_cases known : key x ∈ (firsts key xs).map key
    · rw [firsts_known known]
      exact ih.trans (List.sublist_append_left xs [x])
    · rw [firsts_new known]
      exact ih.append (List.Sublist.refl [x])

theorem firsts_nodup (key : α → κ) (xs : List α) : ((firsts key xs).map key).Nodup := by
  induction xs using List.reverseRecOn with
  | nil => exact List.nodup_nil
  | append_singleton xs x ih =>
    by_cases known : key x ∈ (firsts key xs).map key
    · rw [firsts_known known]
      exact ih
    · rw [firsts_new known, List.map_append]
      exact List.nodup_append.mpr ⟨ih, List.nodup_singleton _, fun a mem b new eq =>
        known (List.mem_singleton.mp new ▸ eq ▸ mem)⟩

theorem mem_firsts_keys : k ∈ (firsts key xs).map key ↔ k ∈ xs.map key := by
  induction xs using List.reverseRecOn with
  | nil => exact Iff.rfl
  | append_singleton xs x ih =>
    rw [List.map_append, List.mem_append, ← ih, List.map_singleton, List.mem_singleton]
    by_cases known : key x ∈ (firsts key xs).map key
    · rw [firsts_known known]
      exact ⟨.inl, fun either => either.elim id fun eq => eq ▸ known⟩
    · rw [firsts_new known, List.map_append, List.mem_append, List.map_singleton, List.mem_singleton]

end Receiver

section Touch

variable {α : Type u} {κ : Type v} [DecidableEq κ] {β : Type u} {key : α → κ} {k : κ} {i : Nat}
  {g g' : α → β} {f : β → β} {l : List α}

/-- Where the keys differ, changing the first item with a key changes what is shown of that key. -/
theorem modify_shown (nodup : (l.map key).Nodup) (found : l.findIdx? (fun a => key a = k) = some i)
    (here : ∀ a ∈ l, key a = k → g' a = f (g a)) (elsewhere : ∀ a ∈ l, key a ≠ k → g' a = g a) :
    (l.map g).modify i f = l.map g' := by
  induction l generalizing i with
  | nil => cases found
  | cons a l ih =>
    rw [List.map_cons, List.nodup_cons] at nodup
    rw [List.findIdx?_cons] at found
    rw [List.map_cons, List.map_cons]
    by_cases same : key a = k
    · rw [if_pos (decide_eq_true same)] at found
      obtain rfl := Option.some.inj found
      rw [List.modify_zero_cons, here a List.mem_cons_self same]
      refine congrArg _ (List.map_congr_left fun b mem =>
        (elsewhere b (List.mem_cons_of_mem a mem) ?_).symm)
      rintro rfl
      exact nodup.1 (same ▸ List.mem_map_of_mem mem)
    · rw [if_neg (by simpa using same)] at found
      obtain ⟨j, inside, rfl⟩ := Option.map_eq_some_iff.mp found
      rw [List.modify_succ_cons, elsewhere a List.mem_cons_self same,
        ih nodup.2 inside (fun b mem => here b (List.mem_cons_of_mem a mem))
          fun b mem => elsewhere b (List.mem_cons_of_mem a mem)]

end Touch

end Lib
