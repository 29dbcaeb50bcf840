import ChatBackend.Lib.JsonDecoder
import ChatBackend.Lib.JsonEncoder

/-! The items of an object under assignment. -/

namespace Lib

theorem lookup_other {k j : Text} (ne : j ≠ k) (v : Json) (rest : List (Text × Json)) :
    ((k, v) :: rest).lookup j = rest.lookup j := by
  rw [List.lookup_cons, beq_false_of_ne ne]

theorem lookup_replace (members : List (Text × Json)) (k j : Text) (v : Json) :
    (members.map fun m => if m.1 = k then (k, v) else m).lookup j =
      if j = k then (members.lookup j).map (fun _ => v) else members.lookup j := by
  induction members with
  | nil => simp
  | cons m rest ih =>
    obtain ⟨key, old⟩ := m
    rw [List.map_cons]
    by_cases first : j = key
    · subst first
      by_cases here : j = k
      · subst here
        simp [List.lookup_cons_self]
      · simp [here, List.lookup_cons_self]
    · rw [lookup_other first]
      by_cases here : key = k
      · rw [if_pos here, lookup_other (here ▸ first), ih]
      · rw [if_neg here, lookup_other first, ih]

theorem getItem_setItem (members : List (Text × Json)) (k j : String) (v : Json) :
    getItem (setItem members (text k) v) j = if j = k then v else getItem members j := by
  have same : text j = text k ↔ j = k := text_inj
  unfold getItem setItem
  split
  · rename_i found
    rw [lookup_replace]
    by_cases eq : j = k
    · subst eq
      obtain ⟨m, mem, key⟩ := List.any_eq_true.mp found
      cases hit : members.lookup (text j) with
      | none =>
        have miss := List.lookup_eq_none_iff.mp hit m mem
        simp [of_decide_eq_true key] at miss
      | some old => simp
    · rw [if_neg (same.not.mpr eq), if_neg eq]
  · rename_i fresh
    rw [List.lookup_append]
    by_cases eq : j = k
    · subst eq
      have none : members.lookup (text j) = none := by
        refine List.lookup_eq_none_iff.mpr fun m mem => ?_
        exact bne_iff_ne.mpr fun key => fresh (List.any_eq_true.mpr ⟨m, mem, decide_eq_true key.symm⟩)
      rw [none, if_pos rfl, List.lookup_cons_self]
      rfl
    · rw [if_neg eq, lookup_other (same.not.mpr eq), List.lookup_nil, Option.or_none]

end Lib
