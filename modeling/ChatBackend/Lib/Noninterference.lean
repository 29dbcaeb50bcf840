import Mathlib.Data.List.Basic

/-! Noninterference for one observer, by unwinding. Which operations concern the observer may depend
on the state they meet. A run answers the observer as the run of those operations alone does. -/

namespace Lib

universe u v w

variable {σ : Type u} {α : Type v} {ρ : Type w}

section Runs

variable (step : σ → α → σ × ρ)

def final : σ → List α → σ
  | s, [] => s
  | s, a :: as => final (step s a).1 as

/-- The answers to the observer's own operations. -/
def answers (mine : α → Bool) : σ → List α → List ρ
  | _, [] => []
  | s, a :: as =>
    if mine a then (step s a).2 :: answers mine (step s a).1 as else answers mine (step s a).1 as

/-- The operations of a run that concern the observer. -/
def concerning (concerns : σ → α → Bool) : σ → List α → List α
  | _, [] => []
  | s, a :: as =>
    if concerns s a then a :: concerning concerns (step s a).1 as
    else concerning concerns (step s a).1 as

theorem final_concat (s : σ) (as : List α) (a : α) :
    final step s (as ++ [a]) = (step (final step s as) a).1 := by
  induction as generalizing s with
  | nil => rfl
  | cons b as ih => exact ih (step s b).1

end Runs

/-- The conditions of unwinding. `Ok s as` is what is assumed of the rest of a run. -/
structure Unwinds (step : σ → α → σ × ρ) (concerns : σ → α → Bool) (mine : α → Bool)
    (Ok : σ → List α → Prop) (Same : σ → σ → Prop) : Prop where
  refl : ∀ s, Same s s
  symm : ∀ s t, Same s t → Same t s
  trans : ∀ s t r, Same s t → Same t r → Same s r
  tail : ∀ s a as, Ok s (a :: as) → Ok (step s a).1 as
  sub : ∀ s as bs, Ok s as → bs.Sublist as → Ok s bs
  silent : ∀ s a as, Ok s (a :: as) → concerns s a = false → mine a = false ∧ Same (step s a).1 s
  agree : ∀ s t a as bs, Ok s (a :: as) → Ok t (a :: bs) → Same s t → concerns s a = true →
    Same (step s a).1 (step t a).1 ∧ (mine a = true → (step s a).2 = (step t a).2)

theorem concerning_sublist (step : σ → α → σ × ρ) (concerns : σ → α → Bool) (s : σ) (as : List α) :
    (concerning step concerns s as).Sublist as := by
  induction as generalizing s with
  | nil => exact List.Sublist.refl _
  | cons a as ih =>
    rw [concerning]
    split
    · exact (ih _).cons_cons a
    · exact (ih _).cons a

@[simp] theorem concerning_nil (step : σ → α → σ × ρ) (concerns : σ → α → Bool) (s : σ) :
    concerning step concerns s [] = [] := rfl

theorem concerning_keep {step : σ → α → σ × ρ} {concerns : σ → α → Bool} {s : σ} {a : α}
    {as : List α} (h : concerns s a = true) :
    concerning step concerns s (a :: as) = a :: concerning step concerns (step s a).1 as := by
  rw [concerning, if_pos h]

theorem concerning_skip {step : σ → α → σ × ρ} {concerns : σ → α → Bool} {s : σ} {a : α}
    {as : List α} (h : concerns s a = false) :
    concerning step concerns s (a :: as) = concerning step concerns (step s a).1 as := by
  rw [concerning, h]
  rfl

namespace Unwinds

variable {step : σ → α → σ × ρ} {concerns : σ → α → Bool} {mine : α → Bool}
  {Ok : σ → List α → Prop} {Same : σ → σ → Prop}

/-- A run and the run of what concerns the observer, from states that look the same. -/
theorem purge (h : Unwinds step concerns mine Ok Same) (as : List α) (s t : σ) (same : Same s t)
    (ok : Ok s as) (rest : Ok t (concerning step concerns s as)) :
    answers step mine s as = answers step mine t (concerning step concerns s as) ∧
    Same (final step s as) (final step t (concerning step concerns s as)) := by
  induction as generalizing s t with
  | nil => exact ⟨rfl, same⟩
  | cons a as ih =>
    have tail := h.tail s a as ok
    rw [concerning] at rest ⊢
    cases mattering : concerns s a with
    | true =>
      rw [mattering] at rest
      obtain ⟨next, told⟩ := h.agree s t a as _ ok rest same mattering
      obtain ⟨out, fin⟩ := ih _ _ next tail (h.tail t a _ rest)
      refine ⟨?_, fin⟩
      simp only [answers, if_true]
      cases own : mine a with
      | true => simp only [if_true, told own, out]
      | false => simpa using out
    | false =>
      rw [mattering] at rest
      obtain ⟨other, quiet⟩ := h.silent s a as ok mattering
      obtain ⟨out, fin⟩ := ih _ _ (h.trans _ _ _ quiet same) tail rest
      refine ⟨?_, fin⟩
      simpa [answers, other] using out

/-- Two runs with the same operations of concern to the observer look the same to it. -/
theorem two_runs (h : Unwinds step concerns mine Ok Same) (s : σ) (as bs : List α) (oka : Ok s as)
    (okb : Ok s bs) (eq : concerning step concerns s as = concerning step concerns s bs) :
    answers step mine s as = answers step mine s bs ∧ Same (final step s as) (final step s bs) := by
  have left := h.purge as s s (h.refl s) oka (h.sub s as _ oka (concerning_sublist ..))
  have right := h.purge bs s s (h.refl s) okb (h.sub s bs _ okb (concerning_sublist ..))
  rw [eq] at left
  exact ⟨left.1.trans right.1.symm, h.trans _ _ _ left.2 (h.symm _ _ right.2)⟩

end Unwinds

end Lib
