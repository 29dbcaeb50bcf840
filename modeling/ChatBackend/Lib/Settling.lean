import ChatBackend.Lib.Machine

/-! Machines that come to rest. Where each of certain steps lowers a measure, and one of them is
enabled until the machine rests, a stretch of such steps is bounded and ends at rest, however the steps
are chosen. -/

namespace Lib.Machine

universe u v

variable {σ : Type u} {α : Type v} {m : Machine σ α}

structure Settles (m : Machine σ α) (calm : σ → α → Prop) (P rest : σ → Prop) (left : σ → Nat) :
    Prop where
  lowers : ∀ s a t, P s → calm s a → m.step s a = some t → P t ∧ left t < left s
  goes : ∀ s, P s → rest s ∨ ∃ a t, calm s a ∧ m.step s a = some t

/-- Every enabled step of the stretch is of that kind. -/
def Calm (m : Machine σ α) (calm : σ → α → Prop) (s : σ) (as : List α) : Prop :=
  ∀ x ∈ m.moves s as, calm x.before x.action

namespace Settles

variable {calm : σ → α → Prop} {P rest : σ → Prop} {left : σ → Nat}

theorem bounded (h : Settles m calm P rest left) {s : σ} (start : P s) {as : List α}
    (all : m.Calm calm s as) :
    P (m.exec s as) ∧ (m.moves s as).length + left (m.exec s as) ≤ left s := by
  induction as generalizing s with
  | nil => exact ⟨start, by simp⟩
  | cons a as ih =>
    unfold Calm at all
    rw [exec_cons, moves]
    cases step : m.step s a with
    | none =>
      rw [moves, step] at all
      rw [m.next_of_disabled step]
      exact ih start all
    | some t =>
      rw [moves, step] at all
      rw [m.next_of_step step]
      obtain ⟨next, less⟩ := h.lowers s a t start (all _ List.mem_cons_self) step
      obtain ⟨last, count⟩ := ih next fun x hx => all x (List.mem_cons_of_mem _ hx)
      exact ⟨last, by rw [List.length_cons]; omega⟩

/-- A stretch that no step of the kind prolongs has come to rest. -/
theorem stops (h : Settles m calm P rest left) {s : σ} (start : P s) {as : List α}
    (all : m.Calm calm s as)
    (stuck : ∀ a, calm (m.exec s as) a → m.step (m.exec s as) a = none) : rest (m.exec s as) := by
  obtain ⟨last, -⟩ := h.bounded start all
  rcases h.goes _ last with done | ⟨a, t, ok, step⟩
  · exact done
  · rw [stuck a ok] at step
    cases step

theorem reaches (h : Settles m calm P rest left) {s : σ} (start : P s) :
    ∃ as, m.Calm calm s as ∧ rest (m.exec s as) := by
  generalize bound : left s = n
  induction n using Nat.strongRecOn generalizing s with
  | _ n ih =>
    rcases h.goes s start with done | ⟨a, t, ok, step⟩
    · exact ⟨[], fun x hx => absurd hx List.not_mem_nil, done⟩
    · obtain ⟨next, less⟩ := h.lowers s a t start ok step
      obtain ⟨as, all, done⟩ := ih (left t) (bound ▸ less) next rfl
      refine ⟨a :: as, fun x hx => ?_, by rw [exec_cons, m.next_of_step step]; exact done⟩
      rw [moves, step] at hx
      rcases List.mem_cons.mp hx with rfl | later
      · exact ok
      · exact all x later

end Settles

end Lib.Machine
