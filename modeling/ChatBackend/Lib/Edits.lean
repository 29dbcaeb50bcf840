import Mathlib.Data.Finset.Insert
import Mathlib.Data.Finset.Erase
import Mathlib.Data.List.Basic

/-! A set that is wanted now and a copy of it that queued edits will bring up to date.
For each element the last edit decides, so edits that are already in the copy do no harm when they
are replayed on it. -/

namespace Lib

universe u

inductive Edit (α : Type u) where
  | insert (a : α)
  | erase (a : α)
  deriving DecidableEq

namespace Edit

variable {α : Type u} [DecidableEq α]

def target : Edit α → α
  | .insert a => a
  | .erase a => a

def apply (s : Finset α) : Edit α → Finset α
  | .insert a => Insert.insert a s
  | .erase a => s.erase a

def replay (s : Finset α) (es : List (Edit α)) : Finset α := es.foldl apply s

@[simp] theorem replay_nil (s : Finset α) : replay s [] = s := rfl

@[simp] theorem replay_cons (s : Finset α) (e : Edit α) (es : List (Edit α)) :
    replay s (e :: es) = replay (e.apply s) es := rfl

@[simp] theorem replay_concat (s : Finset α) (es : List (Edit α)) (e : Edit α) :
    replay s (es ++ [e]) = e.apply (replay s es) := by
  simp [replay]

/-- An edit has the same effect on an element in any two sets that agree on it. -/
theorem mem_apply_congr {s t : Finset α} {a : α} (e : Edit α) (h : a ∈ s ↔ a ∈ t) :
    a ∈ e.apply s ↔ a ∈ e.apply t := by
  cases e with
  | insert b => simp only [apply, Finset.mem_insert, h]
  | erase b => simp only [apply, Finset.mem_erase, h]

theorem mem_replay_congr {s t : Finset α} {a : α} (es : List (Edit α)) (h : a ∈ s ↔ a ∈ t) :
    a ∈ replay s es ↔ a ∈ replay t es := by
  induction es generalizing s t with
  | nil => exact h
  | cons e es ih => exact ih (mem_apply_congr e h)

theorem mem_apply_other {s : Finset α} {a : α} {e : Edit α} (ne : a ≠ e.target) :
    a ∈ e.apply s ↔ a ∈ s := by
  cases e with
  | insert b => simp [apply, show a ≠ b from ne]
  | erase b => simp [apply, show a ≠ b from ne]

/-- Whether the target is in the result does not depend on the set. -/
theorem mem_apply_target {s t : Finset α} (e : Edit α) :
    e.target ∈ e.apply s ↔ e.target ∈ e.apply t := by
  cases e with
  | insert b => simp [apply, target]
  | erase b => simp [apply, target]

theorem mem_replay_other {s : Finset α} {a : α} {es : List (Edit α)} (ne : ∀ e ∈ es, a ≠ e.target) :
    a ∈ replay s es ↔ a ∈ s := by
  induction es generalizing s with
  | nil => rfl
  | cons e es ih =>
    exact (ih (fun x hx => ne x (List.mem_cons_of_mem _ hx))).trans
      (mem_apply_other (ne e List.mem_cons_self))

/-- Once an element is edited, where the replay began is forgotten. -/
theorem mem_replay_edited {s t : Finset α} {e : Edit α} {es : List (Edit α)} (mem : e ∈ es) :
    e.target ∈ replay s es ↔ e.target ∈ replay t es := by
  induction es generalizing s t with
  | nil => cases mem
  | cons x es ih =>
    rcases List.mem_cons.mp mem with rfl | later
    · exact mem_replay_congr es (mem_apply_target e)
    · exact ih later

/-- The edits change nothing in a copy that is up to date. -/
def Settled (s : Finset α) (es : List (Edit α)) : Prop := replay s es = s

@[simp] theorem Settled.nil (s : Finset α) : Settled s [] := rfl

theorem Settled.tail {s : Finset α} {e : Edit α} {es : List (Edit α)} (h : Settled s (e :: es)) :
    Settled s es := by
  ext a
  by_cases edited : ∃ x ∈ es, a = x.target
  · obtain ⟨x, mem, rfl⟩ := edited
    rw [mem_replay_edited (t := e.apply s) mem, ← replay_cons, show replay s (e :: es) = s from h]
  · exact mem_replay_other (fun x hx eq => edited ⟨x, hx, eq⟩)

/-- An edit of the set that is also queued keeps the queue settled. -/
theorem Settled.edit {s : Finset α} {es : List (Edit α)} (h : Settled s es) (e : Edit α) :
    Settled (e.apply s) (es ++ [e]) := by
  rw [Settled, replay_concat]
  ext a
  by_cases eq : a = e.target
  · rw [eq]
    exact mem_apply_target e
  · have same : a ∈ e.apply s ↔ a ∈ s := mem_apply_other eq
    rw [mem_apply_other eq, mem_replay_congr es same, show replay s es = s from h, same]

end Edit

end Lib
