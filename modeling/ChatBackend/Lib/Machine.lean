import Mathlib.Data.List.Induction
import Mathlib.Algebra.BigOperators.Group.List.Basic

/-! Transition systems with an executable partial step, and their finite runs.
A disabled action leaves the state alone, so every list of actions is a run and
no separate predicate of validity is carried through the inductions. -/

namespace Lib

universe u v w

structure Machine (σ : Type u) (α : Type v) where
  init : σ
  step : σ → α → Option σ

structure Move (σ : Type u) (α : Type v) where
  before : σ
  action : α
  after : σ

namespace Machine

variable {σ : Type u} {α : Type v} (m : Machine σ α)

def next (s : σ) (a : α) : σ := (m.step s a).getD s

def exec (s : σ) (as : List α) : σ := as.foldl m.next s

def run (as : List α) : σ := m.exec m.init as

/-- The enabled steps of a run, in order. Disabled actions leave no trace. -/
def moves (s : σ) : List α → List (Move σ α)
  | [] => []
  | a :: as =>
    match m.step s a with
    | some t => ⟨s, a, t⟩ :: moves t as
    | none => moves s as

def history (as : List α) : List (Move σ α) := m.moves m.init as

@[simp] theorem exec_nil (s : σ) : m.exec s [] = s := rfl

@[simp] theorem exec_cons (s : σ) (a : α) (as : List α) :
    m.exec s (a :: as) = m.exec (m.next s a) as := rfl

theorem exec_append (s : σ) (as bs : List α) :
    m.exec s (as ++ bs) = m.exec (m.exec s as) bs := List.foldl_append

theorem next_of_step {s t : σ} {a : α} (h : m.step s a = some t) : m.next s a = t := by
  simp [next, h]

theorem next_of_disabled {s : σ} {a : α} (h : m.step s a = none) : m.next s a = s := by
  simp [next, h]

/-- The induction behind every invariant: what each enabled step preserves, a run preserves. -/
theorem exec_invariant (P : σ → Prop) (step : ∀ s a t, P s → m.step s a = some t → P t)
    (s : σ) (start : P s) (as : List α) : P (m.exec s as) := by
  induction as generalizing s with
  | nil => exact start
  | cons a as ih =>
    rw [exec_cons]
    cases h : m.step s a with
    | none => rw [m.next_of_disabled h]; exact ih s start
    | some t => rw [m.next_of_step h]; exact ih t (step s a t start h)

theorem run_invariant (P : σ → Prop) (initial : P m.init)
    (step : ∀ s a t, P s → m.step s a = some t → P t) (as : List α) : P (m.run as) :=
  m.exec_invariant P step m.init initial as

/-- Two-state facts compose along a run. The invariant is there to be used by the steps. -/
theorem exec_relation (P : σ → Prop) (R : σ → σ → Prop) (refl : ∀ s, R s s)
    (trans : ∀ s t r, R s t → R t r → R s r)
    (keep : ∀ s a t, P s → m.step s a = some t → P t)
    (step : ∀ s a t, P s → m.step s a = some t → R s t)
    (s : σ) (start : P s) (as : List α) : R s (m.exec s as) := by
  induction as generalizing s with
  | nil => exact refl s
  | cons a as ih =>
    rw [exec_cons]
    cases h : m.step s a with
    | none => rw [m.next_of_disabled h]; exact ih s start
    | some t =>
      rw [m.next_of_step h]
      exact trans s t _ (step s a t start h) (ih t (keep s a t start h))

@[simp] theorem moves_nil (s : σ) : m.moves s [] = [] := rfl

theorem moves_append (s : σ) (as bs : List α) :
    m.moves s (as ++ bs) = m.moves s as ++ m.moves (m.exec s as) bs := by
  induction as generalizing s with
  | nil => rfl
  | cons a as ih =>
    rw [List.cons_append, exec_cons]
    cases h : m.step s a with
    | none => simp only [moves, h, m.next_of_disabled h, ih]
    | some t => simp only [moves, h, m.next_of_step h, ih, List.cons_append]

theorem action_mem {s : σ} {as : List α} {x : Move σ α} (h : x ∈ m.moves s as) : x.action ∈ as := by
  induction as generalizing s with
  | nil => cases h
  | cons a as ih =>
    rw [moves] at h
    split at h
    · rcases List.mem_cons.mp h with rfl | h
      · exact List.mem_cons_self
      · exact List.mem_cons_of_mem a (ih h)
    · exact List.mem_cons_of_mem a (ih h)

/-- An invariant of those stretches of a run whose every move meets a condition. -/
theorem exec_guarded (C : Move σ α → Prop) (P : σ → Prop)
    (step : ∀ s a t, P s → C ⟨s, a, t⟩ → m.step s a = some t → P t) (s : σ) (start : P s)
    (as : List α) (ok : ∀ x ∈ m.moves s as, C x) : P (m.exec s as) := by
  induction as generalizing s with
  | nil => exact start
  | cons a as ih =>
    rw [exec_cons]
    cases h : m.step s a with
    | none =>
      rw [moves, h] at ok
      rw [m.next_of_disabled h]
      exact ih s start ok
    | some t =>
      rw [moves, h] at ok
      rw [m.next_of_step h]
      have now := step s a t start (ok _ List.mem_cons_self) h
      exact ih t now (fun x hx => ok x (List.mem_cons_of_mem _ hx))

theorem run_append (as bs : List α) : m.run (as ++ bs) = m.exec (m.run as) bs :=
  m.exec_append m.init as bs

theorem run_concat (as : List α) (a : α) : m.run (as ++ [a]) = m.next (m.run as) a := by
  rw [run, exec_append]
  rfl

theorem history_concat (as : List α) (a : α) :
    m.history (as ++ [a]) = m.history as ++
      match m.step (m.run as) a with
      | some t => [⟨m.run as, a, t⟩]
      | none => [] := by
  rw [history, moves_append]
  rfl

theorem history_append (as bs : List α) :
    m.history (as ++ bs) = m.history as ++ m.moves (m.run as) bs := m.moves_append m.init as bs

/-- Invariants that also speak about the steps taken so far. -/
theorem moves_invariant (Q : List (Move σ α) → σ → Prop)
    (step : ∀ h s a t, Q h s → m.step s a = some t → Q (h ++ [⟨s, a, t⟩]) t)
    (s : σ) (start : Q [] s) (as : List α) : Q (m.moves s as) (m.exec s as) := by
  induction as using List.reverseRecOn with
  | nil => exact start
  | append_singleton as a ih =>
    rw [moves_append, exec_append, moves, exec_cons, exec_nil]
    cases h : m.step (m.exec s as) a with
    | none => simpa [m.next_of_disabled h] using ih
    | some t => rw [m.next_of_step h]; exact step _ _ _ _ ih h

theorem history_invariant (Q : List (Move σ α) → σ → Prop) (initial : Q [] m.init)
    (step : ∀ h s a t, Q h s → m.step s a = some t → Q (h ++ [⟨s, a, t⟩]) t)
    (as : List α) : Q (m.history as) (m.run as) := m.moves_invariant Q step m.init initial as

/-- Every recorded move is an enabled step out of a state that the run passed through. -/
theorem mem_history {as : List α} {x : Move σ α} (h : x ∈ m.history as) :
    ∃ bs, bs <+: as ∧ x.before = m.run bs ∧ m.step x.before x.action = some x.after := by
  induction as using List.reverseRecOn with
  | nil => cases h
  | append_singleton as a ih =>
    rw [history_concat] at h
    rcases List.mem_append.mp h with h | h
    · obtain ⟨bs, first, found⟩ := ih h
      exact ⟨bs, first.trans (List.prefix_append as [a]), found⟩
    · split at h
      · rename_i t hs
        obtain rfl := List.mem_singleton.mp h
        exact ⟨as, List.prefix_append as [a], rfl, hs⟩
      · cases h

/-! Refinement: under an invariant of `m`, every step of `m` is either invisible on the abstract
state or a step of `n`, and which one it is can be told before it is taken. -/

variable {τ : Type u} {β : Type v} {m} {n : Machine τ β}

structure Refines (m : Machine σ α) (n : Machine τ β) (P : σ → Prop) (abs : σ → τ)
    (emit : σ → α → Option β) : Prop where
  initial : P m.init
  keep : ∀ s a t, P s → m.step s a = some t → P t
  init : abs m.init = n.init
  quiet : ∀ s a t, P s → m.step s a = some t → emit s a = none → abs t = abs s
  visible : ∀ s a t b, P s → m.step s a = some t → emit s a = some b → n.step (abs s) b = some (abs t)

/-- The actions of the abstract machine that a stretch of history stands for. -/
def trace (emit : σ → α → Option β) (h : List (Move σ α)) : List β :=
  h.filterMap (fun x => emit x.before x.action)

def project (abs : σ → τ) (emit : σ → α → Option β) (x : Move σ α) : Option (Move τ β) :=
  (emit x.before x.action).map (fun b => ⟨abs x.before, b, abs x.after⟩)

namespace Refines

variable {P : σ → Prop} {abs : σ → τ} {emit : σ → α → Option β} (ref : Refines m n P abs emit)

include ref

theorem invariant (as : List α) : P (m.run as) := m.run_invariant P ref.initial ref.keep as

theorem run_and_history (as : List α) :
    n.run (trace emit (m.history as)) = abs (m.run as) ∧
    n.history (trace emit (m.history as)) = (m.history as).filterMap (project abs emit) := by
  have inv := m.history_invariant
    (fun h s => P s ∧ n.run (trace emit h) = abs s ∧
      n.history (trace emit h) = h.filterMap (project abs emit))
    ⟨ref.initial, ref.init.symm, rfl⟩ ?_ as
  · exact inv.2
  · rintro h s a t ⟨ps, run, hist⟩ step
    refine ⟨ref.keep s a t ps step, ?_⟩
    have next := ref.quiet s a t ps step
    have moves := ref.visible s a t
    cases e : emit s a with
    | none =>
      have tail : trace emit (h ++ [⟨s, a, t⟩]) = trace emit h := by simp [trace, e]
      rw [tail, run, next e]
      exact ⟨rfl, by simp [hist, project, e]⟩
    | some b =>
      have enabled := moves b ps step e
      have tail : trace emit (h ++ [⟨s, a, t⟩]) = trace emit h ++ [b] := by simp [trace, e]
      rw [tail, run_concat, history_concat, run, n.next_of_step enabled, enabled, hist]
      exact ⟨rfl, by simp [project, e]⟩

theorem run (as : List α) : n.run (trace emit (m.history as)) = abs (m.run as) :=
  (ref.run_and_history as).1

theorem history (as : List α) :
    n.history (trace emit (m.history as)) = (m.history as).filterMap (project abs emit) :=
  (ref.run_and_history as).2

end Refines

end Machine

end Lib
