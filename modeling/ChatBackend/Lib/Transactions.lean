import Mathlib.Data.List.Basic
import Mathlib.Data.List.Pairwise

/-! Concurrent transactions over one committed state.
Writes stay pending, tagged with their transaction, until it commits or rolls back.
A conflict stands for a row lock or a unique key: a statement that would conflict
with another transaction's pending write has to wait for it. The point of the file
is that pending writes which fitted the committed state when they were staged still
fit it when they are applied, whatever committed in between. -/

namespace Lib

universe u v w

structure Semantics (δ : Type u) (ω : Type v) where
  apply : δ → ω → δ
  Fits : δ → ω → Prop
  conflict : ω → ω → Bool
  symm : ∀ v w, conflict v w = conflict w v
  fits_apply : ∀ d v w, Fits d v → Fits d w → conflict v w = false → Fits (apply d v) w

abbrev Pending (τ : Type w) (ω : Type v) := List (τ × ω)

variable {τ : Type w} {δ : Type u} {ω : Type v}

namespace Pending

def stage (p : Pending τ ω) (t : τ) (ws : List ω) : Pending τ ω := p ++ ws.map (fun w => (t, w))

theorem mem_stage {p : Pending τ ω} {t : τ} {ws : List ω} {x : τ × ω} :
    x ∈ stage p t ws ↔ x ∈ p ∨ x.1 = t ∧ x.2 ∈ ws := by
  obtain ⟨c, w⟩ := x
  simp only [stage, List.mem_append, List.mem_map, Prod.mk.injEq]
  constructor
  · rintro (h | ⟨v, hv, rfl, rfl⟩)
    · exact .inl h
    · exact .inr ⟨rfl, hv⟩
  · rintro (h | ⟨rfl, hw⟩)
    · exact .inl h
    · exact .inr ⟨w, hw, rfl, rfl⟩

@[simp] theorem stage_nil (p : Pending τ ω) (t : τ) : stage p t [] = p := by simp [stage]

variable [DecidableEq τ]

def own (p : Pending τ ω) (t : τ) : List ω := (p.filter (fun x => x.1 = t)).map Prod.snd

def drop (p : Pending τ ω) (t : τ) : Pending τ ω := p.filter (fun x => x.1 ≠ t)

theorem mem_own {p : Pending τ ω} {t : τ} {w : ω} : w ∈ own p t ↔ (t, w) ∈ p := by
  simp [own]

theorem mem_drop {p : Pending τ ω} {t : τ} {x : τ × ω} : x ∈ drop p t ↔ x ∈ p ∧ x.1 ≠ t := by
  simp [drop]

@[simp] theorem own_nil (t : τ) : own ([] : Pending τ ω) t = [] := rfl

@[simp] theorem own_stage_self (p : Pending τ ω) (t : τ) (ws : List ω) :
    own (stage p t ws) t = own p t ++ ws := by
  simp [own, stage, List.filter_append, List.filter_map, Function.comp_def]

theorem own_stage_other (p : Pending τ ω) {t c : τ} (ws : List ω) (h : c ≠ t) :
    own (stage p t ws) c = own p c := by
  simp [own, stage, List.filter_append, List.filter_map, Function.comp_def, h.symm]

@[simp] theorem own_drop_self (p : Pending τ ω) (t : τ) : own (drop p t) t = [] := by
  simp [own, drop, List.filter_filter]

theorem drop_of_own_nil {p : Pending τ ω} {t : τ} (h : own p t = []) : drop p t = p := by
  rw [drop, List.filter_eq_self]
  intro x hx
  have out : x.2 ∉ own p t := h ▸ List.not_mem_nil
  rw [mem_own] at out
  exact decide_eq_true (fun e => out (e ▸ hx))

theorem own_drop_other (p : Pending τ ω) {t c : τ} (h : c ≠ t) : own (drop p t) c = own p c := by
  simp only [own, drop, List.filter_filter]
  congr 1
  apply List.filter_congr
  intro x _
  by_cases hx : x.1 = c
  · simp [hx, h]
  · simp [hx]

end Pending

namespace Semantics

variable (S : Semantics δ ω)

def commit (d : δ) (ws : List ω) : δ := ws.foldl S.apply d

@[simp] theorem commit_nil (d : δ) : S.commit d [] = d := rfl

@[simp] theorem commit_cons (d : δ) (w : ω) (ws : List ω) :
    S.commit d (w :: ws) = S.commit (S.apply d w) ws := rfl

theorem commit_append (d : δ) (vs ws : List ω) :
    S.commit d (vs ++ ws) = S.commit (S.commit d vs) ws := List.foldl_append

/-- Another transaction holds the row or the key that the write needs. -/
def blocked [DecidableEq τ] (p : Pending τ ω) (t : τ) (w : ω) : Bool :=
  p.any (fun x => x.1 ≠ t && S.conflict x.2 w)

theorem blocked_eq_false [DecidableEq τ] {p : Pending τ ω} {t : τ} {w : ω} (h : S.blocked p t w = false) :
    ∀ x ∈ p, x.1 ≠ t → S.conflict x.2 w = false := by
  intro x hx ht
  have := List.any_eq_false.mp h x hx
  simpa [ht] using this

/-- Writes that fit and are pairwise apart can be applied one after the other. -/
theorem commit_induction (P : δ → Prop) (step : ∀ d v, P d → S.Fits d v → P (S.apply d v))
    (ws : List ω) (d : δ) (start : P d) (fits : ∀ w ∈ ws, S.Fits d w)
    (apart : ws.Pairwise (fun v w => S.conflict v w = false)) : P (S.commit d ws) := by
  induction ws generalizing d with
  | nil => exact start
  | cons v ws ih =>
    rw [commit_cons]
    have hv := fits v List.mem_cons_self
    have hp := List.pairwise_cons.mp apart
    apply ih (S.apply d v) (step d v start hv) _ hp.2
    intro w hw
    exact S.fits_apply d v w hv (fits w (List.mem_cons_of_mem _ hw)) (hp.1 w hw)

theorem fits_commit (ws : List ω) (d : δ) (w : ω) (fits : ∀ v ∈ ws, S.Fits d v)
    (apart : ws.Pairwise (fun v w => S.conflict v w = false)) (fit : S.Fits d w)
    (clear : ∀ v ∈ ws, S.conflict v w = false) : S.Fits (S.commit d ws) w := by
  induction ws generalizing d with
  | nil => exact fit
  | cons v ws ih =>
    have hv := fits v List.mem_cons_self
    have hp := List.pairwise_cons.mp apart
    rw [commit_cons]
    apply ih (S.apply d v) _ hp.2
    · exact S.fits_apply d v w hv fit (clear v List.mem_cons_self)
    · exact fun x hx => clear x (List.mem_cons_of_mem _ hx)
    · intro x hx
      exact S.fits_apply d v x hv (fits x (List.mem_cons_of_mem _ hx)) (hp.1 x hx)

/-- What row locks and unique keys give: every pending write fits the committed state,
and no two pending writes need the same row or key. -/
structure Isolated (d : δ) (p : Pending τ ω) : Prop where
  fits : ∀ x ∈ p, S.Fits d x.2
  apart : p.Pairwise (fun x y => S.conflict x.2 y.2 = false)

variable {S}

theorem Isolated.empty (d : δ) : S.Isolated d ([] : Pending τ ω) :=
  ⟨fun _ h => absurd h List.not_mem_nil, List.Pairwise.nil⟩

theorem Isolated.conflict_other {d : δ} {p : Pending τ ω} (h : S.Isolated d p) {x y : τ × ω}
    (hx : x ∈ p) (hy : y ∈ p) (ne : x.1 ≠ y.1) : S.conflict x.2 y.2 = false := by
  have : Std.Symm (fun x y : τ × ω => S.conflict x.2 y.2 = false) :=
    ⟨fun x y h => (S.symm y.2 x.2).trans h⟩
  exact h.apart.forall hx hy (fun e => ne (congrArg Prod.fst e))

variable [DecidableEq τ]

theorem Isolated.drop {d : δ} {p : Pending τ ω} (h : S.Isolated d p) (t : τ) :
    S.Isolated d (p.drop t) :=
  ⟨fun x hx => h.fits x (Pending.mem_drop.mp hx).1, h.apart.filter _⟩

theorem Isolated.own_fits {d : δ} {p : Pending τ ω} (h : S.Isolated d p) (t : τ) :
    ∀ w ∈ p.own t, S.Fits d w :=
  fun w hw => h.fits (t, w) (Pending.mem_own.mp hw)

theorem Isolated.own_apart {d : δ} {p : Pending τ ω} (h : S.Isolated d p) (t : τ) :
    (p.own t).Pairwise (fun v w => S.conflict v w = false) := by
  rw [Pending.own, List.pairwise_map]
  exact h.apart.filter _

theorem Isolated.stage {d : δ} {p : Pending τ ω} (h : S.Isolated d p) (t : τ) (ws : List ω)
    (fits : ∀ w ∈ ws, S.Fits d w) (free : ∀ w ∈ ws, S.blocked p t w = false)
    (apart : (p.own t ++ ws).Pairwise (fun v w => S.conflict v w = false)) :
    S.Isolated d (p.stage t ws) := by
  have split := List.pairwise_append.mp apart
  constructor
  · intro x hx
    rcases Pending.mem_stage.mp hx with hx | ⟨_, hx⟩
    · exact h.fits x hx
    · exact fits x.2 hx
  · apply List.pairwise_append.mpr
    refine ⟨h.apart, List.pairwise_map.mpr split.2.1, ?_⟩
    intro x hx y hy
    obtain ⟨w, hw, rfl⟩ := List.mem_map.mp hy
    by_cases own : x.1 = t
    · exact split.2.2 x.2 (Pending.mem_own.mpr (own ▸ hx)) w hw
    · exact S.blocked_eq_false (free w hw) x hx own

theorem Isolated.commit {d : δ} {p : Pending τ ω} (h : S.Isolated d p) (t : τ) :
    S.Isolated (S.commit d (p.own t)) (p.drop t) := by
  refine ⟨?_, h.apart.filter _⟩
  intro x hx
  obtain ⟨hp, ht⟩ := Pending.mem_drop.mp hx
  apply S.fits_commit _ _ _ (h.own_fits t) (h.own_apart t) (h.fits x hp)
  intro v hv
  exact h.conflict_other (Pending.mem_own.mp hv) hp ht.symm

theorem Isolated.commit_invariant {d : δ} {p : Pending τ ω} (h : S.Isolated d p) (t : τ)
    (P : δ → Prop) (step : ∀ d v, P d → S.Fits d v → P (S.apply d v)) (start : P d) :
    P (S.commit d (p.own t)) :=
  S.commit_induction P step _ d start (h.own_fits t) (h.own_apart t)

end Semantics

end Lib
