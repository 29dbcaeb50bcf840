import ChatBackend.Lib.Keyset
import ChatBackend.Lib.Machine

/-! Catching up with a growing set by keyset pages: a reader starts at some key, pages forward from
where it stands, and meanwhile keys are added in any order. It gets everything exactly when no key
is added behind it. -/

namespace Lib

universe u

structure CatchUp (κ : Type u) where
  present : List κ
  base : List κ
  top : Option κ
  returned : List κ
  caughtUp : Bool

inductive CatchUp.Action (κ : Type u) where
  | add (k : κ)
  | start (k : κ)
  | page (limit : Nat)

namespace CatchUp

variable {κ : Type u} [LinearOrder κ]

def keysPage (present : List κ) (c : κ) (limit : Nat) : List κ := Lib.page id present c limit

def step (s : CatchUp κ) : Action κ → Option (CatchUp κ)
  | .add k => if k ∈ s.present then none
    else some { s with present := s.present ++ [k], caughtUp := false }
  | .start k =>
    match s.top with
    | some _ => none
    | none => if k ∈ s.present then some { s with top := some k, base := s.present } else none
  | .page limit =>
    match s.top with
    | none => none
    | some c =>
      let items := keysPage s.present c limit
      some { s with
        top := some (items.getLast?.getD c)
        returned := s.returned ++ items
        caughtUp := decide ((beyond id s.present c).length ≤ limit) }

def machine : Machine (CatchUp κ) (Action κ) := ⟨⟨[], [], none, [], false⟩, step⟩

/-- How often a key was returned. -/
def got (s : CatchUp κ) (k : κ) : Nat := s.returned.countP (fun x => decide (x = k))

/-- The reader has got every key that came after it started, each of them once. -/
def Complete (s : CatchUp κ) : Prop := ∀ k ∈ s.present, k ∉ s.base → s.got k = 1

/-- The step adds no key behind the reader. -/
def Ahead (x : Move (CatchUp κ) (Action κ)) : Prop :=
  match x.action with
  | .add k => ∀ c, x.before.top = some c → c < k
  | _ => True

/-- Nothing between the start and the place where the reader stands is missing. -/
def NoGap (s : CatchUp κ) : Prop := ∀ c, s.top = some c → ∀ k ∈ s.present, k ∉ s.base → k ≤ c → k ∈ s.returned

structure Inv (s : CatchUp κ) : Prop where
  distinct : s.present.Nodup
  idle : s.top = none → s.returned = [] ∧ s.base = [] ∧ s.caughtUp = false
  fromPresent : ∀ k ∈ s.returned, k ∈ s.present
  basePresent : ∀ k ∈ s.base, k ∈ s.present
  sorted : s.returned.Pairwise (· < ·)
  below : ∀ c, s.top = some c → ∀ k ∈ s.returned, k ≤ c
  caught : ∀ c, s.top = some c → s.caughtUp = true → ∀ k ∈ s.present, k ≤ c

theorem Inv.init : (machine (κ := κ)).init.Inv where
  distinct := List.nodup_nil
  idle _ := ⟨rfl, rfl, rfl⟩
  fromPresent _ h := absurd h List.not_mem_nil
  basePresent _ h := absurd h List.not_mem_nil
  sorted := List.Pairwise.nil
  below _ h := by cases h
  caught _ h := by cases h

/-- The new state after a page that was read from `c`. -/
def read (s : CatchUp κ) (c : κ) (limit : Nat) : CatchUp κ :=
  { s with
    top := some ((keysPage s.present c limit).getLast?.getD c)
    returned := s.returned ++ keysPage s.present c limit
    caughtUp := decide ((beyond id s.present c).length ≤ limit) }

inductive Steps (s : CatchUp κ) : Action κ → CatchUp κ → Prop where
  | add (k : κ) : k ∉ s.present →
      Steps s (.add k) { s with present := s.present ++ [k], caughtUp := false }
  | start (k : κ) : s.top = none → k ∈ s.present →
      Steps s (.start k) { s with top := some k, base := s.present }
  | page (limit : Nat) (c : κ) : s.top = some c → Steps s (.page limit) (s.read c limit)

theorem step_cases {s t : CatchUp κ} {a : Action κ} (h : s.step a = some t) : Steps s a t := by
  cases a with
  | add k =>
    simp only [step] at h
    split at h
    · cases h
    · rename_i fresh
      cases h
      exact .add k fresh
  | start k =>
    simp only [step] at h
    split at h
    · cases h
    · rename_i idle
      split at h
      · rename_i mem
        cases h
        exact .start k idle mem
      · cases h
  | page limit =>
    simp only [step] at h
    split at h
    · cases h
    · rename_i c at_
      cases h
      exact .page limit c at_

theorem keysPage_strict {present : List κ} (distinct : present.Nodup) (c : κ) (limit : Nat) :
    (keysPage present c limit).Pairwise (· < ·) :=
  page_strict (by simpa using distinct) c limit

/-- Where the reader stands after a page: at its last row, or where it was. -/
theorem keysPage_top {present : List κ} (distinct : present.Nodup) (c : κ) (limit : Nat) :
    c ≤ (keysPage present c limit).getLast?.getD c ∧
    ∀ k ∈ keysPage present c limit, k ≤ (keysPage present c limit).getLast?.getD c := by
  cases last : (keysPage present c limit).getLast? with
  | none =>
    rw [List.getLast?_eq_none_iff.mp last]
    simp
  | some y =>
    have mem := List.mem_of_getLast? last
    refine ⟨(mem_page mem).2.le, fun k hk => ?_⟩
    exact page_last (by simpa using distinct) last hk

theorem Inv.step {s t : CatchUp κ} {a : Action κ} (inv : s.Inv) (h : s.step a = some t) : t.Inv := by
  cases step_cases h with
  | add k fresh =>
    exact {
      distinct := List.nodup_append.mpr ⟨inv.distinct, List.nodup_singleton k, by
        rintro x hx y hy rfl
        exact fresh (List.mem_singleton.mp hy ▸ hx)⟩
      idle := fun idle => ⟨(inv.idle idle).1, (inv.idle idle).2.1, rfl⟩
      fromPresent := fun x hx => List.mem_append_left _ (inv.fromPresent x hx)
      basePresent := fun x hx => List.mem_append_left _ (inv.basePresent x hx)
      sorted := inv.sorted
      below := inv.below
      caught := fun _ _ caught => by cases caught }
  | start k idle mem =>
    obtain ⟨none, _, notCaught⟩ := inv.idle idle
    exact {
      distinct := inv.distinct
      idle := fun idle => by cases idle
      fromPresent := inv.fromPresent
      basePresent := fun _ hx => hx
      sorted := inv.sorted
      below := fun _ _ x hx => by
        rw [none] at hx
        cases hx
      caught := fun _ _ caught => by
        rw [notCaught] at caught
        cases caught }
  | page limit c at_ =>
    obtain ⟨up, last⟩ := keysPage_top inv.distinct c limit
    exact {
      distinct := inv.distinct
      idle := fun idle => by cases idle
      fromPresent := fun x hx => by
        rcases List.mem_append.mp hx with old | new
        · exact inv.fromPresent x old
        · exact (mem_page new).1
      basePresent := inv.basePresent
      sorted := List.pairwise_append.mpr ⟨inv.sorted, keysPage_strict inv.distinct c limit,
        fun x hx y hy => lt_of_le_of_lt (inv.below c at_ x hx) (mem_page hy).2⟩
      below := fun d hd x hx => by
        cases hd
        rcases List.mem_append.mp hx with old | new
        · exact (inv.below c at_ x old).trans up
        · exact last x new
      caught := fun d hd caught x hx => by
        cases hd
        rcases le_or_gt x c with le | gt
        · exact le.trans up
        · apply last
          rw [keysPage, page_whole (of_decide_eq_true caught)]
          exact mem_beyond.mpr ⟨hx, gt⟩ }

/-- One step opens a gap exactly when it adds a key behind the reader. -/
theorem noGap_step {s t : CatchUp κ} {a : Action κ} (inv : s.Inv) (h : s.step a = some t) :
    t.NoGap ↔ s.NoGap ∧ Ahead ⟨s, a, t⟩ := by
  cases step_cases h with
  | add k fresh =>
    have unread : k ∉ s.returned := fun mem => fresh (inv.fromPresent k mem)
    have unbased : k ∉ s.base := fun mem => fresh (inv.basePresent k mem)
    constructor
    · intro gapless
      refine ⟨fun c hc x hx => gapless c hc x (List.mem_append_left _ hx), fun c hc => ?_⟩
      by_contra behind
      have mem : k ∈ s.present ++ [k] := List.mem_append_right _ (List.mem_singleton_self k)
      exact unread (gapless c hc k mem unbased (not_lt.mp behind))
    · rintro ⟨gapless, ahead⟩ c hc x hx out le
      rcases List.mem_append.mp hx with old | new
      · exact gapless c hc x old out le
      · obtain rfl := List.mem_singleton.mp new
        exact absurd le (not_le.mpr (ahead c hc))
  | start k idle mem =>
    have before : s.NoGap := fun c hc => by
      rw [idle] at hc
      cases hc
    have after : NoGap { s with top := some k, base := s.present } :=
      fun _ _ x hx out => absurd hx out
    exact iff_of_true after ⟨before, trivial⟩
  | page limit c at_ =>
    obtain ⟨up, last⟩ := keysPage_top inv.distinct c limit
    constructor
    · intro gapless
      refine ⟨fun d hd x hx out le => ?_, trivial⟩
      obtain rfl : c = d := Option.some.inj (at_.symm.trans hd)
      rcases List.mem_append.mp (gapless _ rfl x hx out (le.trans up)) with old | new
      · exact old
      · exact absurd (mem_page new).2 (not_lt.mpr le)
    · rintro ⟨gapless, _⟩ d hd x hx out le
      cases hd
      rcases le_or_gt x c with early | late
      · exact List.mem_append_left _ (gapless c at_ x hx out early)
      · apply List.mem_append_right
        cases final : (keysPage s.present c limit).getLast? with
        | none =>
          rw [final] at le
          exact absurd late (not_lt.mpr le)
        | some y =>
          rw [final] at le
          have mem := List.mem_of_getLast? final
          exact page_closed (by simpa using inv.distinct) hx late mem le

theorem run_inv (as : List (Action κ)) : (machine.run as).Inv ∧
    ((machine.run as).NoGap ↔ ∀ x ∈ machine.history as, Ahead x) :=
  machine.history_invariant (fun h s => s.Inv ∧ (s.NoGap ↔ ∀ x ∈ h, Ahead x))
    ⟨Inv.init, iff_of_true (fun _ h => by cases h) (fun _ h => absurd h List.not_mem_nil)⟩
    (fun h s a t ih step => ⟨ih.1.step step, by
      rw [noGap_step ih.1 step, ih.2, List.forall_mem_append, List.forall_mem_singleton]⟩) as

/-- A reader that is told nothing more follows has everything, each once, exactly when every key
was added ahead of it. -/
theorem complete_iff (as : List (Action κ)) (caught : (machine.run as).caughtUp = true) :
    (machine.run as).Complete ↔ ∀ x ∈ machine.history as, Ahead x := by
  obtain ⟨inv, gap⟩ := run_inv as
  rw [← gap]
  generalize machine.run as = s at caught inv gap
  have begun : ∃ c, s.top = some c := by
    cases top : s.top with
    | none =>
      rw [(inv.idle top).2.2] at caught
      cases caught
    | some c => exact ⟨c, rfl⟩
  obtain ⟨c, hc⟩ := begun
  have once : s.returned.Nodup := inv.sorted.imp (fun h => h.ne)
  constructor
  · intro complete d _ k hk out _
    have once := complete k hk out
    obtain ⟨x, hx, same⟩ := List.countP_pos_iff.mp (once.symm ▸ Nat.one_pos)
    exact of_decide_eq_true same ▸ hx
  · intro gapless k hk out
    have mem := gapless c hc k hk out (inv.caught c hc caught k hk)
    rw [got, ← List.count_eq_one_of_mem once mem, List.count]
    exact List.countP_congr (fun x _ => by simp)

end CatchUp

end Lib
