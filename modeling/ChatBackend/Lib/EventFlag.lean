import Mathlib.Data.List.Basic

/-! A flag that wakes a consumer. Producers post items and raise the flag for them afterwards; the
consumer lowers the flag and then looks at what is posted. In that order no announcement gets lost:
while the flag is down, whatever was announced had been posted when the consumer looked. -/

namespace Lib

/-- `seen` is what was posted when the consumer last looked, if it has looked since it lowered the
flag. -/
structure EventFlag (α : Type) where
  posted : List α
  announced : List α
  raised : Bool
  seen : Option (List α)

namespace EventFlag

variable {α : Type} {f : EventFlag α}

def init : EventFlag α := ⟨[], [], false, none⟩

def post (f : EventFlag α) (items : List α) : EventFlag α := { f with posted := f.posted ++ items }

def announce (f : EventFlag α) (items : List α) : EventFlag α :=
  { f with announced := f.announced ++ items, raised := true }

def clear (f : EventFlag α) : EventFlag α := { f with raised := false, seen := none }

def look (f : EventFlag α) : EventFlag α := { f with seen := some f.posted }

structure Ok (f : EventFlag α) : Prop where
  announced : ∀ a ∈ f.announced, a ∈ f.posted
  past : ∀ items ∈ f.seen, ∀ a ∈ items, a ∈ f.posted
  seen : f.raised = false → ∀ items ∈ f.seen, ∀ a ∈ f.announced, a ∈ items

theorem Ok.init : (init : EventFlag α).Ok where
  announced := List.forall_mem_nil _
  past _ h := nomatch h
  seen _ _ h := nomatch h

theorem Ok.post (ok : f.Ok) (items : List α) : (f.post items).Ok where
  announced a h := List.mem_append_left _ (ok.announced a h)
  past seen h a ha := List.mem_append_left _ (ok.past seen h a ha)
  seen := ok.seen

/-- An item is announced only once it is posted. -/
theorem Ok.announce (ok : f.Ok) {items : List α} (posted : ∀ a ∈ items, a ∈ f.posted) :
    (f.announce items).Ok where
  announced := List.forall_mem_append.mpr ⟨ok.announced, posted⟩
  past := ok.past
  seen h := nomatch h

theorem Ok.clear (ok : f.Ok) : f.clear.Ok where
  announced := ok.announced
  past _ h := nomatch h
  seen _ _ h := nomatch h

theorem Ok.look (ok : f.Ok) : f.look.Ok where
  announced := ok.announced
  past := by
    rintro items ⟨⟩ a h
    exact h
  seen := by
    rintro - items ⟨⟩
    exact ok.announced

end EventFlag

end Lib
