import Mathlib.Tactic.Common

/-! Programs that hand messages to a sender, one after the other, and can raise. The sender may refuse a
message, and what the program does then is its own affair. -/

namespace Lib

universe u v w

/-- `next` gets what the sender raised, if it did. -/
inductive Process (μ : Type u) (ξ : Type v) where
  | returns
  | raises (e : ξ)
  | sends (m : μ) (next : Option ξ → Process μ ξ)

namespace Process

variable {μ : Type u} {ξ : Type v} {σ τ : Type w}

/-- What the sender has come to at the end, and what the program raised. -/
def perform (send : σ → μ → σ × Option ξ) : Process μ ξ → σ → σ × Option ξ
  | .returns, s => (s, none)
  | .raises e, s => (s, some e)
  | .sends m next, s => perform send (next (send s m).2) (send s m).1

/-- A program with an exception handler, which is told whether a marked message has been sent. -/
def guarded (mark : μ → Bool) (handler : Bool → ξ → Process μ ξ) : Bool → Process μ ξ → Process μ ξ
  | _, .returns => .returns
  | marked, .raises e => handler marked e
  | marked, .sends m next => .sends m (fun r => guarded mark handler (marked || mark m) (next r))

def watch (mark : μ → Bool) (send : σ → μ → σ × Option ξ) (s : σ × Bool) (m : μ) :
    (σ × Bool) × Option ξ :=
  (((send s.1 m).1, s.2 || mark m), (send s.1 m).2)

/-- A sender that keeps what it was given. -/
def record (refuses : List μ → Option ξ) (sent : List μ) (m : μ) : List μ × Option ξ :=
  (sent ++ [m], refuses (sent ++ [m]))

end Process

end Lib
