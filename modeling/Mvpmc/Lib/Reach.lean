import Mathlib.Logic.Relation

/-! States reached from an initial state by labelled steps, and the invariant rule. -/
namespace Mvpmc.Lib

/-- The states that runs of `step` reach from the states in `init`. -/
inductive Reach {σ ε : Type} (init : σ → Prop) (step : σ → ε → σ → Prop) : σ → Prop where
  | start {s : σ} : init s → Reach init step s
  | next {s s' : σ} (e : ε) : Reach init step s → step s e s' → Reach init step s'

namespace Reach
variable {σ ε : Type} {init : σ → Prop} {step : σ → ε → σ → Prop}

/-- What holds initially and is kept by every step holds of every reachable state. -/
theorem invariant {inv : σ → Prop} (hinit : ∀ s, init s → inv s) (hstep : ∀ s e s', inv s → step s e s' → inv s')
    {s : σ} (hs : Reach init step s) : inv s := by
  induction hs with
  | start h => exact hinit _ h
  | next e _ h ih => exact hstep _ e _ ih h

end Reach
end Mvpmc.Lib
