import Mathlib.Data.List.Basic

/-! Deterministic machines that emit a list in every step. What a machine emits up to the first
stop is a prefix of all that it emits, however its run is cut into parts. -/
namespace Mvpmc.Lib.Emitter
variable {σ ε : Type*} (next : σ → σ × List ε)

/-- The state after `k` steps. -/
def after : Nat → σ → σ
  | 0, s => s
  | k + 1, s => after k (next s).1

/-- What `k` steps emit. -/
def emitted : Nat → σ → List ε
  | 0, _ => []
  | k + 1, s => (next s).2 ++ emitted k (next s).1

/-- What is emitted before the first state in which the machine is to stop. -/
def beforeStop (stop : σ → Bool) : Nat → σ → List ε
  | 0, _ => []
  | fuel + 1, s => if stop s then [] else (next s).2 ++ beforeStop stop fuel (next s).1

theorem after_add (j k : Nat) (s : σ) : after next (j + k) s = after next k (after next j s) := by
  induction j generalizing s with
  | zero => rw [Nat.zero_add]; rfl
  | succ j ih =>
    rw [Nat.add_right_comm]
    exact ih _

theorem emitted_add (j k : Nat) (s : σ) :
    emitted next (j + k) s = emitted next j s ++ emitted next k (after next j s) := by
  induction j generalizing s with
  | zero => rw [Nat.zero_add]; rfl
  | succ j ih =>
    rw [Nat.add_right_comm]
    simp only [emitted, after]
    rw [ih, List.append_assoc]

theorem emitted_prefix {j k : Nat} (h : j ≤ k) (s : σ) : emitted next j s <+: emitted next k s := by
  obtain ⟨d, rfl⟩ := Nat.exists_eq_add_of_le h
  rw [emitted_add]
  exact List.prefix_append _ _

/-- Two runs of one machine differ in how far they got. -/
theorem emitted_comparable (j k : Nat) (s : σ) :
    emitted next j s <+: emitted next k s ∨ emitted next k s <+: emitted next j s :=
  (Nat.le_total j k).imp (fun h => emitted_prefix next h s) fun h => emitted_prefix next h s

/-- A run that ends where the machine is to stop has emitted all that comes before the first stop. -/
theorem beforeStop_prefix {stop : σ → Bool} {k : Nat} {s : σ} (hstop : stop (after next k s) = true) (fuel : Nat) :
    beforeStop next stop fuel s <+: emitted next k s := by
  induction k generalizing s fuel with
  | zero =>
    cases fuel with
    | zero => exact List.prefix_refl _
    | succ fuel =>
      have hs : stop s = true := hstop
      rw [beforeStop, if_pos hs]
      exact List.nil_prefix
  | succ k ih =>
    cases fuel with
    | zero => exact List.nil_prefix
    | succ fuel =>
      rw [beforeStop]
      split
      · exact List.nil_prefix
      · exact (List.prefix_append_right_inj _).mpr (ih hstop fuel)

/-- With enough fuel, counted by a measure that every step lowers, the machine does stop. -/
theorem beforeStop_eq_emitted {stop : σ → Bool} (left : σ → Nat) (hdone : ∀ s, left s = 0 → stop s = true)
    (hstep : ∀ s, stop s = false → left (next s).1 < left s) {fuel : Nat} {s : σ} (hfuel : left s ≤ fuel) :
    ∃ k, beforeStop next stop fuel s = emitted next k s ∧ stop (after next k s) = true := by
  induction fuel generalizing s with
  | zero => exact ⟨0, rfl, hdone s (by omega)⟩
  | succ fuel ih =>
    rw [beforeStop]
    cases hs : stop s with
    | true => exact ⟨0, rfl, hs⟩
    | false =>
      have hlt := hstep s hs
      obtain ⟨k, hk, hstop⟩ := ih (s := (next s).1) (by omega)
      refine ⟨k + 1, ?_, hstop⟩
      rw [if_neg Bool.false_ne_true, hk]
      rfl

end Mvpmc.Lib.Emitter
