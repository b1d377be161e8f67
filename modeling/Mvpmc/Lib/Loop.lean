import Mathlib.Tactic

/-! A `while` loop with fuel, over an arbitrary state. A measure that every round brings
down makes the fuel irrelevant. -/
namespace Mvpmc.Lib.Loop
variable {σ : Type*} (goesOn : σ → Bool) (step : σ → σ)

/-- At most `fuel` rounds of `while (goesOn) step`. -/
def run : Nat → σ → σ
  | 0, s => s
  | fuel + 1, s => if goesOn s then run fuel (step s) else s

theorem run_of_stopped (fuel : Nat) {s : σ} (h : goesOn s = false) : run goesOn step fuel s = s := by
  cases fuel with
  | zero => rfl
  | succ fuel => simp [run, h]

section
variable {goesOn step} {left : σ → Nat} (hd : ∀ s, goesOn s = true → left (step s) < left s)
include hd

/-- With fuel for the measure the loop ends by its own condition. -/
theorem run_stopped {fuel : Nat} {s : σ} (h : left s ≤ fuel) : goesOn (run goesOn step fuel s) = false := by
  induction fuel generalizing s with
  | zero =>
    cases hg : goesOn s with
    | false => exact hg
    | true => exact absurd (hd s hg) (by omega)
  | succ fuel ih =>
    unfold run
    split
    · rename_i hg
      have := hd s hg
      exact ih (by omega)
    · rename_i hg
      simpa using hg

theorem run_fuel {a b : Nat} {s : σ} (ha : left s ≤ a) (hb : left s ≤ b) :
    run goesOn step a s = run goesOn step b s := by
  induction a generalizing b s with
  | zero =>
    have hg : goesOn s = false := run_stopped hd ha
    rw [run_of_stopped _ _ _ hg, run_of_stopped _ _ _ hg]
  | succ a ih =>
    cases hg : goesOn s with
    | false => rw [run_of_stopped _ _ _ hg, run_of_stopped _ _ _ hg]
    | true =>
      have hlt := hd s hg
      obtain ⟨b, rfl⟩ : ∃ c, b = c + 1 := ⟨b - 1, by omega⟩
      simp only [run, hg, if_true]
      exact ih (by omega) (by omega)

/-- A round taken by hand, whatever the fuel on both sides. -/
theorem run_step {a b : Nat} {s : σ} (hg : goesOn s = true) (ha : left s ≤ a) (hb : left (step s) ≤ b) :
    run goesOn step a s = run goesOn step b (step s) := by
  have hlt := hd s hg
  obtain ⟨a, rfl⟩ : ∃ c, a = c + 1 := ⟨a - 1, by omega⟩
  simp only [run, hg, if_true]
  exact run_fuel hd (by omega) hb

end

/-- With enough fuel the loop ends by its own condition. -/
def Ends (s : σ) : Prop := ∃ fuel, goesOn (run goesOn step fuel s) = false

section
variable {goesOn step}

theorem ends_of_stopped {s : σ} (h : goesOn s = false) : Ends goesOn step s := ⟨0, h⟩

theorem ends_step_iff {s : σ} (h : goesOn s = true) : Ends goesOn step s ↔ Ends goesOn step (step s) := by
  constructor
  · rintro ⟨fuel, hf⟩
    cases fuel with
    | zero => exact absurd (h.symm.trans hf) (by decide)
    | succ fuel =>
      rw [run, if_pos h] at hf
      exact ⟨fuel, hf⟩
  · rintro ⟨fuel, hf⟩
    refine ⟨fuel + 1, ?_⟩
    rw [run, if_pos h]
    exact hf

/-- A round keeps `P` and brings the measure down. -/
theorem ends_of_measure (P : σ → Prop) (left : σ → Nat)
    (hs : ∀ s, P s → goesOn s = true → P (step s) ∧ left (step s) < left s) {s : σ} (h : P s) : Ends goesOn step s := by
  induction hn : left s using Nat.strongRecOn generalizing s with
  | ind n ih =>
    cases hg : goesOn s with
    | false => exact ends_of_stopped hg
    | true =>
      obtain ⟨hP, hlt⟩ := hs s h hg
      exact (ends_step_iff hg).mpr (ih _ (hn ▸ hlt) hP rfl)

/-- A round keeps `P`, and with `P` there is another round. -/
theorem not_ends_of_invariant (P : σ → Prop) (hs : ∀ s, P s → goesOn s = true ∧ P (step s)) {s : σ} (h : P s) :
    ¬ Ends goesOn step s := by
  rintro ⟨fuel, hf⟩
  induction fuel generalizing s with
  | zero => exact absurd ((hs s h).1.symm.trans hf) (by decide)
  | succ fuel ih =>
    rw [run, if_pos (hs s h).1] at hf
    exact ih (hs s h).2 hf

/-- A loop that goes on while it needs something. A round takes as much from the need as from the supply, and
something if there is a supply. -/
theorem ends_supply_iff (P : σ → Prop) (need supply : σ → Nat) (hg : ∀ s, P s → (goesOn s = true ↔ 0 < need s))
    (hs : ∀ s, P s → goesOn s = true → P (step s) ∧
      ∃ k, need s = need (step s) + k ∧ supply s = supply (step s) + k ∧ (0 < supply s → 0 < k)) {s : σ} (h : P s) :
    Ends goesOn step s ↔ need s ≤ supply s := by
  constructor
  · intro he
    by_contra hlt
    refine not_ends_of_invariant (fun s => P s ∧ supply s < need s) ?_ ⟨h, not_le.mp hlt⟩ he
    rintro s ⟨hP, hlt⟩
    have hgo := (hg s hP).mpr (by omega)
    obtain ⟨hP', k, hneed, hsupply, -⟩ := hs s hP hgo
    exact ⟨hgo, hP', by omega⟩
  · intro hle
    refine ends_of_measure (fun s => P s ∧ need s ≤ supply s) need ?_ ⟨h, hle⟩
    rintro s ⟨hP, hle⟩ hgo
    obtain ⟨hP', k, hneed, hsupply, hpos⟩ := hs s hP hgo
    have hk := hpos (((hg s hP).mp hgo).trans_le hle)
    exact ⟨⟨hP', by omega⟩, by omega⟩

end

section
variable {τ ε : Type*} {goesOn : τ × Nat → Bool} {step : τ × Nat → τ × Nat}

/-- A loop that waits in `Q` for an event that is not quiet ends if there is one and the loop ends on it. -/
theorem ends_wait_iff (event : Nat → ε) (Q : τ → Prop) (quiet out : ε → Prop)
    (hq : ∀ s i, Q s → quiet (event i) → goesOn (s, i) = true ∧ ∃ s', step (s, i) = (s', i + 1) ∧ Q s')
    (ho : ∀ s i, Q s → ¬ quiet (event i) → (Ends goesOn step (s, i) ↔ out (event i))) {s : τ} (h : Q s) (i : Nat) :
    Ends goesOn step (s, i) ↔ ∃ k, (∀ j < k, quiet (event (i + j))) ∧ ¬ quiet (event (i + k)) ∧ out (event (i + k)) := by
  constructor
  · rintro ⟨fuel, hf⟩
    induction fuel generalizing s i with
    | zero =>
      have hn : ¬ quiet (event i) := fun hqi => absurd ((hq s i h hqi).1.symm.trans hf) (by decide)
      exact ⟨0, fun j hj => absurd hj (Nat.not_lt_zero j), hn, (ho s i h hn).mp (ends_of_stopped hf)⟩
    | succ fuel ih =>
      by_cases hqi : quiet (event i)
      · obtain ⟨hg, s', hs', hQ⟩ := hq s i h hqi
        rw [run, if_pos hg, hs'] at hf
        obtain ⟨k, hk, hn, hout⟩ := ih hQ (i + 1) hf
        have hshift (j : Nat) : i + 1 + j = i + (j + 1) := by omega
        rw [hshift] at hn hout
        refine ⟨k + 1, fun j hj => ?_, hn, hout⟩
        cases j with
        | zero => exact hqi
        | succ j =>
          rw [← hshift]
          exact hk j (Nat.lt_of_succ_lt_succ hj)
      · exact ⟨0, fun j hj => absurd hj (Nat.not_lt_zero j), hqi, (ho s i h hqi).mp ⟨fuel + 1, hf⟩⟩
  · rintro ⟨k, hk, hn, hout⟩
    induction k generalizing s i with
    | zero => exact (ho s i h hn).mpr hout
    | succ k ih =>
      obtain ⟨hg, s', hs', hQ⟩ := hq s i h (hk 0 (Nat.succ_pos k))
      have hshift (j : Nat) : i + 1 + j = i + (j + 1) := by omega
      refine (ends_step_iff hg).mpr ?_
      rw [hs']
      refine ih hQ (i + 1) (fun j hj => ?_) ?_ ?_
      · rw [hshift]
        exact hk (j + 1) (by omega)
      · rwa [hshift]
      · rwa [hshift]

end

end Mvpmc.Lib.Loop
