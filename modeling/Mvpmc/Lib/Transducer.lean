import Mathlib.Data.List.Basic

/-! Machines that read one letter at a time and emit a word for each. -/
namespace Mvpmc.Lib.Transducer
variable {σ ι ο : Type} (step : σ → ι → σ × List ο)

/-- The state after a word, and what was emitted on the way. -/
def run : σ → List ι → σ × List ο
  | s, [] => (s, [])
  | s, x :: xs => ((run (step s x).1 xs).1, (step s x).2 ++ (run (step s x).1 xs).2)

@[simp] theorem run_nil (s : σ) : run step s [] = (s, []) := rfl

theorem run_cons (s : σ) (x : ι) (xs : List ι) : run step s (x :: xs) =
    ((run step (step s x).1 xs).1, (step s x).2 ++ (run step (step s x).1 xs).2) := rfl

theorem run_singleton (s : σ) (x : ι) : run step s [x] = step s x := by
  simp [run]

/-- A word read in two pieces. -/
theorem run_append (s : σ) (xs ys : List ι) : run step s (xs ++ ys) =
    ((run step (run step s xs).1 ys).1, (run step s xs).2 ++ (run step (run step s xs).1 ys).2) := by
  induction xs generalizing s with
  | nil => rfl
  | cons x xs ih => simp [run, ih]

/-- A state that every letter leaves alone. -/
theorem run_of_fixed {s : σ} (h : ∀ x, step s x = (s, [])) (xs : List ι) : run step s xs = (s, []) := by
  induction xs with
  | nil => rfl
  | cons x xs ih => simp [run, h, ih]

/-- What a prefix emits is a prefix of what the word emits. -/
theorem run_prefix (s : σ) (xs ys : List ι) : (run step s xs).2 <+: (run step s (xs ++ ys)).2 := by
  rw [run_append]
  exact List.prefix_append ..

section Collect
variable {step} {place : List ι → σ} {done : List ι → σ × List ο} {k : Nat}

/-- The states `place got` keep the letters read until there are `k` of them. -/
def Collects (step : σ → ι → σ × List ο) (k : Nat) (place : List ι → σ) (done : List ι → σ × List ο) : Prop :=
  ∀ got x, step (place got) x =
    if got.length + 1 < k then (place (got ++ [x]), []) else done (got ++ [x])

/-- Too few letters are kept. -/
theorem Collects.run_lt (hc : Collects step k place done) (got xs : List ι) (hl : got.length + xs.length < k) :
    run step (place got) xs = (place (got ++ xs), []) := by
  induction xs generalizing got with
  | nil => simp
  | cons x xs ih =>
    rw [List.length_cons] at hl
    have hlt : got.length + 1 < k := by omega
    have hrest := ih (got ++ [x]) (by rw [List.length_append, List.length_singleton]; omega)
    rw [run_cons, hc got x, if_pos hlt, hrest]
    simp

/-- The last letter ends the collection. -/
theorem Collects.run_eq (hc : Collects step k place done) (got xs : List ι) (hx : xs ≠ [])
    (hl : got.length + xs.length = k) : run step (place got) xs = done (got ++ xs) := by
  obtain ⟨ys, y, rfl⟩ := List.eq_nil_or_concat xs |>.resolve_left hx
  rw [List.concat_eq_append] at hl ⊢
  rw [List.length_append, List.length_singleton] at hl
  rw [run_append, hc.run_lt got ys (by omega), run_singleton, hc, if_neg (by rw [List.length_append]; omega),
    List.append_assoc]
  rfl

end Collect

section Letters
variable {step}

/-- A machine that emits one letter for each it reads emits as many as it reads. -/
theorem length_run (hone : ∀ s x, (step s x).2.length = 1) (s : σ) (xs : List ι) : (run step s xs).2.length = xs.length := by
  induction xs generalizing s with
  | nil => rfl
  | cons x xs ih => rw [run_cons, List.length_append, hone, ih, List.length_cons, Nat.add_comm]

theorem run_take (hone : ∀ s x, (step s x).2.length = 1) (s : σ) (xs : List ι) (n : Nat) :
    (run step s xs).2.take n = (run step s (xs.take n)).2 := by
  induction xs generalizing s n with
  | nil => simp
  | cons x xs ih =>
    cases n with
    | zero => rfl
    | succ n =>
      obtain ⟨y, hy⟩ := List.length_eq_one_iff.mp (hone s x)
      rw [run_cons, List.take_succ_cons, run_cons, hy, List.singleton_append, List.take_succ_cons, ih, List.singleton_append]

/-- What is emitted after the first letters is emitted from the state they lead to. -/
theorem run_drop (hone : ∀ s x, (step s x).2.length = 1) (s : σ) (xs : List ι) (n : Nat) :
    (run step s xs).2.drop n = (run step (run step s (xs.take n)).1 (xs.drop n)).2 := by
  induction xs generalizing s n with
  | nil => simp
  | cons x xs ih =>
    cases n with
    | zero => rfl
    | succ n =>
      obtain ⟨y, hy⟩ := List.length_eq_one_iff.mp (hone s x)
      rw [run_cons, List.take_succ_cons, List.drop_succ_cons, run_cons, hy, List.singleton_append, List.drop_succ_cons, ih]

/-- A machine whose steps another one takes back. -/
theorem run_undo {back : σ → ο → σ × List ι} (hback : ∀ s x, run back s (step s x).2 = ((step s x).1, [x]))
    (s : σ) (xs : List ι) : run back s (run step s xs).2 = ((run step s xs).1, xs) := by
  induction xs generalizing s with
  | nil => rfl
  | cons x xs ih =>
    rw [run_cons, run_append, hback]
    dsimp only
    rw [ih, List.singleton_append]

end Letters
end Mvpmc.Lib.Transducer
