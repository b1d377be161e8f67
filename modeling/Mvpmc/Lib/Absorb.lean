import Mathlib.Tactic

/-! A list absorbed block by block: whole blocks go into a state, and what does not fill a block is held back. -/
namespace Mvpmc.Lib.Absorb
variable {σ β : Type} (n : Nat) (f : σ → List β → σ)

/-- The first `k` blocks of `n` items. -/
def blocks : Nat → σ → List β → σ × List β
  | 0, s, xs => (s, xs)
  | k + 1, s, xs => blocks k (f s (xs.take n)) (xs.drop n)

/-- All blocks. -/
def run (s : σ) (xs : List β) : σ × List β := blocks n f (xs.length / n) s xs

variable {n f}

theorem blocks_add (j k : Nat) (s : σ) (xs : List β) :
    blocks n f (j + k) s xs = blocks n f k (blocks n f j s xs).1 (blocks n f j s xs).2 := by
  induction j generalizing s xs with
  | zero => rw [Nat.zero_add]; rfl
  | succ j ih =>
    rw [Nat.add_right_comm]
    exact ih _ _

/-- What comes behind the blocks stays behind them. -/
theorem blocks_append {j : Nat} (s : σ) {xs : List β} (h : j * n ≤ xs.length) (ys : List β) :
    blocks n f j s (xs ++ ys) = ((blocks n f j s xs).1, (blocks n f j s xs).2 ++ ys) := by
  induction j generalizing s xs with
  | zero => rfl
  | succ j ih =>
    rw [Nat.succ_mul] at h
    unfold blocks
    rw [List.take_append_of_le_length (by omega), List.drop_append_of_le_length (by omega)]
    exact ih _ (by rw [List.length_drop]; omega)

theorem blocks_rest (j : Nat) (s : σ) (xs : List β) : (blocks n f j s xs).2 = xs.drop (j * n) := by
  induction j generalizing s xs with
  | zero => rw [Nat.zero_mul, List.drop_zero]; rfl
  | succ j ih =>
    unfold blocks
    rw [ih, List.drop_drop, Nat.succ_mul, Nat.add_comm]

theorem run_rest (s : σ) (xs : List β) : (run n f s xs).2 = xs.drop (xs.length / n * n) := blocks_rest _ s xs

theorem length_rest (s : σ) (xs : List β) : (run n f s xs).2.length = xs.length % n := by
  rw [run_rest, List.length_drop, Nat.mod_eq_sub_div_mul]

theorem run_of_lt (s : σ) {xs : List β} (h : xs.length < n) : run n f s xs = (s, xs) := by
  unfold run
  rw [Nat.div_eq_of_lt h]
  rfl

/-- A list absorbed in two parts: what is held back of the first comes in front of the second. -/
theorem run_append (hn : 0 < n) (s : σ) (xs ys : List β) :
    run n f s (xs ++ ys) = run n f (run n f s xs).1 ((run n f s xs).2 ++ ys) := by
  have hle : xs.length / n * n ≤ xs.length := Nat.div_mul_le_self _ _
  have hcount : (xs ++ ys).length / n = xs.length / n + ((run n f s xs).2 ++ ys).length / n := by
    have hsplit : xs.length + ys.length = xs.length - xs.length / n * n + ys.length + xs.length / n * n := by omega
    rw [List.length_append, List.length_append, length_rest, Nat.mod_eq_sub_div_mul, hsplit, Nat.add_mul_div_right _ _ hn,
      Nat.add_comm]
  unfold run at hcount ⊢
  rw [hcount, blocks_add, blocks_append s hle]

/-- A block in front. -/
theorem run_block (hn : 0 < n) (s : σ) {xs : List β} (h : xs.length = n) (ys : List β) :
    run n f s (xs ++ ys) = run n f (f s xs) ys := by
  have hone : run n f s xs = (f s xs, []) := by
    unfold run
    rw [h, Nat.div_self hn]
    unfold blocks blocks
    rw [← h, List.take_length, List.drop_length]
  rw [run_append hn, hone, List.nil_append]

theorem run_nil (hn : 0 < n) (s : σ) : run n f s [] = (s, []) := run_of_lt s hn

/-- A list absorbed in pieces. -/
theorem run_flatten (hn : 0 < n) (s : σ) (xs : List β) (pieces : List (List β)) :
    pieces.foldl (fun a piece => run n f a.1 (a.2 ++ piece)) (run n f s xs) = run n f s (xs ++ pieces.flatten) := by
  induction pieces generalizing xs with
  | nil => rw [List.flatten_nil, List.append_nil]; rfl
  | cons piece pieces ih =>
    rw [List.foldl_cons, ← run_append hn, ih, List.flatten_cons, List.append_assoc]

end Mvpmc.Lib.Absorb
