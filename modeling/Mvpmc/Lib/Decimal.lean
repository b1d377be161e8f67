import Mathlib.Data.Nat.Digits.Lemmas
import Mathlib.Tactic.Ring

/-! Decimal numbers as ASCII bytes, the most significant digit first. -/
namespace Mvpmc.Lib.Decimal

def isDigit (b : UInt8) : Bool := 48 ≤ b && b ≤ 57

/-- The number with one more digit. -/
def push (n : Nat) (b : UInt8) : Nat := n * 10 + (b.toNat - 48)

/-- The number that some digits spell, from the number `n` read before them. -/
def evalFrom (n : Nat) (bytes : List UInt8) : Nat := bytes.foldl push n

def eval (bytes : List UInt8) : Nat := evalFrom 0 bytes

def digit (d : Nat) : UInt8 := UInt8.ofNat (48 + d)

/-- The shortest spelling of a number. -/
def text (n : Nat) : List UInt8 := if n = 0 then [48] else (Nat.digits 10 n).reverse.map digit

/-- A spelling with at least `w` digits. -/
def pad (w n : Nat) : List UInt8 := List.replicate (w - (text n).length) 48 ++ text n

theorem toNat_digit {d : Nat} (h : d < 10) : (digit d).toNat = 48 + d := by
  rw [digit, UInt8.toNat_ofNat']
  omega

theorem isDigit_digit {d : Nat} (h : d < 10) : isDigit (digit d) = true := by
  have hd := toNat_digit h
  simp only [isDigit, Bool.and_eq_true, decide_eq_true_eq, UInt8.le_iff_toNat_le, hd]
  exact ⟨Nat.le_add_right 48 d, by change 48 + d ≤ 57; omega⟩

theorem push_digit (n : Nat) {d : Nat} (h : d < 10) : push n (digit d) = n * 10 + d := by
  rw [push, toNat_digit h, Nat.add_sub_cancel_left]

theorem le_push (n : Nat) (b : UInt8) : n ≤ push n b := by
  unfold push
  omega

theorem le_evalFrom (n : Nat) (bytes : List UInt8) : n ≤ evalFrom n bytes := by
  induction bytes generalizing n with
  | nil => exact le_refl n
  | cons b bytes ih => exact (le_push n b).trans (ih (push n b))

theorem evalFrom_append (n : Nat) (u v : List UInt8) : evalFrom n (u ++ v) = evalFrom (evalFrom n u) v :=
  List.foldl_append

theorem evalFrom_zeros (k : Nat) : evalFrom 0 (List.replicate k 48) = 0 := by
  induction k with
  | zero => rfl
  | succ k ih => exact ih

theorem isDigit_text (n : Nat) : ∀ b ∈ text n, isDigit b = true := by
  intro b hb
  unfold text at hb
  split at hb
  · obtain rfl := List.mem_singleton.mp hb
    rfl
  · obtain ⟨d, hd, rfl⟩ := List.mem_map.mp hb
    exact isDigit_digit (Nat.digits_lt_base (by decide) (List.mem_reverse.mp hd))

theorem eval_digits (ds : List Nat) (h : ∀ d ∈ ds, d < 10) : eval (ds.reverse.map digit) = Nat.ofDigits 10 ds := by
  induction ds with
  | nil => rfl
  | cons d ds ih =>
    rw [List.reverse_cons, List.map_append, eval, evalFrom_append, Nat.ofDigits_cons]
    have ih := ih fun x hx => h x (List.mem_cons_of_mem d hx)
    rw [eval] at ih
    rw [ih]
    change push _ (digit d) = _
    rw [push_digit _ (h d List.mem_cons_self)]
    ring

@[simp] theorem eval_text (n : Nat) : eval (text n) = n := by
  unfold text
  split
  · rename_i h
    exact h ▸ rfl
  · rw [eval_digits _ fun d => Nat.digits_lt_base (by decide), Nat.ofDigits_digits]

theorem length_text_le {n k : Nat} (hk : 0 < k) (h : n < 10 ^ k) : (text n).length ≤ k := by
  unfold text
  split
  · exact hk
  · rw [List.length_map, List.length_reverse]
    exact (Nat.digits_length_le_iff (by decide) n).mpr h

theorem lt_length_text {n k : Nat} (h : 10 ^ k ≤ n) : k < (text n).length := by
  have hn : n ≠ 0 := (Nat.lt_of_lt_of_le (Nat.pow_pos (by decide)) h).ne'
  rw [text, if_neg hn, List.length_map, List.length_reverse]
  exact not_le.mp fun hle => absurd ((Nat.digits_length_le_iff (by decide) n).mp hle) (by omega)

theorem text_ne_nil (n : Nat) : text n ≠ [] := by
  unfold text
  split
  · exact List.cons_ne_nil _ _
  · rename_i h
    simp [Nat.digits_eq_nil_iff_eq_zero, h]

@[simp] theorem eval_pad (w n : Nat) : eval (pad w n) = n := by
  rw [eval, pad, evalFrom_append, evalFrom_zeros]
  exact eval_text n

theorem length_pad {w n : Nat} (hw : 0 < w) (h : n < 10 ^ w) : (pad w n).length = w := by
  have hle := length_text_le hw h
  rw [pad, List.length_append, List.length_replicate]
  omega

theorem isDigit_pad (w n : Nat) : ∀ b ∈ pad w n, isDigit b = true := by
  intro b hb
  obtain hb | hb := List.mem_append.mp hb
  · exact List.eq_of_mem_replicate hb ▸ rfl
  · exact isDigit_text n b hb

theorem eval_concat (u : List UInt8) (b : UInt8) : eval (u ++ [b]) = push (eval u) b := evalFrom_append 0 u [b]

theorem toNat_of_isDigit {b : UInt8} (h : isDigit b = true) : 48 ≤ b.toNat ∧ b.toNat ≤ 57 := by
  simp only [isDigit, Bool.and_eq_true, decide_eq_true_eq, UInt8.le_iff_toNat_le] at h
  exact h

theorem eval_lt_pow {u : List UInt8} (h : ∀ b ∈ u, isDigit b = true) : eval u < 10 ^ u.length := by
  induction u using List.reverseRecOn with
  | nil => exact Nat.one_pos
  | append_singleton u b ih =>
    have hu := ih fun c hc => h c (List.mem_append_left _ hc)
    have hb := toNat_of_isDigit (h b (List.mem_append_right _ List.mem_cons_self))
    rw [eval_concat, List.length_append, List.length_singleton, Nat.pow_succ]
    unfold push
    omega

/-- Digits of one length are told apart by their value. -/
theorem eval_inj {u v : List UInt8} (hu : ∀ b ∈ u, isDigit b = true) (hv : ∀ b ∈ v, isDigit b = true)
    (hl : u.length = v.length) (h : eval u = eval v) : u = v := by
  induction u using List.reverseRecOn generalizing v with
  | nil => exact (List.eq_nil_of_length_eq_zero hl.symm).symm
  | append_singleton u b ih =>
    obtain rfl | ⟨v, c, rfl⟩ := List.eq_nil_or_concat v
    · rw [List.length_append] at hl
      exact absurd hl (by simp)
    · rw [List.concat_eq_append] at hv hl h ⊢
      rw [List.length_append, List.length_append] at hl
      rw [eval_concat, eval_concat] at h
      have hb := toNat_of_isDigit (hu b (List.mem_append_right _ List.mem_cons_self))
      have hc := toNat_of_isDigit (hv c (List.mem_append_right _ List.mem_cons_self))
      unfold push at h
      have hlast : b = c := UInt8.toNat_inj.mp (by omega)
      rw [ih (fun d hd => hu d (List.mem_append_left _ hd)) (fun d hd => hv d (List.mem_append_left _ hd))
        (Nat.add_right_cancel hl) (by omega), hlast]

/-- The digits of a number, printed with as many as they are. -/
theorem pad_eval {u : List UInt8} (h : ∀ b ∈ u, isDigit b = true) (hu : u ≠ []) : pad u.length (eval u) = u :=
  eval_inj (isDigit_pad _ _) h (length_pad (List.length_pos_of_ne_nil hu) (eval_lt_pow h)) (eval_pad _ _)

end Mvpmc.Lib.Decimal
