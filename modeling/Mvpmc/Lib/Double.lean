import Mathlib.Data.Nat.Log
import Mathlib.Tactic.Linarith

/-! Products of a number with a constant of double precision. A constant is a mantissa of 53 bits and the number of places
behind the point. -/
namespace Mvpmc.Lib.Double

/-- The distance of the numbers of 53 bits around a number. -/
def spacing (p : Nat) : Nat := 2 ^ (Nat.log2 p - 52)

/-- The nearest number of 53 bits; of two that are equally near the one with an even mantissa. -/
def round (p : Nat) : Nat :=
  let s := spacing p
  let q := p / s
  let r := p % s
  if 2 * r > s ∨ (2 * r = s ∧ q % 2 = 1) then (q + 1) * s else q * s

/-- The integer part of a product. -/
def scale (mantissa places n : Nat) : Nat := round (n * mantissa) / 2 ^ places

/-- Where numbers of 53 bits lie apart, the distance is small against the number. -/
theorem spacing_le (p : Nat) : spacing p = 1 ∨ spacing p * 2 ^ 52 ≤ p := by
  rcases Nat.lt_or_ge (Nat.log2 p) 53 with hlt | hge
  · left
    rw [spacing, Nat.sub_eq_zero_of_le (Nat.le_of_lt_succ hlt), Nat.pow_zero]
  · right
    have hne : p ≠ 0 := by
      rintro rfl
      simp at hge
    rw [spacing, ← Nat.pow_add, Nat.sub_add_cancel (by omega)]
    exact Nat.log2_self_le hne

theorem round_le (p : Nat) : round p * 2 ^ 52 ≤ p * (2 ^ 52 + 1) := by
  have hdown : p / spacing p * spacing p ≤ p := Nat.div_mul_le_self _ _
  rw [round]
  split
  case isFalse h => exact Nat.mul_le_mul hdown (Nat.le_succ _)
  case isTrue h =>
    rcases spacing_le p with hone | hle
    · have hr : p % spacing p = 0 := by rw [hone, Nat.mod_one]
      rw [hr, hone] at h
      simp at h
    · calc (p / spacing p + 1) * spacing p * 2 ^ 52
          = p / spacing p * spacing p * 2 ^ 52 + spacing p * 2 ^ 52 := by rw [Nat.add_mul, Nat.one_mul, Nat.add_mul]
        _ ≤ p * 2 ^ 52 + p := Nat.add_le_add (Nat.mul_le_mul_right _ hdown) hle
        _ = p * (2 ^ 52 + 1) := by rw [Nat.mul_add, Nat.mul_one]

/-- A product with a constant below one is below the number it is a product of. -/
theorem scale_lt {mantissa places n : Nat} (h : mantissa * (2 ^ 52 + 1) < 2 ^ places * 2 ^ 52) (hn : 0 < n) :
    scale mantissa places n < n := by
  rw [scale, Nat.div_lt_iff_lt_mul (Nat.two_pow_pos _)]
  have hround := round_le (n * mantissa)
  have hmul : n * (mantissa * (2 ^ 52 + 1)) < n * (2 ^ places * 2 ^ 52) := Nat.mul_lt_mul_of_pos_left h hn
  nlinarith

end Mvpmc.Lib.Double
