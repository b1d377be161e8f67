import Mvpmc.Lib.Circular
import Mathlib.Tactic
import Mathlib.Data.List.TakeWhile
import Mathlib.Data.UInt

/-! Strings that end with a zero in a memory of values, and the copies of them. -/
namespace Mvpmc.Lib.CString
open Mvpmc.Lib.Circular
variable {α : Type*} [DecidableEq α] [Zero α]

/-- The string at an address, of which at most `n` cells are read. -/
def stringAt (m : Nat → α) (start n : Nat) : List α := (slice m start n).takeWhile (· ≠ 0)

/-- A string with the zero behind it. -/
def strcpy (m : Nat → α) (dst : Nat) (src : List α) : Nat → α := blit m dst (src ++ [0])

/-- Exactly `n` cells: the string, cut or filled up with zeros. -/
def strncpy (m : Nat → α) (dst : Nat) (src : List α) (n : Nat) : Nat → α :=
  blit m dst (src.take n ++ List.replicate (n - src.length) 0)

theorem zero_not_mem_stringAt (m : Nat → α) (start n : Nat) : 0 ∉ stringAt m start n := by
  intro h
  simpa using List.mem_takeWhile_imp h

theorem stringAt_congr {m m' : Nat → α} {start n : Nat} (h : ∀ i, start ≤ i → i < start + n → m i = m' i) :
    stringAt m start n = stringAt m' start n := by
  have hs : slice m start n = slice m' start n :=
    List.map_congr_left fun i hi => h _ (Nat.le_add_right _ _) (Nat.add_lt_add_left (List.mem_range.mp hi) _)
  rw [stringAt, stringAt, hs]

/-- A copy beside a string leaves it alone. -/
theorem stringAt_blit_of_disjoint (m : Nat → α) {start n dst : Nat} {xs : List α}
    (h : start + n ≤ dst ∨ dst + xs.length ≤ start) : stringAt (blit m dst xs) start n = stringAt m start n := by
  refine stringAt_congr fun i hlo hhi => ?_
  rcases h with h | h
  · exact blit_of_lt _ _ _ _ (by omega)
  · exact blit_of_ge _ _ _ _ (by omega)

theorem takeWhile_of_zero_not_mem {xs : List α} (h : 0 ∉ xs) : xs.takeWhile (· ≠ 0) = xs :=
  List.takeWhile_eq_self_iff.mpr fun x hx => by simpa using fun h0 : x = 0 => h (h0 ▸ hx)

/-- Without a zero of its own, what was copied goes on with the string that stood behind its end before. -/
theorem stringAt_blit (m : Nat → α) (dst : Nat) {xs : List α} {n : Nat} (hz : 0 ∉ xs) (hn : xs.length ≤ n) :
    stringAt (blit m dst xs) dst n = xs ++ stringAt m (dst + xs.length) (n - xs.length) := by
  obtain ⟨k, rfl⟩ := Nat.exists_eq_add_of_le hn
  have hrest : slice (blit m dst xs) (dst + xs.length) k = slice m (dst + xs.length) k :=
    List.map_congr_left fun i _ => blit_of_ge _ _ _ _ (by omega)
  rw [stringAt, slice_add, slice_blit, hrest, List.takeWhile_append, if_pos (by rw [takeWhile_of_zero_not_mem hz]),
    Nat.add_sub_cancel_left, stringAt]

/-- What was copied ends at its first zero. -/
theorem stringAt_blit_zero (m : Nat → α) (dst : Nat) {xs ys : List α} {n : Nat} (hz : 0 ∉ xs) (hn : xs.length < n) :
    stringAt (blit m dst (xs ++ 0 :: ys)) dst n = xs := by
  obtain ⟨k, rfl⟩ := Nat.exists_eq_add_of_lt hn
  have hzero : blit m dst (xs ++ 0 :: ys) (dst + xs.length) = 0 := by
    rw [blit_of_mem _ _ _ _ (by simp)]
    simp
  have hfirst : slice (blit m dst (xs ++ 0 :: ys)) dst xs.length = xs := by
    refine List.ext_getElem (by simp) fun i _ hi => ?_
    simp only [slice, List.getElem_map, List.getElem_range]
    rw [blit_of_mem _ _ _ _ (by simp; omega), List.getElem_append_left hi]
  have hrest : slice (blit m dst (xs ++ 0 :: ys)) (dst + xs.length) (k + 1) =
      0 :: slice (blit m dst (xs ++ 0 :: ys)) (dst + xs.length + 1) k := by
    rw [Nat.add_comm k 1, slice_add]
    simp [slice, hzero]
  rw [stringAt, Nat.add_assoc, slice_add, hfirst, hrest, List.takeWhile_append,
    if_pos (by rw [takeWhile_of_zero_not_mem hz])]
  simp

/-- More than is read is copied. -/
theorem stringAt_blit_take (m : Nat → α) (dst : Nat) {xs : List α} {n : Nat} (hz : 0 ∉ xs.take n) (hn : n ≤ xs.length) :
    stringAt (blit m dst xs) dst n = xs.take n := by
  have hslice : slice (blit m dst xs) dst n = xs.take n := by
    refine List.ext_getElem (by simpa using hn) fun i hi _ => ?_
    rw [slice_length] at hi
    simp only [slice, List.getElem_map, List.getElem_range, List.getElem_take]
    exact blit_of_mem _ _ _ _ (by omega)
  rw [stringAt, hslice, takeWhile_of_zero_not_mem hz]

theorem stringAt_strcpy (m : Nat → α) (dst : Nat) {src : List α} {n : Nat} (hz : 0 ∉ src) (hn : src.length < n) :
    stringAt (strcpy m dst src) dst n = src :=
  stringAt_blit_zero m dst hz hn

/-- A string shorter than the count is copied whole. -/
theorem stringAt_strncpy (m : Nat → α) (dst : Nat) {src : List α} {n k : Nat} (hz : 0 ∉ src) (hs : src.length < k)
    (hn : src.length < n) : stringAt (strncpy m dst src k) dst n = src := by
  obtain ⟨d, rfl⟩ := Nat.exists_eq_add_of_lt hs
  have hfill : src.length + d + 1 - src.length = d + 1 := by omega
  rw [strncpy, List.take_of_length_le (by omega), hfill, List.replicate_succ]
  exact stringAt_blit_zero m dst hz hn

omit [DecidableEq α] in
theorem strncpy_length (src : List α) (n : Nat) : (src.take n ++ List.replicate (n - src.length) (0 : α)).length = n := by
  rw [List.length_append, List.length_take, List.length_replicate]
  omega

end Mvpmc.Lib.CString
