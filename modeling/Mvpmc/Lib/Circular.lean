import Mathlib.Data.List.Basic
import Mathlib.Data.Nat.ModEq
import Mathlib.Tactic

/-! Circular memory over an arbitrary element type. A block of memory is a
function on addresses; a circular window of `n` cells wraps at `size`. -/
namespace Mvpmc.Lib.Circular
variable {α : Type*}

/-- Block copy of a list into memory. -/
def blit (m : Nat → α) (pos : Nat) (xs : List α) : Nat → α := fun i =>
  if pos ≤ i then xs.getD (i - pos) (m i) else m i

/-- Straight read of `n` cells. -/
def slice (m : Nat → α) (start n : Nat) : List α := (List.range n).map fun i => m (start + i)

/-- Read of `n` cells that wraps at `size`. -/
def window (m : Nat → α) (size start n : Nat) : List α :=
  (List.range n).map fun i => m ((start + i) % size)

/-- Write that wraps at `size`, as two block copies. -/
def store (m : Nat → α) (size head : Nat) (xs : List α) : Nat → α :=
  blit (blit m head (xs.take (size - head))) 0 (xs.drop (size - head))

/-- One lap at most: the remainder is the number or the number less one lap. -/
theorem mod_cases (a size : Nat) (h : a < 2 * size) :
    (a < size ∧ a % size = a) ∨ (size ≤ a ∧ a % size = a - size) := by
  rcases Nat.lt_or_ge a size with hw | hw
  · exact .inl ⟨hw, Nat.mod_eq_of_lt hw⟩
  · exact .inr ⟨hw, by rw [Nat.mod_eq_sub_mod hw, Nat.mod_eq_of_lt (by omega)]⟩

@[simp] theorem slice_length (m : Nat → α) (start n : Nat) : (slice m start n).length = n := by
  simp [slice]

@[simp] theorem window_length (m : Nat → α) (size start n : Nat) : (window m size start n).length = n := by
  simp [window]

@[simp] theorem slice_zero (m : Nat → α) (start : Nat) : slice m start 0 = [] := rfl

@[simp] theorem window_zero (m : Nat → α) (size start : Nat) : window m size start 0 = [] := rfl

theorem slice_add (m : Nat → α) (start a b : Nat) :
    slice m start (a + b) = slice m start a ++ slice m (start + a) b := by
  simp [slice, List.range_add, Function.comp_def, Nat.add_assoc]

theorem slice_drop (m : Nat → α) (start n k : Nat) : (slice m start n).drop k = slice m (start + k) (n - k) := by
  apply List.ext_getElem (by simp)
  intro i h₁ h₂
  simp [slice, Nat.add_assoc]

theorem slice_shift (m : Nat → α) (offset start n : Nat) :
    slice (fun i => m (offset + i)) start n = slice m (offset + start) n := by
  simp [slice, Nat.add_assoc]

theorem window_add (m : Nat → α) (size start a b : Nat) :
    window m size start (a + b) = window m size start a ++ window m size (start + a) b := by
  simp [window, List.range_add, Function.comp_def, Nat.add_assoc]

theorem window_mod (m : Nat → α) (size start n : Nat) :
    window m size (start % size) n = window m size start n := by
  simp [window, Nat.mod_add_mod]

theorem window_take (m : Nat → α) (size start n k : Nat) (h : k ≤ n) :
    (window m size start n).take k = window m size start k := by
  obtain ⟨d, rfl⟩ := Nat.exists_eq_add_of_le h
  rw [window_add, List.take_left' (by simp)]

theorem window_drop (m : Nat → α) (size start n k : Nat) (h : k ≤ n) :
    (window m size start n).drop k = window m size (start + k) (n - k) := by
  obtain ⟨d, rfl⟩ := Nat.exists_eq_add_of_le h
  rw [window_add, List.drop_left' (by simp), Nat.add_sub_cancel_left]

theorem window_congr {m m' : Nat → α} {size start n : Nat}
    (h : ∀ i < n, m ((start + i) % size) = m' ((start + i) % size)) :
    window m size start n = window m' size start n := by
  apply List.map_congr_left
  intro i hi
  exact h i (List.mem_range.mp hi)

/-- A window that does not reach the end of the block is a straight read. -/
theorem window_eq_slice (m : Nat → α) (size start n : Nat) (h : start + n ≤ size) :
    window m size start n = slice m start n := by
  apply List.map_congr_left
  intro i hi
  rw [Nat.mod_eq_of_lt (by have := List.mem_range.mp hi; omega)]

/-- A window that passes the end is the rest of the block and then its start. -/
theorem window_eq_slices (m : Nat → α) (size start n : Nat) (hs : start ≤ size) (hn : n ≤ size) :
    window m size start (size - start + n) = slice m start (size - start) ++ slice m 0 n := by
  rw [window_add, window_eq_slice m size start _ (by omega), Nat.add_sub_cancel' hs]
  rw [← window_mod, Nat.mod_self, window_eq_slice m size 0 n (by omega)]

theorem blit_of_lt (m : Nat → α) (pos i : Nat) (xs : List α) (h : i < pos) : blit m pos xs i = m i := by
  simp [blit, Nat.not_le.mpr h]

theorem blit_of_ge (m : Nat → α) (pos i : Nat) (xs : List α) (h : pos + xs.length ≤ i) :
    blit m pos xs i = m i := by
  simp [blit, List.getD_eq_getElem?_getD, List.getElem?_eq_none (show xs.length ≤ i - pos by omega)]

theorem blit_of_mem (m : Nat → α) (pos k : Nat) (xs : List α) (h : k < xs.length) :
    blit m pos xs (pos + k) = xs[k] := by
  simp [blit, List.getD_eq_getElem?_getD, List.getElem?_eq_getElem h]

theorem slice_blit (m : Nat → α) (pos : Nat) (xs : List α) : slice (blit m pos xs) pos xs.length = xs := by
  apply List.ext_getElem (by simp)
  intro k h₁ h₂
  simp [slice, blit_of_mem m pos k xs h₂]

/-- A block copy behind a straight read extends it. -/
theorem slice_blit_append (m : Nat → α) (start n : Nat) (xs : List α) :
    slice (blit m (start + n) xs) start (n + xs.length) = slice m start n ++ xs := by
  rw [slice_add, slice_blit]
  congr 1
  apply List.map_congr_left
  intro i hi
  exact blit_of_lt _ _ _ _ (by have := List.mem_range.mp hi; omega)

theorem slice_ext {m m' : Nat → α} {start n : Nat} (h : ∀ i, start ≤ i → i < start + n → m i = m' i) :
    slice m start n = slice m' start n := by
  apply List.map_congr_left
  intro i hi
  have := List.mem_range.mp hi
  exact h _ (by omega) (by omega)

theorem slice_blit_below (m : Nat → α) {start n pos : Nat} (xs : List α) (h : start + n ≤ pos) :
    slice (blit m pos xs) start n = slice m start n :=
  slice_ext fun i _ hi => blit_of_lt m pos i xs (by omega)

theorem slice_blit_above (m : Nat → α) {start n pos : Nat} (xs : List α) (h : pos + xs.length ≤ start) :
    slice (blit m pos xs) start n = slice m start n :=
  slice_ext fun i hi _ => blit_of_ge m pos i xs (by omega)

@[simp] theorem blit_nil (m : Nat → α) (pos : Nat) : blit m pos [] = m := by
  funext i
  simp [blit]

theorem blit_cons (m : Nat → α) (pos : Nat) (a : α) (xs : List α) :
    blit m pos (a :: xs) = blit (Function.update m pos a) (pos + 1) xs := by
  funext i
  rcases Nat.lt_trichotomy i pos with hlt | heq | hgt
  · rw [blit_of_lt _ _ _ _ hlt, blit_of_lt _ _ _ _ (by omega), Function.update_of_ne (by omega)]
  · subst heq
    rw [blit_of_lt _ _ _ _ (Nat.lt_succ_self i), Function.update_self]
    simp [blit]
  · obtain ⟨d, rfl⟩ : ∃ d, i = pos + 1 + d := ⟨i - (pos + 1), by omega⟩
    have hd : pos + 1 + d - pos = d + 1 := by omega
    have hd' : pos + 1 + d - (pos + 1) = d := by omega
    have hne : pos + 1 + d ≠ pos := by omega
    simp only [blit, hd, hd', Function.update_of_ne hne]
    rw [if_pos (by omega), if_pos (by omega), List.getD_cons_succ]

theorem blit_append (m : Nat → α) (pos : Nat) (xs ys : List α) :
    blit m pos (xs ++ ys) = blit (blit m pos xs) (pos + xs.length) ys := by
  induction xs generalizing m pos with
  | nil => simp
  | cons a xs ih =>
    rw [List.cons_append, blit_cons, ih, blit_cons, List.length_cons]
    congr 1
    omega

/-- A write into a block that has been copied. -/
theorem update_blit (m : Nat → α) (pos : Nat) {k : Nat} {xs : List α} (h : k < xs.length) (a : α) :
    Function.update (blit m pos xs) (pos + k) a = blit m pos (xs.set k a) := by
  funext i
  rcases Nat.lt_or_ge i pos with hlt | hge
  · rw [Function.update_of_ne (by omega), blit_of_lt m pos i xs hlt, blit_of_lt m pos i _ hlt]
  · obtain ⟨d, rfl⟩ := Nat.exists_eq_add_of_le hge
    rcases Nat.lt_or_ge d xs.length with hd | hd
    · rw [blit_of_mem m pos d (xs.set k a) (by rwa [List.length_set]), List.getElem_set]
      split
      · rename_i he
        rw [he, Function.update_self]
      · rename_i he
        rw [Function.update_of_ne (by omega), blit_of_mem m pos d xs hd]
    · rw [Function.update_of_ne (by omega), blit_of_ge m pos _ xs (by omega),
        blit_of_ge m pos _ _ (by rw [List.length_set]; omega)]

theorem store_written (m : Nat → α) (size head k : Nat) (xs : List α) (hh : head < size)
    (hl : xs.length ≤ size) (hk : k < xs.length) : store m size head xs ((head + k) % size) = xs[k] := by
  unfold store
  by_cases hw : head + k < size
  · rw [Nat.mod_eq_of_lt hw, blit_of_ge _ 0 _ _ (by simp only [List.length_drop]; omega),
      blit_of_mem _ _ _ _ (by simp only [List.length_take]; omega), List.getElem_take]
  · have hd : (head + k) % size = k - (size - head) := by
      rw [Nat.mod_eq_sub_mod (by omega), Nat.mod_eq_of_lt (by omega)]
      omega
    have hb := blit_of_mem (blit m head (xs.take (size - head))) 0 (k - (size - head))
      (xs.drop (size - head)) (by simp only [List.length_drop]; omega)
    rw [Nat.zero_add] at hb
    rw [hd, hb, List.getElem_drop]
    congr 1
    omega

/-- Addresses outside the written arc keep their contents. -/
theorem store_untouched (m : Nat → α) (size head d : Nat) (xs : List α) (hh : head < size)
    (hd : xs.length ≤ d) (hs : d < size) :
    store m size head xs ((head + d) % size) = m ((head + d) % size) := by
  unfold store
  by_cases hw : head + d < size
  · rw [Nat.mod_eq_of_lt hw, blit_of_ge _ 0 _ _ (by simp only [List.length_drop]; omega),
      blit_of_ge _ _ _ _ (by simp only [List.length_take]; omega)]
  · have he : (head + d) % size = head + d - size := by
      rw [Nat.mod_eq_sub_mod (by omega), Nat.mod_eq_of_lt (by omega)]
    rw [he, blit_of_ge _ 0 _ _ (by simp only [List.length_drop]; omega), blit_of_lt _ _ _ _ (by omega)]

/-- Writing right behind a window extends it, whatever the position of the wrap. -/
theorem window_store (m : Nat → α) (size start n : Nat) (xs : List α) (hz : 0 < size)
    (hl : n + xs.length ≤ size) :
    window (store m size ((start + n) % size) xs) size start (n + xs.length) =
      window m size start n ++ xs := by
  have hlt := Nat.mod_lt (start + n) hz
  rw [window_add]
  congr 1
  · apply window_congr
    intro i hi
    have he : (start + i) % size = ((start + n) % size + (size - n + i)) % size := by
      rw [Nat.mod_add_mod, show start + n + (size - n + i) = start + i + size by omega, Nat.add_mod_right]
    rw [he]
    exact store_untouched m size _ _ xs hlt (by omega) (by omega)
  · apply List.ext_getElem (by simp)
    intro k h₁ h₂
    have hw := store_written m size ((start + n) % size) k xs hlt (by omega) h₂
    rw [Nat.mod_add_mod] at hw
    simpa [window, Nat.mod_add_mod] using hw

/-- Memory read as a straight line of positions: position 0 is the cell `base`, and a lap
is `size` positions long. -/
def unroll (m : Nat → α) (size base : Nat) : Nat → α := fun x => m ((base + x) % size)

/-- Less than a lap apart, different positions are different cells. -/
theorem lap_inj {size base x y : Nat} (h : (base + x) % size = (base + y) % size) (hx : x < y + size)
    (hy : y < x + size) : x = y := by
  have hxy : x ≡ y [MOD size] := Nat.ModEq.add_left_cancel' base h
  rcases Nat.le_total x y with hle | hle
  · have hd := (Nat.modEq_iff_dvd' hle).mp hxy
    have := Nat.eq_zero_of_dvd_of_lt hd (by omega)
    omega
  · have hd := (Nat.modEq_iff_dvd' hle).mp hxy.symm
    have := Nat.eq_zero_of_dvd_of_lt hd (by omega)
    omega

/-- The distance of two positions less than a lap apart, from their cells. -/
theorem lap_distance {size base a b c q : Nat} (hc : c % size = (base + a) % size) (hq : q % size = (base + b) % size)
    (hcq : c ≤ q + size) (hle : a ≤ b) (hlap : b < a + size) : (q + size - c) % size = b - a := by
  have hmod : q + size - c + c ≡ b - a + c [MOD size] := by
    have h1 : q + size ≡ base + b [MOD size] := (Nat.add_mod_right _ _).trans hq
    have h2 : b - a + (base + a) ≡ b - a + c [MOD size] := Nat.ModEq.add_left _ (Nat.ModEq.symm hc)
    rw [show q + size - c + c = q + size by omega]
    rw [show b - a + (base + a) = base + b by omega] at h2
    exact h1.trans h2
  have hres : (q + size - c) % size = (b - a) % size := Nat.ModEq.add_right_cancel' c hmod
  rw [hres, Nat.mod_eq_of_lt (by omega)]

/-- A change of one cell is a change of one position, within a lap. -/
theorem unroll_update (m : Nat → α) {size base x y : Nat} (v : α) (hx : x < y + size) (hy : y < x + size) :
    unroll (Function.update m ((base + x) % size) v) size base y = if y = x then v else unroll m size base y := by
  unfold unroll
  split
  · rename_i he
    rw [he, Function.update_self]
  · rename_i hne
    exact Function.update_of_ne (fun he => hne (lap_inj he hy hx)) _ _

/-- Positions before the written ones, up to a lap back, keep their contents. -/
theorem unroll_store_of_lt (m : Nat → α) {size base pos y : Nat} (xs : List α) (hz : 0 < size) (hy : y < pos)
    (hlap : pos + xs.length ≤ y + size) :
    unroll (store m size ((base + pos) % size) xs) size base y = unroll m size base y := by
  have he : (base + y) % size = ((base + pos) % size + (y + size - pos)) % size := by
    rw [Nat.mod_add_mod, show base + pos + (y + size - pos) = base + y + size by omega, Nat.add_mod_right]
  unfold unroll
  rw [he]
  exact store_untouched m size _ _ xs (Nat.mod_lt _ hz) (by omega) (by omega)

theorem unroll_store_written (m : Nat → α) {size base pos k : Nat} (xs : List α) (hz : 0 < size)
    (hl : xs.length ≤ size) (hk : k < xs.length) :
    unroll (store m size ((base + pos) % size) xs) size base (pos + k) = xs[k] := by
  have hw := store_written m size ((base + pos) % size) k xs (Nat.mod_lt _ hz) hl hk
  rw [Nat.mod_add_mod, Nat.add_assoc] at hw
  exact hw

theorem unroll_add (m : Nat → α) (size base x y : Nat) : unroll m size (base + x) y = unroll m size base (x + y) := by
  simp only [unroll, Nat.add_assoc]

/-- A block that stands at position `y` of a window stands there in the list of the window. -/
theorem prefix_window_drop (m : Nat → α) {size base n y : Nat} (xs : List α) (hy : y + xs.length ≤ n)
    (hx : ∀ k (hk : k < xs.length), unroll m size base (y + k) = xs[k]) :
    xs <+: (window m size base n).drop y := by
  have he : xs = window m size (base + y) xs.length := by
    apply List.ext_getElem (by simp)
    intro k h₁ h₂
    have h := hx k h₁
    simp only [unroll, ← Nat.add_assoc] at h
    simp [window, h]
  rw [window_drop _ _ _ _ _ (by omega)]
  nth_rewrite 1 [he]
  rw [← window_take _ _ _ (n - y) _ (by omega)]
  exact List.take_prefix _ _

end Mvpmc.Lib.Circular
