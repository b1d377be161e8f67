import Mathlib.Data.List.Chain

/-! A list from which elements are erased while an index runs forward over it: the element behind an erased one takes its
place and is not looked at. -/
namespace Mvpmc.Lib
variable {α : Type} {bad : α → Bool}

/-- What is left of a list. -/
def sweep (bad : α → Bool) : List α → List α
  | [] => []
  | [x] => if bad x then [] else [x]
  | x :: y :: xs => if bad x then y :: sweep bad xs else x :: sweep bad (y :: xs)

/-- No two neighbours are bad. -/
def Apart (bad : α → Bool) (xs : List α) : Prop := xs.IsChain fun x y => bad x = true → bad y = false

theorem Apart.tail {x : α} {xs : List α} (h : Apart bad (x :: xs)) : Apart bad xs := List.IsChain.tail h

/-- Where no two neighbours are bad nothing bad is passed over. -/
theorem sweep_eq_filter {xs : List α} (h : Apart bad xs) : sweep bad xs = xs.filter fun x => !bad x := by
  induction xs using sweep.induct bad with
  | case1 => rfl
  | case2 x hx => simp [sweep, hx]
  | case3 x hx => simp [sweep, hx]
  | case4 x y xs hx ih =>
    have hy : bad y = false := (List.isChain_cons_cons.mp h).1 hx
    rw [sweep, if_pos hx, ih h.tail.tail, List.filter_cons_of_neg (by simp [hx]), List.filter_cons_of_pos (by simp [hy])]
  | case5 x y xs hx ih =>
    rw [sweep, if_neg hx, ih h.tail]
    exact (List.filter_cons_of_pos (by simpa using hx)).symm

/-- Of two bad neighbours the second is left, unless it comes behind an erased one itself. -/
theorem apart_of_sweep {xs : List α} (h : ∀ x ∈ sweep bad xs, bad x = false) : Apart bad xs := by
  induction xs using sweep.induct bad with
  | case1 => exact .nil
  | case2 x hx => exact .singleton x
  | case3 x hx => exact .singleton x
  | case4 x y xs hx ih =>
    rw [sweep, if_pos hx] at h
    obtain ⟨hy, hxs⟩ := List.forall_mem_cons.mp h
    have hbehind : Apart bad (y :: xs) := by
      cases xs with
      | nil => exact .singleton y
      | cons z zs => exact List.isChain_cons_cons.mpr ⟨fun hbad => absurd hbad (by simp [hy]), ih hxs⟩
    exact List.isChain_cons_cons.mpr ⟨fun _ => hy, hbehind⟩
  | case5 x y xs hx ih =>
    rw [sweep, if_neg hx] at h
    exact List.isChain_cons_cons.mpr ⟨fun hbad => absurd hbad hx, ih (List.forall_mem_cons.mp h).2⟩

end Mvpmc.Lib
