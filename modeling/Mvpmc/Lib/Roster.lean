import Mathlib.Data.List.Dedup
import Mathlib.Data.Finset.Card

/-! Tables to which an entry is added at the end, unless one with its key is there. -/
namespace Mvpmc.Lib.Roster

section
variable {α κ : Type} [BEq κ] (key : α → κ)

def enter (xs : List α) (x : α) : List α := if xs.any (key · == key x) then xs else xs ++ [x]

/-- The table after the entries `ys` have come in order. -/
def enterAll (xs ys : List α) : List α := ys.foldl (enter key) xs

@[simp] theorem enterAll_nil (xs : List α) : enterAll key xs [] = xs := rfl

theorem enterAll_append (xs ys zs : List α) :
    enterAll key xs (ys ++ zs) = enterAll key (enterAll key xs ys) zs :=
  List.foldl_append

/-- An entry keeps its place. -/
theorem prefix_enterAll (xs ys : List α) : xs <+: enterAll key xs ys := by
  induction ys generalizing xs with
  | nil => exact List.prefix_refl xs
  | cons y ys ih =>
    refine List.IsPrefix.trans ?_ (ih (enter key xs y))
    unfold enter
    split
    · exact List.prefix_refl xs
    · exact List.prefix_append xs [y]

end

section
variable {α κ : Type} [DecidableEq κ] (key : α → κ)

theorem map_enter (xs : List α) (x : α) :
    (enter key xs x).map key = if key x ∈ xs.map key then xs.map key else xs.map key ++ [key x] := by
  have hany : (xs.any (key · == key x)) = true ↔ key x ∈ xs.map key := by simp
  unfold enter
  by_cases hx : key x ∈ xs.map key
  · rw [if_pos (hany.mpr hx), if_pos hx]
  · rw [if_neg (mt hany.mp hx), if_neg hx, List.map_append, List.map_singleton]

/-- The keys stay distinct. -/
theorem nodup_enterAll {xs : List α} (ys : List α) (hxs : (xs.map key).Nodup) :
    ((enterAll key xs ys).map key).Nodup := by
  induction ys generalizing xs with
  | nil => exact hxs
  | cons y ys ih =>
    refine ih ?_
    rw [map_enter]
    split
    · exact hxs
    · rename_i hy
      refine List.nodup_append.mpr ⟨hxs, List.nodup_singleton _, ?_⟩
      rintro k hk _ hnew rfl
      exact hy (List.mem_singleton.mp hnew ▸ hk)

theorem mem_enterAll (xs ys : List α) (k : κ) :
    k ∈ (enterAll key xs ys).map key ↔ k ∈ xs.map key ∨ k ∈ ys.map key := by
  induction ys generalizing xs with
  | nil => simp
  | cons y ys ih =>
    have hstep : k ∈ (enter key xs y).map key ↔ k ∈ xs.map key ∨ k = key y := by
      rw [map_enter]
      split
      · rename_i hy
        exact ⟨.inl, fun h => h.elim id fun he => he ▸ hy⟩
      · rw [List.mem_append, List.mem_singleton]
    rw [show enterAll key xs (y :: ys) = enterAll key (enter key xs y) ys from rfl, ih, hstep, List.map_cons,
      List.mem_cons, or_assoc]

/-- The table has as many entries as different keys have come. -/
theorem length_enterAll (ys : List α) : (enterAll key [] ys).length = (ys.map key).dedup.length := by
  have hnodup : ((enterAll key [] ys).map key).Nodup := nodup_enterAll key ys List.nodup_nil
  have hperm : ((enterAll key [] ys).map key).Perm (ys.map key).dedup := by
    refine (List.perm_ext_iff_of_nodup hnodup (List.nodup_dedup _)).mpr fun k => ?_
    rw [mem_enterAll, List.mem_dedup, List.map_nil]
    exact or_iff_right List.not_mem_nil
  rw [← hperm.length_eq, List.length_map]

end
end Mvpmc.Lib.Roster
