import Mathlib.Data.List.SplitBy
import Mathlib.Data.List.Chain

/-! A list cut where the key of its elements changes, built up from its end. -/
namespace Mvpmc.Lib
variable {α κ : Type} [DecidableEq κ] {key : α → κ} {l g : List α} {a : α} {init : List (List α)}

/-- The longest pieces whose elements have one key. -/
def runs (key : α → κ) (l : List α) : List (List α) := l.splitBy fun x y => key x = key y

theorem runs_nil : runs key [] = [] := rfl

theorem ne_nil_of_mem_runs (hg : g ∈ runs key l) : g ≠ [] := List.ne_nil_of_mem_splitBy hg

theorem runs_eq_nil_iff : runs key l = [] ↔ l = [] := List.splitBy_eq_nil

/-- The last element is that of the last piece. -/
theorem getLast?_of_runs (h : runs key l = init ++ [g]) : l.getLast? = g.getLast? := by
  have hl : l = init.flatten ++ g := by
    rw [← List.flatten_splitBy (fun x y => decide (key x = key y)) l]
    show (runs key l).flatten = _
    rw [h]
    simp
  have hmem : g ∈ runs key l := by
    rw [h]
    simp
  have hg : g ≠ [] := ne_nil_of_mem_runs hmem
  rw [hl, List.getLast?_append_of_ne_nil _ hg]

/-- The elements of a piece have the key of its first. -/
theorem key_of_mem_runs {b : α} (hg : b :: g ∈ runs key l) : ∀ x ∈ b :: g, key x = key b := by
  have hchain : (b :: g).IsChain fun x y => decide (key x = key y) = true := List.isChain_of_mem_splitBy hg
  clear hg
  induction g generalizing b with
  | nil =>
    intro x hx
    rw [List.mem_singleton.mp hx]
  | cons c g ih =>
    obtain ⟨hbc, hchain⟩ := List.isChain_cons_cons.mp hchain
    intro x hx
    rcases List.mem_cons.mp hx with rfl | hx
    · rfl
    · exact (ih hchain x hx).trans (of_decide_eq_true hbc).symm

/-- Another key begins a new piece. -/
theorem runs_concat_other (ha : ∀ x ∈ l.getLast?, key x ≠ key a) : runs key (l ++ [a]) = runs key l ++ [[a]] :=
  List.splitBy_append_cons [] fun x hx => decide_eq_false (ha x hx)

/-- The key of the last element goes on with its piece. -/
theorem runs_concat_same (h : runs key l = init ++ [g]) (ha : ∀ x ∈ g.getLast?, key x = key a) :
    runs key (l ++ [a]) = init ++ [g ++ [a]] := by
  obtain ⟨hl, hne, hchain, hcut⟩ := List.splitBy_eq_iff.mp h
  have hg : g ≠ [] := fun he => hne (by simp [he])
  refine List.splitBy_eq_iff.mpr ⟨?_, ?_, fun m hm => ?_, ?_⟩
  · rw [hl]
    simp
  · simp only [List.mem_append, List.mem_singleton, not_or] at hne ⊢
    exact ⟨hne.1, by simp⟩
  · rcases List.mem_append.mp hm with hm | hm
    · exact hchain m (List.mem_append_left _ hm)
    · obtain rfl := List.mem_singleton.mp hm
      refine List.isChain_append.mpr ⟨hchain g (by simp), List.isChain_singleton a, fun x hx y hy => ?_⟩
      obtain rfl : a = y := by simpa using hy
      exact decide_eq_true (ha x hx)
  · obtain ⟨hinit, -, hlast⟩ := List.isChain_append.mp hcut
    refine List.isChain_append.mpr ⟨hinit, List.isChain_singleton _, fun x hx y hy => ?_⟩
    obtain rfl : g ++ [a] = y := by simpa using hy
    obtain ⟨hx', hg', hd⟩ := hlast x hx g (by simp)
    refine ⟨hx', by simp, ?_⟩
    rw [List.head_append_of_ne_nil hg]
    exact hd

/-- An element at the end begins one piece more, or none. -/
theorem length_runs_concat : (runs key (l ++ [a])).length =
    if ∃ x ∈ l.getLast?, key x = key a then (runs key l).length else (runs key l).length + 1 := by
  split
  · rename_i h
    obtain ⟨x, hx, hkey⟩ := h
    rcases List.eq_nil_or_concat (runs key l) with hnil | ⟨init, g, hp⟩
    · rw [runs_eq_nil_iff.mp hnil] at hx
      cases hx
    · rw [List.concat_eq_append] at hp
      have hg : ∀ y ∈ g.getLast?, key y = key a := by
        intro y hy
        rw [← getLast?_of_runs hp, hx] at hy
        rw [← Option.some.inj hy, hkey]
      rw [runs_concat_same hp hg, hp, List.length_append, List.length_append]
      rfl
  · rename_i h
    rw [runs_concat_other fun x hx hkey => h ⟨x, hx, hkey⟩, List.length_append]
    rfl

theorem length_runs_le_concat : (runs key l).length ≤ (runs key (l ++ [a])).length := by
  rw [length_runs_concat]
  split <;> omega

end Mvpmc.Lib
