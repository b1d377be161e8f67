import Mathlib.Data.List.Infix
import Mathlib.Order.Basic

/-! The cells of the programme guide that are marked for tuning (`myth_tvguide_add_hilite` and its siblings,
`tvguide.c`). -/
namespace Mvpmc.Cmyth.TvGuide

def allocFrac : Nat := 10

/-- A cell, by the start of the programme and the channel. -/
structure Cell where
  startTime : Int
  chanNum : Int
  deriving DecidableEq, Repr

/-- `struct cell_hilite_s`; a theme is only passed on. -/
structure CellHilite where
  cell : Cell
  theme : Nat
  deriving DecidableEq, Repr

/-- `struct cell_hilite_list_s`: the `count` entries in use, and how many there is room for. -/
structure HiliteList where
  list : List CellHilite
  avail : Nat
  deriving DecidableEq, Repr

/-- Which of the allocations succeed: of the object, of its list, and of a longer list. -/
structure Allocs where
  object : Bool := true
  list : Bool := true
  longer : Bool := true

/-- The end of `myth_tvguide_add_hilite`. -/
def HiliteList.append (h : HiliteList) (e : CellHilite) : HiliteList := { h with list := h.list ++ [e] }

/-- `myth_tvguide_add_hilite` on the static `hilites`. The flag `rtrn` is set where a list is made and where it is
made longer, and nowhere else. -/
def addHilite (mem : Allocs) (hilites : Option HiliteList) (e : CellHilite) : Option HiliteList × Int :=
  match hilites with
  | none => if mem.object ∧ mem.list then (some (HiliteList.append ⟨[], allocFrac⟩ e), 1) else (none, 0)
  | some h =>
    if h.list.length = h.avail then
      if mem.longer then (some (HiliteList.append { h with avail := h.avail + allocFrac } e), 1) else (none, 0)
    else (some h, 0)

/-- The index of the first entry for a cell, or the number of entries. -/
def HiliteList.index (h : HiliteList) (cell : Cell) : Nat := h.list.findIdx (·.cell = cell)

/-- `myth_tvguide_remove_hilite`. -/
def removeHilite (hilites : Option HiliteList) (cell : Cell) : Option HiliteList × Int :=
  match hilites with
  | none => (none, 0)
  | some h =>
    let i := h.index cell
    let (h, rtrn) :=
      if i + 1 = h.list.length then ({ h with list := h.list.take i }, 1)
      else if i < h.list.length then ({ h with list := h.list.take i ++ h.list.drop (i + 1) }, 1)
      else (h, 0)
    (if h.list.length = 0 then none else some h, rtrn)

/-- `myth_tvguide_should_hilite`. -/
def shouldHilite (hilites : Option HiliteList) (cell : Cell) : Option CellHilite :=
  hilites.bind fun h => h.list.find? (·.cell = cell)

inductive Call where
  | add (e : CellHilite)
  | remove (cell : Cell)
  deriving DecidableEq

/-- A call for which every allocation succeeds. -/
def Call.run (hilites : Option HiliteList) : Call → Option HiliteList × Int
  | .add e => addHilite {} hilites e
  | .remove cell => removeHilite hilites cell

/-- The static list after calls from the start of the program on. -/
def hilitesAfter (calls : List Call) : Option HiliteList := calls.foldl (fun s c => (c.run s).1) none

/-- The cell was added and has not been removed since. -/
def Added (calls : List Call) (cell : Cell) : Prop :=
  ∃ pre theme post, calls = pre ++ .add ⟨cell, theme⟩ :: post ∧ .remove cell ∉ post

/-- The calls behave like those of a set: what is found is what was added, every `add` returns 1, and a `remove`
returns 1 exactly when the cell is there. -/
structure LikeSet (calls : List Call) : Prop where
  finds : ∀ pre, pre <+: calls → ∀ cell, (shouldHilite (hilitesAfter pre) cell).isSome ↔ Added pre cell
  adds : ∀ pre e, pre ++ [.add e] <+: calls → (addHilite {} (hilitesAfter pre) e).2 = 1
  removes : ∀ pre cell, pre ++ [.remove cell] <+: calls → ((removeHilite (hilitesAfter pre) cell).2 = 1 ↔ Added pre cell)

theorem hilitesAfter_append (pre : List Call) (c : Call) : hilitesAfter (pre ++ [c]) = (c.run (hilitesAfter pre)).1 := by
  rw [hilitesAfter, List.foldl_append]
  rfl

theorem not_added_nil (cell : Cell) : ¬ Added [] cell := by
  rintro ⟨pre, theme, post, h, -⟩
  simp at h

theorem added_append_add (pre : List Call) (e : CellHilite) (cell : Cell) :
    Added (pre ++ [.add e]) cell ↔ e.cell = cell ∨ Added pre cell := by
  constructor
  · rintro ⟨pre', theme, post, h, hp⟩
    rcases List.eq_nil_or_concat post with rfl | ⟨post, c, rfl⟩
    · obtain ⟨-, he⟩ := List.append_inj' h rfl
      left
      rw [Call.add.inj (List.cons.inj he).1]
    · rw [List.concat_eq_append, ← List.cons_append, ← List.append_assoc] at h
      obtain ⟨rfl, -⟩ := List.append_inj' h rfl
      exact .inr ⟨pre', theme, post, rfl, fun hm => hp (by simp [hm])⟩
  · rintro (rfl | ⟨pre', theme, post, rfl, hp⟩)
    · exact ⟨pre, e.theme, [], rfl, List.not_mem_nil⟩
    · exact ⟨pre', theme, post ++ [.add e], by simp, by simpa using hp⟩

theorem added_append_remove (pre : List Call) (gone cell : Cell) :
    Added (pre ++ [.remove gone]) cell ↔ cell ≠ gone ∧ Added pre cell := by
  constructor
  · rintro ⟨pre', theme, post, h, hp⟩
    rcases List.eq_nil_or_concat post with rfl | ⟨post, c, rfl⟩
    · obtain ⟨-, he⟩ := List.append_inj' h rfl
      cases (List.cons.inj he).1
    · rw [List.concat_eq_append, ← List.cons_append, ← List.append_assoc] at h
      obtain ⟨rfl, hc⟩ := List.append_inj' h rfl
      obtain rfl := (List.cons.inj hc).1
      refine ⟨?_, pre', theme, post, rfl, fun hm => hp (by simp [hm])⟩
      rintro rfl
      exact hp (by simp)
  · rintro ⟨hne, pre', theme, post, rfl, hp⟩
    exact ⟨pre', theme, post ++ [.remove gone], by simp, by simp [hp, hne]⟩

section
variable (e : CellHilite) (cell : Cell)

/-- A list of one entry is not full, and stays as it is. -/
theorem addHilite_one (e' : CellHilite) : addHilite {} (some ⟨[e], allocFrac⟩) e' = (some ⟨[e], allocFrac⟩, 0) := rfl

theorem removeHilite_one : removeHilite (some ⟨[e], allocFrac⟩) cell =
    if e.cell = cell then (none, 1) else (some ⟨[e], allocFrac⟩, 0) := by
  by_cases hc : e.cell = cell <;> simp [removeHilite, HiliteList.index, hc]

theorem shouldHilite_one : (shouldHilite (some ⟨[e], allocFrac⟩) cell).isSome ↔ e.cell = cell := by
  simp [shouldHilite]

theorem not_shouldHilite_none : ¬ (shouldHilite none cell).isSome := by
  simp [shouldHilite]

end

/-- The list never has more than one entry. -/
theorem hilitesAfter_cases (calls : List Call) :
    hilitesAfter calls = none ∨ ∃ e, hilitesAfter calls = some ⟨[e], allocFrac⟩ := by
  induction calls using List.reverseRecOn with
  | nil => exact .inl rfl
  | append_singleton calls c ih =>
    rw [hilitesAfter_append]
    rcases ih with h | ⟨e, h⟩
    · rw [h]
      cases c with
      | add e' => exact .inr ⟨e', rfl⟩
      | remove cell => exact .inl rfl
    · rw [h]
      cases c with
      | add e' => exact .inr ⟨e, rfl⟩
      | remove cell =>
        rw [Call.run, removeHilite_one]
        split
        · exact .inl rfl
        · exact .inr ⟨e, rfl⟩

/-- Every `add` is made while no cell is in the set. -/
def AddsToEmpty (calls : List Call) : Prop := ∀ pre e, pre ++ [.add e] <+: calls → ∀ cell, ¬ Added pre cell

theorem AddsToEmpty.of_prefix {pre calls : List Call} (h : AddsToEmpty calls) (hp : pre <+: calls) : AddsToEmpty pre :=
  fun p e he => h p e (he.trans hp)

/-- As long as cells are added to the empty set only, what is found is what was added. -/
theorem AddsToEmpty.finds {calls : List Call} (h : AddsToEmpty calls) (cell : Cell) :
    (shouldHilite (hilitesAfter calls) cell).isSome ↔ Added calls cell := by
  induction calls using List.reverseRecOn generalizing cell with
  | nil => exact iff_of_false (not_shouldHilite_none cell) (not_added_nil cell)
  | append_singleton calls c ih =>
    have ih := ih (h.of_prefix (List.prefix_append _ _))
    rw [hilitesAfter_append]
    cases c with
    | add e =>
      have hnone : ∀ cell, ¬ Added calls cell := h calls e (List.prefix_refl _)
      rw [added_append_add, or_iff_left (hnone cell)]
      rcases hilitesAfter_cases calls with hs | ⟨e', hs⟩
      · rw [hs]
        exact shouldHilite_one e cell
      · rw [hs] at ih
        exact absurd ((ih e'.cell).mp ((shouldHilite_one e' e'.cell).mpr rfl)) (hnone e'.cell)
    | remove gone =>
      rw [added_append_remove, ← ih cell]
      rcases hilitesAfter_cases calls with hs | ⟨e, hs⟩
      · rw [hs]
        exact iff_of_false (not_shouldHilite_none cell) fun hf => not_shouldHilite_none cell hf.2
      · rw [hs, Call.run, removeHilite_one, shouldHilite_one]
        split
        · rename_i hc
          refine iff_of_false (not_shouldHilite_none cell) ?_
          rintro ⟨hne, hcell⟩
          exact hne (hcell.symm.trans hc)
        · rename_i hc
          rw [shouldHilite_one]
          refine ⟨fun hcell => ⟨?_, hcell⟩, fun hf => hf.2⟩
          rintro rfl
          exact hc hcell

/-- The calls behave like those of a set if and only if cells are only added while the set is empty: a list that has
room for more refuses them. -/
theorem hilites_likeSet_iff (calls : List Call) : LikeSet calls ↔ AddsToEmpty calls := by
  constructor
  · intro hset pre e hp cell hadded
    have hpre : pre <+: calls := (List.prefix_append pre _).trans hp
    have hfound := (hset.finds pre hpre cell).mpr hadded
    have hone := hset.adds pre e hp
    rcases hilitesAfter_cases pre with hs | ⟨e', hs⟩
    · rw [hs] at hfound
      exact not_shouldHilite_none cell hfound
    · rw [hs, addHilite_one] at hone
      cases hone
  · intro h
    refine ⟨fun pre hp cell => (h.of_prefix hp).finds cell, fun pre e hp => ?_, fun pre cell hp => ?_⟩
    · have hpre : pre <+: calls := (List.prefix_append pre _).trans hp
      rcases hilitesAfter_cases pre with hs | ⟨e', hs⟩
      · rw [hs]
        rfl
      · have hadded : Added pre e'.cell := by
          rw [← (h.of_prefix hpre).finds, hs, shouldHilite_one]
        exact absurd hadded (h pre e hp e'.cell)
    · have hpre : pre <+: calls := (List.prefix_append pre _).trans hp
      rw [← (h.of_prefix hpre).finds]
      rcases hilitesAfter_cases pre with hs | ⟨e, hs⟩
      · rw [hs]
        exact iff_of_false (by simp [removeHilite]) (not_shouldHilite_none cell)
      · rw [hs, removeHilite_one, shouldHilite_one]
        by_cases hc : e.cell = cell <;> simp [hc]

/-- Two cells added one after the other: the second call returns 0 and its cell is not found. -/
theorem secondCell_refused : ¬ LikeSet [.add ⟨⟨1800, 5⟩, 0⟩, .add ⟨⟨3600, 7⟩, 0⟩] := by
  intro h
  have hone := h.adds [.add ⟨⟨1800, 5⟩, 0⟩] ⟨⟨3600, 7⟩, 0⟩ (List.prefix_refl _)
  exact absurd hone (by decide)

end Mvpmc.Cmyth.TvGuide
