import Mvpmc.Cmyth.ChannelList
import Mathlib.Data.Int.DivMod

/-! The four channels that the programme guide shows (`myth_guide_set_channels` and `myth_load_guide`, `tvguide.c`). -/
namespace Mvpmc.Cmyth.TvGuide

/-- `chanlist_list[i]`. -/
def channelAt (list : List Channel) (i : Int) : Option Channel := if i < 0 then none else list[i.toNat]?

/-- A row label of the widget: the index of the channel that is read for it, the channel's number and callsign, and
whether no recorder is free for it. -/
structure RowLabel where
  row : Int
  channel : Int
  text : Option (Int × List UInt8)
  busy : Option Bool

/-- How an index that may be negative is read. -/
def wrapped (list : List Channel) (i : Int) : Int := if i < 0 then list.length + i else i

/-- The two conditional assignments at the start of `myth_guide_set_channels`. -/
def wrapIndex (list : List Channel) (index : Int) : Int :=
  let index := if index ≥ list.length then index - list.length else index
  if index + list.length < 0 then index + list.length else index

def rowLabel (list : List Channel) (freeRecorders : BitVec 32) (index i : Int) : RowLabel where
  row := index - i
  channel := wrapped list i
  text := (channelAt list (wrapped list i)).map fun c => (c.channum, c.callsign)
  busy := (channelAt list (wrapped list i)).map fun c => decide (freeRecorders &&& c.cardids = 0)

/-- `myth_guide_set_channels`: the index it returns, and the labels it sets. -/
def setChannels (list : List Channel) (index yofs : Int) (freeRecorders : BitVec 32) : Int × List RowLabel :=
  let index := wrapIndex list (index + yofs)
  (index, (List.range 4).map fun k : Nat => rowLabel list freeRecorders index (index - k))

/-- The call in `myth_load_guide`. -/
def guideChannels (list : List Channel) (index yofs : Int) (freeRecorders : BitVec 32) : Int × List RowLabel :=
  setChannels list index (yofs.tmod list.length) freeRecorders

/-- `idxs` of `get_tvguide_page`. -/
def pageIndices (list : List Channel) (index : Int) : List Int := (List.range 4).map fun k : Nat => wrapped list (index - k)

section
variable {list : List Channel} {start yofs : Int} {freeRecorders : BitVec 32}

/-- The labels and the page read the same channels. -/
theorem labels_eq_pageIndices : (guideChannels list start yofs freeRecorders).2.map RowLabel.channel =
    pageIndices list (guideChannels list start yofs freeRecorders).1 := by
  unfold guideChannels setChannels pageIndices
  dsimp only
  rw [List.map_map]
  rfl

theorem wrapped_eq_emod {i : Int} (hlow : -list.length ≤ i) (hhigh : i < list.length) :
    wrapped list i = i % list.length := by
  unfold wrapped
  split
  · rw [← Int.add_emod_left, Int.emod_eq_of_lt (by omega) (by omega)]
  · rw [Int.emod_eq_of_lt (by omega) hhigh]

/-- An index that is too far below 0 is not brought back. -/
theorem wrapped_inside_iff {i : Int} (hhigh : i < list.length) :
    0 ≤ wrapped list i ∧ wrapped list i < list.length ↔ -list.length ≤ i := by
  unfold wrapped
  split <;> omega

/-- The index of the first row is the start and the offset, brought below `n` but not up to 0. -/
theorem guideChannels_index (h0 : 0 ≤ start) (hn : start < list.length) : (guideChannels list start yofs freeRecorders).1 =
    if start + yofs.tmod list.length < list.length then start + yofs.tmod list.length
    else start + yofs.tmod list.length - list.length := by
  have hlow := Int.lt_tmod_of_pos yofs (show (0 : Int) < list.length by omega)
  unfold guideChannels setChannels wrapIndex
  dsimp only
  generalize yofs.tmod list.length = t at hlow ⊢
  by_cases ht : start + t < list.length
  · rw [if_neg (by omega : ¬ start + t ≥ list.length), if_neg (by omega), if_pos ht]
  · rw [if_pos (by omega : start + t ≥ list.length), if_neg (by omega), if_neg ht]

theorem guideChannels_emod (h0 : 0 ≤ start) (hn : start < list.length) :
    (guideChannels list start yofs freeRecorders).1 % list.length = (start + yofs) % list.length := by
  have hmod : (start + yofs.tmod list.length) % list.length = (start + yofs) % list.length := by
    conv_rhs => rw [← Int.tmod_add_mul_tdiv yofs list.length, ← Int.add_assoc]
    rw [Int.add_mul_emod_self_left]
  rw [guideChannels_index h0 hn]
  split
  · exact hmod
  · rw [← hmod, Int.sub_emod_right]

theorem guideChannels_bounds (yofs : Int) (freeRecorders : BitVec 32) (h0 : 0 ≤ start) (hn : start < list.length) :
    -list.length < (guideChannels list start yofs freeRecorders).1 ∧
      (guideChannels list start yofs freeRecorders).1 < list.length := by
  have hpos : (0 : Int) < list.length := by omega
  have hlow := Int.lt_tmod_of_pos yofs hpos
  have hhigh := Int.tmod_lt_of_pos yofs hpos
  rw [guideChannels_index h0 hn]
  split <;> omega

theorem mem_pageIndices {index i : Int} : i ∈ pageIndices list index ↔ ∃ k < 4, wrapped list (index - (k : Nat)) = i := by
  simp [pageIndices]

/-- The four channels are inside the list if and only if the first index is not below `3 - n`. -/
theorem pageIndices_inside_iff {index : Int} (hhigh : index < list.length) :
    (∀ i ∈ pageIndices list index, 0 ≤ i ∧ i < list.length) ↔ 3 - list.length ≤ index := by
  constructor
  · intro h
    have hlast := h _ (mem_pageIndices.mpr ⟨3, by omega, rfl⟩)
    have hlow := (wrapped_inside_iff (by omega)).mp hlast
    omega
  · intro h i hi
    obtain ⟨k, hk, rfl⟩ := mem_pageIndices.mp hi
    exact (wrapped_inside_iff (by omega)).mpr (by omega)

/-- They are then the start and the offset, and the three before it, modulo `n`. -/
theorem pageIndices_eq (yofs : Int) (freeRecorders : BitVec 32) (h0 : 0 ≤ start) (hn : start < list.length)
    (h : 3 - list.length ≤ (guideChannels list start yofs freeRecorders).1) :
    pageIndices list (guideChannels list start yofs freeRecorders).1 =
      (List.range 4).map fun k : Nat => (start + yofs - (k : Nat)) % list.length := by
  have hhigh := (guideChannels_bounds yofs freeRecorders h0 hn).2
  unfold pageIndices
  refine List.map_congr_left fun k hk => ?_
  have hk : k < 4 := List.mem_range.mp hk
  rw [wrapped_eq_emod (by omega) (by omega), Int.sub_emod, guideChannels_emod h0 hn, ← Int.sub_emod]

/-- The first index is below `3 - n` where the start and the offset are. -/
theorem guideChannels_low_iff (yofs : Int) (freeRecorders : BitVec 32) (h4 : 4 ≤ list.length) (h0 : 0 ≤ start) (hn : start < list.length) :
    3 - list.length ≤ (guideChannels list start yofs freeRecorders).1 ↔ 3 - list.length ≤ start + yofs.tmod list.length := by
  rw [guideChannels_index h0 hn]
  split <;> omega

end
end Mvpmc.Cmyth.TvGuide
