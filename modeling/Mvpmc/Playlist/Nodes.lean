import Mathlib.Data.List.Basic
import Mathlib.Data.List.GetD

/-! The items of a playlist (`playlist_t`, `mvpmc.h`) and the list that they are linked into. -/
namespace Mvpmc.Playlist

/-- What an item says of its track. -/
structure Track where
  filename : List UInt8
  name : Option (List UInt8)
  label : List UInt8
  seconds : Int
  deriving DecidableEq, Repr

/-- `playlist_t`; an address is the number of an item in memory. -/
structure Node where
  track : Track
  key : Nat
  next : Option Nat
  prev : Option Nat
  deriving DecidableEq, Repr

/-- A new item behind the one at `dest`. -/
def appendNode (nodes : List Node) (dest : Option Nat) (track : Track) (key : Nat) : List Node :=
  match dest with
  | none => nodes ++ [⟨track, key, none, none⟩]
  | some d => nodes.modify d (fun n => { n with next := some nodes.length }) ++ [⟨track, key, none, some d⟩]

/-- Tracks one after the other, with their keys and links. -/
def nodesOf (tracks : List Track) : List Node :=
  tracks.mapIdx fun k t =>
    ⟨t, k, if k + 1 < tracks.length then some (k + 1) else none, if k = 0 then none else some (k - 1)⟩

@[simp] theorem length_nodesOf (tracks : List Track) : (nodesOf tracks).length = tracks.length := List.length_mapIdx

theorem nodesOf_getElem {tracks : List Track} {k : Nat} (hk : k < tracks.length) :
    (nodesOf tracks)[k]? = some ⟨tracks[k], k, if k + 1 < tracks.length then some (k + 1) else none,
      if k = 0 then none else some (k - 1)⟩ := by
  simp [nodesOf, hk]

/-- The last of some items. -/
def lastOf (n : Nat) : Option Nat := if n = 0 then none else some (n - 1)

theorem appendNode_nodesOf (tracks : List Track) (t : Track) :
    appendNode (nodesOf tracks) (lastOf tracks.length) t tracks.length = nodesOf (tracks ++ [t]) := by
  by_cases hn : tracks.length = 0
  · obtain rfl := List.length_eq_zero_iff.mp hn
    rfl
  · rw [lastOf, if_neg hn]
    refine List.ext_getElem? fun k => ?_
    simp only [appendNode, List.getElem?_append, List.length_modify, length_nodesOf, List.getElem?_modify]
    by_cases hk : k < tracks.length
    · have hk' : k < (tracks ++ [t]).length := by simp; omega
      rw [if_pos hk, nodesOf_getElem hk, nodesOf_getElem hk', List.getElem_append_left hk]
      by_cases hlast : tracks.length - 1 = k
      · have hnext : k + 1 = tracks.length := by omega
        simp [hlast, hnext]
      · have hnext : k + 1 < tracks.length ∧ k < tracks.length := by omega
        simp [hlast, hnext.1, hnext.2]
    · by_cases hend : k = tracks.length
      · subst hend
        rw [if_neg (by omega), nodesOf_getElem (by simp)]
        simp [hn]
      · rw [if_neg hk, List.getElem?_eq_none (by simp; omega), List.getElem?_eq_none (by simp; omega)]

end Mvpmc.Playlist
