import Mvpmc.Lib.Runs
import Mvpmc.Cmyth.Reply
import Mvpmc.Cmyth.Hilites

/-! The list of channels from the database (`myth_tvguide_load_channels`, `tvguide.c`). The rows are in memory, so
that no size here comes near the range of its type. -/
namespace Mvpmc.Cmyth.TvGuide
open Mvpmc.Lib

/-- A row of the query; none of its columns is ever NULL. -/
structure ChannelRow where
  chanid : List UInt8
  channum : List UInt8
  cardid : List UInt8
  callsign : List UInt8
  name : List UInt8
  deriving DecidableEq, Repr

/-- `struct cmyth_channel`. -/
structure Channel where
  chanid : Int
  channum : Int
  chanstr : List UInt8
  cardids : BitVec 32
  callsign : List UInt8
  name : List UInt8
  deriving DecidableEq, Repr

/-- Its size on the MVP. -/
def sizeofChannel : Nat := 32

/-- The list while it is filled: its entries, `chanlist_alloc`, the bytes of the array, how often it was allocated, and
the assignments to entries, each with the number of entries that the array has room for then. -/
structure Chanlist where
  list : List Channel
  alloc : Nat
  room : Nat
  allocations : Nat
  writes : List (Nat × Nat)

section
variable (shift : Int → BitVec 32) (mem : Nat → Bool)

/-- `1 << (atoi(cardid) - 1)`; only shifts by 0 to 31 are defined. -/
def ChannelRow.card (row : ChannelRow) : BitVec 32 := shift (atoi row.cardid - 1)

/-- A new entry. -/
def ChannelRow.channel (row : ChannelRow) : Channel where
  chanid := atoi row.chanid
  channum := atoi row.channum
  chanstr := row.channum.takeD 10 0
  cardids := row.card shift
  callsign := row.callsign
  name := row.name

namespace Chanlist

/-- More room when the list is full; `none` if there is no memory. -/
def grow (rowCount : Nat) (s : Chanlist) : Option Chanlist :=
  if s.list.length = s.alloc then
    if mem s.allocations then
      some { s with
        alloc := s.alloc + rowCount / allocFrac
        room := sizeofChannel * (s.list.length + rowCount / allocFrac)
        allocations := s.allocations + 1 }
    else none
  else some s

/-- An assignment to the entry `i`. -/
def write (s : Chanlist) (i : Nat) (list : List Channel) : Chanlist :=
  { s with list := list, writes := (i, s.room / sizeofChannel) :: s.writes }

/-- The entry is the same channel as the row, perhaps on another card. -/
def same (c : Channel) (row : ChannelRow) : Bool :=
  c.callsign = row.callsign ∧ c.channum = atoi row.channum ∧ c.name = row.name

/-- A row, once there is room for it. -/
def put (s : Chanlist) (row : ChannelRow) : Chanlist :=
  match s.list.getLast? with
  | none => s.write s.list.length (s.list ++ [row.channel shift])
  | some c =>
    if same c row then
      s.write (s.list.length - 1) (s.list.dropLast ++ [{ c with cardids := c.cardids ||| row.card shift }])
    else s.write s.list.length (s.list ++ [row.channel shift])

/-- The loop over the rows, with the assignments made and the list that is returned. -/
def fill (rowCount : Nat) : List ChannelRow → Chanlist → List (Nat × Nat) × Option (List Channel)
  | [], s => (s.writes, some s.list)
  | row :: rows, s =>
    match s.grow mem rowCount with
    | none => (s.writes, none)
    | some s => fill rowCount rows (s.put shift row)

end Chanlist

/-- `myth_tvguide_load_channels` on the rows of the query, where `mem` tells which allocations of the array succeed. -/
def loadChannels (rows : List ChannelRow) : List (Nat × Nat) × Option (List Channel) :=
  if mem 0 then
    Chanlist.fill shift mem rows.length rows
      ⟨[], rows.length / allocFrac, sizeofChannel * rows.length / allocFrac, 1, []⟩
  else ([], none)

/-- What tells channels apart. -/
def ChannelRow.key (row : ChannelRow) : List UInt8 × Int × List UInt8 := (row.callsign, atoi row.channum, row.name)

/-- The channel of adjacent rows: that of the first one, on the cards of all of them. -/
def mergedChannel (row : ChannelRow) (rows : List ChannelRow) : Channel :=
  { row.channel shift with cardids := rows.foldl (fun cards r => cards ||| r.card shift) (row.card shift) }

/-- The channels of pieces of rows. -/
def mergedPieces (pieces : List (List ChannelRow)) : List Channel :=
  pieces.filterMap fun
    | [] => none
    | row :: rows => some (mergedChannel shift row rows)

/-- The rows in order, with adjacent rows of equal callsign, number and name merged. -/
def mergedChannels (rows : List ChannelRow) : List Channel := mergedPieces shift (runs ChannelRow.key rows)

/-- Every entry is assigned inside the array, and the list returned is that of the merged rows. -/
structure BuiltInside (rows : List ChannelRow) : Prop where
  inside : ∀ w ∈ (loadChannels shift mem rows).1, w.1 < w.2
  list : ∀ list, (loadChannels shift mem rows).2 = some list → list = mergedChannels shift rows

end
section
variable {shift : Int → BitVec 32} {mem : Nat → Bool} {rows done : List ChannelRow} {row : ChannelRow} {s : Chanlist} {n : Nat}

theorem mergedPieces_append (pieces : List (List ChannelRow)) (b : ChannelRow) (g : List ChannelRow) :
    mergedPieces shift (pieces ++ [b :: g]) = mergedPieces shift pieces ++ [mergedChannel shift b g] := by
  rw [mergedPieces, List.filterMap_append]
  rfl

theorem mergedChannel_append (b : ChannelRow) (g : List ChannelRow) (row : ChannelRow) :
    mergedChannel shift b (g ++ [row]) =
      { mergedChannel shift b g with cardids := (mergedChannel shift b g).cardids ||| row.card shift } := by
  rw [mergedChannel, List.foldl_append]
  rfl

theorem same_mergedChannel (b : ChannelRow) (g : List ChannelRow) (row : ChannelRow) :
    Chanlist.same (mergedChannel shift b g) row = decide (b.key = row.key) := by
  simp [Chanlist.same, ChannelRow.key, mergedChannel, ChannelRow.channel]

/-- A row goes to the merged rows. -/
theorem put_list (row : ChannelRow) (h : s.list = mergedChannels shift done) :
    (s.put shift row).list = mergedChannels shift (done ++ [row]) := by
  rw [mergedChannels] at h ⊢
  rcases List.eq_nil_or_concat (runs ChannelRow.key done) with hnil | ⟨pieces, g, hp⟩
  · obtain rfl := runs_eq_nil_iff.mp hnil
    have hs : s.list = [] := h
    unfold Chanlist.put
    rw [hs]
    rfl
  · rw [List.concat_eq_append] at hp
    have hmem : g ∈ runs ChannelRow.key done := by
      rw [hp]
      simp
    have hg : g ≠ [] := ne_nil_of_mem_runs hmem
    obtain ⟨b, g, rfl⟩ := List.exists_cons_of_ne_nil hg
    have hkey : ∀ x ∈ b :: g, x.key = b.key := key_of_mem_runs (l := done) (by rw [hp]; simp)
    rw [hp, mergedPieces_append] at h
    unfold Chanlist.put
    rw [h, List.getLast?_concat]
    dsimp only
    rw [same_mergedChannel]
    by_cases hsame : b.key = row.key
    · rw [runs_concat_same hp fun x hx => (hkey x (List.mem_of_getLast? hx)).trans hsame, List.cons_append,
        mergedPieces_append, mergedChannel_append, if_pos (decide_eq_true hsame), List.dropLast_concat]
      rfl
    · have hother : ∀ x ∈ done.getLast?, x.key ≠ row.key := by
        intro x hx
        rw [getLast?_of_runs hp] at hx
        rw [hkey x (List.mem_of_getLast? hx)]
        exact hsame
      rw [runs_concat_other hother, hp, mergedPieces_append, mergedPieces_append, if_neg (by simp [hsame])]
      rfl

namespace Chanlist

/-- The entries fit into the array, and all assignments were inside it. -/
structure Inside (s : Chanlist) : Prop where
  count : s.list.length ≤ s.alloc
  alloc : sizeofChannel * s.alloc ≤ s.room
  writes : ∀ w ∈ s.writes, w.1 < w.2

/-- A row is one assignment, to one of the entries or to the one behind them. -/
theorem put_eq (shift : Int → BitVec 32) (s : Chanlist) (row : ChannelRow) :
    ∃ i list, s.put shift row = s.write i list ∧ i ≤ s.list.length ∧ list.length ≤ s.list.length + 1 := by
  unfold put
  split
  · exact ⟨_, _, rfl, le_rfl, by simp⟩
  · split
    · refine ⟨_, _, rfl, Nat.sub_le _ _, ?_⟩
      rw [List.length_append, List.length_dropLast]
      exact Nat.add_le_add_right (Nat.sub_le _ _) 1
    · exact ⟨_, _, rfl, le_rfl, by simp⟩

/-- With ten rows or more there is room for another entry. -/
theorem Inside.grow {s' : Chanlist} (h : s.Inside) (hn : 10 ≤ n) (hgrow : s.grow mem n = some s') :
    s'.Inside ∧ s'.list = s.list ∧ s'.list.length < s'.alloc := by
  unfold Chanlist.grow at hgrow
  have hfrac : 0 < n / allocFrac := Nat.div_pos hn (by decide)
  split at hgrow
  · rename_i hfull
    split at hgrow
    · obtain rfl := Option.some.inj hgrow
      refine ⟨⟨?_, ?_, h.writes⟩, rfl, ?_⟩
      · exact h.count.trans (Nat.le_add_right _ _)
      · show sizeofChannel * (s.alloc + n / allocFrac) ≤ sizeofChannel * (s.list.length + n / allocFrac)
        rw [hfull]
      · show s.list.length < s.alloc + n / allocFrac
        omega
    · cases hgrow
  · rename_i hroom
    obtain rfl := Option.some.inj hgrow
    exact ⟨h, rfl, lt_of_le_of_ne h.count hroom⟩

theorem Inside.put (h : s.Inside) (hlt : s.list.length < s.alloc) (row : ChannelRow) : (s.put shift row).Inside := by
  obtain ⟨i, list, hput, hi, hlen⟩ := s.put_eq shift row
  rw [hput]
  refine ⟨hlen.trans hlt, h.alloc, ?_⟩
  show ∀ w ∈ (i, s.room / sizeofChannel) :: s.writes, w.1 < w.2
  rw [List.forall_mem_cons]
  refine ⟨lt_of_lt_of_le (lt_of_le_of_lt hi hlt) ?_, h.writes⟩
  exact (Nat.le_div_iff_mul_le (by decide)).mpr (by rw [Nat.mul_comm]; exact h.alloc)

/-- With ten rows or more the loop stays inside the array. -/
theorem Inside.fill (h : s.Inside) (hn : 10 ≤ n) (rows : List ChannelRow) : ∀ w ∈ (s.fill shift mem n rows).1, w.1 < w.2 := by
  induction rows generalizing s with
  | nil => exact h.writes
  | cons row rows ih =>
    unfold Chanlist.fill
    cases hgrow : s.grow mem n with
    | none => exact h.writes
    | some s' =>
      obtain ⟨h', -, hlt⟩ := h.grow hn hgrow
      exact ih (h'.put hlt row)

theorem grow_keeps {s' : Chanlist} (hgrow : s.grow mem n = some s') : s'.list = s.list ∧ s'.writes = s.writes := by
  unfold Chanlist.grow at hgrow
  split at hgrow
  · split at hgrow
    · obtain rfl := Option.some.inj hgrow
      exact ⟨rfl, rfl⟩
    · cases hgrow
  · obtain rfl := Option.some.inj hgrow
    exact ⟨rfl, rfl⟩

/-- Assignments stay made. -/
theorem mem_fill {w : Nat × Nat} (hw : w ∈ s.writes) (rows : List ChannelRow) : w ∈ (s.fill shift mem n rows).1 := by
  induction rows generalizing s with
  | nil => exact hw
  | cons row rows ih =>
    unfold Chanlist.fill
    cases hgrow : s.grow mem n with
    | none => exact hw
    | some s' =>
      obtain ⟨i, list, hput, -⟩ := s'.put_eq shift row
      refine ih ?_
      rw [hput]
      refine List.mem_cons_of_mem _ ?_
      rwa [(grow_keeps hgrow).2]

/-- The list returned is that of the rows, however many there are. -/
theorem fill_list {list : List Channel} (h : s.list = mergedChannels shift done) (rows : List ChannelRow)
    (hlist : (s.fill shift mem n rows).2 = some list) : list = mergedChannels shift (done ++ rows) := by
  induction rows generalizing s done with
  | nil =>
    rw [List.append_nil, ← h]
    exact (Option.some.inj hlist).symm
  | cons row rows ih =>
    unfold Chanlist.fill at hlist
    cases hgrow : s.grow mem n with
    | none =>
      rw [hgrow] at hlist
      cases hlist
    | some s' =>
      rw [hgrow] at hlist
      have hdone := ih (put_list row ((grow_keeps hgrow).1.trans h)) hlist
      rwa [List.append_assoc] at hdone

end Chanlist
end

/-- The channels are built inside their array if and only if there is no row, there are ten or more, or one of the first
two allocations of the array fails: for fewer rows the array has room for no entry. -/
theorem loadChannels_inside_iff (shift : Int → BitVec 32) (mem : Nat → Bool) (rows : List ChannelRow) :
    BuiltInside shift mem rows ↔ rows = [] ∨ 10 ≤ rows.length ∨ mem 0 = false ∨ mem 1 = false := by
  have hlist : ∀ list, (loadChannels shift mem rows).2 = some list → list = mergedChannels shift rows := by
    intro list hl
    unfold loadChannels at hl
    split at hl
    · have hnone : (mergedChannels shift [] : List Channel) = [] := rfl
      exact Chanlist.fill_list hnone.symm rows hl
    · cases hl
  constructor
  · intro h
    by_contra hcon
    obtain ⟨hne, hfew, h0, h1⟩ : rows ≠ [] ∧ rows.length < 10 ∧ mem 0 = true ∧ mem 1 = true := by
      simpa only [not_or, not_le, Bool.not_eq_false] using hcon
    obtain ⟨row, rows, rfl⟩ := List.exists_cons_of_ne_nil hne
    have hfrac : (row :: rows).length / allocFrac = 0 := Nat.div_eq_of_lt hfew
    -- the first row makes an array of no bytes and assigns to its entry 0
    have hwrite : (0, 0) ∈ (loadChannels shift mem (row :: rows)).1 := by
      rw [loadChannels, if_pos h0, Chanlist.fill]
      unfold Chanlist.grow
      dsimp only
      rw [hfrac, List.length_nil, if_pos rfl, if_pos h1]
      exact Chanlist.mem_fill List.mem_cons_self rows
    exact absurd (h.inside _ hwrite) (Nat.lt_irrefl 0)
  · intro h
    refine ⟨?_, hlist⟩
    unfold loadChannels
    split
    · rename_i h0
      by_cases hten : 10 ≤ rows.length
      · refine Chanlist.Inside.fill ⟨Nat.zero_le _, ?_, by simp⟩ hten rows
        exact Nat.mul_div_le_mul_div_assoc _ _ _
      · cases rows with
        | nil => simp [Chanlist.fill]
        | cons row rows =>
          have h1 : mem 1 = false :=
            ((h.resolve_left (List.cons_ne_nil _ _)).resolve_left hten).resolve_left (by simp [h0])
          have hfrac : (row :: rows).length / allocFrac = 0 := Nat.div_eq_of_lt (not_le.mp hten)
          rw [Chanlist.fill]
          unfold Chanlist.grow
          dsimp only
          rw [hfrac, List.length_nil, if_pos rfl, if_neg (by simp [h1])]
          simp
    · simp

/-- The row of one channel on the first card. -/
def oneChannel : ChannelRow := ⟨[0x31], [0x32], [0x31], [0x43], [0x4E]⟩

/-- The list of one channel is written past its array. -/
theorem oneChannel_not_inside : ¬ BuiltInside (fun k => 1#32 <<< k.toNat) (fun _ => true) [oneChannel] := by
  intro h
  exact absurd (h.inside (0, 0) (by decide)) (by decide)

end Mvpmc.Cmyth.TvGuide
