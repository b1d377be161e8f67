import Mvpmc.Cmyth.GuideWindow

/-! A page of the programme guide (`get_tvguide_page`, `tvguide.c`): what the two queries return goes through a cache of
four programmes. -/
namespace Mvpmc.Cmyth.TvGuide
open Mvpmc.Lib

/-- The members of `cmyth_program_t` that are used; a text is what `strncpy` puts there. -/
structure Program where
  chanid : Int
  channum : Int
  eventFlags : BitVec 32
  starttime : Int
  endtime : Int
  title : List UInt8
  description : List UInt8
  subtitle : List UInt8
  programid : List UInt8
  seriesid : List UInt8
  category : List UInt8
  deriving DecidableEq

/-- A row of the first query. -/
structure ProgramRow where
  chanid : List UInt8
  starttime : List UInt8
  endtime : List UInt8
  title : List UInt8
  description : List UInt8
  subtitle : List UInt8
  programid : List UInt8
  seriesid : List UInt8
  category : List UInt8
  deriving DecidableEq

def ProgramRow.ch (row : ProgramRow) : Int := atoi row.chanid

/-- A row of the second query. -/
structure RecordRow where
  chanid : List UInt8
  programid : List UInt8
  deriving DecidableEq

def eventWillRecord : BitVec 32 := 1
def eventAutoTune : BitVec 32 := 2

def strncpy (s : List UInt8) (n : Nat) : List UInt8 := s.takeD n 0

/-- `get_chan_num`. -/
def getChanNum (chanid : Int) (list : List Channel) : Int :=
  match list.find? (·.chanid = chanid) with
  | none => 0
  | some c => c.channum

/-- The cache with the memory behind it, and the entries that were read or written. -/
structure Cache where
  entries : Nat → Program
  accesses : List Nat

namespace Cache

def touch (s : Cache) (i : Nat) : Cache := { s with accesses := i :: s.accesses }

def modify (s : Cache) (i : Nat) (f : Program → Program) : Cache :=
  ⟨Function.update s.entries i (f (s.entries i)), i :: s.accesses⟩

def setChannum (s : Cache) (i : Nat) (channum : Int) : Cache := s.modify i fun p => { p with channum := channum }

/-- A row is copied to an entry, whose channel number has been set. -/
def copyRow (row : ProgramRow) (p : Program) : Program where
  chanid := row.ch
  channum := p.channum
  eventFlags := 0
  starttime := atoi row.starttime
  endtime := atoi row.endtime
  title := strncpy row.title 130
  description := strncpy row.description 256
  subtitle := strncpy row.subtitle 130
  programid := strncpy row.programid 20
  seriesid := strncpy row.seriesid 12
  category := strncpy row.category 64

/-- A row of the first query, with `idx` entries filled so far. The channel number is set before the row is compared with
the entry in front. -/
def fetchRow (list : List Channel) (row : ProgramRow) (idx : Nat) (s : Cache) : Nat × Cache :=
  let s := s.setChannum idx (getChanNum row.ch list)
  if idx = 0 then (idx + 1, s.modify idx (copyRow row))
  else
    let s := s.touch (idx - 1)
    if row.ch = (s.entries (idx - 1)).chanid then (idx, s) else (idx + 1, s.modify idx (copyRow row))

/-- The loop over the rows of the first query; the number of entries filled is returned. -/
def fetch (list : List Channel) (rows : List ProgramRow) (s : Cache) : Nat × Cache :=
  rows.foldl (fun r row => fetchRow list row r.1 r.2) (0, s)

/-- A loop over the first `ct` entries that sets a flag. -/
def flag (ct : Nat) (bit : BitVec 32) (cond : Program → Bool) (s : Cache) : Cache :=
  (List.range ct).foldl (fun s i =>
    if cond (s.entries i) then s.modify i fun p => { p with eventFlags := p.eventFlags ||| bit } else s.touch i) s

/-- The first of the first `ct` entries for a channel, or `ct`. -/
def find (ct : Nat) (chanid : Int) (s : Cache) : Nat := (List.range ct).findIdx fun k => (s.entries k).chanid = chanid

/-- The loops over the rows of the second query and over the cells to tune to. -/
def flagged (ct : Nat) (records : List RecordRow) (hilites : Option HiliteList) (s : Cache) : Cache :=
  let s := records.foldl (fun s r => s.flag ct eventWillRecord fun p =>
    p.chanid = atoi r.chanid ∧ cstring r.programid = cstring p.programid) s
  s.flag ct eventAutoTune fun p => (shouldHilite hilites ⟨p.starttime, p.channum⟩).isSome

end Cache

def unknown : List UInt8 := [0x55, 0x6E, 0x6B, 0x6E, 0x6F, 0x77, 0x6E]

/-- "There are no entries in the database for this channel at this time". -/
def noEntries : List UInt8 := [
  0x54, 0x68, 0x65, 0x72, 0x65, 0x20, 0x61, 0x72, 0x65, 0x20, 0x6E, 0x6F, 0x20, 0x65, 0x6E, 0x74, 0x72, 0x69, 0x65, 0x73, 0x20,
  0x69, 0x6E, 0x20, 0x74, 0x68, 0x65, 0x20, 0x64, 0x61, 0x74, 0x61, 0x62, 0x61, 0x73, 0x65, 0x20, 0x66, 0x6F, 0x72, 0x20, 0x74,
  0x68, 0x69, 0x73, 0x20, 0x63, 0x68, 0x61, 0x6E, 0x6E, 0x65, 0x6C, 0x20, 0x61, 0x74, 0x20, 0x74, 0x68, 0x69, 0x73, 0x20, 0x74,
  0x69, 0x6D, 0x65]

/-- One of the four programmes, for the channel `c` at the index `i`: its number is looked up by the index when there is
no entry for the channel, and the flags come from the entry behind the last one then. -/
def placeProgram (list : List Channel) (ct : Nat) (startTime endTime : Int) (s : Cache) (i : Int) (c : Channel) :
    Cache × Program :=
  let k := s.find ct c.chanid
  let s := { s with accesses := List.range (min (k + 1) ct) ++ s.accesses }
  let s := s.touch k
  let p := s.entries k
  if k = ct then
    (s, { chanid := c.chanid, channum := getChanNum i list, eventFlags := p.eventFlags, starttime := startTime
          endtime := endTime, title := strncpy unknown 130, description := strncpy noEntries 256
          subtitle := strncpy unknown 130, programid := strncpy unknown 20, seriesid := strncpy unknown 12
          category := strncpy unknown 64 })
  else
    (s, { chanid := p.chanid, channum := getChanNum p.chanid list, eventFlags := p.eventFlags, starttime := p.starttime
          endtime := p.endtime, title := strncpy p.title 130, description := strncpy p.description 256
          subtitle := strncpy p.subtitle 130, programid := strncpy p.programid 20, seriesid := strncpy p.seriesid 12
          category := strncpy p.category 64 })

/-- The last loop. -/
def placePrograms (list : List Channel) (ct : Nat) (startTime endTime : Int) :
    List (Int × Channel) → Cache → List Program → Cache × List Program
  | [], s, progs => (s, progs)
  | (i, c) :: chans, s, progs =>
    let (s, p) := placeProgram list ct startTime endTime s i c
    placePrograms list ct startTime endTime chans s (progs ++ [p])

/-- The channels at indices, with these. -/
def channelsAt (list : List Channel) : List Int → Option (List (Int × Channel))
  | [] => some []
  | i :: is => (channelAt list i).bind fun c => (channelsAt list is).map ((i, c) :: ·)

/-- What `get_tvguide_page` works on beside the channels and the rows of its queries: the window of time, the programmes
so far, the cells to tune to, and the cache as the last call left it. -/
structure PageInput where
  startTime : Int
  endTime : Int
  progs : List Program
  hilites : Option HiliteList
  cache : Nat → Program

/-- `get_tvguide_page`, with the rows of the two queries (`none` for a query that fails); nothing is said about it when a
channel is read outside the list. -/
def getTvguidePage (list : List Channel) (index : Int) (d : PageInput) (rows : Option (List ProgramRow))
    (records : Option (List RecordRow)) : Option (Cache × List Program) :=
  (channelsAt list (pageIndices list index)).bind fun chans =>
    rows.bind fun rows =>
      let (ct, s) := Cache.fetch list rows ⟨d.cache, []⟩
      records.map fun records =>
        placePrograms list ct d.startTime d.endTime chans (s.flagged ct records d.hilites) d.progs

section
variable {list : List Channel} {rows done : List ProgramRow} {s : Cache} {idx ct : Nat}

theorem channelsAt_eq_some_iff {is : List Int} {chans : List (Int × Channel)} :
    channelsAt list is = some chans ↔ chans.map Prod.fst = is ∧ ∀ p ∈ chans, channelAt list p.1 = some p.2 := by
  induction is generalizing chans with
  | nil =>
    rw [channelsAt, List.map_eq_nil_iff]
    constructor
    · intro h
      obtain rfl := Option.some.inj h
      exact ⟨rfl, by simp⟩
    · rintro ⟨rfl, -⟩
      rfl
  | cons i is ih =>
    rw [channelsAt]
    constructor
    · intro h
      obtain ⟨c, hc, h⟩ := Option.bind_eq_some_iff.mp h
      obtain ⟨cs, hcs, rfl⟩ := Option.map_eq_some_iff.mp h
      obtain ⟨hmap, hall⟩ := ih.mp hcs
      exact ⟨by rw [List.map_cons, hmap], List.forall_mem_cons.mpr ⟨hc, hall⟩⟩
    · rintro ⟨hmap, hall⟩
      cases chans with
      | nil => cases hmap
      | cons q chans =>
        obtain ⟨rfl, htail⟩ := List.cons.inj hmap
        obtain ⟨hq, hall⟩ := List.forall_mem_cons.mp hall
        rw [hq, Option.bind_some, ih.mpr ⟨htail, hall⟩]
        rfl

namespace Cache

/-- The cache once the rows in `done` have been read: an entry for each piece of rows of one channel. -/
structure Fetched (done : List ProgramRow) (idx : Nat) (s : Cache) : Prop where
  count : idx = (runs ProgramRow.ch done).length
  chanids : ∀ ch, (∃ k < idx, (s.entries k).chanid = ch) ↔ ch ∈ done.map ProgramRow.ch
  last : ∀ row ∈ done.getLast?, (s.entries (idx - 1)).chanid = row.ch
  accesses : (∀ a ∈ s.accesses, a < 4) ↔ (runs ProgramRow.ch done.dropLast).length ≤ 3

theorem Fetched.idx_eq_zero_iff (h : Fetched done idx s) : idx = 0 ↔ done = [] := by
  rw [h.count, List.length_eq_zero_iff, runs_eq_nil_iff]

/-- The accesses for a row: to the entry that is next, and to the one in front. -/
theorem mem_accesses_fetchRow {row : ProgramRow} {a : Nat} : a ∈ (fetchRow list row idx s).2.accesses ↔
    a = idx ∨ idx ≠ 0 ∧ a = idx - 1 ∨ a ∈ s.accesses := by
  unfold fetchRow
  dsimp only
  split
  · rename_i h0
    simp [setChannum, modify, h0]
  · rename_i h0
    split
    · simp [setChannum, modify, touch, h0]
      tauto
    · simp [setChannum, modify, touch, h0]
      tauto

/-- What keeps the channel of an entry keeps those of all. -/
theorem chanid_modify {f : Program → Program} (hf : ∀ p, (f p).chanid = p.chanid) (i k : Nat) :
    ((s.modify i f).entries k).chanid = (s.entries k).chanid := by
  by_cases hk : k = i <;> simp [modify, hk, hf]

theorem chanid_setChannum (i : Nat) (channum : Int) (k : Nat) :
    ((s.setChannum i channum).entries k).chanid = (s.entries k).chanid := by
  unfold setChannum
  exact chanid_modify (by intro p; rfl) i k

theorem touch_entries (i : Nat) : (s.touch i).entries = s.entries := rfl

/-- A row of another channel than the entry in front goes into the entry that is next. -/
theorem fetchRow_new (list : List Channel) {row : ProgramRow} (hnew : idx ≠ 0 → row.ch ≠ (s.entries (idx - 1)).chanid) (k : Nat) :
    (fetchRow list row idx s).1 = idx + 1 ∧
      ((fetchRow list row idx s).2.entries k).chanid = if k = idx then row.ch else (s.entries k).chanid := by
  unfold fetchRow
  dsimp only
  by_cases h0 : idx = 0
  · rw [if_pos h0]
    refine ⟨rfl, ?_⟩
    by_cases hk : k = idx <;> simp [setChannum, modify, copyRow, hk]
  · rw [if_neg h0, if_neg (by rw [touch_entries, chanid_setChannum]; exact hnew h0)]
    refine ⟨rfl, ?_⟩
    by_cases hk : k = idx <;> simp [setChannum, modify, touch, copyRow, hk]

/-- A row of the channel of the entry in front is dropped. -/
theorem fetchRow_same (list : List Channel) {row : ProgramRow} (h0 : idx ≠ 0) (hsame : row.ch = (s.entries (idx - 1)).chanid) (k : Nat) :
    (fetchRow list row idx s).1 = idx ∧ ((fetchRow list row idx s).2.entries k).chanid = (s.entries k).chanid := by
  unfold fetchRow
  dsimp only
  rw [if_neg h0, if_pos (by rw [touch_entries, chanid_setChannum]; exact hsame)]
  exact ⟨rfl, chanid_setChannum idx _ k⟩

/-- A row goes on with the last piece exactly if the entry in front has its channel. -/
theorem Fetched.same_iff (h : Fetched done idx s) (row : ProgramRow) :
    (∃ x ∈ done.getLast?, x.ch = row.ch) ↔ idx ≠ 0 ∧ row.ch = (s.entries (idx - 1)).chanid := by
  have hdone := h.idx_eq_zero_iff
  constructor
  · rintro ⟨x, hx, hkey⟩
    refine ⟨fun h0 => ?_, by rw [h.last x hx, hkey]⟩
    rw [hdone.mp h0] at hx
    cases hx
  · rintro ⟨h0, hrow⟩
    obtain ⟨x, hx⟩ : ∃ x, x ∈ done.getLast? :=
      ⟨done.getLast fun hnil => h0 (hdone.mpr hnil), List.getLast?_eq_some_getLast _⟩
    exact ⟨x, hx, by rw [hrow, h.last x hx]⟩

/-- The entries that a row touches are among the four if those in front of it fill three at most. -/
theorem Fetched.accesses_fetchRow (list : List Channel) (h : Fetched done idx s) (row : ProgramRow) :
    (∀ a ∈ (fetchRow list row idx s).2.accesses, a < 4) ↔ (runs ProgramRow.ch (done ++ [row]).dropLast).length ≤ 3 := by
  have hlast : (runs ProgramRow.ch done.dropLast).length ≤ idx := by
    rw [h.count]
    rcases List.eq_nil_or_concat done with rfl | ⟨init, x, rfl⟩
    · exact le_rfl
    · rw [List.concat_eq_append, List.dropLast_concat]
      exact length_runs_le_concat
  rw [List.dropLast_concat, ← h.count]
  constructor
  · intro hall
    exact Nat.le_of_lt_succ (hall idx (mem_accesses_fetchRow.mpr (.inl rfl)))
  · intro hle a ha
    rcases mem_accesses_fetchRow.mp ha with rfl | ⟨-, rfl⟩ | ha
    · omega
    · omega
    · exact h.accesses.mpr (hlast.trans hle) a ha

theorem Fetched.fetchRow (h : Fetched done idx s) (row : ProgramRow) :
    Fetched (done ++ [row]) (fetchRow list row idx s).1 (fetchRow list row idx s).2 := by
  have hsame := h.same_iff row
  have hacc := h.accesses_fetchRow list row
  by_cases hcase : ∃ x ∈ done.getLast?, x.ch = row.ch
  · obtain ⟨h0, hrow⟩ := hsame.mp hcase
    have hfetch := fetchRow_same list h0 hrow
    refine ⟨?_, fun ch => ?_, fun x hx => ?_, hacc⟩
    · rw [(hfetch 0).1, length_runs_concat, if_pos hcase, h.count]
    · rw [(hfetch 0).1]
      simp only [(hfetch _).2]
      rw [h.chanids, List.map_append, List.mem_append]
      refine ⟨.inl, fun hmem => hmem.elim id fun hmem => ?_⟩
      obtain ⟨x, hx, hkey⟩ := hcase
      rw [List.mem_singleton.mp hmem, ← hkey]
      exact List.mem_map_of_mem (List.mem_of_getLast? hx)
    · rw [List.getLast?_concat] at hx
      obtain rfl := Option.some.inj hx
      rw [(hfetch 0).1, (hfetch _).2, hrow]
  · have hnew : idx ≠ 0 → row.ch ≠ (s.entries (idx - 1)).chanid := fun h0 hrow => hcase (hsame.mpr ⟨h0, hrow⟩)
    have hfetch := fetchRow_new list hnew
    refine ⟨?_, fun ch => ?_, fun x hx => ?_, hacc⟩
    · rw [(hfetch 0).1, length_runs_concat, if_neg hcase, h.count]
    · rw [(hfetch 0).1]
      simp only [(hfetch _).2]
      rw [List.map_append, List.mem_append, ← h.chanids]
      constructor
      · rintro ⟨k, hk, hch⟩
        by_cases hki : k = idx
        · rw [if_pos hki] at hch
          exact .inr (List.mem_singleton.mpr hch.symm)
        · rw [if_neg hki] at hch
          exact .inl ⟨k, by omega, hch⟩
      · rintro (⟨k, hk, hch⟩ | hmem)
        · exact ⟨k, by omega, by rw [if_neg (by omega), hch]⟩
        · exact ⟨idx, Nat.lt_succ_self idx, by rw [if_pos rfl]; exact (List.mem_singleton.mp hmem).symm⟩
    · rw [List.getLast?_concat] at hx
      obtain rfl := Option.some.inj hx
      rw [(hfetch 0).1, (hfetch _).2, Nat.add_sub_cancel, if_pos rfl]

theorem fetched (list : List Channel) (rows : List ProgramRow) (entries : Nat → Program) :
    Fetched rows (fetch list rows ⟨entries, []⟩).1 (fetch list rows ⟨entries, []⟩).2 := by
  induction rows using List.reverseRecOn with
  | nil => exact ⟨rfl, by simp [fetch], by simp, by simp [fetch, runs_nil]⟩
  | append_singleton rows row ih =>
    unfold fetch at ih ⊢
    rw [List.foldl_append]
    exact ih.fetchRow row

/-- The flags are set in the entries that are filled, and in nothing else. -/
structure Flagged (ct : Nat) (s s' : Cache) : Prop where
  chanids : ∀ k, (s'.entries k).chanid = (s.entries k).chanid
  kept : ∀ a ∈ s.accesses, a ∈ s'.accesses
  new : ∀ a ∈ s'.accesses, a < ct ∨ a ∈ s.accesses

theorem Flagged.refl (ct : Nat) (s : Cache) : Flagged ct s s := ⟨fun _ => rfl, fun _ => id, fun _ => .inr⟩

theorem Flagged.trans {s₁ s₂ s₃ : Cache} (h : Flagged ct s₁ s₂) (h' : Flagged ct s₂ s₃) : Flagged ct s₁ s₃ where
  chanids k := (h'.chanids k).trans (h.chanids k)
  kept a ha := h'.kept a (h.kept a ha)
  new a ha := (h'.new a ha).elim .inl fun ha => h.new a ha

theorem Flagged.foldl {β : Type} {f : Cache → β → Cache} {bs : List β} (hf : ∀ s, ∀ b ∈ bs, Flagged ct s (f s b)) (s : Cache) :
    Flagged ct s (bs.foldl f s) := by
  induction bs generalizing s with
  | nil => exact .refl ct s
  | cons b bs ih =>
    exact (hf s b List.mem_cons_self).trans (ih (fun s b hb => hf s b (List.mem_cons_of_mem _ hb)) (f s b))

theorem flagged_flag (bit : BitVec 32) (cond : Program → Bool) (s : Cache) : Flagged ct s (s.flag ct bit cond) := by
  refine .foldl (fun s i hi => ?_) s
  have hi : i < ct := List.mem_range.mp hi
  have hnew (a : Nat) (ha : a ∈ i :: s.accesses) : a < ct ∨ a ∈ s.accesses := by
    rcases List.mem_cons.mp ha with rfl | ha
    · exact .inl hi
    · exact .inr ha
  split
  · exact ⟨fun k => chanid_modify (by intro p; rfl) i k, fun a ha => List.mem_cons_of_mem _ ha, hnew⟩
  · exact ⟨fun k => rfl, fun a ha => List.mem_cons_of_mem _ ha, hnew⟩

theorem flagged_flagged (ct : Nat) (records : List RecordRow) (hilites : Option HiliteList) (s : Cache) :
    Flagged ct s (s.flagged ct records hilites) := by
  unfold flagged
  dsimp only
  refine Flagged.trans (.foldl (fun s r _ => ?_) s) (flagged_flag _ _ _)
  exact flagged_flag _ _ s

end Cache

/-- The channel number that a programme gets. -/
def shownNumber (list : List Channel) (rows : List ProgramRow) (i : Int) (c : Channel) : Int :=
  if c.chanid ∈ rows.map ProgramRow.ch then getChanNum c.chanid list else getChanNum i list

theorem Cache.find_cases (s : Cache) (ct : Nat) (chanid : Int) :
    (∃ k < ct, (s.entries k).chanid = chanid) ∧ s.find ct chanid < ct ∧ (s.entries (s.find ct chanid)).chanid = chanid ∨
      (¬ ∃ k < ct, (s.entries k).chanid = chanid) ∧ s.find ct chanid = ct := by
  by_cases hlt : s.find ct chanid < ct
  · have hfound : (s.entries (s.find ct chanid)).chanid = chanid := by
      have hget := List.findIdx_getElem (p := fun k => decide ((s.entries k).chanid = chanid))
        (w := show _ < (List.range ct).length by rw [List.length_range]; exact hlt)
      rw [List.getElem_range] at hget
      exact of_decide_eq_true hget
    exact .inl ⟨⟨_, hlt, hfound⟩, hlt, hfound⟩
  · refine .inr ⟨fun ⟨k, hk, hch⟩ => hlt ?_, ?_⟩
    · have hmem := List.findIdx_lt_length_of_exists (p := fun k => decide ((s.entries k).chanid = chanid))
        ⟨k, List.mem_range.mpr hk, decide_eq_true hch⟩
      rwa [List.length_range] at hmem
    · have hle : s.find ct chanid ≤ (List.range ct).length := List.findIdx_le_length
      rw [List.length_range] at hle
      exact le_antisymm hle (not_lt.mp hlt)

/-- A programme is that of its channel. -/
theorem placeProgram_spec (list : List Channel) (startTime endTime i : Int) (c : Channel)
    (hch : ∀ ch, (∃ k < ct, (s.entries k).chanid = ch) ↔ ch ∈ rows.map ProgramRow.ch) :
    (placeProgram list ct startTime endTime s i c).2.chanid = c.chanid ∧
      (placeProgram list ct startTime endTime s i c).2.channum = shownNumber list rows i c := by
  unfold placeProgram shownNumber
  dsimp only
  rcases s.find_cases ct c.chanid with ⟨hex, hlt, hfound⟩ | ⟨hno, heq⟩
  · rw [if_neg (Nat.ne_of_lt hlt), if_pos ((hch c.chanid).mp hex)]
    exact ⟨hfound, congrArg (getChanNum · list) hfound⟩
  · rw [if_pos heq, if_neg fun hmem => hno ((hch c.chanid).mpr hmem)]
    exact ⟨rfl, rfl⟩

theorem placeProgram_cache (list : List Channel) (ct : Nat) (s : Cache) (startTime endTime i : Int) (c : Channel) :
    (placeProgram list ct startTime endTime s i c).1.entries = s.entries ∧
      ((∀ a ∈ (placeProgram list ct startTime endTime s i c).1.accesses, a < 4) ↔
        s.find ct c.chanid < 4 ∧ ∀ a ∈ s.accesses, a < 4) := by
  have hcache : (placeProgram list ct startTime endTime s i c).1 =
      ⟨s.entries, s.find ct c.chanid :: (List.range (min (s.find ct c.chanid + 1) ct) ++ s.accesses)⟩ := by
    unfold placeProgram
    dsimp only
    split <;> rfl
  rw [hcache]
  refine ⟨rfl, ?_⟩
  simp only [List.forall_mem_cons, List.forall_mem_append, List.mem_range]
  refine and_congr_right fun hk => and_iff_right fun a ha => ?_
  omega

/-- The last loop adds the programmes of the channels. -/
theorem placePrograms_spec (list : List Channel) (startTime endTime : Int) (progs : List Program) (chans : List (Int × Channel))
    (hch : ∀ ch, (∃ k < ct, (s.entries k).chanid = ch) ↔ ch ∈ rows.map ProgramRow.ch) :
    ∃ new, (placePrograms list ct startTime endTime chans s progs).2 = progs ++ new ∧
      new.map (fun p => (p.chanid, p.channum)) = chans.map (fun q => (q.2.chanid, shownNumber list rows q.1 q.2)) ∧
      ((∀ a ∈ (placePrograms list ct startTime endTime chans s progs).1.accesses, a < 4) ↔
        (∀ q ∈ chans, s.find ct q.2.chanid < 4) ∧ ∀ a ∈ s.accesses, a < 4) := by
  induction chans generalizing s progs with
  | nil => exact ⟨[], (List.append_nil _).symm, rfl, by simp [placePrograms]⟩
  | cons q chans ih =>
    obtain ⟨i, c⟩ := q
    obtain ⟨hentries, hacc⟩ := placeProgram_cache list ct s startTime endTime i c
    obtain ⟨hid, hnum⟩ := placeProgram_spec list startTime endTime i c hch
    have hfind (chanid : Int) : (placeProgram list ct startTime endTime s i c).1.find ct chanid = s.find ct chanid := by
      unfold Cache.find
      rw [hentries]
    obtain ⟨new, hnew, hmap, haccs⟩ := ih (progs ++ [(placeProgram list ct startTime endTime s i c).2])
      (s := (placeProgram list ct startTime endTime s i c).1) (by rw [hentries]; exact hch)
    refine ⟨(placeProgram list ct startTime endTime s i c).2 :: new, ?_, ?_, ?_⟩
    · rw [placePrograms]
      exact hnew.trans (by simp)
    · rw [List.map_cons, List.map_cons, hmap, hid, hnum]
    · rw [placePrograms]
      refine haccs.trans ?_
      simp only [hfind, hacc, List.forall_mem_cons]
      tauto

/-- The page, on four channels of the list. -/
theorem getTvguidePage_spec {index : Int} {chans : List (Int × Channel)} (rows : List ProgramRow) (d : PageInput) (records : List RecordRow)
    (hchans : channelsAt list (pageIndices list index) = some chans) :
    ∃ s new, getTvguidePage list index d rows records = some (s, d.progs ++ new) ∧
      new.map (fun p => (p.chanid, p.channum)) = chans.map (fun q => (q.2.chanid, shownNumber list rows q.1 q.2)) ∧
      ((∀ a ∈ s.accesses, a < 4) ↔ (runs ProgramRow.ch rows.dropLast).length ≤ 3 ∧
        ∀ q ∈ chans, q.2.chanid ∈ rows.map ProgramRow.ch ∨ (runs ProgramRow.ch rows).length ≤ 3) := by
  have hf := Cache.fetched list rows d.cache
  generalize hct : (Cache.fetch list rows ⟨d.cache, []⟩).1 = ct at hf
  generalize hs : (Cache.fetch list rows ⟨d.cache, []⟩).2 = s₀ at hf
  have hflag := Cache.flagged_flagged ct records d.hilites s₀
  have hch : ∀ ch, (∃ k < ct, ((s₀.flagged ct records d.hilites).entries k).chanid = ch) ↔ ch ∈ rows.map ProgramRow.ch := by
    intro ch
    simp only [hflag.chanids]
    exact hf.chanids ch
  obtain ⟨new, hnew, hmap, hacc⟩ := placePrograms_spec list d.startTime d.endTime d.progs chans hch
  refine ⟨_, new, ?_, hmap, hacc.trans ?_⟩
  · unfold getTvguidePage
    rw [hchans]
    dsimp only [Option.bind_some, Option.map_some]
    rw [hct, hs, ← hnew]
  · have hcount : ct ≤ (runs ProgramRow.ch rows.dropLast).length + 1 := by
      rw [hf.count]
      rcases List.eq_nil_or_concat rows with rfl | ⟨init, row, rfl⟩
      · exact Nat.zero_le _
      · rw [List.concat_eq_append, List.dropLast_concat, length_runs_concat]
        split <;> omega
    rw [← hf.accesses, ← hf.count]
    constructor
    · rintro ⟨hfind, hall⟩
      refine ⟨fun a ha => hall a (hflag.kept a ha), fun q hq => ?_⟩
      rcases (s₀.flagged ct records d.hilites).find_cases ct q.2.chanid with ⟨hex, -, -⟩ | ⟨-, heq⟩
      · exact .inl ((hch _).mp hex)
      · have hlt := hfind q hq
        rw [heq] at hlt
        exact .inr (Nat.le_of_lt_succ hlt)
    · rintro ⟨hold, hall⟩
      have hfour := hf.accesses.mp hold
      refine ⟨fun q hq => ?_, fun a ha => ?_⟩
      · rcases (s₀.flagged ct records d.hilites).find_cases ct q.2.chanid with ⟨-, hlt, -⟩ | ⟨hno, heq⟩
        · omega
        · have hle := (hall q hq).resolve_left fun hmem => hno ((hch _).mpr hmem)
          omega
      · rcases hflag.new a ha with hlt | hmem
        · omega
        · exact hold a hmem

/-- Inside the list there is a channel at each of the four indices. -/
theorem exists_channelsAt {index : Int} (h : ∀ i ∈ pageIndices list index, 0 ≤ i ∧ i < list.length) :
    ∃ chans, channelsAt list (pageIndices list index) = some chans := by
  generalize pageIndices list index = is at h
  induction is with
  | nil => exact ⟨[], rfl⟩
  | cons i is ih =>
    obtain ⟨⟨h0, hn⟩, h⟩ := List.forall_mem_cons.mp h
    obtain ⟨chans, hchans⟩ := ih h
    have hlt : i.toNat < list.length := by omega
    have hc : channelAt list i = some list[i.toNat] := by
      rw [channelAt, if_neg (by omega), List.getElem?_eq_getElem]
    exact ⟨_, by rw [channelsAt, hc, hchans]; rfl⟩

theorem forall_channelsAt {is : List Int} {chans : List (Int × Channel)} {P : Int → Channel → Prop}
    (h : channelsAt list is = some chans) :
    (∀ q ∈ chans, P q.1 q.2) ↔ ∀ i ∈ is, ∀ c, channelAt list i = some c → P i c := by
  obtain ⟨rfl, hall⟩ := channelsAt_eq_some_iff.mp h
  constructor
  · intro hP i hi c hc
    obtain ⟨q, hq, rfl⟩ := List.mem_map.mp hi
    rw [hall q hq] at hc
    rw [← Option.some.inj hc]
    exact hP q hq
  · exact fun hP q hq => hP q.1 (List.mem_map_of_mem hq) q.2 (hall q hq)

/-- The channel `c` at `i` gets a programme with its number, from inside the cache. -/
def Numbered (list : List Channel) (rows : List ProgramRow) (i : Int) (c : Channel) : Prop :=
  if c.chanid ∈ rows.map ProgramRow.ch then getChanNum c.chanid list = c.channum
  else (runs ProgramRow.ch rows).length ≤ 3 ∧ getChanNum i list = c.channum

theorem numbered_iff {i : Int} {c : Channel} : Numbered list rows i c ↔
    (c.chanid ∈ rows.map ProgramRow.ch ∨ (runs ProgramRow.ch rows).length ≤ 3) ∧ shownNumber list rows i c = c.channum := by
  unfold Numbered shownNumber
  split
  · rename_i hmem
    exact (and_iff_right (.inl hmem)).symm
  · rename_i hmem
    rw [or_iff_right hmem]

end

/-- What the labels and the page are to show: the same four channels of the list, one before the other modulo its length,
and for each of them a programme; the page keeps to the four entries of its cache. -/
structure GuideShown (list : List Channel) (start yofs : Int) (freeRecorders : BitVec 32) (d : PageInput)
    (rows : List ProgramRow) (records : List RecordRow) : Prop where
  same : (guideChannels list start yofs freeRecorders).2.map RowLabel.channel =
    pageIndices list (guideChannels list start yofs freeRecorders).1
  inside : ∀ i ∈ pageIndices list (guideChannels list start yofs freeRecorders).1, 0 ≤ i ∧ i < list.length
  consecutive : ∃ first : Int, pageIndices list (guideChannels list start yofs freeRecorders).1 =
    (List.range 4).map fun k : Nat => (first - k) % list.length
  page : ∃ chans s new, channelsAt list (pageIndices list (guideChannels list start yofs freeRecorders).1) = some chans ∧
    getTvguidePage list (guideChannels list start yofs freeRecorders).1 d rows records = some (s, d.progs ++ new) ∧
    (∀ a ∈ s.accesses, a < 4) ∧ new.map (fun p => (p.chanid, p.channum)) = chans.map fun q => (q.2.chanid, q.2.channum)

/-- When they do: the offset does not reach below the list; the rows but the last are of at most three channels, one after
the other; and each of the four channels has a row and the number that the list gives to its id, or has none, the rows are
of at most three channels, and it has the number that the list gives to its index as an id. -/
structure Showable (list : List Channel) (start yofs : Int) (rows : List ProgramRow) : Prop where
  window : 3 - list.length ≤ start + yofs.tmod list.length
  cached : (runs ProgramRow.ch rows.dropLast).length ≤ 3
  numbers : ∀ i ∈ (List.range 4).map fun k : Nat => (start + yofs - k) % list.length, ∀ c, channelAt list i = some c →
    Numbered list rows i c

/-- The guide shows its four channels and a programme for each exactly when `Showable` holds. -/
theorem guideShown_iff (list : List Channel) (start yofs : Int) (freeRecorders : BitVec 32) (d : PageInput)
    (rows : List ProgramRow) (records : List RecordRow) (h4 : 4 ≤ list.length) (h0 : 0 ≤ start) (hn : start < list.length) :
    GuideShown list start yofs freeRecorders d rows records ↔ Showable list start yofs rows := by
  have hlow := guideChannels_low_iff yofs freeRecorders h4 h0 hn
  have hhigh := (guideChannels_bounds yofs freeRecorders h0 hn).2
  have hinside := pageIndices_inside_iff hhigh
  have heq := pageIndices_eq yofs freeRecorders h0 hn
  constructor
  · rintro ⟨-, hin, -, chans, s, new, hchans, hpage, hacc, hmap⟩
    obtain ⟨s', new', hpage', hmap', hacc'⟩ := getTvguidePage_spec _ d records hchans
    obtain ⟨rfl, hnew⟩ := Prod.mk.inj (Option.some.inj (hpage.symm.trans hpage'))
    obtain rfl := List.append_cancel_left hnew
    obtain ⟨hcached, hrow⟩ := hacc'.mp hacc
    refine ⟨hlow.mp (hinside.mp hin), hcached, ?_⟩
    rw [← heq (hinside.mp hin), ← forall_channelsAt hchans]
    intro q hq
    have hnum := List.map_inj_left.mp (hmap'.symm.trans hmap) q hq
    exact numbered_iff.mpr ⟨hrow q hq, (Prod.mk.inj hnum).2⟩
  · rintro ⟨hwindow, hcached, hnumbers⟩
    have hin := hinside.mpr (hlow.mpr hwindow)
    obtain ⟨chans, hchans⟩ := exists_channelsAt hin
    obtain ⟨s, new, hpage, hmap, hacc⟩ := getTvguidePage_spec rows d records hchans
    rw [← heq (hlow.mpr hwindow), ← forall_channelsAt hchans] at hnumbers
    refine ⟨labels_eq_pageIndices, hin, ⟨start + yofs, heq (hlow.mpr hwindow)⟩, chans, s, new, hchans, hpage, ?_, ?_⟩
    · exact hacc.mpr ⟨hcached, fun q hq => (numbered_iff.mp (hnumbers q hq)).1⟩
    · rw [hmap]
      refine List.map_congr_left fun q hq => ?_
      rw [(numbered_iff.mp (hnumbers q hq)).2]

/-- The channels 1 to 4, with the ids 11 to 14. -/
def fourChannels : List Channel :=
  [⟨11, 1, [], 1, [0x41], [0x41]⟩, ⟨12, 2, [], 1, [0x42], [0x42]⟩, ⟨13, 3, [], 1, [0x43], [0x43]⟩, ⟨14, 4, [], 1, [0x44], [0x44]⟩]

/-- A row for the channel with the id `1d`. -/
def rowFor (d : UInt8) : ProgramRow := ⟨[0x31, d], [0x30], [0x39], [0x54], [], [], [], [], []⟩

def emptyPage : PageInput := ⟨0, 1800, [], none, fun _ => ⟨0, 0, 0, 0, 0, [], [], [], [], [], []⟩⟩

/-- The four channels from the last one on, each with a row. -/
theorem guideShown_four : GuideShown fourChannels 3 0 1 emptyPage [rowFor 0x34, rowFor 0x33, rowFor 0x32, rowFor 0x31] [] :=
  (guideShown_iff fourChannels 3 0 1 emptyPage [rowFor 0x34, rowFor 0x33, rowFor 0x32, rowFor 0x31] []
    (by decide) (by decide) (by decide)).mpr ⟨by decide, by decide, by
      intro i hi c hc
      have hmem : c ∈ fourChannels := by
        unfold channelAt at hc
        split at hc
        · cases hc
        · exact List.mem_of_getElem? hc
      have hall : ∀ c ∈ fourChannels, c.chanid ∈ [rowFor 0x34, rowFor 0x33, rowFor 0x32, rowFor 0x31].map ProgramRow.ch ∧
          getChanNum c.chanid fourChannels = c.channum := by decide
      rw [Numbered, if_pos (hall c hmem).1]
      exact (hall c hmem).2⟩

/-- From the first of four channels two rows down: the fourth label is read in front of the list. -/
theorem twoDown_not_shown : ¬ GuideShown fourChannels 0 (-2) 1 emptyPage [] [] := by
  intro h
  have hin := h.inside (-1) (by decide)
  exact absurd hin.1 (by decide)

end Mvpmc.Cmyth.TvGuide
