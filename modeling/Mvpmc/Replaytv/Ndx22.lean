import Mvpmc.Replaytv.Ndx30

/-! The slices of an index file of version 2.2 (`rtv_parse_4k_ndx_file`), and the records that are looked up in them
(`rtv_get_ndx22_rec`, `ndxclient.c`). -/
namespace Mvpmc.Replaytv.Ndx
open Mvpmc.Lib

def RTV_NUM_SEC_PER_SLICE : Nat := 6 * 60

/-- `rtv_ndx_22_record_t`, as far as the parser looks at it. -/
structure Ndx22Record where
  commercialFlag : UInt8
  videoOffset : List UInt8
  audioOffset : UInt32
  timestamp : Nat
  streamPosition : Nat
  deriving DecidableEq

def zeroTimeNdx22Rec : Ndx22Record := ⟨0, [0, 0], 0, 0, 0⟩

/-- A number of 64 bits in memory. -/
def load64 (order : ByteOrder) (bytes : List UInt8) : Nat :=
  match order with
  | .big => ofNetwork64 bytes
  | .little => ofNetwork64 bytes.reverse

/-- The record at the start of some bytes, converted. -/
def ndx22Record (bytes : List UInt8) : Ndx22Record where
  commercialFlag := bytes.getD 1 0
  videoOffset := (bytes.drop 2).take 2
  audioOffset := ofNetwork ((bytes.drop 8).take 4)
  timestamp := ofNetwork64 ((bytes.drop 16).take 8)
  streamPosition := ofNetwork64 ((bytes.drop 24).take 8)

/-- The same, not converted. -/
def rawTimestamp (order : ByteOrder) (bytes : List UInt8) : Nat := load64 order ((bytes.drop 16).take 8)

/-- `rtv_4k_ndx_slice_t`. -/
structure NdxSlice where
  startMs : Nat
  startRec : Int
  numRecs : Int
  deriving DecidableEq

/-- `rtv_prog_seg_t`. -/
structure ProgSeg where
  start : Nat
  stop : Nat
  deriving DecidableEq

/-- The variables of the parser. Of the last slice `numRecs` is not known yet. -/
structure Parse where
  info : NdxInfo
  recNum : Int := 0
  closed : List NdxSlice := []
  current : Option (Nat × Int) := none
  sliceBaseTime : Int := 0
  inCommercial : Bool := false
  commStartMs : Nat := 0
  blocks : List ProgSeg := []

namespace Parse

/-- Milliseconds since the first record. -/
def since (p : Parse) (timestamp : Nat) : Nat := (timestamp + 2 ^ 64 - p.info.baseTime) % 2 ^ 64 / 1000000

/-- The first and the last record of the file. -/
def mark (p : Parse) (timestamp : Nat) : Parse :=
  if p.recNum = 0 then
    { p with info := { p.info with baseTime := timestamp }, current := some (0, 0), sliceBaseTime := 0 }
  else if p.recNum = p.info.numRecInFile - 1 then
    { p with info := { p.info with maxTimeMs := p.since timestamp % 2 ^ 32 } }
  else p

/-- The slice in use with its number of records. -/
def closing (p : Parse) : Option NdxSlice :=
  p.current.map fun c => { startMs := c.1, startRec := c.2, numRecs := p.recNum - c.2 + 1 }

/-- A record behind the time of the slice closes it and opens the next one. -/
def slice (p : Parse) (timestamp : Nat) : Parse :=
  let tsMsec := toInt (p.since timestamp)
  if p.sliceBaseTime + RTV_NUM_SEC_PER_SLICE ≤ tsMsec.tdiv 1000 then
    { p with
      closed := p.closed ++ p.closing.toList
      current := some (toUnsigned tsMsec, p.recNum)
      sliceBaseTime := p.sliceBaseTime + RTV_NUM_SEC_PER_SLICE }
  else p

/-- The commercials. -/
def commercial (p : Parse) (timestamp : Nat) (flag : UInt8) : Parse :=
  let ms := p.since timestamp % 2 ^ 32
  if flag &&& 1 ≠ 0 then
    if p.inCommercial then p else { p with inCommercial := true, commStartMs := ms }
  else if p.inCommercial then { p with inCommercial := false, blocks := p.blocks ++ [⟨p.commStartMs, ms⟩] }
  else p

/-- One record. -/
def step (order : ByteOrder) (p : Parse) (bytes : List UInt8) : Parse :=
  let timestamp := rawTimestamp order bytes
  let p := ((p.mark timestamp).slice timestamp).commercial timestamp (bytes.getD 1 0)
  { p with recNum := p.recNum + 1 }

end Parse

/-- The reads of the parser: 32 KiB each, and what is left. -/
def chunks (fileSz : Nat) : Nat → Nat → List (Nat × Nat)
  | 0, _ => []
  | fuel + 1, pos =>
    if pos < fileSz then
      let n := if fileSz - pos < 32768 then fileSz - pos else 32768
      (pos, n) :: chunks fileSz fuel (pos + n)
    else []

/-- The records in the order in which they are parsed. -/
def parsedRecords (file : List UInt8) (fileSz : Nat) : List (List UInt8) :=
  (chunks fileSz fileSz sizeofHeader).flatMap fun c =>
    (List.range (c.2 / NdxVersion.ndx22.recSz)).map fun x =>
      (readFile file c.1 c.2).drop (NdxVersion.ndx22.recSz * x)

/-- `rtv_parse_4k_ndx_file`. Without a record there is no slice to close. -/
def parse4kNdxFile (order : ByteOrder) (file : List UInt8) (info : NdxInfo) :
    Option (NdxInfo × List NdxSlice × List ProgSeg) :=
  let p := (parsedRecords file info.fileSz).foldl (Parse.step order) { info := info }
  p.closing.map fun last => (p.info, p.closed ++ [last], p.blocks)

/-- What a call returns, and the slices and records of the chunk that it uses. `rc` is not known behind the end of one. -/
structure Ndx22Call where
  rc : Option Int
  found : Option Ndx22Record := none
  sliceUsed : List Int := []
  recUsed : List Int := []
  deriving DecidableEq

/-- Whole seconds since the first record. -/
def NdxInfo.seconds (s : NdxInfo) (timestamp : Nat) : Nat := (timestamp + 2 ^ 64 - s.baseTime) % 2 ^ 64 / 1000000000

/-- Record `i` of the chunk. -/
def NdxInfo.chunkRecord (s : NdxInfo) (i : Int) : Ndx22Record := ndx22Record (s.fileChunk.drop (s.recSz * i.toNat))

section
variable (s : NdxInfo) (sec : Nat)

/-- `while ((max_srch_cnt--) && (rec_no-- >= 0))`: the records looked at. -/
def searchDown : Nat → Int → List Int
  | 0, _ => []
  | cnt + 1, recNo =>
    if 0 ≤ recNo then
      (recNo - 1) :: if s.seconds (s.chunkRecord (recNo - 1)).timestamp ≤ sec then [] else searchDown cnt (recNo - 1)
    else []

/-- `while ((max_srch_cnt--) && (rec_no++ < num_recs))`. -/
def searchUp (numRecs : Int) : Nat → Int → List Int
  | 0, _ => []
  | cnt + 1, recNo =>
    if recNo < numRecs then
      (recNo + 1) ::
        if sec ≤ s.seconds (s.chunkRecord (recNo + 1)).timestamp then [] else searchUp numRecs cnt (recNo + 1)
    else []

/-- The records that are looked at, from the guess on. -/
def search (numRecs recNo : Int) : List Int :=
  let there := s.seconds (s.chunkRecord recNo).timestamp
  recNo :: if sec < there then searchDown s sec 10 recNo else if there < sec then searchUp s sec numRecs 10 recNo else []

end

namespace NdxInfo
variable (s : NdxInfo)

/-- The chunk of a slice is read. -/
def loadSlice (file : List UInt8) (slice : NdxSlice) : NdxInfo :=
  let rdPos := (toUnsigned slice.startRec * s.recSz + s.hdrSz) % 2 ^ 32
  let rdSz := s.recSz * toUnsigned slice.numRecs % 2 ^ 32
  let rdSz := if s.fileSz < (rdPos + rdSz) % 2 ^ 32 then toUnsigned (s.fileSz - rdPos) else rdSz
  { s with fileChunk := readFile file rdPos rdSz, startRecNum := slice.startRec, recsInMem := toInt (rdSz / s.recSz) }

/-- The record that the time falls on if those of the slice are evenly spread. -/
def guess (timeMs : Nat) (sliceIdx : Int) (numRecs : Int) : Int :=
  toInt (toUnsigned ((timeMs / 1000 - sliceIdx * RTV_NUM_SEC_PER_SLICE) * numRecs) / RTV_NUM_SEC_PER_SLICE)

/-- `rtv_get_ndx22_rec` of an open 2.2 file. With `log` the first and the last record of a chunk are printed. -/
def getNdx22Rec (file : List UInt8) (slices : List NdxSlice) (log : Bool) (timeMs : Nat) : Ndx22Call × NdxInfo :=
  let timeMs := clamp s.maxTimeMs timeMs
  if timeMs = 0 then ({ rc := some 0, found := some zeroTimeNdx22Rec }, s)
  else
    let sliceIdx := timeMs / 1000 / RTV_NUM_SEC_PER_SLICE
    match slices[sliceIdx]? with
    | none => ({ rc := none, sliceUsed := [(sliceIdx : Int)] }, s)
    | some slice =>
      let load := s.recsInMem = 0 ∨ slice.startRec ≠ s.startRecNum
      let s := if load then s.loadSlice file slice else s
      let logged := if load ∧ log = true then [0, s.recsInMem - 1] else []
      let recNo := guess timeMs sliceIdx slice.numRecs
      if recNo < 0 ∨ s.recsInMem ≤ recNo then
        ({ rc := some (-ESPIPE), sliceUsed := [(sliceIdx : Int)], recUsed := logged }, s)
      else
        let looked := search s (timeMs / 1000) slice.numRecs recNo
        ({ rc := if looked.all fun i => decide (0 ≤ i ∧ i < s.recsInMem) then some 0 else none
           found := looked.getLast?.map s.chunkRecord
           sliceUsed := [(sliceIdx : Int)]
           recUsed := logged ++ looked }, s)

end NdxInfo

/-- Time of a record, in nanoseconds since the first one. -/
def recordTime (file : List UInt8) (r : Nat) : Int :=
  (ndx22Record (file.drop (sizeofHeader + NdxVersion.ndx22.recSz * r))).timestamp -
    (ndx22Record (file.drop sizeofHeader)).timestamp

/-- The record numbers that are in slice `i`. -/
def InSlice (slices : List NdxSlice) (i : Nat) (r : Int) : Prop :=
  ∃ s ∈ slices[i]?, s.startRec ≤ r ∧ r < s.startRec + s.numRecs

/-- Every call of a run uses slices and records of the chunk that there are. -/
def LookupsInside (file : List UInt8) (slices : List NdxSlice) (log : Bool) : NdxInfo → List Nat → Prop
  | _, [] => True
  | s, t :: ts =>
    let r := s.getNdx22Rec file slices log t
    (∀ i ∈ r.1.sliceUsed, 0 ≤ i ∧ i < slices.length) ∧ (∀ i ∈ r.1.recUsed, 0 ≤ i ∧ i < r.2.recsInMem) ∧
      LookupsInside file slices log r.2 ts

/-- The file is parsed, the slices partition its records by their time, and lookups stay inside. -/
structure Covers (order : ByteOrder) (file : List UInt8) (info info' : NdxInfo) (slices : List NdxSlice)
    (blocks : List ProgSeg) : Prop where
  parsed : parse4kNdxFile order file info = some (info', slices, blocks)
  inside : ∀ i r, InSlice slices i r → 0 ≤ r ∧ r < records .ndx22 file.length
  once : ∀ r < records .ndx22 file.length, ∃! i, InSlice slices i r
  byTime : ∀ i, ∀ r < records .ndx22 file.length, InSlice slices i r ↔
    360000000000 * (i : Int) ≤ recordTime file r ∧ recordTime file r < 360000000000 * (i + 1)
  lookups : ∀ log times, LookupsInside file slices log info' times

/-- What the parser has between two records: no slice that it has closed goes beyond the next record. -/
structure Parse.Chained (p : Parse) : Prop where
  nonneg : 0 ≤ p.recNum
  started : 0 < p.recNum → p.current.isSome
  current : ∀ c ∈ p.current, 0 ≤ c.2 ∧ c.2 < p.recNum
  closed : ∀ s ∈ p.closed, s.startRec + s.numRecs ≤ p.recNum

/-- What it has while it looks at a record: a slice that starts at this record or at an earlier one. -/
structure Parse.Within (p : Parse) : Prop where
  nonneg : 0 ≤ p.recNum
  current : ∃ ms start, p.current = some (ms, start) ∧ 0 ≤ start ∧ start ≤ p.recNum
  closed : ∀ s ∈ p.closed, s.startRec + s.numRecs ≤ p.recNum + 1

namespace Parse
variable {p : Parse} (timestamp : Nat)

/-- The first record starts a slice. -/
theorem Chained.mark (h : p.Chained) : (p.mark timestamp).Within := by
  have hnonneg := h.nonneg
  have hclosed : ∀ s ∈ p.closed, s.startRec + s.numRecs ≤ p.recNum + 1 := fun s hs => (h.closed s hs).trans (by omega)
  have hcurrent (hfirst : p.recNum ≠ 0) : ∃ ms start, p.current = some (ms, start) ∧ 0 ≤ start ∧ start ≤ p.recNum := by
    obtain ⟨⟨ms, start⟩, hcur⟩ := Option.isSome_iff_exists.mp (h.started (by omega))
    have hstart := h.current _ hcur
    exact ⟨ms, start, hcur, hstart.1, hstart.2.le⟩
  unfold Parse.mark
  split_ifs with hfirst hlast
  · exact ⟨hnonneg, ⟨0, 0, rfl, le_refl 0, hnonneg⟩, hclosed⟩
  · exact ⟨hnonneg, hcurrent hfirst, hclosed⟩
  · exact ⟨hnonneg, hcurrent hfirst, hclosed⟩

/-- The record that closes a slice is counted in it, and starts the next one. -/
theorem Within.slice (h : p.Within) : (p.slice timestamp).Within := by
  rw [Parse.slice]
  split_ifs with hbehind
  · refine ⟨h.nonneg, ⟨_, p.recNum, rfl, h.nonneg, le_refl _⟩, fun s hs => ?_⟩
    rcases List.mem_append.mp hs with hold | hnew
    · exact h.closed s hold
    · obtain ⟨ms, start, hcur, -, -⟩ := h.current
      rw [closing, hcur, Option.map_some, Option.toList_some, List.mem_singleton] at hnew
      subst hnew
      dsimp only
      omega
  · exact h

theorem Within.commercial (h : p.Within) (flag : UInt8) : (p.commercial timestamp flag).Within := by
  rw [Parse.commercial]
  split_ifs
  · exact h
  · exact ⟨h.nonneg, h.current, h.closed⟩
  · exact ⟨h.nonneg, h.current, h.closed⟩
  · exact h

/-- Behind the record. -/
theorem Within.next (h : p.Within) : { p with recNum := p.recNum + 1 }.Chained := by
  have hnonneg := h.nonneg
  obtain ⟨ms, start, hcur, h0, hle⟩ := h.current
  refine ⟨by dsimp only; omega, fun _ => by rw [hcur]; rfl, fun c hc => ?_, h.closed⟩
  obtain rfl := Option.some.inj (hcur.symm.trans hc)
  exact ⟨h0, Int.lt_add_one_of_le hle⟩

theorem Chained.step (h : p.Chained) (order : ByteOrder) (bytes : List UInt8) : (p.step order bytes).Chained :=
  (((h.mark _).slice _).commercial _ _).next

theorem mark_recNum : (p.mark timestamp).recNum = p.recNum := by
  unfold mark
  split_ifs <;> rfl

theorem slice_recNum : (p.slice timestamp).recNum = p.recNum := by
  rw [slice]
  split_ifs <;> rfl

theorem commercial_recNum (flag : UInt8) : (p.commercial timestamp flag).recNum = p.recNum := by
  rw [commercial]
  split_ifs <;> rfl

theorem step_recNum (order : ByteOrder) (bytes : List UInt8) : (p.step order bytes).recNum = p.recNum + 1 := by
  rw [step, commercial_recNum, slice_recNum, mark_recNum]

/-- The run keeps it, and counts the records. -/
theorem Chained.run (order : ByteOrder) (recs : List (List UInt8)) {p : Parse} (h : p.Chained) :
    (recs.foldl (Parse.step order) p).Chained ∧ (recs.foldl (Parse.step order) p).recNum = p.recNum + recs.length := by
  induction recs generalizing p with
  | nil => exact ⟨h, by simp⟩
  | cons bytes recs ih =>
    have hnext := ih (h.step order bytes)
    refine ⟨hnext.1, ?_⟩
    rw [List.foldl_cons, hnext.2, step_recNum, List.length_cons]
    push_cast
    ring

theorem chained_init (info : NdxInfo) : Chained { info := info } :=
  ⟨le_refl 0, fun h => absurd h (lt_irrefl 0), fun _ hc => by simp at hc, fun _ hs => by simp at hs⟩

end Parse

/-- No record is between two reads: 32 KiB are a whole number of them. -/
theorem chunks_records (fileSz fuel pos : Nat) (hfuel : fileSz ≤ pos + fuel) :
    ((chunks fileSz fuel pos).map fun c => c.2 / 32).sum = (fileSz - pos) / 32 := by
  induction fuel generalizing pos with
  | zero =>
    rw [chunks, Nat.sub_eq_zero_of_le (by omega : fileSz ≤ pos)]
    rfl
  | succ fuel ih =>
    rw [chunks]
    split_ifs with hpos hlast
    · rw [List.map_cons, List.sum_cons, ih _ (by omega)]
      dsimp only
      omega
    · rw [List.map_cons, List.sum_cons, ih _ (by omega)]
      dsimp only
      omega
    · rw [Nat.sub_eq_zero_of_le (not_lt.mp hpos)]
      rfl

theorem parsedRecords_length (file : List UInt8) (fileSz : Nat) :
    (parsedRecords file fileSz).length = (fileSz - 32) / 32 := by
  rw [← chunks_records fileSz fileSz 32 (by omega), parsedRecords, List.length_flatMap]
  simp only [List.length_map, List.length_range, NdxVersion.recSz, sizeofHeader]

/-- What the slices of a file are: the last one reaches one record beyond those parsed, and no other goes further. -/
theorem parse_reaches {order : ByteOrder} {file : List UInt8} {info info' : NdxInfo} {slices : List NdxSlice}
    {blocks : List ProgSeg} (h : parse4kNdxFile order file info = some (info', slices, blocks)) :
    (∃ i, InSlice slices i ((info.fileSz - 32) / 32 : Nat)) ∧
      ∀ i r, InSlice slices i r → r ≤ ((info.fileSz - 32) / 32 : Nat) := by
  obtain ⟨hchained, hcount⟩ := (Parse.chained_init info).run order (parsedRecords file info.fileSz)
  rw [parsedRecords_length, zero_add] at hcount
  obtain ⟨last, hlast, heq⟩ := Option.map_eq_some_iff.mp h
  obtain ⟨⟨ms, start⟩, hcur, rfl⟩ := Option.map_eq_some_iff.mp hlast
  have hstart := hchained.current _ hcur
  rw [Prod.mk.injEq, Prod.mk.injEq] at heq
  obtain ⟨-, rfl, -⟩ := heq
  rw [hcount] at hstart ⊢
  refine ⟨⟨_, _, List.getElem?_concat_length, ?_, ?_⟩, ?_⟩
  · exact hstart.2.le
  · dsimp only
    omega
  · intro i r ⟨s, hs, hlo, hhi⟩
    rcases List.mem_append.mp (List.mem_of_getElem? hs) with hold | hnew
    · have := hchained.closed s hold
      omega
    · rw [List.mem_singleton] at hnew
      subst hnew
      dsimp only at hhi
      omega

/-- Slices of which the last goes beyond the records of the file do not cover it. -/
theorem not_covers_sized {order : ByteOrder} {file : List UInt8} {cacheSz : Nat} {info' : NdxInfo}
    {slices : List NdxSlice} {blocks : List ProgSeg} :
    ¬ Covers order file (sized .ndx22 file.length cacheSz) info' slices blocks := by
  intro h
  obtain ⟨⟨i, hi⟩, hmax⟩ := parse_reaches h.parsed
  have hsize : (sized .ndx22 file.length cacheSz).fileSz = file.length % 2 ^ 32 := rfl
  have hrecords : records .ndx22 file.length = (file.length - 32) / 32 := rfl
  have hinside := (h.inside i _ hi).2
  rw [hsize] at hinside hmax
  -- The record behind the last one parsed is in the file only if its size does not fit.
  obtain ⟨j, hj, -⟩ := h.once ((file.length % 2 ^ 32 - 32) / 32 + 1) (by omega)
  have hle := hmax j _ hj
  push_cast at hle
  omega

/-- The information that is parsed comes from opening the file. -/
theorem openNdxFile_ndx22 {file : List UInt8} {cacheSz : Nat} {info : NdxInfo} (hopen : openNdxFile file cacheSz = .ok info)
    (hver : info.ver = .ndx22) : info = sized .ndx22 file.length cacheSz := by
  rw [openNdxFile] at hopen
  split_ifs at hopen with hdata
  cases hversion : version (readFile file 0 sizeofHeader) with
  | none => simp [hversion] at hopen
  | some ver =>
    rw [hversion] at hopen
    cases ver with
    | ndx22 => exact (Except.ok.inj hopen).symm
    | ndx30 =>
      simp only [open30] at hopen
      cases hms : int32 ((toInt (records .ndx30 file.length)).tdiv 2 * 1000) with
      | none => simp [hms] at hopen
      | some ms =>
        rw [hms, Option.elim_some] at hopen
        rw [← Except.ok.inj hopen] at hver
        exact absurd hver (by decide : NdxVersion.ndx30 ≠ .ndx22)

/-- Slices never cover their file: each counts the record that starts the next one, and the last one a record behind
the end. -/
theorem slices_cover_never {order : ByteOrder} {file : List UInt8} {cacheSz : Nat} {info info' : NdxInfo}
    {slices : List NdxSlice} {blocks : List ProgSeg} (hopen : openNdxFile file cacheSz = .ok info)
    (hver : info.ver = .ndx22) : ¬ Covers order file info info' slices blocks := by
  rw [openNdxFile_ndx22 hopen hver]
  exact not_covers_sized

/-- An index file of two records, twenty seconds apart. -/
def twoRecords : List UInt8 :=
  2 :: List.replicate 31 0 ++ List.replicate 32 0 ++ (List.replicate 16 0 ++ [0, 0, 0, 4, 168, 23, 200, 0] ++ List.replicate 8 0)

/-- The slice that is made of it does not cover it. -/
theorem slices_cover_never_two :
    ¬ Covers .big twoRecords (sized .ndx22 96 64) { sized .ndx22 96 64 with maxTimeMs := 20000 } [⟨0, 0, 3⟩] [] :=
  slices_cover_never (by decide : openNdxFile twoRecords 64 = .ok (sized .ndx22 96 64)) rfl

/-- Its times do not decrease, and its only slice counts three records. -/
theorem third_of_two_records :
    openNdxFile twoRecords 64 = .ok (sized .ndx22 96 64) ∧ records .ndx22 twoRecords.length = 2 ∧
    recordTime twoRecords 0 = 0 ∧ recordTime twoRecords 1 = 20000000000 ∧
    (parse4kNdxFile .big twoRecords (sized .ndx22 96 64)).map (fun r => r.2.1) = some [⟨0, 0, 3⟩] ∧
    InSlice [⟨0, 0, 3⟩] 0 2 ∧
    ∀ info' slices blocks, ¬ Covers .big twoRecords (sized .ndx22 96 64) info' slices blocks := by
  refine ⟨by decide, by decide, by decide, by decide, by decide, ⟨_, rfl, by decide, by decide⟩, ?_⟩
  intro info' slices blocks
  exact not_covers_sized

end Mvpmc.Replaytv.Ndx
