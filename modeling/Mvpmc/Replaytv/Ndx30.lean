import Mvpmc.Replaytv.Ndx

/-! Index records of version 3.0 through the cache (`rtv_get_ndx30_rec`, `ndxclient.c`), and when they are those of the
file. -/
namespace Mvpmc.Replaytv.Ndx
open Mvpmc.Lib

/-- `rtv_ndx_30_record_t`. The last field stays in the order of the file. -/
structure Ndx30Record where
  timestamp : Nat
  fileposIframe : Nat
  iframeSize : UInt32
  empty : List UInt8
  deriving DecidableEq

def zeroTimeNdx30Rec : Ndx30Record := ⟨0, 0, 0, [0, 0, 0, 0]⟩

/-- A number of 64 bits in network order. -/
def ofNetwork64 (bytes : List UInt8) : Nat :=
  (ofNetwork (bytes.take 4)).toNat * 2 ^ 32 + (ofNetwork ((bytes.drop 4).take 4)).toNat

/-- The record at the start of some bytes, converted. -/
def ndx30Record (bytes : List UInt8) : Ndx30Record where
  timestamp := ofNetwork64 (bytes.take 8)
  fileposIframe := ofNetwork64 ((bytes.drop 8).take 8)
  iframeSize := ofNetwork ((bytes.drop 16).take 4)
  empty := (bytes.drop 20).take 4

/-- What a call returns, the part of the file that it reads, and the records of the chunk that it looks at. -/
structure Ndx30Call where
  rc : Int
  found : Option Ndx30Record := none
  fileRead : Option (Nat × Nat) := none
  chunkRead : List Int := []
  deriving DecidableEq

def ESPIPE : Int := 29

namespace NdxInfo
variable (s : NdxInfo)

/-- Record number `recNo` is in memory. -/
def Holds (recNo : Int) : Prop := s.startRecNum ≤ recNo ∧ recNo < s.startRecNum + s.recsInMem

instance (recNo : Int) : Decidable (s.Holds recNo) := inferInstanceAs (Decidable (_ ∧ _))

/-- Where the chunk for a record starts: a quarter of it lies in front of the record. -/
def chunkStart (recNo : Int) : Option Int := do
  let startRec ← int32 (recNo - s.recCntToLoad.tdiv 4)
  if startRec < 0 then return 0
  else
    let scaled ← int32 (s.recCntToLoad * 3)
    let last ← int32 (s.numRecInFile - scaled.tdiv 4)
    if last < startRec then
      let startRec ← int32 (s.numRecInFile - s.recCntToLoad)
      return if startRec < 0 then 0 else startRec
    else return startRec

/-- The position and size of the read from record `startRec` on, in unsigned numbers. -/
def chunkRange (startRec : Int) : Nat × Nat :=
  let rdPos := (toUnsigned startRec * s.recSz + s.hdrSz) % 2 ^ 32
  let rdSz := s.recSz * toUnsigned s.recCntToLoad % 2 ^ 32
  (rdPos, if s.fileSz < (rdPos + rdSz) % 2 ^ 32 then toUnsigned (s.fileSz - rdPos) else rdSz)

/-- The chunk for a record is read. -/
def loadChunk (file : List UInt8) (recNo : Int) : Option ((Nat × Nat) × NdxInfo) := do
  let startRec ← s.chunkStart recNo
  let (rdPos, rdSz) := s.chunkRange startRec
  return ((rdPos, rdSz),
    { s with fileChunk := readFile file rdPos rdSz, startRecNum := startRec, recsInMem := toInt (rdSz / s.recSz) })

/-- The record is taken from the chunk. -/
def takeRecord (recNo : Int) (fileRead : Option (Nat × Nat)) (logged : List Int) : Ndx30Call :=
  if s.Holds recNo then
    { rc := 0
      found := some (ndx30Record (s.fileChunk.drop (s.recSz * (recNo - s.startRecNum).toNat)))
      fileRead := fileRead
      chunkRead := logged ++ [recNo - s.startRecNum] }
  else { rc := -ESPIPE, fileRead := fileRead, chunkRead := logged }

/-- `rtv_get_ndx30_rec` of an open 3.0 file. With `log` the first and the last record of a chunk are printed. -/
def getNdx30Rec (file : List UInt8) (log : Bool) (timeMs : Nat) : Option (Ndx30Call × NdxInfo) :=
  let timeMs := clamp s.maxTimeMs timeMs
  if timeMs = 0 then some ({ rc := 0, found := some zeroTimeNdx30Rec }, s)
  else do
    let recNo := toInt (toUnsigned ((timeMs / 500 : Nat) - 1))
    if s.recsInMem = 0 ∨ ¬ s.Holds recNo then
      let (fileRead, s) ← s.loadChunk file recNo
      return (s.takeRecord recNo (some fileRead) (if log then [0, s.recsInMem - 1] else []), s)
    else return (s.takeRecord recNo none [], s)

end NdxInfo

/-- The record that a time before the end asks for: half a second each, and the zero record in front of the first. -/
def lookup30 (file : List UInt8) (timeMs : Nat) : Ndx30Record :=
  if timeMs < 500 then zeroTimeNdx30Rec
  else ndx30Record (file.drop (sizeofHeader + NdxVersion.ndx30.recSz * (timeMs / 500 - 1)))

/-- A call returns what is looked up, reads inside the file and looks at records of the chunk only. -/
structure Agrees (file : List UInt8) (maxTimeMs timeMs : Nat) (r : Ndx30Call × NdxInfo) : Prop where
  rc : r.1.rc = 0
  found : r.1.found = some (lookup30 file (clamp maxTimeMs timeMs))
  fileRead : ∀ p ∈ r.1.fileRead, p.1 + p.2 ≤ file.length
  chunkRead : ∀ i ∈ r.1.chunkRead, 0 ≤ i ∧ i < r.2.recsInMem ∧ 0 ≤ r.2.startRecNum ∧
    r.2.startRecNum + r.2.recsInMem ≤ records .ndx30 file.length

/-- Every call of a run agrees. -/
def RunAgrees (file : List UInt8) (log : Bool) : NdxInfo → List Nat → Prop
  | _, [] => True
  | s, t :: ts => ∃ r, s.getNdx30Rec file log t = some r ∧ Agrees file s.maxTimeMs t r ∧ RunAgrees file log r.2 ts

/-- What opening the file has set, and a cache that is part of the file or empty. -/
structure Cached (file : List UInt8) (cnt : Nat) (s : NdxInfo) : Prop where
  fileSz : s.fileSz = file.length
  hdrSz : s.hdrSz = 32
  recSz : s.recSz = 24
  maxTimeMs : s.maxTimeMs = records .ndx30 file.length / 2 * 1000
  numRec : s.numRecInFile = records .ndx30 file.length
  recCnt : s.recCntToLoad = cnt
  nonneg : 0 ≤ s.recsInMem
  window : s.recsInMem ≠ 0 → 0 ≤ s.startRecNum ∧ s.startRecNum + s.recsInMem ≤ records .ndx30 file.length
  chunk : ∀ i : Nat, i < s.recsInMem → ndx30Record (s.fileChunk.drop (24 * i)) =
    ndx30Record (file.drop (32 + 24 * (s.startRecNum.toNat + i)))

/-- A record is in its first 24 bytes. -/
theorem ndx30Record_take (bytes : List UInt8) {n : Nat} (h : 24 ≤ n) : ndx30Record (bytes.take n) = ndx30Record bytes := by
  have htake (k m : Nat) (hk : k + m ≤ 24) : ((bytes.take n).drop k).take m = (bytes.drop k).take m := by
    rw [List.drop_take, List.take_take, min_eq_left (by omega)]
  simp only [ndx30Record]
  rw [htake 8 8 (by decide), htake 16 4 (by decide), htake 20 4 (by decide)]
  have h0 := htake 0 8 (by decide)
  rw [List.drop_zero, List.drop_zero] at h0
  rw [h0]

/-- The records fill the file behind the header, but for a part of one. -/
theorem records_bounds {size : Nat} (h : 0 < records .ndx30 size) :
    32 + 24 * records .ndx30 size ≤ size ∧ size < 32 + 24 * records .ndx30 size + 24 := by
  unfold records sizeofHeader NdxVersion.recSz at h ⊢
  dsimp only at h ⊢
  omega

section
variable {file : List UInt8} {cnt : Nat} {s : NdxInfo} (hs : Cached file cnt s) (hn : records .ndx30 file.length ≤ 4294967)
  (h1 : 1 ≤ cnt) (hc : cnt ≤ records .ndx30 file.length)
include hs hn h1 hc

/-- The chunk starts so that it has the record. -/
theorem chunkStart_covers {r : Nat} (hr : r < records .ndx30 file.length) :
    ∃ a : Nat, s.chunkStart r = some (a : Int) ∧ a ≤ r ∧ r < a + cnt := by
  have hnum := hs.numRec
  have hcnt := hs.recCnt
  have h4 : (cnt : Int).tdiv 4 = (cnt / 4 : Nat) := Int.tdiv_eq_ediv_of_nonneg (Int.natCast_nonneg cnt)
  have h34 : ((cnt : Int) * 3).tdiv 4 = (cnt * 3 / 4 : Nat) := Int.tdiv_eq_ediv_of_nonneg (by omega)
  unfold NdxInfo.chunkStart
  rw [hnum, hcnt, h4, int32_of_range (by omega) (by omega)]
  simp only [Option.bind_eq_bind, Option.bind_some]
  by_cases hneg : (r : Int) - (cnt / 4 : Nat) < 0
  · rw [if_pos hneg]
    exact ⟨0, rfl, Nat.zero_le r, by omega⟩
  · rw [if_neg hneg, int32_of_range (by omega) (by omega), Option.bind_some, h34, int32_of_range (by omega) (by omega),
      Option.bind_some]
    by_cases hlast : (records .ndx30 file.length : Int) - (cnt * 3 / 4 : Nat) < r - (cnt / 4 : Nat)
    · rw [if_pos hlast, int32_of_range (by omega) (by omega), Option.bind_some, if_neg (by omega)]
      refine ⟨records .ndx30 file.length - cnt, ?_, by omega, by omega⟩
      exact congrArg some (by omega)
    · rw [if_neg hlast]
      refine ⟨r - cnt / 4, ?_, by omega, by omega⟩
      exact congrArg some (by omega)

/-- The read ends with the chunk or with the file. -/
theorem chunkRange_eq {a : Nat} (ha : a < records .ndx30 file.length) :
    s.chunkRange a = (32 + 24 * a, min (24 * cnt) (file.length - (32 + 24 * a))) := by
  have hlen := records_bounds (Nat.zero_lt_of_lt ha)
  unfold NdxInfo.chunkRange
  rw [hs.recSz, hs.hdrSz, hs.recCnt, hs.fileSz, toUnsigned_natCast (by omega), toUnsigned_natCast (by omega)]
  dsimp only
  have hpos : (a * 24 + 32) % 2 ^ 32 = 32 + 24 * a := by omega
  have hsz : 24 * cnt % 2 ^ 32 = 24 * cnt := by omega
  have hsum : (32 + 24 * a + 24 * cnt) % 2 ^ 32 = 32 + 24 * a + 24 * cnt := by omega
  rw [hpos, hsz, hsum]
  by_cases hend : file.length < 32 + 24 * a + 24 * cnt
  · rw [if_pos hend, min_eq_right (by omega)]
    rw [show (file.length : Int) - ((32 + 24 * a : Nat) : Int) = ((file.length - (32 + 24 * a) : Nat) : Int) by omega,
      toUnsigned_natCast (by omega)]
  · rw [if_neg hend, min_eq_left (by omega)]

/-- A chunk that is loaded is part of the file and has the record. -/
theorem loadChunk_spec {r : Nat} (hr : r < records .ndx30 file.length) :
    ∃ p s', s.loadChunk file r = some (p, s') ∧ Cached file cnt s' ∧ s'.Holds r ∧ p.1 + p.2 ≤ file.length := by
  obtain ⟨a, hstart, hle, hlt⟩ := chunkStart_covers hs hn h1 hc hr
  have ha : a < records .ndx30 file.length := by omega
  have hlen := records_bounds (Nat.zero_lt_of_lt ha)
  have hrecs : min (24 * cnt) (file.length - (32 + 24 * a)) / 24 = min cnt (records .ndx30 file.length - a) := by omega
  unfold NdxInfo.loadChunk
  rw [hstart]
  simp only [Option.bind_eq_bind, Option.bind_some, chunkRange_eq hs hn h1 hc ha, hs.recSz, hrecs]
  rw [toInt_of_lt (by omega)]
  refine ⟨_, _, rfl, ⟨hs.fileSz, hs.hdrSz, rfl, hs.maxTimeMs, hs.numRec, hs.recCnt, ?_, ?_, ?_⟩, ?_, ?_⟩
  · exact Int.natCast_nonneg _
  · intro _
    dsimp only
    omega
  · intro i hi
    dsimp only at hi ⊢
    rw [readFile, List.drop_take, List.drop_drop, ndx30Record_take _ (by omega), Int.toNat_natCast]
    rw [show 32 + 24 * a + 24 * i = 32 + 24 * (a + i) by ring]
  · unfold NdxInfo.Holds
    dsimp only
    omega
  · dsimp only
    omega

omit hn h1 hc in
/-- A record that is in memory is the file's. -/
theorem takeRecord_agrees {r : Nat} (hh : s.Holds r) {fileRead : Option (Nat × Nat)} {logged : List Int} {timeMs : Nat}
    (hr : clamp s.maxTimeMs timeMs / 500 - 1 = r) (h500 : 500 ≤ clamp s.maxTimeMs timeMs)
    (hread : ∀ p ∈ fileRead, p.1 + p.2 ≤ file.length) (hlog : ∀ i ∈ logged, 0 ≤ i ∧ i < s.recsInMem) :
    Agrees file s.maxTimeMs timeMs (s.takeRecord r fileRead logged, s) := by
  obtain ⟨hlo, hhi⟩ := hh
  obtain ⟨hstart, hend⟩ := hs.window (by omega)
  unfold NdxInfo.takeRecord
  rw [if_pos ⟨hlo, hhi⟩]
  refine ⟨rfl, ?_, hread, ?_⟩
  · obtain ⟨i, hi⟩ : ∃ i : Nat, (r : Int) - s.startRecNum = i := ⟨((r : Int) - s.startRecNum).toNat, by omega⟩
    dsimp only
    rw [hi, Int.toNat_natCast, hs.recSz, hs.chunk i (by omega)]
    unfold lookup30 sizeofHeader NdxVersion.recSz
    rw [if_neg (by omega), hr]
    dsimp only
    rw [show s.startRecNum.toNat + i = r by omega]
  · intro i hi
    rcases List.mem_append.mp hi with hl | hl
    · exact ⟨(hlog i hl).1, (hlog i hl).2, hstart, hend⟩
    · obtain rfl := List.mem_singleton.mp hl
      have hlt : (r : Int) - s.startRecNum < s.recsInMem := by omega
      exact ⟨by omega, hlt, hstart, hend⟩

end

/-- No chunk starts in front of the file. -/
theorem chunkStart_nonneg {s : NdxInfo} {recNo a : Int} (h : s.chunkStart recNo = some a) : 0 ≤ a := by
  unfold NdxInfo.chunkStart at h
  simp only [Option.bind_eq_bind] at h
  obtain ⟨startRec, -, h⟩ := Option.bind_eq_some_iff.mp h
  by_cases hneg : startRec < 0
  · rw [if_pos hneg] at h
    exact (Option.some.inj h).le
  · rw [if_neg hneg] at h
    obtain ⟨scaled, -, h⟩ := Option.bind_eq_some_iff.mp h
    obtain ⟨last, -, h⟩ := Option.bind_eq_some_iff.mp h
    by_cases hlast : last < startRec
    · rw [if_pos hlast] at h
      obtain ⟨rest, -, h⟩ := Option.bind_eq_some_iff.mp h
      obtain rfl := Option.some.inj h
      split <;> omega
    · rw [if_neg hlast] at h
      obtain rfl := Option.some.inj h
      omega

/-- The number in front of the first record is never in memory: the call fails. -/
theorem first_half_second_fails {file : List UInt8} {cnt : Nat} {s : NdxInfo} (hs : Cached file cnt s) {log : Bool}
    {timeMs : Nat} (h0 : clamp s.maxTimeMs timeMs ≠ 0) (h500 : clamp s.maxTimeMs timeMs < 500) {r : Ndx30Call × NdxInfo}
    (hr : s.getNdx30Rec file log timeMs = some r) : r.1.rc = -ESPIPE := by
  have hrec : toInt (toUnsigned ((clamp s.maxTimeMs timeMs / 500 : Nat) - 1)) = -1 := by
    rw [Nat.div_eq_of_lt h500]
    decide
  unfold NdxInfo.getNdx30Rec at hr
  dsimp only at hr
  rw [if_neg h0, hrec] at hr
  by_cases hload : s.recsInMem = 0 ∨ ¬ s.Holds (-1)
  · rw [if_pos hload] at hr
    simp only [Option.bind_eq_bind, NdxInfo.loadChunk] at hr
    obtain ⟨p, hp, hr⟩ := Option.bind_eq_some_iff.mp hr
    obtain ⟨a, ha, hp⟩ := Option.bind_eq_some_iff.mp hp
    obtain rfl := Option.some.inj hp
    obtain rfl := Option.some.inj hr
    have hnonneg := chunkStart_nonneg ha
    unfold NdxInfo.takeRecord
    rw [if_neg fun hh => absurd (hnonneg.trans hh.1) (by decide)]
  · obtain ⟨hne, hholds⟩ := not_or.mp hload
    have hstart := (hs.window hne).1
    have hle := (not_not.mp hholds).1
    omega

/-- A time that is looked up has a record. -/
theorem clamp_record {n timeMs : Nat} (hn : n ≤ 4294967) (h : 500 ≤ clamp (n / 2 * 1000) timeMs) :
    20 ≤ n ∧ clamp (n / 2 * 1000) timeMs / 500 - 1 < n ∧
      toInt (toUnsigned ((clamp (n / 2 * 1000) timeMs / 500 : Nat) - 1)) = (clamp (n / 2 * 1000) timeMs / 500 - 1 : Nat) := by
  have hle : 10000 ≤ n / 2 * 1000 ∧ clamp (n / 2 * 1000) timeMs ≤ n / 2 * 1000 - 3000 := by
    unfold clamp at h ⊢
    split at h
    · omega
    · rename_i hlong
      rw [if_neg hlong]
      split <;> omega
  generalize clamp (n / 2 * 1000) timeMs = t at h hle ⊢
  refine ⟨by omega, by omega, ?_⟩
  rw [show ((t / 500 : Nat) : Int) - 1 = (t / 500 - 1 : Nat) by omega, toUnsigned_natCast (by omega), toInt_of_lt (by omega)]

/-- One call: it agrees if it is not for the first half second, and leaves the cache right. -/
theorem getNdx30Rec_step {file : List UInt8} {cnt : Nat} {s : NdxInfo} (hs : Cached file cnt s)
    (hn : records .ndx30 file.length ≤ 4294967) (h1 : 20 ≤ records .ndx30 file.length → 1 ≤ cnt)
    (hc : cnt ≤ records .ndx30 file.length) (log : Bool) (timeMs : Nat)
    (h : clamp s.maxTimeMs timeMs = 0 ∨ 500 ≤ clamp s.maxTimeMs timeMs) :
    ∃ r, s.getNdx30Rec file log timeMs = some r ∧ Agrees file s.maxTimeMs timeMs r ∧ Cached file cnt r.2 := by
  unfold NdxInfo.getNdx30Rec
  dsimp only
  rcases h with h0 | h500
  · rw [if_pos h0]
    refine ⟨_, rfl, ⟨rfl, ?_, fun p hp => (by cases hp), fun i hi => absurd hi List.not_mem_nil⟩, hs⟩
    rw [h0]
    rfl
  · rw [hs.maxTimeMs] at h500
    obtain ⟨h20, hlt, hrec⟩ := clamp_record hn h500
    have hcnt := h1 h20
    rw [← hs.maxTimeMs] at h500 hlt hrec
    rw [if_neg (by omega), hrec]
    by_cases hload : s.recsInMem = 0 ∨ ¬ s.Holds ((clamp s.maxTimeMs timeMs / 500 - 1 : Nat) : Int)
    · obtain ⟨p, s', hchunk, hs', hholds, hread⟩ := loadChunk_spec hs hn hcnt hc hlt
      have hmax : s'.maxTimeMs = s.maxTimeMs := hs'.maxTimeMs.trans hs.maxTimeMs.symm
      have hpos : 0 < s'.recsInMem := by
        have hlo := hholds.1
        have hhi := hholds.2
        omega
      rw [if_pos hload, hchunk]
      refine ⟨_, rfl, ?_, hs'⟩
      rw [← hmax] at h500 hholds ⊢
      refine takeRecord_agrees hs' hholds rfl h500 (fun q hq => ?_) fun i hi => ?_
      · obtain rfl := Option.some.inj hq
        exact hread
      · cases log with
        | false => exact absurd hi List.not_mem_nil
        | true =>
          rcases List.mem_pair.mp hi with rfl | rfl
          · exact ⟨le_refl 0, hpos⟩
          · exact ⟨Int.le_sub_one_of_lt hpos, sub_one_lt _⟩
    · obtain ⟨-, hholds⟩ := not_or.mp hload
      rw [if_neg hload]
      exact ⟨_, rfl, takeRecord_agrees hs (not_not.mp hholds) rfl h500 (fun p hp => by cases hp)
        fun i hi => absurd hi List.not_mem_nil, hs⟩

/-- Every run from a cache that is right. -/
theorem runAgrees_iff {file : List UInt8} {cnt : Nat} {s : NdxInfo} (hs : Cached file cnt s)
    (hn : records .ndx30 file.length ≤ 4294967) (h1 : 20 ≤ records .ndx30 file.length → 1 ≤ cnt)
    (hc : cnt ≤ records .ndx30 file.length) (log : Bool) (times : List Nat) :
    RunAgrees file log s times ↔ ∀ t ∈ times, clamp s.maxTimeMs t = 0 ∨ 500 ≤ clamp s.maxTimeMs t := by
  induction times generalizing s with
  | nil => exact iff_of_true trivial fun t ht => absurd ht List.not_mem_nil
  | cons t ts ih =>
    rw [List.forall_mem_cons]
    constructor
    · rintro ⟨r, hr, hagrees, hrest⟩
      have ht : clamp s.maxTimeMs t = 0 ∨ 500 ≤ clamp s.maxTimeMs t := by
        by_contra hno
        obtain ⟨h0, h500⟩ := not_or.mp hno
        have hfail := first_half_second_fails hs h0 (by omega) hr
        exact absurd (hagrees.rc.symm.trans hfail) (by decide)
      obtain ⟨r', hr', -, hs'⟩ := getNdx30Rec_step hs hn h1 hc log t ht
      obtain rfl := Option.some.inj (hr.symm.trans hr')
      have hmax : r.2.maxTimeMs = s.maxTimeMs := hs'.maxTimeMs.trans hs.maxTimeMs.symm
      have hall := (ih hs').mp hrest
      rw [hmax] at hall
      exact ⟨ht, hall⟩
    · rintro ⟨ht, hts⟩
      obtain ⟨r, hr, hagrees, hs'⟩ := getNdx30Rec_step hs hn h1 hc log t ht
      have hmax : r.2.maxTimeMs = s.maxTimeMs := hs'.maxTimeMs.trans hs.maxTimeMs.symm
      rw [← hmax] at hts
      exact ⟨r, hr, hagrees, (ih hs').mpr hts⟩

/-- The file is open, with nothing in the cache. -/
theorem openNdxFile_cached {file : List UInt8} (hsize : sizeofHeader < file.length)
    (hver : version (readFile file 0 sizeofHeader) = some .ndx30) (hn : records .ndx30 file.length ≤ 4294967) {cacheSz : Nat}
    (hc : cacheSz < 2147483648) :
    ∃ s, openNdxFile file cacheSz = .ok s ∧ Cached file (min cacheSz (records .ndx30 file.length)) s := by
  have hlen : file.length % 2 ^ 32 = file.length := by
    unfold records sizeofHeader NdxVersion.recSz at hn
    dsimp only at hn
    omega
  have hhalf : (records .ndx30 file.length : Int).tdiv 2 = (records .ndx30 file.length / 2 : Nat) :=
    Int.tdiv_eq_ediv_of_nonneg (Int.natCast_nonneg _)
  have hms : int32 ((records .ndx30 file.length / 2 : Nat) * 1000) = some ((records .ndx30 file.length / 2 * 1000 : Nat) : Int) := by
    rw [int32_of_range (by omega) (by omega)]
    exact congrArg some (by omega)
  have hnum : toInt (records .ndx30 file.length) = records .ndx30 file.length := toInt_of_lt (by omega)
  have hmax : toUnsigned (records .ndx30 file.length / 2 * 1000 : Nat) = records .ndx30 file.length / 2 * 1000 :=
    toUnsigned_natCast (by omega)
  unfold openNdxFile
  rw [if_neg (Nat.not_le.mpr hsize), hver]
  dsimp only
  unfold open30
  rw [hnum, hhalf, hms]
  refine ⟨_, rfl, ⟨hlen, rfl, rfl, hmax, ?_, ?_, le_refl 0, fun h => absurd rfl h, fun i hi => ?_⟩⟩
  · unfold sized
    dsimp only
    exact hnum
  · unfold sized
    dsimp only
    rw [hnum, toInt_of_lt hc]
    split <;> omega
  · exact absurd hi (Int.not_lt.mpr (Int.natCast_nonneg i))

/-- Whatever has been loaded before, the calls agree with the file if and only if none is for a time in front of the first
half second but the start. -/
theorem ndx30_agrees_iff (file : List UInt8) (hsize : sizeofHeader < file.length)
    (hver : version (readFile file 0 sizeofHeader) = some .ndx30) (hn : records .ndx30 file.length ≤ 4294967) (cacheSz : Nat)
    (h1 : 1 ≤ cacheSz) (hc : cacheSz < 2147483648) (log : Bool) (times : List Nat) :
    (∃ s, openNdxFile file cacheSz = .ok s ∧ RunAgrees file log s times) ↔
      records .ndx30 file.length < 20 ∨ ∀ t ∈ times, t = 0 ∨ 500 ≤ t := by
  obtain ⟨s, hopen, hs⟩ := openNdxFile_cached hsize hver hn hc
  have hrun := runAgrees_iff hs hn (fun h20 => by omega) (min_le_right ..) log times
  have hclamp (t : Nat) : (clamp s.maxTimeMs t = 0 ∨ 500 ≤ clamp s.maxTimeMs t) ↔
      records .ndx30 file.length < 20 ∨ t = 0 ∨ 500 ≤ t := by
    rw [hs.maxTimeMs]
    unfold clamp
    split
    · omega
    · split <;> omega
  have hany : (∃ s, openNdxFile file cacheSz = .ok s ∧ RunAgrees file log s times) ↔ RunAgrees file log s times := by
    constructor
    · rintro ⟨s', hopen', hagrees⟩
      obtain rfl := Except.ok.inj (hopen'.symm.trans hopen)
      exact hagrees
    · exact fun hagrees => ⟨s, hopen, hagrees⟩
  rw [hany, hrun]
  simp only [hclamp]
  by_cases h20 : records .ndx30 file.length < 20
  · simp [h20]
  · simp [h20]

/-- An index file with so many records. -/
def ndxFile (n : Nat) : List UInt8 := 3 :: 0 :: List.replicate (30 + 24 * n) 0

theorem ndxFile_length (n : Nat) : (ndxFile n).length = 32 + 24 * n := by
  simp only [ndxFile, List.length_cons, List.length_replicate]
  omega

theorem ndxFile_version (n : Nat) : version (readFile (ndxFile n) 0 sizeofHeader) = some .ndx30 := rfl

theorem ndxFile_records (n : Nat) : sizeofHeader ≤ (ndxFile n).length ∧ records .ndx30 (ndxFile n).length = n := by
  rw [ndxFile_length]
  unfold records sizeofHeader NdxVersion.recSz
  dsimp only
  omega

theorem ndx30_agrees_hundred :
    (∃ s, openNdxFile (ndxFile 100) 60 = .ok s ∧ RunAgrees (ndxFile 100) false s [40000, 0, 9000]) ↔
      records .ndx30 (ndxFile 100).length < 20 ∨ ∀ t ∈ [40000, 0, 9000], t = 0 ∨ 500 ≤ t :=
  ndx30_agrees_iff (ndxFile 100) (by rw [ndxFile_length]; decide) (ndxFile_version 100)
    (by rw [(ndxFile_records 100).2]; decide) 60 (by decide) (by decide) false [40000, 0, 9000]

/-- A jump to 0.1 seconds is a software bug. -/
theorem tenth_of_second_fails : ¬ ∀ (file : List UInt8), sizeofHeader < file.length →
    version (readFile file 0 sizeofHeader) = some .ndx30 → ∀ cacheSz, 1 ≤ cacheSz → ∀ log times,
    ∃ s, openNdxFile file cacheSz = .ok s ∧ RunAgrees file log s times := by
  intro h
  have hsize : sizeofHeader < (ndxFile 20).length := by
    rw [ndxFile_length]
    decide
  obtain ⟨s, hopen, r, hr, hagrees, -⟩ := h (ndxFile 20) hsize (ndxFile_version 20) 600 (by decide) false [100]
  obtain ⟨s', hopen', hs'⟩ := openNdxFile_cached hsize (ndxFile_version 20) (by rw [(ndxFile_records 20).2]; decide)
    (show 600 < 2147483648 by decide)
  obtain rfl := Except.ok.inj (hopen'.symm.trans hopen)
  have hclamp : clamp s'.maxTimeMs 100 = 100 := by
    rw [hs'.maxTimeMs, (ndxFile_records 20).2]
    decide
  have hfail := first_half_second_fails hs' (by rw [hclamp]; decide) (by rw [hclamp]; decide) hr
  exact absurd (hagrees.rc.symm.trans hfail) (by decide)

end Mvpmc.Replaytv.Ndx
