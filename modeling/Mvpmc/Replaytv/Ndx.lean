import Mvpmc.Lib.ByteOrder
import Mathlib.Tactic

/-! The index file of a recording, and what is kept of it (`rtv_open_ndx_file`, `ndxclient.c`). Every read of the device
succeeds. -/
namespace Mvpmc.Replaytv.Ndx
open Mvpmc.Lib

inductive NdxVersion where
  | ndx22
  | ndx30
  deriving DecidableEq, Repr

/-- The result of an operation on `int`s. -/
def int32 (x : Int) : Option Int := if -2147483648 ≤ x ∧ x < 2147483648 then some x else none

/-- An unsigned number converted to `int`. -/
def toInt (n : Nat) : Int := (n : Int).bmod (2 ^ 32)

/-- A number converted to `unsigned int`. -/
def toUnsigned (x : Int) : Nat := (x % 2 ^ 32).toNat

def sizeofHeader : Nat := 32

def NdxVersion.recSz : NdxVersion → Nat
  | .ndx22 => 32
  | .ndx30 => 24

/-- `rtv_ndx_info_t`. -/
structure NdxInfo where
  ver : NdxVersion
  fileSz : Nat
  hdrSz : Nat
  recSz : Nat
  maxTimeMs : Nat := 0
  baseTime : Nat := 0
  numRecInFile : Int
  recCntToLoad : Int
  startRecNum : Int := 0
  recsInMem : Int := 0
  fileChunk : List UInt8 := []
  deriving DecidableEq

inductive OpenError where
  | noData
  | badVersion
  | overflow
  deriving DecidableEq, Repr

/-- `rtv_read_file`. -/
def readFile (file : List UInt8) (pos size : Nat) : List UInt8 := (file.drop pos).take size

/-- The version in a header. Of a 2.2 file it is the third byte that is looked at. -/
def version (header : List UInt8) : Option NdxVersion :=
  if header.getD 0 0 = 3 ∧ header.getD 1 0 = 0 then some .ndx30
  else if header.getD 0 0 = 2 ∧ header.getD 2 0 = 0 then some .ndx22
  else none

/-- The number of records in a file of this size. -/
def records (ver : NdxVersion) (size : Nat) : Nat := (size - sizeofHeader) / ver.recSz

/-- The fields that the size of the file sets. -/
def sized (ver : NdxVersion) (size cacheSz : Nat) : NdxInfo :=
  let num := toInt (records ver size)
  let cnt := toInt cacheSz
  { ver := ver, fileSz := size % 2 ^ 32, hdrSz := sizeofHeader, recSz := ver.recSz, numRecInFile := num,
    recCntToLoad := if num < cnt then num else cnt }

/-- A 3.0 file has two records for each second. -/
def open30 (size cacheSz : Nat) : Except OpenError NdxInfo :=
  (int32 ((toInt (records .ndx30 size)).tdiv 2 * 1000)).elim (.error .overflow) fun ms =>
    .ok { sized .ndx30 size cacheSz with maxTimeMs := toUnsigned ms }

/-- `rtv_open_ndx_file`. -/
def openNdxFile (file : List UInt8) (cacheSz : Nat) : Except OpenError NdxInfo :=
  if file.length ≤ sizeofHeader then .error .noData
  else match version (readFile file 0 sizeofHeader) with
    | none => .error .badVersion
    | some .ndx22 => .ok (sized .ndx22 file.length cacheSz)
    | some .ndx30 => open30 file.length cacheSz

/-- The time that is looked up: not within three seconds of the end, and the start in a short recording. -/
def clamp (maxTimeMs timeMs : Nat) : Nat :=
  if maxTimeMs < 10000 then 0 else if maxTimeMs - 3000 < timeMs then maxTimeMs - 3000 else timeMs

theorem int32_of_range {x : Int} (hlo : -2147483648 ≤ x) (hhi : x < 2147483648) : int32 x = some x := if_pos ⟨hlo, hhi⟩

theorem toInt_of_lt {n : Nat} (h : n < 2147483648) : toInt n = n := by
  unfold toInt
  rw [Int.bmod_def]
  norm_num
  omega

theorem toUnsigned_natCast {n : Nat} (h : n < 4294967296) : toUnsigned n = n := by
  unfold toUnsigned
  norm_num
  omega

end Mvpmc.Replaytv.Ndx
