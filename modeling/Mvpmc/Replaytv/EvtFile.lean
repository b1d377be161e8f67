import Mvpmc.Lib.ByteOrder
import Mathlib.Data.UInt

/-! Finding the commercial blocks of a recording from its event file (`rtv_parse_evt_file`, `evtfileparser.c`). Memory
does not run out. -/
namespace Mvpmc.Replaytv.EvtFile
open Mvpmc.Lib

def RTV_EVT_HDR_SZ : Nat := 8
def EVT_AUD : UInt32 := 1
def EVT_VID : UInt32 := 2

/-- `rtv_evt_record_t` -/
structure EvtRecord where
  timestamp : Nat
  dataType : UInt32
  audiopower : UInt32
  blacklevel : UInt32
  deriving DecidableEq

def sizeofEvtRecord : Nat := 24

/-- A record in the file, whose numbers are in network order. -/
def evtRecord (bytes : List UInt8) : EvtRecord where
  timestamp := (ofNetwork (bytes.take 4)).toNat * 2 ^ 32 + (ofNetwork ((bytes.drop 4).take 4)).toNat
  dataType := ofNetwork ((bytes.drop 12).take 4)
  audiopower := ofNetwork ((bytes.drop 16).take 4)
  blacklevel := ofNetwork ((bytes.drop 20).take 4)

/-- The records of a file that is accepted. -/
def evtRecords (file : List UInt8) : Option (List EvtRecord) :=
  if file.length < RTV_EVT_HDR_SZ + sizeofEvtRecord then none
  else if (file.length - RTV_EVT_HDR_SZ) % sizeofEvtRecord ≠ 0 then none
  else
    some ((List.range ((file.length - RTV_EVT_HDR_SZ) / sizeofEvtRecord)).map fun x =>
      evtRecord (file.drop (RTV_EVT_HDR_SZ + sizeofEvtRecord * x)))

/-- The threshold and the factor for the audio level. -/
def normalize (recs : List EvtRecord) : UInt32 × UInt32 :=
  let levels := (recs.filter (·.dataType = EVT_AUD)).map (·.audiopower)
  let audmax := levels.foldl max 0
  let audmin := levels.foldl min 0xFFFFFFFF
  let factor := if audmax ≠ 0 then 10000 / audmax else 0
  let factor := if factor = 0 then 1 else factor
  ((audmin + (audmax - audmin) / 10) * factor, factor)

/-- `fade_pt_t` -/
structure FadePt where
  start : UInt32 := 0
  stop : UInt32 := 0
  video : UInt32 := 0
  audio : UInt32 := 0
  deriving DecidableEq

/-- The variables of the first pass. `fades` is the list in front of `current`. -/
structure Fades where
  fades : List FadePt := []
  current : FadePt := {}
  lasttime : UInt32 := 0
  lastvidtime : UInt32 := 0
  lastaudtime : UInt32 := 0
  lastvid : UInt32 := 256
  lastaud : UInt32 := 10000

/-- The mean of the colours that are not zero. -/
def level (blacklevel : UInt32) : UInt32 :=
  let colors := (toNetwork blacklevel).filter (· ≠ 0)
  if colors = [] then 0 else (colors.map (·.toUInt32)).sum / UInt32.ofNat colors.length

namespace Fades

/-- A new fade point behind the one in use. -/
def next (s : Fades) : Fades :=
  { s with
    fades := s.fades ++ [{ s.current with stop := if s.current.stop = 0 then s.lasttime else s.current.stop }]
    current := {} }

/-- The levels of the fade point in use are forgotten. -/
def reset (s : Fades) : Fades := { s with current := { s.current with stop := 0, video := 256, audio := 10000 } }

variable (audioMin audioFactor : UInt32)

/-- A gap between the records. -/
def gap (s : Fades) (time : UInt32) : Fades :=
  if s.lasttime = 0 ∨ audioFactor = 1 ∧ 1000 < time - s.lasttime then
    { (if s.current.start ≠ 0 then s.next else s).reset with lastvid := 256, lastaud := 10000 }
  else s

def audio (s : Fades) (time : UInt32) (rec : EvtRecord) : Fades :=
  if rec.dataType = EVT_AUD then
    { s with
      lastvid := if 70 < time - s.lastvidtime then 256 else s.lastvid
      lastaud := rec.audiopower * audioFactor
      lastaudtime := time }
  else s

def video (s : Fades) (time : UInt32) (rec : EvtRecord) : Fades :=
  if rec.dataType = EVT_VID then
    { s with
      lastaud := if 50 < time - s.lastaudtime then 10000 else s.lastaud
      lastvid := level rec.blacklevel
      lastvidtime := time }
  else s

/-- The audio level has crossed the threshold. -/
def cross (s : Fades) (time : UInt32) : Fades :=
  if 1 < audioFactor ∧ (s.current.start = 0 ∧ s.lastaud < audioMin ∨ s.current.start ≠ 0 ∧ audioMin ≤ s.lastaud) then
    (if s.current.start ≠ 0 ∧ 1000 < time - s.current.start then s.next else s).reset
  else s

/-- Both levels decide on the fade. -/
def fade (s : Fades) (time : UInt32) : Fades :=
  if s.lasttime ≤ time then
    let s := { s with lasttime := time }
    if s.lastvid < 32 then
      if s.lastaud < audioMin then
        if s.current.start = 0 then { s with current := { s.current with start := time, video := s.lastvid, audio := s.lastaud } }
        else if s.current.stop ≠ 0 then { s with current := ⟨time, 0, s.lastvid, s.lastaud⟩ }
        else s
      else if s.current.start ≠ 0 ∧ s.current.stop = 0 then { s with current := { s.current with stop := time } }
      else s
    else if 200 < s.lastvid ∧ s.current.start ≠ 0 ∧ s.current.stop = 0 then
      { s with current := { s.current with stop := time } }
    else s
  else s

/-- One record. -/
def record (s : Fades) (rec : EvtRecord) : Fades :=
  let time := UInt32.ofNat (rec.timestamp / 1000000)
  ((((s.gap audioFactor time).audio audioFactor time rec).video time rec).cross audioMin audioFactor time).fade audioMin time

end Fades

/-- The fade points that the first pass finds. -/
def fadePoints (recs : List EvtRecord) : List FadePt :=
  let (audioMin, audioFactor) := normalize recs
  let s := recs.foldl (Fades.record audioMin audioFactor) {}
  s.fades ++ [s.current]

/-- `rtv_prog_seg_t` -/
structure ProgSeg where
  start : UInt32
  stop : UInt32
  deriving DecidableEq

/-- The variables of the second pass, with the indices used on `addpoint`, and those used on the blocks beside the number
of blocks that there is room for. -/
structure Segments where
  lasttime : UInt32 := 0
  lastAdded : UInt32 := 0
  addcount : Nat := 0
  addpoint : Nat → UInt32
  blocks : List ProgSeg := []
  addUsed : List Nat := []
  blockUsed : List (Int × Nat) := []

namespace Segments

/-- The history begins again with its last two points when it is full. -/
def compact (s : Segments) : Segments :=
  if 20 < s.addcount then
    { s with
      addpoint := Function.update (Function.update s.addpoint 0 (s.addpoint 19)) 1 (s.addpoint 20)
      addcount := 2
      addUsed := [0, 19, 1, 20] ++ s.addUsed }
  else s

/-- `last_added` goes into the history. -/
def addPoint (s : Segments) : Segments :=
  if s.lastAdded ≠ 0 then
    let s := s.compact
    { s with
      addpoint := Function.update s.addpoint s.addcount s.lastAdded
      addcount := s.addcount + 1
      addUsed := s.addcount :: s.addUsed }
  else s

/-- The end of a block, by its index. -/
def setStop (s : Segments) (i : Int) (stop : UInt32) : Segments :=
  { s with
    blocks := if 0 ≤ i then s.blocks.modify i.toNat fun b => { b with stop := stop } else s.blocks
    blockUsed := (i, s.blocks.length) :: s.blockUsed }

/-- A new block; `fresh` is what stands in the memory for its end. -/
def pushBlock (fresh : Nat → UInt32) (s : Segments) (start : UInt32) : Segments :=
  { s with
    blocks := s.blocks ++ [⟨start, fresh s.blocks.length⟩]
    blockUsed := (s.blocks.length, s.blocks.length + 1) :: s.blockUsed }

/-- The block in front of a new one ends at the last point added. -/
def startBlock (fresh : Nat → UInt32) (s : Segments) (start : UInt32) : Segments :=
  if s.lastAdded ≠ 0 ∧ 0 < s.blocks.length then
    (s.pushBlock fresh start).setStop ((s.blocks.length : Int) - 1) s.lastAdded
  else s.pushBlock fresh start

variable (progsegMin sceneMin : UInt32) (fresh : Nat → UInt32)

/-- The middle of a fade. -/
def edit (s : Segments) (time : UInt32) : Segments :=
  let spottime := time - s.lasttime
  if s.lasttime = 0 ∨ sceneMin ≤ spottime then
    let first := s.lasttime = 0 ∧ spottime < 60000
    let type := s.lasttime ≠ 0 ∧ spottime < progsegMin ∨ first
    let s := if first then s else { s with lasttime := time }
    if type then { s with lastAdded := time }.addPoint else s.startBlock fresh time
  else { s with lasttime := time }

/-- The last block ends with the recording, or at the last point added in it. -/
def endLast (s : Segments) : Segments :=
  match s.blocks.getLast? with
  | none => s
  | some b =>
    let n : Int := s.blocks.length
    let s := s.setStop (n - 1) s.lasttime
    let s := { s with blockUsed := (n - 1, s.blocks.length) :: s.blockUsed }
    if b.start < s.lastAdded then s.setStop (n - 1) s.lastAdded else s

/-- A last block that begins before the end of the one in front of it is thrown out. -/
def dropBogus (s : Segments) : Segments :=
  let n := s.blocks.length
  if 1 < n then
    let s := { s with blockUsed := ((n : Int) - 1, n) :: ((n : Int) - 2, n) :: s.blockUsed }
    match s.blocks[n - 1]?, s.blocks[n - 2]? with
    | some last, some before => if last.start ≤ before.stop then { s with blocks := s.blocks.dropLast } else s
    | _, _ => s
  else s

/-- Where the last point was added late the block ends at the one before. -/
def endEarlier (s : Segments) : Segments :=
  if 1 < s.addcount then
    let addcount := s.addcount - 1
    let s := { s with addcount := addcount, addUsed := [addcount, addcount - 1] ++ s.addUsed }
    if 60000 < s.addpoint addcount - s.addpoint (addcount - 1) then
      { s.setStop ((s.blocks.length : Int) - 1) (s.addpoint (addcount - 1)) with addUsed := (addcount - 1) :: s.addUsed }
    else s
  else s

end Segments

def tooLong (b : ProgSeg) : Bool := 360000 < b.stop - b.start

/-- The loop that throws out blocks of more than six minutes, from an index on. -/
def throwOut (i : Nat) (s : Segments) : Segments :=
  if h : i < s.blocks.length then
    let s' := { s with blockUsed := ((i : Int), s.blocks.length) :: s.blockUsed }
    if tooLong s.blocks[i] then
      -- the blocks behind it are copied one place forward
      let moved := ((List.range s.blocks.length).drop i).map fun j : Nat => ((j : Int), s.blocks.length)
      throwOut (i + 1) { s' with blocks := s.blocks.eraseIdx i, blockUsed := moved ++ s'.blockUsed }
    else throwOut (i + 1) s'
  else s
termination_by s.blocks.length - i
decreasing_by
  · simp only [List.length_eraseIdx, h, if_true]
    omega
  · omega

/-- What the function finds in fresh memory: the history of added points, and the ends of the blocks. -/
structure Fresh where
  addpoint : Nat → UInt32
  stop : Nat → UInt32

/-- `current->stop = (current->stop + current->start)/2` for the points that have a start. -/
def middles (fades : List FadePt) : List UInt32 := (fades.filter (·.start ≠ 0)).map fun f => (f.stop + f.start) / 2

/-- The second pass up to the sanity check. -/
def segments (fresh : Fresh) (progsegMin sceneMin : UInt32) (fades : List FadePt) : Segments :=
  let s := (middles fades).foldl (Segments.edit progsegMin sceneMin fresh.stop) { addpoint := fresh.addpoint }
  s.endLast.dropBogus.endEarlier

/-- `rtv_parse_evt_file`, with the minimal times in seconds; nothing where the file is not accepted. -/
def parseEvtFile (fresh : Fresh) (pSegMin sceneMin : UInt32) (file : List UInt8) : Option Segments :=
  (evtRecords file).map fun recs => throwOut 0 (segments fresh (pSegMin * 1000) (sceneMin * 1000) (fadePoints recs))

end Mvpmc.Replaytv.EvtFile
