import Mvpmc.Lib.Circular

/-! Data of the MPEG demuxer (`mvp_demux.h`, `demux.h`) and the ring operations
of `stream.c` that do not run the video parser. Memory blocks are functions on
addresses; `attr.audio` and `attr.video` live inside their streams. -/
namespace Mvpmc.Demux
open Mvpmc.Lib.Circular

/-- Conversion to `unsigned int`. -/
def u32 (x : Int) : Nat := (x % 4294967296).toNat

/-- The value -1 of an `unsigned int` stream id: no stream selected. -/
def noStream : Nat := 4294967295

def SPU_MAX : Nat := 32

inductive StreamType where
  | mpeg | ac3 | pcm
  deriving DecidableEq, Repr

structure StreamInfo where
  id : Nat
  type : StreamType
  deriving DecidableEq, Repr

structure VideoInfo where
  width : Nat := 0
  height : Nat := 0
  aspect : Nat := 0
  frameRate : Nat := 0
  afd : Nat := 0
  deriving DecidableEq, Repr

/-- `cur_bytes` goes up and down, so it keeps its machine width. -/
structure StreamStats where
  frames : Nat := 0
  bytes : Nat := 0
  curBytes : UInt32 := 0
  fullCount : Nat := 0
  emptyCount : Nat := 0
  drainCount : Nat := 0
  fillCount : Nat := 0
  video : VideoInfo := {}
  deriving DecidableEq, Repr

/-- `existing` is the length of `ids`; the array bound 16 is not checked by the code. -/
structure StreamAttr where
  current : Nat := noStream
  ids : List StreamInfo := []
  type : Nat := 0
  stats : StreamStats := {}
  bufsz : Nat := 0
  deriving DecidableEq, Repr

/-- `vid_parser_data_t`. -/
structure VidParserData where
  dts : UInt32 := 0
  pts : UInt32 := 0
  aspectPts : UInt32 := 0
  deriving DecidableEq, Repr

/-- `stream_t`. The tail mutex only serialises callers and is left out. -/
structure Stream where
  buf : Nat → UInt8
  head : Nat
  tail : Nat
  size : Nat
  parserTail : Nat
  seekingHead : Nat := 0
  seekingHeadValid : Bool := false
  attr : StreamAttr := {}
  parserCallback : Bool := false
  parserData : VidParserData := {}

structure SpuAttr where
  bytes : Int := 0
  frames : Nat := 0
  deriving DecidableEq, Repr

structure Gop where
  hour : Nat := 0
  minute : Nat := 0
  second : Nat := 0
  frame : Nat := 0
  offset : UInt32 := 0
  pts : UInt32 := 0
  deriving DecidableEq, Repr

/-- A NULL `data` pointer is `none`. -/
structure SpuItem where
  data : Option (List UInt8) := none
  size : Nat := 0
  x : Nat := 0
  y : Nat := 0
  w : Nat := 0
  h : Nat := 0
  start : UInt32 := 0
  finish : UInt32 := 0
  color : Nat := 0
  alpha : Nat := 0
  line1 : Nat := 0
  line2 : Nat := 0
  deriving DecidableEq, Repr

structure Spu where
  buf : Option (Nat → UInt8) := none
  len : Int := 0
  size : Int := 0
  dataSize : Nat := 0
  item : Nat → SpuItem := fun _ => {}
  inuse : Bool := false

structure JitAudioData where
  frameRemain : Int := 0
  ignoreFramePts : Int := 0
  seekEndPts : UInt32 := 0
  deriving DecidableEq, Repr

/-- A `VID_EVENT_ASPECT` handed to `vid_event_add`. -/
structure VidEvent where
  pts : UInt32
  aspect : Nat
  afd : Nat
  deriving DecidableEq, Repr

/-- `struct demux_handle_s`; `vidEvents` records the calls of `vid_event_add`. -/
structure Handle where
  audio : Stream
  video : Stream
  attrSpu : Nat → SpuAttr := fun _ => {}
  bps : Int := 0
  gop : Gop := {}
  gopValid : Bool := false
  ac3Audio : Bool := false
  state : Nat := 0
  frameState : Nat := 0
  allowIframe : Bool := false
  remain : Nat := 0
  jit : JitAudioData := {}
  size : Nat := 0
  buf : Nat → UInt8 := fun _ => 0
  bufsz : Nat := 0
  headernum : Nat := 0
  seeking : Bool := false
  bytes : UInt32 := 0
  spu : Nat → Spu := fun _ => {}
  spuCurrent : Int := -1
  spuBuf : Nat → UInt8
  spuLen : Nat := 0
  width : Nat := 0
  height : Nat := 0
  vidEvents : List VidEvent := []

/-- The memory behind a buffer pointer: the buffer itself, then whatever follows it. -/
def memory (buf : List UInt8) (past : Nat → UInt8) : Nat → UInt8 := fun i =>
  buf.getD i (past (i - buf.length))

namespace Stream

/-- `stream_init` on a zeroed block; `attr` and the parser are set by `start_stream`. -/
def init (size : Nat) : Stream where
  buf := fun _ => 0
  head := 0
  tail := size - 1
  size := size
  parserTail := size - 1

def countEmpty (s : Stream) : Stream :=
  { s with attr.stats.emptyCount := s.attr.stats.emptyCount + 1 }

def countFull (s : Stream) : Stream :=
  { s with attr.stats.fullCount := s.attr.stats.fullCount + 1 }

/-- The two byte counts `stream_peek` and `stream_drain_fd` start from: up to the
end of the block, and from its start. Unsigned `head - tail - 1` is -1 on `head = tail`. -/
def spans (s : Stream) : Int × Int :=
  if s.head ≥ s.tail then ((s.head : Int) - s.tail - 1, 0) else ((s.size : Int) - s.tail - 1, s.head)

/-- Cut both counts down to at most `max` bytes. -/
def clip (max : Int) (sizes : Int × Int) : Int × Int :=
  if sizes.1 + sizes.2 > max then
    if sizes.1 > max then (max, 0) else (sizes.1, max - sizes.1)
  else sizes

/-- `stream_peek`: the count returned and the bytes copied out. -/
def peek (s : Stream) (max : Int) : Stream × Int × List UInt8 :=
  if max ≤ 0 then (s, 0, [])
  else if s.spans.1 + s.spans.2 = 0 then (s.countEmpty, 0, [])
  else
    let sizes := clip max s.spans
    (s, sizes.1 + sizes.2, slice s.buf (s.tail + 1) sizes.1.toNat ++ slice s.buf 0 sizes.2.toNat)

/-- `stream_empty`. -/
def empty (s : Stream) : Stream :=
  { s with head := 0, tail := s.size - 1, parserTail := s.size - 1, attr.stats.curBytes := 0 }

/-- `stream_drain`. -/
def drain (s : Stream) (max : Int) : Stream × Int × List UInt8 :=
  let r := s.peek max
  ({ r.1 with
      tail := u32 (s.tail + r.2.1) % s.size
      attr.stats.curBytes := r.1.attr.stats.curBytes - UInt32.ofInt r.2.1 }, r.2)

/-- `write(2)`: `none` is -1, otherwise the count accepted out of the bytes offered. -/
def write (outcome : Option Nat) (offered : List UInt8) : Option (List UInt8) :=
  outcome.map fun k => offered.take k

/-- The accounting at label `out` of `stream_drain_fd`. -/
def drained (s : Stream) (n : Int) : Stream :=
  { s with
    tail := u32 (s.tail + n) % s.size
    attr.stats.emptyCount := s.attr.stats.emptyCount + (if n = 0 then 1 else 0)
    attr.stats.drainCount := s.attr.stats.drainCount + (if n = 0 then 0 else 1)
    attr.stats.curBytes := s.attr.stats.curBytes - UInt32.ofInt n }

/-- `stream_drain_fd`, with the outcomes of its first and second `write`: the
count returned and the bytes the descriptor accepted. -/
def drainFd (s : Stream) (max : Int) (first second : Option Nat) : Stream × Int × List UInt8 :=
  let sizes := if max ≥ 0 then clip max s.spans else s.spans
  let chunk1 := slice s.buf (s.tail + 1) sizes.1.toNat
  let chunk2 := slice s.buf 0 sizes.2.toNat
  let finish (sent : List UInt8) : Stream × Int × List UInt8 := (s.drained sent.length, sent.length, sent)
  let tail (sent : List UInt8) : Stream × Int × List UInt8 :=
    if sizes.2 ≠ 0 then finish (sent ++ (write second chunk2).getD []) else finish sent
  if sizes.1 ≠ 0 then
    match write first chunk1 with
    | none => (s, 0, [])
    | some sent => if (sent.length : Int) ≠ sizes.1 then finish sent else tail sent
  else tail []

/-- `register_stream`. -/
def register (s : Stream) (id : Nat) (type : StreamType) : Stream :=
  if s.attr.ids.any (·.id == id) then s
  else { s with attr.ids := s.attr.ids ++ [⟨id, type⟩] }

/-- `if (current == -1) current = id`. -/
def selectFirst (s : Stream) (id : Nat) : Stream :=
  if s.attr.current = noStream then { s with attr.current := id } else s

/-- What an elementary stream does when its start code is met. -/
def meet (s : Stream) (type : Nat) : Stream := (s.register type .mpeg).selectFirst type

def setType (s : Stream) (type : Nat) : Stream := { s with attr.type := type }

def countFrame (s : Stream) : Stream := { s with attr.stats.frames := s.attr.stats.frames + 1 }

end Stream
end Mvpmc.Demux
