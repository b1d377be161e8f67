import Mvpmc.Demux.Video

/-! `stream_add`: all or none of a buffer goes into a ring. -/
namespace Mvpmc.Demux
open Mvpmc.Lib.Circular

inductive StreamId where
  | audio | video
  deriving DecidableEq, Repr

namespace Handle

def stream (h : Handle) : StreamId → Stream
  | .audio => h.audio
  | .video => h.video

def setStream (h : Handle) (sid : StreamId) (s : Stream) : Handle :=
  match sid with
  | .audio => { h with audio := s }
  | .video => { h with video := s }

end Handle

namespace Stream

/-- The tail that bounds the free space: the earlier one of `tail` and `parser_tail`,
and the parser's own while seeking. -/
def limit (s : Stream) (wasSeeking : Bool) : Nat :=
  if s.parserCallback then
    if wasSeeking then s.parserTail
    else if (s.head + s.size - s.tail) % s.size < (s.head + s.size - s.parserTail) % s.size then s.parserTail
    else s.tail
  else s.tail

/-- While seeking nothing may be drained: the visible part of the ring is emptied. -/
def hide (s : Stream) (wasSeeking : Bool) : Stream :=
  if wasSeeking ∧ s.head ≠ (s.tail + 1) % s.size then { s with tail := (s.size + s.head - 1) % s.size } else s

/-- Where the new bytes go. -/
def writeHead (s : Stream) (wasSeeking : Bool) : Nat :=
  if wasSeeking ∧ s.seekingHeadValid then s.seekingHead else s.head

/-- The tests of `stream_add` that go to `full`. -/
def isFull (size head tail len : Nat) : Bool :=
  let stop := (head + len + 6) % size
  decide (size < len) || decide (head = tail) ||
    (if tail < head then decide (stop < head) && decide (tail < stop)
      else decide (tail < stop) || decide (stop < head))

/-- The one or two `memcpy` calls. -/
def copyIn (s : Stream) (head : Nat) (data : List UInt8) : Nat → UInt8 :=
  let stop := (head + data.length) % s.size
  let size1 := if head < stop then data.length else s.size - head
  let size2 := if head < stop then 0 else stop
  blit (blit s.buf head (data.take size1)) 0 ((data.drop size1).take size2)

/-- The bytes are in the ring: move the head, or the head of the seek. -/
def advance (s : Stream) (wasSeeking : Bool) (head : Nat) (data : List UInt8) : Stream :=
  let stop := (head + data.length) % s.size
  if wasSeeking then { s with buf := s.copyIn head data, seekingHead := stop, seekingHeadValid := true }
  else { s with buf := s.copyIn head data, head := stop }

/-- A parser that runs out of space is prodded to move on by one byte. -/
def prod (s : Stream) (stop newtail : Nat) : Nat :=
  if newtail = s.parserTail ∧ (s.size + newtail - stop) % s.size ≤ 10 then newtail + 1 else newtail

def countFill (s : Stream) (n : Nat) : Stream :=
  { s with
    attr.stats.curBytes := s.attr.stats.curBytes + UInt32.ofNat n
    attr.stats.bytes := s.attr.stats.bytes + n
    attr.stats.fillCount := s.attr.stats.fillCount + 1 }

/-- The bookkeeping at the end of `stream_add`. -/
def filled (s : Stream) (seeking : Bool) (n : Nat) : Stream :=
  (if seeking then s else { s with seekingHeadValid := false }).countFill n

end Stream

/-- The parser callback of `stream_add` and the end of a seek. -/
def runParser (h : Handle) (wasSeeking : Bool) (stop : Nat) : Handle :=
  let r := parseVideoStream h h.video.parserTail stop h.video.size
  let newtail := h.video.prod stop r.2
  let h := { r.1 with video.parserTail := newtail }
  if wasSeeking && !h.seeking then { h with video.head := stop, video.tail := newtail } else h

/-- `stream_add`: the handle after the call and the number of bytes consumed. -/
def streamAdd (h : Handle) (sid : StreamId) (data : List UInt8) (force : Bool) : Handle × Nat :=
  let s := h.stream sid
  let wasSeeking := h.seeking && !force
  if data.length = 0 then (h, 0)
  else if s.parserCallback = false ∧ wasSeeking then (h, data.length)
  else
    let tail := s.limit wasSeeking
    let s := s.hide wasSeeking
    let head := s.writeHead wasSeeking
    if Stream.isFull s.size head tail data.length then (h.setStream sid s.countFull, 0)
    else
      let h := h.setStream sid (s.advance wasSeeking head data)
      let h := if s.parserCallback then runParser h wasSeeking ((head + data.length) % s.size) else h
      (h.setStream sid ((h.stream sid).filled h.seeking data.length), data.length)

end Mvpmc.Demux
