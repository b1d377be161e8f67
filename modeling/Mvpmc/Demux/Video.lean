import Mvpmc.Demux.Handle

/-! `parse_video_stream`: the scanner that runs over the video ring whenever
bytes are added to it, and ends a seek at a decent restart point. -/
namespace Mvpmc.Demux
open Mvpmc.Lib.Circular

def PTS_HZ : Nat := 90000

def user_data_start_code : Nat := 0xB2

/-- `ringbuf_valid`: `i` lies strictly between `tail` and `head` on the ring. -/
def ringbufValid (tail head size i : Nat) : Bool :=
  let j := if 0 < i ∧ i < size then i else (i + size) % size
  (decide (head < tail) && decide (tail < j)) ||
    (decide (j < head) && (decide (head < tail) || decide (tail < j)))

/-- The shift-and-mask decoding of a 33 bit time stamp into 32 bits. -/
def stamp (b0 b1 b2 b3 b4 : UInt8) : UInt32 :=
  (b0.toUInt32 >>> 1) ||| (b1.toUInt32 <<< 7) ||| ((b2.toUInt32 >>> 1) <<< 15) |||
    (b3.toUInt32 <<< 22) ||| (((b4.toUInt32 >>> 1) &&& 7) <<< 30)

/-- `parse_afd` on the six bytes collected by its caller; -1 is `none`. -/
def parseAfd (b : Nat → UInt8) : Option Nat :=
  if b 0 = 0x44 ∧ b 1 = 0x54 ∧ b 2 = 0x47 ∧ b 3 = 0x31 then
    if b 4 &&& 0xBF = 1 then
      if b 4 &&& 0x40 ≠ 0 then
        if b 5 &&& 0xF0 ≠ 0xF0 then none else some (b 5 &&& 0xF).toNat
      else some 0
    else none
  else none

/-- The locals of `parse_video_stream` together with the handle it changes. -/
structure Scan where
  h : Handle
  i : Nat
  seekingFoundStart : Nat := 0
  seekingStart : Int := 0
  nextSeekingStart : Int := -1
  syncFound : Bool := false

namespace Scan

def ringbuf (sc : Scan) (size k : Nat) : UInt8 := sc.h.video.buf (k % size)

/-- Bookkeeping of a video start code while seeking: a start code at most six
bytes after the previous one counts as the second of a pair. -/
def seekStart (sc : Scan) (size : Nat) : Scan :=
  if sc.h.seeking && !(decide (1 < sc.seekingFoundStart) && sc.syncFound) then
    let start := if 1 < sc.seekingFoundStart then sc.nextSeekingStart else sc.seekingStart
    if sc.seekingFoundStart ≠ 0 ∧ u32 ((size : Int) + sc.i - start) % size ≤ 6 then
      { sc with
        seekingStart := start
        seekingFoundStart := sc.seekingFoundStart + 1
        nextSeekingStart := sc.i
        syncFound := false }
    else
      { sc with
        nextSeekingStart := -1
        seekingStart := sc.i
        seekingFoundStart := 1
        syncFound := false }
  else sc

/-- The time stamps behind a video start code. The flag says that they are not all
in the ring yet; what was read so far is kept. -/
def timeStamps (sc : Scan) (tail head size : Nat) : VidParserData × Bool :=
  let rb : Nat → UInt8 := sc.ringbuf size
  let pd := { sc.h.video.parserData with dts := 0, pts := 0 }
  if ringbufValid tail head size (sc.i + 3) then
    let hasPts := rb (sc.i + 3) >>> 7
    let hasDts := (rb (sc.i + 3) >>> 6) &&& 1
    let pd := { pd with dts := hasDts.toUInt32, pts := hasPts.toUInt32 }
    if hasPts ≠ 0 ∧ ringbufValid tail head size (sc.i + 9) = false then (pd, true)
    else
      let pd := if hasPts ≠ 0 then { pd with
          pts := stamp (rb (sc.i + 9)) (rb (sc.i + 8)) (rb (sc.i + 7)) (rb (sc.i + 6)) (rb (sc.i + 5)) }
        else pd
      if hasDts ≠ 0 ∧ ringbufValid tail head size (sc.i + 14) = false then (pd, true)
      else if hasDts ≠ 0 then
        ({ pd with
          dts := stamp (rb (sc.i + 10)) (rb (sc.i + 11)) (rb (sc.i + 12)) (rb (sc.i + 13)) (rb (sc.i + 14)) }, false)
      else (pd, false)
  else (pd, true)

/-- A video start code. The flag says that the scan goes to `out`. -/
def videoCode (sc : Scan) (tail head size : Nat) : Scan × Bool :=
  let r := sc.timeStamps tail head size
  let sc : Scan := { sc with h.video.parserData := r.1 }
  if r.2 then (sc, true) else (sc.seekStart size, false)

/-- A picture header; only an I frame counts as a sync point. -/
def pictureCode (sc : Scan) (tail head size : Nat) : Scan × Bool :=
  if ringbufValid tail head size (sc.i + 1) then
    if (sc.ringbuf size (sc.i + 1) >>> 3) &&& 7 = 1 then ({ sc with syncFound := true }, false)
    else (sc, false)
  else (sc, true)

/-- The aspect ratio is announced when it changes and every 30 seconds. -/
def aspectDue (pd : VidParserData) (changed : Bool) : Bool :=
  changed || decide (pd.pts < pd.aspectPts) ||
    decide (pd.aspectPts + UInt32.ofNat (30 * PTS_HZ) < pd.pts)

def announceAspect (sc : Scan) (aspect afd : Nat) : Scan :=
  { sc with
    h.vidEvents := sc.h.vidEvents ++ [⟨sc.h.video.parserData.pts, aspect, afd⟩]
    h.video.parserData.aspectPts := sc.h.video.parserData.pts }

/-- A sequence header. A PAL height is rewritten in the ring for an NTSC display. -/
def sequenceCode (sc : Scan) (tail head size : Nat) : Scan × Bool :=
  if ringbufValid tail head size (sc.i + 3) then
    let w := (sc.ringbuf size (sc.i + 1) >>> 4).toNat ||| ((sc.ringbuf size sc.i).toNat <<< 4)
    let ht := ((sc.ringbuf size (sc.i + 1) &&& 0xf).toNat <<< 8) ||| (sc.ringbuf size (sc.i + 2)).toNat
    let sc : Scan := if sc.h.height = 480 ∧ ht = 576 then { sc with
        h.video.buf := Function.update
          (Function.update sc.h.video.buf ((sc.i + 2) % size) 0xE0) ((sc.i + 1) % size)
            (1 ||| (Function.update sc.h.video.buf ((sc.i + 2) % size) 0xE0 ((sc.i + 1) % size) &&& 0xf0)) }
      else sc
    let aspect := (sc.ringbuf size (sc.i + 3) >>> 4).toNat
    let frameRate := (sc.ringbuf size (sc.i + 3) &&& 0xf).toNat
    let sc : Scan := { sc with
      h.video.attr.stats.video.width := w
      h.video.attr.stats.video.height := ht }
    let vi : VideoInfo := sc.h.video.attr.stats.video
    let sc : Scan := if aspectDue sc.h.video.parserData (aspect != vi.aspect) then sc.announceAspect aspect vi.afd else sc
    ({ sc with
      h.video.attr.stats.video.aspect := aspect
      h.video.attr.stats.video.frameRate := frameRate }, false)
  else (sc, true)

/-- The bit rate since the last GOP, from the time stamps if possible. -/
def newBps (h : Handle) (hour minute second : Nat) : UInt32 :=
  if h.gop.pts ≠ 0 ∧ h.gop.pts < h.video.parserData.pts then
    ((h.bytes - h.gop.offset) * 90 / (h.video.parserData.pts - h.gop.pts)) * 1000
  else
    let delta : Int := ((hour : Int) - h.gop.hour) * 3600 + ((minute : Int) - h.gop.minute) * 60 +
      ((second : Int) - h.gop.second)
    if 0 < delta then (h.bytes - h.gop.offset) / UInt32.ofInt delta else 0

/-- A GOP header. -/
def gopCode (sc : Scan) (tail head size : Nat) : Scan × Bool :=
  if ringbufValid tail head size (sc.i + 3) then
    let rb : Nat → UInt8 := sc.ringbuf size
    if rb (sc.i + 3) &&& 0x1f ≠ 0 then (sc, false)
    else
      let hour := ((rb sc.i >>> 2) &&& 0x1f).toNat
      let minute := (rb (sc.i + 1) >>> 4).toNat ||| ((rb sc.i &&& 3).toNat <<< 4)
      let second := ((rb (sc.i + 1) &&& 7).toNat <<< 3) ||| (rb (sc.i + 2) >>> 5).toNat
      let frame := ((rb (sc.i + 2) &&& 0x1f).toNat <<< 1) ||| (rb (sc.i + 3) >>> 7).toNat
      let gop : Gop := ⟨hour, minute, second, frame, sc.h.bytes, sc.h.video.parserData.pts⟩
      let sc : Scan := if sc.h.seeking then { sc with h.bps := 0, h.gop := gop, h.gopValid := true }
        else
          let bps := newBps sc.h hour minute second
          if bps ≠ 0 then { sc with h.bps := bps.toBitVec.toInt, h.gop := gop, h.gopValid := true } else sc
      ({ sc with syncFound := true }, false)
  else (sc, true)

/-- User data: an AFD if there is one. Control then falls through to the GOP case. -/
def userDataCode (sc : Scan) (tail head size : Nat) : Scan × Bool :=
  if ringbufValid tail head size (sc.i + 5) then
    let sc : Scan := match parseAfd fun j => sc.ringbuf size (sc.i + j) with
      | some afd =>
        if aspectDue sc.h.video.parserData (afd != sc.h.video.attr.stats.video.afd) then
          ({ sc with h.video.attr.stats.video.afd := afd }).announceAspect
            sc.h.video.attr.stats.video.aspect afd
        else sc
      | none => sc
    sc.gopCode tail head size
  else (sc, true)

/-- The switch over the byte behind a start code prefix. -/
def code (sc : Scan) (tail head size identifier : Nat) : Scan × Bool :=
  if 0xE0 ≤ identifier ∧ identifier ≤ 0xEF then sc.videoCode tail head size
  else if identifier = 0 then sc.pictureCode tail head size
  else if identifier = 0xb3 then sc.sequenceCode tail head size
  else if identifier = user_data_start_code then sc.userDataCode tail head size
  else if identifier = 0xb8 then sc.gopCode tail head size
  else (sc, false)

/-- The ring byte `k` places before `i`. -/
def behind (sc : Scan) (size k : Nat) : UInt8 :=
  if sc.i < 4 then sc.h.video.buf (u32 ((sc.i : Int) - k + size) % size) else sc.h.video.buf (sc.i - k)

/-- A start code prefix ends two bytes before `i`. -/
def isHeader (sc : Scan) (size : Nat) : Bool :=
  sc.behind size 4 == 0 && sc.behind size 3 == 0 && sc.behind size 2 == 1

/-- The index is brought back into the ring only when it has passed `size`. -/
def wrap (sc : Scan) (size : Nat) : Scan := { sc with i := if size < sc.i then sc.i % size else sc.i }

def next (sc : Scan) (n : Nat) : Scan := { sc with i := sc.i + n }

/-- The scan loop. It advances in every round, so `size` rounds see the whole ring. -/
def loop (tail head size : Nat) : Nat → Scan → Scan
  | 0, sc => sc
  | fuel + 1, sc =>
    if ringbufValid tail head size sc.i then
      let sc := sc.wrap size
      if sc.isHeader size then
        let r := sc.code tail head size (sc.behind size 1).toNat
        if r.2 then r.1 else loop tail head size fuel (r.1.next 4)
      else loop tail head size fuel (sc.next 1)
    else sc

end Scan

/-- `parse_video_stream`: the handle after the scan and the new parser tail. -/
def parseVideoStream (h : Handle) (tail head size : Nat) : Handle × Nat :=
  let sc : Scan := Scan.loop tail head size size { h := h, i := tail + 5 }
  let ret : Int := if sc.h.seeking ∧ sc.seekingFoundStart ≠ 0 then sc.seekingStart else sc.i
  let h' := if sc.h.seeking ∧ 1 < sc.seekingFoundStart ∧ sc.syncFound then
      { sc.h with seeking := false, jit.seekEndPts := sc.h.video.parserData.pts }
    else sc.h
  (h', u32 ((size : Int) + ret - 5) % size)

end Mvpmc.Demux
