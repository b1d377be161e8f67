import Mvpmc.Demux.Video
import Mvpmc.Demux.Put

/-! `demux_jit_write_audio`: audio written or thrown away packet by packet, just in time. -/
namespace Mvpmc.Demux

def PTS_kHz : Nat := 90

/-- `demux_pts_in_window`. -/
def ptsInWindow (windowStart windowEnd check : UInt32) : Bool :=
  if windowStart < windowEnd then decide (windowStart ≤ check) && decide (check ≤ windowEnd)
  else decide (windowStart ≤ check) || decide (check ≤ windowEnd)

/-- The time stamp in the first 14 bytes of an audio packet. -/
def audioPts (buf : List UInt8) : UInt32 :=
  let b : Nat → UInt32 := fun k => (buf.getD k 0).toUInt32
  (b 13 >>> 1) ||| (b 12 <<< 7) ||| ((b 11 &&& 0xFE) <<< 14) ||| (b 10 <<< 22) ||| ((b 9 &&& 0x6) <<< 29)

/-- The end of the window after a seek, a `double`: `seek_end_pts` is an `int` there. -/
def seekWindowEnd (jit : JitAudioData) : Int := jit.seekEndPts.toInt32.toInt - 27000

/-- The end of the window in which video is ahead of audio, a `double`. -/
def leadWindowEnd (stc : UInt32) : Int := stc.toNat + 9000

/-- What is decided at the start of a packet with a time stamp. `stall` is the `return 0`. -/
structure JitDecision where
  jit : JitAudioData
  flags : Nat := 0
  duration : Int := 0
  stall : Bool := false

section
variable (cast : Int → UInt32)

/-- The decision on a time stamp. `cast` converts a whole `double` to `unsigned int`; what it does
outside the range of the type is left open. -/
def jitDecide (jit : JitAudioData) (stc : UInt32) (mode : Nat) (pts : UInt32) : JitDecision :=
  if mode % 2 = 1 ∧ jit.seekEndPts ≠ 0 then
    let windowStart := jit.seekEndPts - UInt32.ofNat (30 * PTS_HZ)
    let windowEnd := cast (seekWindowEnd jit)
    if ptsInWindow windowStart windowEnd pts then { jit := { jit with ignoreFramePts := 0 }, flags := 1 }
    else if ptsInWindow windowEnd jit.seekEndPts pts then
      let duration : Int := ((jit.seekEndPts - pts).toNat / PTS_kHz : Nat)
      { jit := { jit with ignoreFramePts := 3, seekEndPts := 0 }
        flags := 3
        duration := if 150 < duration then duration - 150 else 0 }
    else { jit := { jit with ignoreFramePts := 2, seekEndPts := 0 }, flags := 2 }
  else if 0 < jit.ignoreFramePts then { jit := { jit with ignoreFramePts := jit.ignoreFramePts - 1 } }
  else if mode / 2 % 2 = 1 then
    let windows0 := stc - UInt32.ofNat (20 * PTS_HZ)
    let windows1 := cast (leadWindowEnd stc)
    let windows2 := stc + UInt32.ofNat (2 * PTS_HZ)
    let windows3 := stc + UInt32.ofNat (20 * PTS_HZ)
    if ptsInWindow windows0 windows1 pts then
      let duration : Int := ((windows1 - pts).toNat / PTS_kHz : Nat)
      { jit := jit, flags := 4, duration := if 500 < duration then 500 else duration }
    else if ptsInWindow windows2 windows3 pts then { jit := jit, flags := 8, duration := 10, stall := true }
    else { jit := jit }
  else { jit := jit }

/-- The bytes at the front are not a start code. -/
def unsynced (buf : List UInt8) : Bool := buf.getD 0 0 != 0 || buf.getD 1 0 != 0 || buf.getD 2 0 != 1

/-- What the search for a start code, or for the start of a packet, comes to: the bytes thrown away,
and a result if there are bytes enough. -/
structure Found (α : Type) where
  audio : Stream
  dropped : List UInt8 := []
  result : Option α := none

/-- One byte after the other is thrown away until a start code is in front. The result is the 14 bytes
seen there. Every round drains a byte. -/
def resync : Nat → Stream → List UInt8 → Found (List UInt8)
  | 0, s, _ => { audio := s }
  | fuel + 1, s, buf =>
    if unsynced buf then
      let r := s.drain 1
      let p := r.1.peek 14
      if p.2.1 < 8 then { audio := p.1, dropped := r.2.2 }
      else
        let f := resync fuel p.1 p.2.2
        { f with dropped := r.2.2 ++ f.dropped }
    else { audio := s, result := some buf }

/-- The start of a packet. -/
def jitStart (h : Handle) (stc : UInt32) (mode : Nat) : Found JitDecision :=
  let p := h.audio.peek 14
  if p.2.1 < 8 then { audio := p.1 }
  else
    let f := resync (h.audio.size + 1) p.1 p.2.2
    match f.result with
    | none => { audio := f.audio, dropped := f.dropped }
    | some buf =>
      let packLen := (buf.getD 4 0).toNat * 256 + (buf.getD 5 0).toNat
      let started (d : JitDecision) : JitDecision :=
        if d.stall then d else { d with jit.frameRemain := packLen + 6 }
      if buf.getD 7 0 &&& 0x80 ≠ 0 then
        if buf.length < 14 then { audio := f.audio, dropped := f.dropped }
        else
          { audio := f.audio, dropped := f.dropped
            result := some (started (jitDecide cast h.jit stc mode (audioPts buf))) }
      else { audio := f.audio, dropped := f.dropped, result := some (started { jit := h.jit }) }

/-- What a call gives back, the bytes it has written to the descriptor and those it has thrown away. -/
structure JitResult where
  ret : Int := 0
  sent : List UInt8 := []
  dropped : List UInt8 := []
  flags : Nat := 0
  duration : Int := 0

/-- The rest of the packet: thrown away while a seek is being caught up with, written otherwise. -/
def jitDeliver (h : Handle) (first second : Option Nat) : Handle × JitResult :=
  if 0 < h.jit.frameRemain then
    if h.jit.seekEndPts ≠ 0 then
      let r := h.audio.drain h.jit.frameRemain
      ({ h with audio := r.1, jit.frameRemain := h.jit.frameRemain - r.2.1 }, { ret := r.2.1, dropped := r.2.2 })
    else
      let r := h.audio.drainFd h.jit.frameRemain first second
      ({ h with audio := r.1, jit.frameRemain := h.jit.frameRemain - r.2.1 }, { ret := r.2.1, sent := r.2.2 })
  else (h, {})

/-- `demux_jit_write_audio`, with the outcomes of the two `write` calls. -/
def demuxJitWriteAudio (h : Handle) (stc : UInt32) (mode : Nat) (first second : Option Nat) : Handle × JitResult :=
  if mode = 0 ∨ mode = 1 ∧ h.jit.seekEndPts = 0 then
    let r := demuxWrite h .audio first second
    (r.1, { ret := r.2.1, sent := r.2.2 })
  else if h.jit.frameRemain ≤ 0 then
    let f := jitStart cast h stc mode
    match f.result with
    | none => ({ h with audio := f.audio }, { dropped := f.dropped })
    | some d =>
      let h := { h with audio := f.audio, jit := d.jit }
      if d.stall then (h, { dropped := f.dropped, flags := d.flags, duration := d.duration })
      else
        let t := jitDeliver h first second
        (t.1, { t.2 with dropped := f.dropped ++ t.2.dropped, flags := d.flags, duration := d.duration })
  else jitDeliver h first second

end

end Mvpmc.Demux
