import Mvpmc.Demux.Frame

/-! The entry points of `demux.c` that feed, drain, select and reset a demuxer. -/
namespace Mvpmc.Demux
open Mvpmc.Lib.Circular

/-- The states `demux_put` hands to `add_buffer`. -/
def isHeaderState (state : Nat) : Bool := decide (1 ≤ state) && decide (state ≤ 4)

/-- The states `demux_put` hands to `parse_frame`. -/
def isFrameState (state : Nat) : Bool :=
  state == MPEG_program_end_code || state == pack_start_code || state == system_header_start_code ||
    state == user_data_start_code || isVideoStream state || isAudioStream state ||
    state == private_stream_2 || state == private_stream_1 || state == padding_stream ||
    state == 0xb3 || state == 0xb5

/-- `demux_put`: the handle after the call and the value returned. State 1 is
handled by `add_buffer`, so control jumps back to `loop` at most once. -/
def demuxPut (h : Handle) (buf : List UInt8) (past : Nat → UInt8) : Handle × Int :=
  if buf.length = 0 then (h, 0)
  else if isHeaderState h.state then
    let r := addBuffer h buf past
    (r.1, r.2)
  else if isFrameState h.state then
    let r := parseFrame h buf past h.state
    if r.1.state = 1 then
      if buf.length - r.2 = 0 then (r.1, 0)
      else
        let t := addBuffer r.1 (buf.drop r.2) past
        (t.1, r.2 + t.2)
    else (r.1, r.2)
  else (h, -1)

/-- The part of `demux_reset` that concerns one ring. -/
def Stream.reset (s : Stream) (size : Nat) : Stream :=
  { s with
    attr.bufsz := size, size := size, head := 0, seekingHeadValid := false
    tail := size - 1, parserTail := size - 1 }

/-- `demux_reset`, once the rings are there. -/
def demuxReset (h : Handle) : Handle :=
  { h with
    video := h.video.reset (h.size - h.size / 5)
    audio := h.audio.reset (h.size / 5)
    spu := fun _ => {}
    jit := {}
    seeking := true
    spuCurrent := -1 }

/-- `demux_init`: `demux_reset` before there are rings, then `start_stream`.
`junk` is what `malloc` leaves in the subpicture buffer. -/
def demuxInit (size : Nat) (junk : Nat → UInt8) : Handle where
  video := { Stream.init (size - size / 5) with parserCallback := true, attr.bufsz := size - size / 5 }
  audio := { Stream.init (size / 5) with attr.bufsz := size / 5 }
  size := size
  seeking := true
  state := 1
  spuBuf := junk

def Stream.attrReset (s : Stream) : Stream :=
  { s with attr.ids := [], attr.current := noStream, attr.stats.curBytes := 0 }

/-- `demux_attr_reset`. -/
def demuxAttrReset (h : Handle) : Handle :=
  { h with
    attrSpu := fun _ => {}
    video := h.video.attrReset
    audio := h.audio.attrReset }

/-- `demux_seek`. -/
def demuxSeek (h : Handle) : Handle := { h with seeking := true, jit := {}, gopValid := false }

/-- `demux_flush`. -/
def demuxFlush (h : Handle) : Handle :=
  { h with video := h.video.empty, audio := h.audio.empty, jit := {}, seeking := true }

/-- `demux_get_audio` and `demux_get_video`. -/
def demuxGet (h : Handle) (sid : StreamId) (max : Int) : Handle × Int × List UInt8 :=
  if max ≤ 0 then (h, -1, [])
  else
    let r := (h.stream sid).drain max
    (h.setStream sid r.1, r.2)

/-- `demux_write_audio` and `demux_write_video`. -/
def demuxWrite (h : Handle) (sid : StreamId) (first second : Option Nat) : Handle × Int × List UInt8 :=
  let r := (h.stream sid).drainFd (-1) first second
  (h.setStream sid r.1, r.2)

def StreamType.code : StreamType → Int
  | .mpeg => 0
  | .ac3 => 1
  | .pcm => 2

/-- `demux_set_audio_stream` and `demux_set_video_stream`: only a registered id can
be selected; the value returned is its type. -/
def demuxSetStream (h : Handle) (sid : StreamId) (id : Nat) : Handle × Int :=
  let s := h.stream sid
  if s.attr.current = id then (h, 0)
  else
    match s.attr.ids.find? (·.id == id) with
    | some info => (h.setStream sid { s with attr.current := id }, info.type.code)
    | none => (h, -1)

end Mvpmc.Demux
