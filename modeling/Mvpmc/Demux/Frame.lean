import Mvpmc.Demux.Spu
import Mvpmc.Demux.StreamAdd

/-! `parse_frame` and `add_buffer`: the resumable state machine over the program
stream. A buffer is a list of bytes; `past` is the memory that follows it. -/
namespace Mvpmc.Demux
open Mvpmc.Lib.Circular

def pack_start_code : Nat := 0xBA
def system_header_start_code : Nat := 0xBB
def MPEG_program_end_code : Nat := 0xB9
def private_stream_1 : Nat := 0xBD
def private_stream_2 : Nat := 0xBF
def padding_stream : Nat := 0xBE

def AUDIO_MODE_MPEG2_PES : Nat := 2
def AUDIO_MODE_MPEG1_PES : Nat := 3
def AUDIO_MODE_AC3 : Nat := 4
def AUDIO_MODE_PCM : Nat := 5

def isAudioStream (type : Nat) : Bool := decide (0xC0 ≤ type) && decide (type ≤ 0xCF)
def isVideoStream (type : Nat) : Bool := decide (0xE0 ≤ type) && decide (type ≤ 0xEF)

/-- The packets that are read over, or collected as a whole. -/
def isOtherStream (type : Nat) : Bool :=
  type == private_stream_1 || type == private_stream_2 || type == system_header_start_code ||
    type == padding_stream

/-- A private audio substream is registered, selected if it is the first, and sets the type. -/
def Stream.announce (s : Stream) (sub mode : Nat) (kind : StreamType) : Stream :=
  ((s.register sub kind).selectFirst sub).setType mode

/-- The audio of a private packet that is being played. -/
def playPrivate (ac3 : Bool) (h : Handle) (data : List UInt8) : Handle × Nat :=
  streamAdd { h with ac3Audio := h.ac3Audio || ac3 } .audio data true

/-- The body shared by `parse_ac3_frame` and `parse_pcm_frame`. -/
def parsePrivateAudio (base mode : Nat) (kind : StreamType) (ac3 : Bool) (h : Handle) (mem : Nat → UInt8)
    (len : Nat) : Handle × Int :=
  let sub := byteAt mem (byteAt mem 2 + 3)
  let offset := byteAt mem 2 + 7
  if 31 < u32 ((sub : Int) - base) then (h, -1)
  else
    let h := h.setStream .audio (h.audio.announce sub mode kind)
    if sub = h.audio.attr.current then
      let r := playPrivate ac3 h (slice (fun i => mem (offset + i)) 0 (len - offset))
      (r.1, r.2 + offset)
    else (h, len)

/-- `parse_ac3_frame`. -/
def parseAc3Frame : Handle → (Nat → UInt8) → Nat → Handle × Int :=
  parsePrivateAudio 128 AUDIO_MODE_AC3 .ac3 true

/-- `parse_pcm_frame`. -/
def parsePcmFrame : Handle → (Nat → UInt8) → Nat → Handle × Int :=
  parsePrivateAudio 160 AUDIO_MODE_PCM .pcm false

/-- The parsers tried in turn on a complete private stream 1 packet. -/
def parsePrivateStream1 (h : Handle) (mem : Nat → UInt8) (len : Nat) : Handle :=
  let spu := parseSpuFrame h mem len
  if spu.2 = 0 then spu.1
  else
    let ac3 := parseAc3Frame spu.1 mem len
    if 0 ≤ ac3.2 then ac3.1 else (parsePcmFrame ac3.1 mem len).1

/-- Account for `n` bytes taken out of the `remain` bytes left in the frame. -/
def consume (h : Handle) (n : Nat) : Handle :=
  if h.remain = n then { h with state := 1 } else { h with remain := h.remain - n }

/-- `n` more bytes of a private stream 1 packet; the parsers run once it is complete. -/
def gather (h : Handle) (buf : List UInt8) (n : Nat) : Handle :=
  let h := { h with spuBuf := blit h.spuBuf h.spuLen (buf.take n), spuLen := h.spuLen + n }
  if h.remain = n then { parsePrivateStream1 h h.spuBuf h.spuLen with spuLen := 0 } else h

/-- The part of `parse_frame` that continues a frame with `remain` bytes left. -/
def continueFrame (h : Handle) (buf : List UInt8) : Handle × Nat :=
  let n := min h.remain buf.length
  match h.frameState with
  | 0 => (consume h n, n)
  | 1 => let r := streamAdd h .audio (buf.take n) true; (consume r.1 r.2, r.2)
  | 2 => let r := streamAdd h .video (buf.take n) false; (consume r.1 r.2, r.2)
  | 3 => (consume h n, n)
  | 4 => (consume (gather h buf n) n, n)
  | _ => (consume { h with state := 1 } n, n)

/-- Collect header bytes in `handle->buf` until there are `k` of them: the number of
bytes taken, and whether the header is complete. -/
def collect (h : Handle) (k : Nat) (buf : List UInt8) : Handle × Nat × Bool :=
  let done := decide (k ≤ buf.length + h.bufsz)
  let n := if done then k - h.bufsz else buf.length
  ({ h with buf := blit h.buf h.bufsz (buf.take n), bufsz := h.bufsz + n }, n, done)

/-- A packet whose first `k` bytes are collected before `body` sees the rest. -/
def withHeader (k : Nat) (h : Handle) (buf : List UInt8) (body : Handle → List UInt8 → Handle × Nat) :
    Handle × Nat :=
  let c := collect h k buf
  if c.2.2 then
    let r := body c.1 (buf.drop c.2.1)
    (r.1, c.2.1 + r.2)
  else (c.1, c.2.1)

/-- The packet length from the two bytes in `handle->buf`. -/
def frameLength (h : Handle) : Nat := byteAt h.buf 0 * 256 + byteAt h.buf 1

/-- A pack header of which seven bytes are known. -/
def packBody (h : Handle) (rest : List UInt8) : Handle × Nat :=
  if h.buf 0 &&& 0xf0 = 0x20 then ({ h with video := h.video.setType 1, state := 1 }, 0)
  else if h.buf 0 &&& 0xc0 = 0x40 then
    let h := { h with video := h.video.setType 2 }
    if 3 ≤ rest.length then
      let n := (rest.getD 2 0 &&& 7).toNat
      if 2 + n ≤ rest.length then ({ h with state := 1 }, 2 + n)
      else ({ h with remain := 2 + n - rest.length, frameState := 1 }, rest.length)
    else
      ({ h with buf := blit h.buf 0 rest, bufsz := rest.length, frameState := 3, remain := 3 - rest.length },
        rest.length)
  else ({ h with state := 1 }, 0)

/-- `case pack_start_code`. -/
def packStart (h : Handle) (buf : List UInt8) : Handle × Nat := withHeader 7 h buf packBody

/-- A packet that is skipped, or collected as a whole in `spu_buf`. -/
def otherBody (past : Nat → UInt8) (type : Nat) (h : Handle) (rest : List UInt8) : Handle × Nat :=
  let n := frameLength h
  if n ≤ rest.length then
    let h := if type = private_stream_1 then parsePrivateStream1 h (memory rest past) n else h
    ({ h with state := 1 }, n)
  else
    let h := { h with remain := n - rest.length }
    let h := if type = private_stream_1 then
        { h with frameState := 4, spuBuf := blit h.spuBuf 0 rest, spuLen := rest.length }
      else { h with frameState := 0 }
    (h, rest.length)

/-- The private, padding and system header packets. -/
def otherStream (h : Handle) (buf : List UInt8) (past : Nat → UInt8) (type : Nat) : Handle × Nat :=
  withHeader 2 h buf (otherBody past type)

/-- The start code that was read past, put together again for the decoders. -/
def startCode (type : Nat) : List UInt8 := [0, 0, 1, UInt8.ofNat type]

/-- The loop that puts the header into the video ring, twice while seeking. Four
rounds are enough, as every round that goes on counts up `headernum`. -/
def videoHeaders (type : Nat) : Nat → Handle → Handle
  | 0, h => h
  | fuel + 1, h =>
    if h.headernum < 2 ∨ (h.seeking ∧ h.headernum < 4) then
      let r := if h.headernum % 2 = 0 then streamAdd h .video (startCode type) false else (h, 4)
      if r.2 ≠ 4 then r.1
      else
        let h := if h.headernum % 2 = 0 then { r.1 with headernum := r.1.headernum + 1 } else r.1
        if h.headernum % 2 = 1 then
          let r := streamAdd h .video (slice h.buf 0 h.bufsz) false
          if r.2 ≠ h.bufsz then r.1
          else videoHeaders type fuel { r.1 with headernum := r.1.headernum + 1 }
        else videoHeaders type fuel h
    else h

/-- The `frame_state` of a payload. -/
def StreamId.frameState : StreamId → Nat
  | .audio => 1
  | .video => 2

/-- The payload of a packet for one of the rings: what the ring takes of it, and
what then remains of the frame. -/
def payload (h : Handle) (sid : StreamId) (force : Bool) (rest : List UInt8) (n : Nat) : Handle × Nat :=
  if n ≤ rest.length then
    let r := streamAdd h sid (rest.take n) force
    if n = r.2 then ({ r.1 with state := 1 }, r.2)
    else ({ r.1 with remain := n - r.2, frameState := sid.frameState }, r.2)
  else
    let r := streamAdd h sid rest force
    ({ r.1 with remain := n - r.2, frameState := sid.frameState }, r.2)

/-- The stream of a start code is registered, and selected if it is the first. -/
def Handle.meet (h : Handle) (sid : StreamId) (type : Nat) : Handle :=
  h.setStream sid ((h.stream sid).meet type)

/-- A stream that is not being played is thrown away. -/
def discard (h : Handle) : Handle × Nat := ({ h with remain := frameLength h, frameState := 0 }, 0)

/-- A video packet whose length is known: the headers, then the payload. -/
def videoBody (type : Nat) (h : Handle) (rest : List UInt8) : Handle × Nat :=
  if type ≠ h.video.attr.current then discard h
  else
    let h := videoHeaders type 4 h
    payload { h with video := h.video.countFrame } .video false rest (frameLength h)

/-- `case video_stream_0 ... video_stream_F`. -/
def videoStream (h : Handle) (buf : List UInt8) (type : Nat) : Handle × Nat :=
  withHeader 2 (h.meet .video type) buf (videoBody type)

/-- `case 0xb3`, `0xb5`, `0xb8` and `0x00`. -/
def iframe (h : Handle) (buf : List UInt8) (type : Nat) : Handle × Nat :=
  if h.allowIframe then
    let r := streamAdd h .video (startCode type) false
    if r.2 ≠ 4 then (r.1, 0)
    else
      let r := streamAdd r.1 .video buf false
      if buf.length = r.2 then ({ r.1 with state := 1 }, r.2)
      else ({ r.1 with remain := buf.length - r.2, frameState := 2 }, r.2)
  else ({ h with state := 1 }, 0)

/-- The guess of the PES flavour from the first byte that is not stuffing. -/
def audioType (old : Nat) (rest : List UInt8) : Nat :=
  if 20 ≤ rest.length then
    match (rest.take 14).find? (· != 0xff) with
    | some b =>
      if b &&& 0xc0 = 0x80 then AUDIO_MODE_MPEG2_PES
      else if b &&& 0xc0 = 0x40 then AUDIO_MODE_MPEG1_PES else old
    | none => old
  else old

/-- Put a part of the header into the audio ring, unless it is there already. The
flag says that the ring took it. -/
def audioPart (h : Handle) (num : Nat) (part : List UInt8) : Handle × Bool :=
  if h.headernum = num then
    let r := streamAdd h .audio part true
    if r.2 ≠ part.length then (r.1, false) else ({ r.1 with headernum := r.1.headernum + 1 }, true)
  else (h, true)

/-- The start code and the length bytes of an audio packet. -/
def audioHeader (h : Handle) (type : Nat) : Handle × Bool :=
  let r := audioPart h 0 (startCode type)
  if r.2 then audioPart r.1 1 (slice r.1.buf 0 r.1.bufsz) else r

/-- An audio packet whose length is known. -/
def audioBody (type : Nat) (h : Handle) (rest : List UInt8) : Handle × Nat :=
  if type ≠ h.audio.attr.current then discard h
  else
    let r := audioHeader h type
    if r.2 then
      let s := r.1.audio.countFrame
      payload { r.1 with audio := s.setType (audioType s.attr.type rest) } .audio true rest (frameLength r.1)
    else (r.1, 0)

/-- `case audio_stream_0 ... audio_stream_F`. -/
def audioStream (h : Handle) (buf : List UInt8) (type : Nat) : Handle × Nat :=
  withHeader 2 (h.meet .audio type) buf (audioBody type)

/-- The second half of `parse_frame`, for a known type. -/
def frameBody (h : Handle) (buf : List UInt8) (past : Nat → UInt8) (type : Nat) : Handle × Nat :=
  if h.remain ≠ 0 then continueFrame h buf
  else if type = MPEG_program_end_code then ({ h with state := 1 }, 0)
  else if type = pack_start_code then packStart h buf
  else if isOtherStream type then otherStream h buf past type
  else if isVideoStream type then videoStream h buf type
  else if type = 0xb3 ∨ type = 0xb5 ∨ type = 0xb8 ∨ type = 0 then iframe h buf type
  else if isAudioStream type then audioStream h buf type
  else ({ h with state := 1 }, 0)

/-- The reset of the frame fields when the type byte is read. -/
def startFrame (h : Handle) (type : Nat) : Handle :=
  { h with frameState := 0, remain := 0, state := type, bufsz := 0, buf := fun _ => 0, headernum := 0 }

/-- `parse_frame`: the handle after the call and the number of bytes consumed. -/
def parseFrame (h : Handle) (buf : List UInt8) (past : Nat → UInt8) (type : Nat) : Handle × Nat :=
  match buf with
  | [] => (h, 0)
  | b :: rest =>
    if type = 0 then
      let r := frameBody (startFrame h b.toNat) rest past b.toNat
      (r.1, r.2 + 1)
    else frameBody h buf past type

/-- One byte in the states 1, 2 and 3, the search for the prefix 00 00 01. -/
def scanByte (state : Nat) (b : UInt8) : Nat :=
  match state with
  | 1 => if b = 0 then 2 else 1
  | 2 => if b = 0 then 3 else 1
  | 3 => if b = 1 then 4 else if b = 0 then 3 else 1
  | _ => 1

/-- The position in the media stream, behind `n` more bytes. -/
def Handle.counted (h : Handle) (n : Nat) : Handle := { h with bytes := h.bytes + UInt32.ofNat n }

/-- The loop of `add_buffer`; every round consumes, so the length is enough fuel. -/
def addBufferLoop (past : Nat → UInt8) : Nat → Handle → List UInt8 → Handle × Nat
  | 0, h, _ => (h, 0)
  | _, h, [] => (h, 0)
  | fuel + 1, h, b :: rest =>
    if h.state = 4 then
      let r := parseFrame h (b :: rest) past 0
      -- the byte count runs ahead of the bytes consumed by one for each frame
      let h := r.1.counted (r.2 + 1)
      if h.state ≠ 1 then (h, r.2)
      else
        let t := addBufferLoop past fuel h ((b :: rest).drop r.2)
        (t.1, r.2 + t.2)
    else
      let t := addBufferLoop past fuel (Handle.counted { h with state := scanByte h.state b } 1) rest
      (t.1, 1 + t.2)

/-- `add_buffer`. -/
def addBuffer (h : Handle) (buf : List UInt8) (past : Nat → UInt8) : Handle × Nat :=
  addBufferLoop past buf.length h buf

end Mvpmc.Demux
