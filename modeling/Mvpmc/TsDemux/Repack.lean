import Mathlib.Tactic
import Mathlib.Data.UInt
import Mvpmc.TsDemux.Packet

/-! The repacker (`transform.c`): PES packets of any length that come in pieces of any length go on as PES packets
that fit a buffer. -/
namespace Mvpmc.TsDemux
open Mvpmc.Lib.Circular

def PROG_STREAM_MAP : UInt8 := 0xBC
def PRIVATE_STREAM1 : UInt8 := 0xBD
def PADDING_STREAM : UInt8 := 0xBE
def PRIVATE_STREAM2 : UInt8 := 0xBF
def AUDIO_STREAM_S : UInt8 := 0xC0
def AUDIO_STREAM_E : UInt8 := 0xDF
def VIDEO_STREAM_S : UInt8 := 0xE0
def VIDEO_STREAM_E : UInt8 := 0xEF
def ECM_STREAM : UInt8 := 0xF0
def EMM_STREAM : UInt8 := 0xF1
def DSM_CC_STREAM : UInt8 := 0xF2
def ISO13522_STREAM : UInt8 := 0xF3
def PROG_STREAM_DIR : UInt8 := 0xFF

def PTS_DTS_FLAGS : UInt8 := 0xC0
def PTS_ONLY : UInt8 := 0x80
def PTS_DTS : UInt8 := 0xC0

def PES_SIZE : Nat := 8192

/-- The ids whose packets are skipped. -/
def Skipped (b : UInt8) : Prop :=
  b = PROG_STREAM_MAP ∨ b = PRIVATE_STREAM2 ∨ b = PROG_STREAM_DIR ∨ b = ECM_STREAM ∨ b = EMM_STREAM ∨
    b = PADDING_STREAM ∨ b = DSM_CC_STREAM ∨ b = ISO13522_STREAM

/-- The ids of audio and video. -/
def AudioVideo (b : UInt8) : Prop :=
  (AUDIO_STREAM_S ≤ b ∧ b ≤ AUDIO_STREAM_E) ∨ (VIDEO_STREAM_S ≤ b ∧ b ≤ VIDEO_STREAM_E)

instance (b : UInt8) : Decidable (Skipped b) := inferInstanceAs (Decidable (_ ∨ _))

instance (b : UInt8) : Decidable (AudioVideo b) := inferInstanceAs (Decidable (_ ∨ _))

/-- `ipack`, without the fields that nothing here reads. -/
structure Pack where
  size : Nat
  sizeOrig : Nat
  found : Nat
  cid : UInt8
  plength : Nat
  plen : UInt8 × UInt8
  flag1 : UInt8
  flag2 : UInt8
  hlength : UInt8
  pts : Nat → UInt8
  lastPts : Nat → UInt8
  mpeg : Nat
  check : UInt8
  which : Nat
  done : Bool
  count : Nat
  buf : Nat → UInt8

/-- What C leaves open: a frame size that was never set or lies outside its table, and a division by zero. -/
structure Unset where
  framesize : UInt32
  quotient : UInt32

/-- The rows of `ac3_frames`. -/
def ac3Frames : List (List UInt32) :=
  [[64, 80, 96, 112, 128, 160, 192, 224, 256, 320, 384, 448, 512, 640, 768, 896, 1024, 1152, 1280],
   [69, 87, 104, 121, 139, 174, 208, 243, 278, 348, 417, 487, 557, 696, 835, 975, 1114, 1253, 1393],
   [96, 120, 144, 168, 192, 240, 288, 336, 384, 480, 576, 672, 768, 960, 1152, 1344, 1536, 1728, 1920]]

/-- `ai->framesize` for the byte behind the checksum. -/
def frameSize (u : Unset) (headr : UInt8) : UInt32 :=
  let frame := headr &&& 0x3f
  let fr := (headr &&& 0xc0) >>> 6
  match ac3Frames[fr.toNat]? with
  | none => u.framesize
  | some row =>
    let size := row.getD (frame >>> 1).toNat 0
    (if frame &&& 1 ≠ 0 ∧ fr = 1 then size + 1 else size) <<< 1

/-- Where the first AC3 frame starts. -/
def ac3Sync : List UInt8 → Option Nat
  | [] => none
  | b :: bytes => if b = 0x0b ∧ bytes.head? = some 0x77 then some 0 else (ac3Sync bytes).map (· + 1)

/-- `get_ac3info`: where a frame starts, and its size. -/
def getAc3info (u : Unset) (mbuf : List UInt8) : Option (Nat × UInt32) :=
  match ac3Sync mbuf with
  | none => none
  | some c => if mbuf.length ≤ c + 5 then none else some (c, frameSize u (mbuf.getD (c + 4) 0))

/-- A quotient of unsigned ints. -/
def divided (u : Unset) (a b : UInt32) : UInt32 := if b = 0 then u.quotient else a / b

/-- `trans_pts_dts`. -/
def transPtsDts (pts : Nat → UInt8) : UInt64 :=
  let b (i : Nat) : UInt64 := (pts i).toUInt64
  (((b 0 &&& 0x0E) <<< 5 ||| (b 1 &&& 0xFC) >>> 2) <<< 24) |||
    (((b 1 &&& 0x03) <<< 6 ||| (b 2 &&& 0xFC) >>> 2) <<< 16) |||
    (((b 2 &&& 0x02) <<< 6 ||| (b 3 &&& 0xFE) >>> 1) <<< 8) |||
    ((b 3 &&& 0x01) <<< 7 ||| (b 4 &&& 0xFE) >>> 1)

/-- `reset_ipack`. -/
def resetPack (p : Pack) : Pack :=
  { p with
    found := 0
    cid := 0
    plength := 0
    flag1 := 0
    flag2 := 0
    hlength := 0
    mpeg := 0
    check := 0
    which := 0
    done := false
    count := 0
    size := p.sizeOrig }

/-- `init_ipack`, on memory with anything in it. -/
def initPack (p : Pack) (size : Nat) : Pack := resetPack { p with sizeOrig := size }

/-- The AC3 header of a packet that is sent, with the id of its substream and the offset for the next. -/
def ac3Header (u : Unset) (p : Pack) : Pack × UInt8 × UInt32 :=
  let off := 9 + (p.buf 8).toNat
  let streamid := p.buf off
  if streamid &&& 0xF8 = 0x80 then
    let ac3Off := (p.buf (off + 2)).toNat * 256 + (p.buf (off + 3)).toNat
    let info := if ac3Off < p.count then getAc3info u (slice p.buf (off + 3 + ac3Off) (p.count - ac3Off))
      else some (0, u.framesize)
    match info with
    | some (0, framesize) =>
      let nframes := divided u (UInt32.ofInt ((p.count : Int) - off - 3 - ac3Off)) framesize + 1
      ({ p with buf := blit p.buf (off + 1) [nframes.toUInt8, UInt8.ofNat (ac3Off / 256), UInt8.ofNat ac3Off] },
        streamid, UInt32.ofNat ac3Off + nframes * framesize - UInt32.ofNat p.count)
    | _ => (p, streamid, UInt32.ofNat ac3Off)
  else (p, streamid, 0)

/-- The header of the packet that goes on where the one before was full. -/
def nextHeader (p : Pack) (streamid : UInt8) (ac3Off : UInt32) : Pack :=
  match p.mpeg with
  | 2 =>
    if p.cid = PRIVATE_STREAM1 ∧ streamid &&& 0xF8 = 0x80 then
      { p with buf := blit p.buf 6 [0x80, 0, 0, streamid, 0, (ac3Off >>> 8).toUInt8, ac3Off.toUInt8], count := 13 }
    else if p.cid = PRIVATE_STREAM1 ∧ streamid &&& 0xF8 = 0x20 then
      { p with buf := blit p.buf 6 [0x80, 0, 0, 0x20, 0], count := 11 }
    else { p with buf := blit p.buf 6 [0x80, 0, 0], count := 9 }
  | 1 => { p with buf := blit p.buf 6 [0x0F], count := 7 }
  | _ => p

/-- The id and the length of the packet in the buffer. -/
def sealPack (p : Pack) : Pack :=
  { p with buf := blit p.buf 3 [p.cid, UInt8.ofNat ((p.count - 6) / 256), UInt8.ofNat (p.count - 6)] }

/-- The packet as it is sent, with the id of its substream and the offset for the next. -/
def sentPack (u : Unset) (p : Pack) : Pack × UInt8 × UInt32 :=
  if p.cid = PRIVATE_STREAM1 then ac3Header u (sealPack p) else (sealPack p, 0, 0)

/-- `send_ipack`, with the packet that goes to `func`. -/
def sendPack (u : Unset) (p : Pack) : Pack × List (List UInt8) :=
  if p.count < 10 then (p, [])
  else
    let sent := sentPack u p
    (nextHeader sent.1 sent.2.1 sent.2.2, [slice sent.1.buf 0 sent.1.count])

/-- The start of a packet, where there is none in the buffer. -/
def startPack (p : Pack) : Pack :=
  if p.count < 6 then
    { p with
      lastPts := if transPtsDts p.lastPts < transPtsDts p.pts then p.pts else p.lastPts
      buf := blit p.buf 0 [0, 0, 1]
      count := 6 }
  else p

/-- `diff`. -/
def Pack.diff (p : Pack) (count : Nat) : Int := 6 + p.plength - p.found + p.count + count

/-- A packet that is a little too long for the buffer is to become two halves. -/
def halvePack (p : Pack) (count : Nat) : Pack :=
  if p.size = p.sizeOrig ∧ p.plength ≠ 0 ∧ (p.size : Int) < p.diff count ∧ p.diff count < (3 * p.size / 2 : Nat) then
    { p with size := (p.diff count / 2).toNat }
  else p

/-- The AC3 header in front of data that has none. -/
def ac3Start (u : Unset) (p : Pack) (data : List UInt8) : Pack :=
  if p.cid = PRIVATE_STREAM1 ∧ p.count = p.hlength.toNat + 9 then
    if data.headD 0 &&& 0xF8 = 0x80 ∨ data.headD 0 &&& 0xF8 = 0x20 then p
    else
      match getAc3info u data with
      | none => p
      | some (ac3Off, framesize) =>
        if framesize = 0 then p
        else
          let frames := divided u (UInt32.ofInt ((p.size : Int) - p.count - 4 - ac3Off)) framesize + 1
          { p with
            buf := blit p.buf p.count [0x80, frames.toUInt8, UInt8.ofNat (ac3Off / 256), UInt8.ofNat ac3Off]
            count := p.count + 4 }
  else p

/-- What `write_ipack` does before it copies. -/
def readyPack (u : Unset) (p : Pack) (data : List UInt8) : Pack :=
  ac3Start u (halvePack (startPack p) data.length) data

/-- `memcpy` behind what the buffer holds. -/
def appendPack (p : Pack) (data : List UInt8) : Pack :=
  { p with buf := blit p.buf p.count data, count := p.count + data.length }

/-- `write_ipack`. Every call within the call has less data, so its length is fuel enough. -/
def writeFuel (u : Unset) : Nat → Pack → List UInt8 → Pack × List (List UInt8)
  | 0, p, _ => (p, [])
  | fuel + 1, p, data =>
    let p := readyPack u p data
    if p.count + data.length < p.size then (appendPack p data, [])
    else
      let rest := p.size - p.count
      let sent := sendPack u (appendPack p (data.take rest))
      if 0 < rest ∧ rest < data.length then
        let more := writeFuel u fuel sent.1 (data.drop rest)
        (more.1, sent.2 ++ more.2)
      else sent

def writePack (u : Unset) (p : Pack) (data : List UInt8) : Pack × List (List UInt8) :=
  writeFuel u (data.length + 1) p data

/-- The repacker at work: its state, and what it has sent. -/
structure Job where
  p : Pack
  out : List (List UInt8)

def Job.set (j : Job) (f : Pack → Pack) : Job := { j with p := f j.p }

def Job.send (u : Unset) (j : Job) : Job := ⟨(sendPack u j.p).1, j.out ++ (sendPack u j.p).2⟩

def Job.write (u : Unset) (j : Job) (data : List UInt8) : Job :=
  ⟨(writePack u j.p data).1, j.out ++ (writePack u j.p data).2⟩

/-- A byte of the header: it is noted, written and counted. -/
def Job.byte (u : Unset) (note : UInt8 → Pack → Pack) (tally : Pack → Pack) (j : Job) (b : UInt8) : Job :=
  ((j.set (note b)).write u [b]).set tally

/-- A loop over bytes of the header. -/
def copyWhile (u : Unset) (go : Pack → Bool) (note : UInt8 → Pack → Pack) (tally : Pack → Pack) :
    Job → List UInt8 → Job × List UInt8
  | j, [] => (j, [])
  | j, b :: bytes => if go j.p then copyWhile u go note tally (j.byte u note tally b) bytes else (j, b :: bytes)

/-- What comes after `if (c == count) return`. -/
def unlessEnd (r : Job × List UInt8) (f : Job → List UInt8 → Job × List UInt8) : Job × List UInt8 :=
  match r with
  | (j, []) => (j, [])
  | (j, b :: bytes) => f j (b :: bytes)

/-- The case of `found` below 3 in the loop over the header. -/
def syncByte (p : Pack) (b : UInt8) : Pack :=
  if p.found = 2 then
    if b = 1 then { p with found := 3 } else if b = 0 then { p with found := 2 } else { p with found := 0 }
  else if b = 0 then { p with found := p.found + 1 } else { p with found := 0 }

/-- The condition of the loop over the header. -/
def InHeader (p : Pack) : Prop :=
  (p.mpeg = 0 ∨ (p.mpeg = 1 ∧ p.found < 7) ∨ (p.mpeg = 2 ∧ p.found < 9)) ∧ (p.found < 5 ∨ ¬p.done)

instance (p : Pack) : Decidable (InHeader p) := inferInstanceAs (Decidable (_ ∧ _))

/-- The length of a packet from its two bytes. -/
def setLength (p : Pack) (hi lo : UInt8) : Pack :=
  { p with plen := (hi, lo), plength := hi.toNat * 256 + lo.toNat, found := 6 }

/-- The byte with the flags of MPEG-2, or the first of a header of MPEG-1. -/
def setFlags (p : Pack) (b : UInt8) : Pack :=
  if b &&& 0xC0 = 0x80 then { p with flag1 := b, found := 7, mpeg := 2 }
  else { p with flag1 := b, found := 7, hlength := 0, which := 0, mpeg := 1, flag2 := 0 }

/-- The loop over the header. -/
def scan : Pack → List UInt8 → Pack × List UInt8
  | p, [] => (p, [])
  | p, b :: bytes =>
    if InHeader p then
      match p.found with
      | 0 | 1 | 2 => scan (syncByte p b) bytes
      | 3 =>
        if Skipped b then scan { p with found := 4, cid := b, done := true } bytes
        else if b = PRIVATE_STREAM1 ∨ AudioVideo b then scan { p with found := 4, cid := b } bytes
        -- the byte is looked at once more, as a first byte
        else scan (syncByte { p with found := 0, cid := 0 } b) bytes
      | 4 =>
        match bytes with
        | [] => ({ p with found := 5, plen := (b, p.plen.2) }, [])
        | lo :: bytes => scan (setLength p b lo) bytes
      | 5 => scan (setLength p p.plen.1 b) bytes
      | 6 => scan (setFlags p b) bytes
      | 7 => scan { p with flag2 := b, found := 8 } bytes
      | 8 => scan { p with hlength := b, found := 9 } bytes
      | _ => (p, b :: bytes)
    else (p, b :: bytes)

/-- The bytes of the header of MPEG-2 that were kept. -/
def writeFlags2 (u : Unset) (j : Job) : Job :=
  if j.p.found = 9 then ((j.write u [j.p.flag1]).write u [j.p.flag2]).write u [j.p.hlength] else j

def notePts (b : UInt8) (p : Pack) : Pack := { p with pts := Function.update p.pts (p.found - 9) b }

/-- `found++`. -/
def tally2 (p : Pack) : Pack := { p with found := p.found + 1 }

/-- The header of a packet of MPEG-2, from the bytes that were kept and the time stamp. -/
def header2 (u : Unset) (j : Job) (bytes : List UInt8) : Job × List UInt8 :=
  if (writeFlags2 u j).p.flag2 &&& PTS_ONLY ≠ 0 ∧ (writeFlags2 u j).p.found < 14 then
    copyWhile u (fun p => p.found < 14) notePts tally2 (writeFlags2 u j) bytes
  else (writeFlags2 u j, bytes)

/-- The byte of the header of MPEG-1 that was kept. -/
def writeFlags1 (u : Unset) (j : Job) : Job := if j.p.found = 7 then j.write u [j.p.flag1] else j

def startCheck (j : Job) : Job :=
  if j.p.found = 7 then j.set fun p => { p with check := p.flag1, hlength := 1 } else j

def noteCheck (b : UInt8) (p : Pack) : Pack := { p with check := b }

/-- `found++; hlength++`. -/
def tally1 (p : Pack) : Pack := { p with found := p.found + 1, hlength := p.hlength + 1 }

def tallyWhich (which : Nat) (p : Pack) : Pack := { tally1 p with which := which }

/-- One byte of the buffer size of MPEG-1. -/
def stdByte (u : Unset) (which : Nat) (j : Job) : List UInt8 → Job × List UInt8
  | [] => (j, [])
  | b :: bytes => (j.byte u noteCheck (tallyWhich which) b, bytes)

/-- The buffer size of MPEG-1: two bytes, which may come in two pieces. -/
def stdBytes (u : Unset) (j : Job) (bytes : List UInt8) : Job × List UInt8 :=
  unlessEnd
    (if j.p.check &&& 0xC0 = 0x40 ∧ j.p.which = 0 then unlessEnd (stdByte u 1 j bytes) (stdByte u 2) else (j, bytes))
    fun j bytes => if j.p.which = 1 then stdByte u 2 j bytes else (j, bytes)

/-- The byte that says which time stamps there are. -/
def startStamps (j : Job) : Job :=
  if j.p.check &&& 0x30 ≠ 0 ∧ j.p.check ≠ 0xFF then
    j.set fun p => { p with flag2 := (p.check &&& 0xF0) <<< 2, pts := Function.update p.pts 0 p.check, which := 3 }
  else j

def noteStamp (b : UInt8) (p : Pack) : Pack :=
  if p.which < 7 then { p with pts := Function.update p.pts (p.which - 2) b } else p

/-- The time stamps of MPEG-1, up to where `which` is the limit. -/
def stamps1 (u : Unset) (limit : Nat) : Job → List UInt8 → Job × List UInt8 :=
  copyWhile u (fun p => p.which < limit) noteStamp fun p => tallyWhich (p.which + 1) p

def endStamps (j : Job) (bytes : List UInt8) : Job × List UInt8 := (j.set fun p => { p with which := 2000 }, bytes)

/-- The time stamps that `flag2` announces. -/
def stampBytes (u : Unset) (j : Job) (bytes : List UInt8) : Job × List UInt8 :=
  if 2 < j.p.which then
    unlessEnd
      (if j.p.flag2 &&& PTS_DTS_FLAGS = PTS_ONLY then stamps1 u 7 j bytes
        else if j.p.flag2 &&& PTS_DTS_FLAGS = PTS_DTS then stamps1 u 12 j bytes
        else (j, bytes))
      endStamps
  else (j, bytes)

/-- The header of a packet of MPEG-1. -/
def header1 (u : Unset) (j : Job) (bytes : List UInt8) : Job × List UInt8 :=
  if 2000 ≤ (writeFlags1 u j).p.which then (writeFlags1 u j, bytes)
  else
    let stuffing := copyWhile u (fun p => p.which = 0 ∧ p.check = 0xFF) noteCheck tally1
      (startCheck (writeFlags1 u j)) bytes
    unlessEnd (unlessEnd stuffing (stdBytes u)) fun j bytes => stampBytes u (startStamps j) bytes

/-- The loop over the data of a packet: one round takes all that is there of it. -/
def packetData (u : Unset) (j : Job) (bytes : List UInt8) : Job × List UInt8 :=
  if j.p.found < j.p.plength + 6 then
    let l := min bytes.length (j.p.plength + 6 - j.p.found)
    ((j.write u (bytes.take l)).set fun p => { p with found := p.found + l }, bytes.drop l)
  else (j, bytes)

/-- The part of a packet that is skipped. -/
def skipDone (j : Job) (bytes : List UInt8) : Job × List UInt8 :=
  if j.p.done then
    if j.p.found + bytes.length < j.p.plength + 6 then
      (j.set fun p => { p with found := p.found + bytes.length }, [])
    else (j.set fun p => { p with found := p.plength + 6 }, bytes.drop (j.p.plength + 6 - j.p.found))
  else (j, bytes)

/-- The `switch` over the stream id, where there is a byte left. Without bytes to go on with it has returned. -/
def streamData (u : Unset) (j : Job) (bytes : List UInt8) : Job × Option (List UInt8) :=
  if j.p.cid = PRIVATE_STREAM1 ∨ AudioVideo j.p.cid then
    match (if j.p.mpeg = 2 then header2 u j bytes else if j.p.mpeg = 1 then header1 u j bytes else (j, bytes)) with
    | (j, []) => (j, none)
    | (j, b :: bytes) => ((packetData u j (b :: bytes)).1, some (packetData u j (b :: bytes)).2)
  else (j, some bytes)

section
variable {u : Unset} {j j' : Job} {bytes : List UInt8}

/-- The headers take all of a piece. -/
theorem streamData_nil (hcid : j.p.cid = PRIVATE_STREAM1 ∨ AudioVideo j.p.cid)
    (h : (if j.p.mpeg = 2 then header2 u j bytes else if j.p.mpeg = 1 then header1 u j bytes else (j, bytes)) = (j', [])) :
    streamData u j bytes = (j', none) := by
  rw [streamData, if_pos hcid, h]

/-- Some of a piece is left behind the headers. -/
theorem streamData_cons (hcid : j.p.cid = PRIVATE_STREAM1 ∨ AudioVideo j.p.cid) {b : UInt8} {rest : List UInt8}
    (h : (if j.p.mpeg = 2 then header2 u j bytes else if j.p.mpeg = 1 then header1 u j bytes else (j, bytes)) =
      (j', b :: rest)) :
    streamData u j bytes = ((packetData u j' (b :: rest)).1, some (packetData u j' (b :: rest)).2) := by
  rw [streamData, if_pos hcid, h]

end

/-- A length of 0 stands for one that is not known. -/
def unbounded (p : Pack) : Pack := if p.plength = 0 then { p with plength := MMAX_PLENGTH.toNat - 6 } else p

/-- `send_ipack` and `reset_ipack` at the end of a packet. -/
def Job.finish (u : Unset) (j : Job) : Job := (j.send u).set resetPack

/-- `instant_repack`. A call within the call has a packet less to go, so the number of bytes is fuel enough. -/
def repackFuel (u : Unset) : Nat → Job → List UInt8 → Job
  | 0, j, _ => j
  | fuel + 1, j, bytes =>
    match scan j.p bytes with
    | (p, []) => { j with p := p }
    | (p, b :: bytes) =>
      let p := unbounded p
      if p.done ∨ (p.mpeg = 2 ∧ 9 ≤ p.found) ∨ (p.mpeg = 1 ∧ 7 ≤ p.found) then
        match streamData u { j with p := p } (b :: bytes) with
        | (j, none) => j
        | (j, some bytes) =>
          let (j, bytes) := skipDone j bytes
          if j.p.plength ≠ 0 ∧ j.p.found = j.p.plength + 6 then
            if bytes = [] then j.finish u else repackFuel u fuel (j.finish u) bytes
          else j
      else { j with p := p }

def instantRepack (u : Unset) (j : Job) (bytes : List UInt8) : Job := repackFuel u (bytes.length + 1) j bytes

/-- What `demux_ts_packet` does with a packet of no known length where a new one starts. -/
def Job.restart (u : Unset) (j : Job) : Job :=
  if j.p.plength = MMAX_PLENGTH.toNat - 6 then
    (j.set fun p => { p with plength := (UInt32.ofInt (p.found - 6)).toNat, found := 0 }).finish u
  else j

/-- What `demux_ts_packet` does with the piece of a packet. -/
def Job.packet (u : Unset) (j : Job) (start : Bool) (piece : List UInt8) : Job :=
  instantRepack u (if start then j.restart u else j) piece

/-- Packet after packet: whether a PES packet starts in it, and its piece. -/
def Job.packets (u : Unset) (j : Job) (packets : List (Bool × List UInt8)) : Job :=
  packets.foldl (fun j x => j.packet u x.1 x.2) j

/-- The fields that `demux_ts_packet` looks at are those of the `Ipack`. -/
def Pack.ofIpack (p : Ipack Pack) : Pack := { p.more with found := p.found.toNat, plength := p.plength.toNat }

def Pack.toIpack (p : Pack) : Ipack Pack := ⟨p.found, UInt32.ofNat p.plength, p⟩

/-- `transform.c` for `demux_ts_packet`. What is done with a piece of a negative length, which there is only with
an adaptation field that is longer than its packet, is a parameter. -/
def repacker (u : Unset) (short : (Nat → UInt8) → Int → Ipack Pack → Ipack Pack × List (List UInt8)) : Repacker Pack where
  resetIpack p := (resetPack (.ofIpack p)).toIpack
  sendIpack p := ((sendPack u (.ofIpack p)).1.toIpack, (sendPack u (.ofIpack p)).2)
  instantRepack buf count p :=
    if count < 0 then short buf count p
    else
      let j := instantRepack u ⟨.ofIpack p, []⟩ (slice buf 0 count.toNat)
      (j.p.toIpack, j.out)

end Mvpmc.TsDemux
