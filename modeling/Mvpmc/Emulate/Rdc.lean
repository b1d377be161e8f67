import Mvpmc.Emulate.QueueData

/-! `HandleRDCMessage`: what it reads behind a header, the memory that it touches, and what it does to the name of the
file that plays. -/
namespace Mvpmc.Emulate

/-- `current`. -/
inductive FileName where
  | null
  | freed
  | live (name : List UInt8)
  deriving DecidableEq, Repr

inductive RdcCommand where
  | play
  | pause
  | stop
  | menu
  | settings
  | scale
  | other
  deriving DecidableEq, Repr

def rdcCommand (b : Int) : RdcCommand :=
  if b = 0x01 then .play
  else if b = 0x02 then .pause
  else if b = 0x03 then .stop
  else if b = 0x08 then .menu
  else if b = 0x0a then .settings
  else if b = 0x0d then .scale
  else .other

/-- A header, and what can be read behind it. -/
structure RdcMessage where
  header : List UInt8
  rest : List UInt8
  header_length : header.length = 33

/-- `buf[i]`. The header is read to `buf + 1`. -/
def RdcMessage.byte (m : RdcMessage) (i : Nat) : UInt8 := m.header.getD (i - 1) 0

section
variable (abi : Abi) (m : RdcMessage)

/-- `buf[i]` as a `char`. -/
def RdcMessage.charAt (i : Nat) : Int := abi.char (m.byte i).toBitVec

def RdcMessage.command : RdcCommand := rdcCommand (m.charAt abi 1)

/-- The number of bytes behind the header. -/
def RdcMessage.announced : Nat :=
  match m.command abi with
  | .play => (m.byte 8).toNat
  | .settings => (m.byte 7).toNat
  | .scale => (m.byte 8).toNat
  | .menu => 2
  | _ => 0

end

/-- Memory that is touched. -/
inductive Access where
  /-- bytes `lo` up to `hi` of a block of `size` -/
  | block (size lo hi : Int)
  /-- the name is read -/
  | current (name : FileName)
  /-- the name is copied behind the third of 261 bytes -/
  | ack (name : FileName)
  /-- the name is freed -/
  | free (name : FileName)
  deriving DecidableEq, Repr

def Access.Inside : Access → Prop
  | .block size lo hi => lo < hi → 0 ≤ lo ∧ hi ≤ size
  | .current name => ∃ s, name = .live s
  | .ack name => ∃ s, name = .live s ∧ 3 + (s.length + 1) ≤ 261
  | .free name => name ≠ .freed

/-- The globals that decide what a message does. -/
structure Session where
  current : FileName
  mediatype : Nat
  paused : Bool
  mvpState : EmuState
  isStopping : EmuState
  /-- `mystream.last_key == MVPW_KEY_EXIT` -/
  lastKeyExit : Bool

/-- What `av_pause` returns, and whether the first answer to `RDC_SETTINGS` can be written. -/
structure RdcOutcome where
  avPaused : Bool
  acked : Bool

/-- What has been done for a message. -/
structure Handled where
  /-- the bytes asked for behind the header -/
  asked : Int := 0
  accesses : List Access := []
  session : Session

def typeAudio : Nat := 2

/-- The size of what `malloc` returns. There is no memory for a size that was negative. -/
def mallocSize (n : Int) : Int := if n < 0 then 0 else n

/-- `(size_t) n`. -/
def sizeT (abi : Abi) (n : Int) : Int := if n < 0 then n + 2 ^ abi.long.bits else n

/-- `memset(p, 0, n)` and `ReadExact(sock, p, n)` for `p = malloc(n)`. -/
def clearAndRead (abi : Abi) (n : Int) : List Access :=
  [.block (mallocSize n) 0 (sizeT abi n), .block (mallocSize n) 0 n]

namespace Session
variable (s : Session)

/-- `pauseFileAck`. -/
def pauseFileAck (type : Nat) : List Access := if s.mediatype = typeVideo ∨ type = 0 then [.ack s.current] else []

/-- `client_pause`. -/
def clientPause (avPaused : Bool) : List Access × Session :=
  if avPaused then ({ s with paused := true }.pauseFileAck 4, { s with paused := true }) else ([], s)

/-- `client_stop`. -/
def clientStop : List Access × Session := ([.free s.current], { s with current := .null })

/-- `RDC_PLAY` takes the name of the file, or goes on with the one that it has. -/
def takeName (rest : List UInt8) (length : Int) : List Access × Session :=
  if length = 0 ∧ s.current ≠ .null then ([.current s.current], s)
  else
    let name := (rest.take length.toNat).takeWhile (· ≠ 0)
    ([.block (mallocSize (length + 1)) length (length + 1), .block (mallocSize (length + 1)) 0 (name.length + 1)],
      { s with current := .live name })

/-- The modes of `RDC_PLAY`. -/
def playMode (mode length : Int) : List Access × Session :=
  if mode = 0 then
    if s.paused then ({ s with paused := false }.pauseFileAck 1, { s with paused := false })
    else if s.mvpState = .stepToPlay then ([], { s with mvpState := .seekToPlay })
    else if s.mediatype = 0 ∨ s.mvpState = .stopPending then ([], s)
    else if length = 0 ∧ s.mvpState = .running then ([], s)
    else if s.isStopping = .running ∧ length ≠ 0 then ([], { s with isStopping := .stopPending, mvpState := .live })
    else ([], s)
  else if mode = 1 then ([], s)
  else if mode = 2 ∨ mode = 3 then ([], { s with mvpState := .skipReplayOk })
  else if mode = 4 then ([], if s.mediatype = 0 then s else { s with mvpState := .percentRunning })
  else ([], if s.mvpState = .stepToPlay then { s with mvpState := .seekToPlay } else s)

/-- `RDC_STOP`. -/
def handleStop : List Access × Session :=
  let s := { s with paused := false }
  if s.mediatype = 0 then ([], s)
  else if s.isStopping = .stopped then ([], { s with isStopping := .stoppedAgain })
  else if s.isStopping ≠ .running ∨ s.mediatype = typeAudio ∨ s.lastKeyExit then
    (s.clientStop.1, { s.clientStop.2 with isStopping := .stopped })
  else if s.mvpState = .running ∨ s.mvpState = .stopPending then
    if s.mvpState = .running then (s.clientStop.1, { s.clientStop.2 with isStopping := .stopped }) else ([], s)
  else if s.mvpState = .live then ([], s)
  else (s.clientStop.1, { s.clientStop.2 with mvpState := .running, isStopping := .stopped })

variable (abi : Abi) (m : RdcMessage)

/-- `RDC_PLAY`. -/
def handlePlay : Handled :=
  let length := m.charAt abi 8
  let read : Access := .block (mallocSize (length + 1)) 0 length
  if (m.rest.length : Int) < length then { asked := length, accesses := [read], session := s }
  else
    let (named, s) := s.takeName m.rest length
    let (acked, s) := s.playMode (m.charAt abi 15) length
    { asked := length, accesses := read :: (named ++ acked), session := s }

/-- `RDC_SETTINGS`. -/
def handleSettings (acked : Bool) : Handled :=
  let n := m.charAt abi 7
  if (m.rest.length : Int) < n ∨ acked = false then { asked := n, accesses := clearAndRead abi n, session := s }
  else
    { asked := n
      accesses := clearAndRead abi n ++
        [.block (mallocSize n) 1 5, .block (mallocSize n) 12 16, .block (mallocSize n) 16 17, .block (mallocSize n) 20 21,
          .block (mallocSize n) 24 25, .block (mallocSize n) 0 n]
      session := s }

/-- `RDC_SCALE`. Further bytes are used where the second one is not zero. -/
def handleScale : Handled :=
  let n := m.charAt abi 8
  if (m.rest.length : Int) < n then { asked := n, accesses := clearAndRead abi n, session := s }
  else
    { asked := n
      accesses := clearAndRead abi n ++ .block (mallocSize n) 1 2 ::
        if m.rest.getD 1 0 ≠ 0 then [.block (mallocSize n) 3 4, .block (mallocSize n) 2 3] else []
      session := s }

/-- `HandleRDCMessage`, behind the header. -/
def handle (o : RdcOutcome) : Handled :=
  match m.command abi with
  | .play => s.handlePlay abi m
  | .pause => { accesses := (s.clientPause o.avPaused).1, session := (s.clientPause o.avPaused).2 }
  | .stop => { accesses := s.handleStop.1, session := s.handleStop.2 }
  | .menu => { asked := 2, accesses := [.block 2 0 2], session := s }
  | .settings => s.handleSettings abi m o.acked
  | .scale => s.handleScale abi m
  | .other => { session := s }

/-- The header and the answer are parts of `buf`, as many bytes are read as there are, and all else is inside too. -/
structure InBounds (o : RdcOutcome) : Prop where
  header : (Access.block 64 1 34).Inside
  reads : max 0 (s.handle abi m o).asked = m.announced abi
  inside : ∀ a ∈ (s.handle abi m o).accesses, a.Inside

end Session
end Mvpmc.Emulate
