import Mvpmc.TsDemux.ProgramMap
import Mvpmc.TsDemux.Transform

/-! What becomes of one transport packet (`demux_ts_packet` in `ts_demux.c`). The table decoders of libdvbpsi
and the repacker of `transform.c` are parameters; the callbacks they are given are not. -/
namespace Mvpmc.TsDemux
open Mvpmc.Lib.Circular

def MMAX_PLENGTH : UInt32 := 8 * 0xFFFF

/-- The fields of `ipack` that are used outside `transform.c`, and the others. The stream id is with the PIDs. -/
structure Ipack (ρ : Type) where
  found : Int
  plength : UInt32
  more : ρ

/-- The functions of `transform.c`. The lists are what goes to `write_pes`. -/
structure Repacker (ρ : Type) where
  resetIpack : Ipack ρ → Ipack ρ
  sendIpack : Ipack ρ → Ipack ρ × List (List UInt8)
  instantRepack : (Nat → UInt8) → Int → Ipack ρ → Ipack ρ × List (List UInt8)

/-- `dvbpsi_pat_program_t`. -/
structure Program where
  number : Nat
  pid : Nat

/-- The decoders of libdvbpsi: what a packet completes, and a new decoder for a program. -/
structure Psi (δ π : Type) where
  pushPat : δ → List UInt8 → δ × List (List Program)
  pushPmt : π → List UInt8 → π × List Pmt
  attachPmt : Nat → π

/-- `ts_demux_handle_t` as `demux_ts_packet` uses it. -/
structure Streams (δ π ρ : Type) where
  pids : Pids
  cc : Nat → UInt8
  ipack : Nat → Ipack ρ
  pesBuf : Nat → UInt8
  pesBufLen : Int
  pesBufPos : Nat
  patDecoder : δ
  pmtDecoder : π
  pmtpid : Nat

/-- A piece of the packet. -/
structure Piece where
  offset : Nat
  length : Int
  deriving DecidableEq

section
variable {δ π ρ : Type}

/-- `write_pes`, into a buffer that has been given. -/
def writePes (streamid : Nat) (h : Streams δ π ρ) (buf : List UInt8) : Streams δ π ρ :=
  if h.pesBufLen < h.pesBufPos + buf.length then h
  else
    let pes := blit h.pesBuf h.pesBufPos buf
    { h with
      pesBuf := if 0 < streamid then Function.update pes (h.pesBufPos + 3) (UInt8.ofNat streamid) else pes
      pesBufPos := h.pesBufPos + buf.length }

/-- What a function of the repacker does to the handle. -/
def repacked (h : Streams δ π ρ) (n : Nat) (r : Ipack ρ × List (List UInt8)) : Streams δ π ρ :=
  r.2.foldl (writePes (h.pids.streamId n)) { h with ipack := Function.update h.ipack n r.1 }

/-- `ts_demux_pat_callback`: the first program that has a number is taken. -/
def patCallback (psi : Psi δ π) (h : Streams δ π ρ) (pat : List Program) : Streams δ π ρ :=
  match pat.find? (·.number ≠ 0) with
  | none => h
  | some program => { h with pmtDecoder := psi.attachPmt program.number, pmtpid := program.pid }

/-- `dvbpsi_PushPacket` on the decoder of the association tables. -/
def pushPat (psi : Psi δ π) (h : Streams δ π ρ) (packet : List UInt8) : Streams δ π ρ :=
  let r := psi.pushPat h.patDecoder packet
  r.2.foldl (patCallback psi) { h with patDecoder := r.1 }

/-- `dvbpsi_PushPacket` on the decoder of the program map tables. -/
def pushPmt (psi : Psi δ π) (h : Streams δ π ρ) (packet : List UInt8) : Streams δ π ρ :=
  let r := psi.pushPmt h.pmtDecoder packet
  r.2.foldl (fun h pmt => { h with pids := TsDemux.pmtCallback h.pids pmt }) { h with pmtDecoder := r.1 }

/-- `get_pid (buf + 1)`. -/
def getPid (buf : Nat → UInt8) : Nat := (buf 1 &&& 0x1F).toNat <<< 8 ||| (buf 2).toNat

/-- The new continuity counter of a PID, and byte 3 of the packet, which is put right where it belongs to a
table. -/
def continuity (h : Streams δ π ρ) (pid : Nat) (b : UInt8) : UInt8 × UInt8 :=
  if h.cc pid = 255 then (b &&& 15, b)
  else
    let cc := (h.cc pid + 1) &&& 15
    if cc = b &&& 15 then (cc, b)
    else if pid = 0 ∨ pid = h.pmtpid then (cc, b &&& 0xf0 ||| cc)
    else (b &&& 15, b)

/-- A packet of unknown length that ends where a new one starts. -/
def flush (rp : Repacker ρ) (h : Streams δ π ρ) (n : Nat) : Streams δ π ρ :=
  let p := h.ipack n
  if p.plength = MMAX_PLENGTH - 6 then
    let sent := rp.sendIpack { p with plength := UInt32.ofInt (p.found - 6), found := 0 }
    repacked h n (rp.resetIpack sent.1, sent.2)
  else h

/-- The bytes of the adaptation field, its length byte included. -/
def adaptation (buf : Nat → UInt8) : Nat := if buf 3 &&& 0x20 ≠ 0 then (buf 4).toNat + 1 else 0

/-- `demux_ts_packet`: the handle after the packet, and the piece that was handed to `instant_repack`. -/
def demuxTsPacket (psi : Psi δ π) (rp : Repacker ρ) (h : Streams δ π ρ) (buf : Nat → UInt8) :
    Streams δ π ρ × Option Piece :=
  if buf 0 ≠ tsSyncByte then (h, none)
  else
    let pid := getPid buf
    if buf 3 &&& 0x10 = 0 then (h, none)
    else
      let (cc, b) := continuity h pid (buf 3)
      let h := { h with cc := Function.update h.cc pid cc }
      let buf := Function.update buf 3 b
      if pid = 0 then (pushPat psi h (slice buf 0 tsSize), none)
      else if pid = h.pmtpid then (pushPmt psi h (slice buf 0 tsSize), none)
      else
        let n := h.pids.ipackIndex pid
        if n = noIpack then (h, none)
        else
          let h := if buf 1 &&& 0x40 ≠ 0 then flush rp h n else h
          let off := adaptation buf
          let piece : Piece := ⟨4 + off, (tsSize : Int) - 4 - off⟩
          (repacked h n (rp.instantRepack (fun i => buf (piece.offset + i)) piece.length (h.ipack n)), some piece)

/-- The packet is one for the repacker. -/
def Repacks (h : Streams δ π ρ) (buf : Nat → UInt8) : Prop :=
  buf 0 = tsSyncByte ∧ buf 3 &&& 0x10 ≠ 0 ∧ getPid buf ≠ 0 ∧ getPid buf ≠ h.pmtpid ∧
    h.pids.ipackIndex (getPid buf) ≠ noIpack

instance (h : Streams δ π ρ) (buf : Nat → UInt8) : Decidable (Repacks h buf) :=
  inferInstanceAs (Decidable (_ ∧ _))

@[simp] theorem writePes_cc (streamid : Nat) (h : Streams δ π ρ) (buf : List UInt8) :
    (writePes streamid h buf).cc = h.cc := by
  unfold writePes
  split <;> rfl

@[simp] theorem patCallback_cc (psi : Psi δ π) (h : Streams δ π ρ) (pat : List Program) :
    (patCallback psi h pat).cc = h.cc := by
  unfold patCallback
  split <;> rfl

/-- A fold of steps that leave a field alone leaves it alone. -/
theorem foldl_cc {α : Type} {step : Streams δ π ρ → α → Streams δ π ρ} (hs : ∀ h a, (step h a).cc = h.cc)
    (as : List α) (h : Streams δ π ρ) : (as.foldl step h).cc = h.cc := by
  induction as generalizing h with
  | nil => rfl
  | cons a as ih => rw [List.foldl_cons, ih, hs]

@[simp] theorem repacked_cc (h : Streams δ π ρ) (n : Nat) (r : Ipack ρ × List (List UInt8)) :
    (repacked h n r).cc = h.cc :=
  foldl_cc (writePes_cc _) _ _

@[simp] theorem pushPat_cc (psi : Psi δ π) (h : Streams δ π ρ) (packet : List UInt8) :
    (pushPat psi h packet).cc = h.cc :=
  foldl_cc (patCallback_cc psi) _ _

@[simp] theorem pushPmt_cc (psi : Psi δ π) (h : Streams δ π ρ) (packet : List UInt8) :
    (pushPmt psi h packet).cc = h.cc := by
  have hstep (h : Streams δ π ρ) (pmt : Pmt) : ({ h with pids := TsDemux.pmtCallback h.pids pmt } : Streams δ π ρ).cc = h.cc := rfl
  exact foldl_cc hstep _ _

@[simp] theorem flush_cc (rp : Repacker ρ) (h : Streams δ π ρ) (n : Nat) : (flush rp h n).cc = h.cc := by
  unfold flush
  dsimp only
  split
  · exact repacked_cc _ _ _
  · rfl

/-- Byte 3 of a packet that is not one of a table stays as it is. -/
theorem continuity_byte {h : Streams δ π ρ} {pid : Nat} (h0 : pid ≠ 0) (hp : pid ≠ h.pmtpid) (b : UInt8) :
    (continuity h pid b).2 = b := by
  unfold continuity
  dsimp only
  split
  · rfl
  · split
    · rfl
    · rw [if_neg (not_or.mpr ⟨h0, hp⟩)]

theorem update_byte (buf : Nat → UInt8) : Function.update buf 3 (buf 3) = buf := Function.update_eq_self 3 buf

/-- The counters after a packet: the one of its PID may be new. -/
theorem demuxTsPacket_cc (psi : Psi δ π) (rp : Repacker ρ) (h : Streams δ π ρ) (buf : Nat → UInt8) :
    (demuxTsPacket psi rp h buf).1.cc = h.cc ∨
      (demuxTsPacket psi rp h buf).1.cc = Function.update h.cc (getPid buf) (continuity h (getPid buf) (buf 3)).1 := by
  unfold demuxTsPacket
  split
  · exact .inl rfl
  · dsimp only
    split
    · exact .inl rfl
    · right
      split
      · exact pushPat_cc _ _ _
      · split
        · exact pushPmt_cc _ _ _
        · split
          · rfl
          · rw [repacked_cc]
            split
            · exact flush_cc _ _ _
            · rfl

/-- The piece that a packet hands to the repacker. -/
theorem demuxTsPacket_piece (psi : Psi δ π) (rp : Repacker ρ) (h : Streams δ π ρ) (buf : Nat → UInt8) :
    (demuxTsPacket psi rp h buf).2 =
      if Repacks h buf then some ⟨4 + adaptation buf, (tsSize : Int) - 4 - adaptation buf⟩ else none := by
  unfold demuxTsPacket
  split
  · rename_i h1
    rw [if_neg fun hr => h1 hr.1]
  · rename_i h1
    dsimp only
    split
    · rename_i h2
      rw [if_neg fun hr => hr.2.1 h2]
    · rename_i h2
      split
      · rename_i h3
        rw [if_neg fun hr => hr.2.2.1 h3]
      · rename_i h3
        split
        · rename_i h4
          rw [if_neg fun hr => hr.2.2.2.1 h4]
        · rename_i h4
          split
          · rename_i h5
            rw [if_neg fun hr => hr.2.2.2.2 h5]
          · rename_i h5
            have hr : Repacks h buf := ⟨not_not.mp h1, h2, h3, h4, h5⟩
            rw [continuity_byte h3 h4, update_byte, if_pos hr]

/-- The piece lies in the packet. -/
def Piece.Inside (p : Piece) : Prop := p.offset ≤ 188 ∧ 0 ≤ p.length ∧ p.length = 188 - p.offset

theorem adaptation_le_iff (buf : Nat → UInt8) :
    adaptation buf ≤ 184 ↔ ¬(buf 3 &&& 0x20 ≠ 0 ∧ 183 < (buf 4).toNat) := by
  unfold adaptation
  split
  · rename_i ha
    rw [not_and]
    exact ⟨fun h _ => by omega, fun h => by have := h ha; omega⟩
  · rename_i ha
    exact ⟨fun _ h => ha h.1, fun _ => by omega⟩

/-- The piece handed over lies in the packet, and the other counters stay, unless the packet goes to the
repacker with an adaptation field that is longer than the packet. -/
theorem demuxTsPacket_inside_iff (psi : Psi δ π) (rp : Repacker ρ) (h : Streams δ π ρ) (buf : Nat → UInt8) :
    let r := demuxTsPacket psi rp h buf
    ((∀ p ∈ r.2, p.Inside) ∧ ∀ pid, pid ≠ getPid buf → r.1.cc pid = h.cc pid) ↔
      ¬(Repacks h buf ∧ buf 3 &&& 0x20 ≠ 0 ∧ 183 < (buf 4).toNat) := by
  intro r
  have hcc : ∀ pid, pid ≠ getPid buf → r.1.cc pid = h.cc pid := by
    intro pid hpid
    rcases demuxTsPacket_cc psi rp h buf with he | he
    · exact congrFun he pid
    · exact (congrFun he pid).trans (Function.update_of_ne hpid _ _)
  rw [and_iff_left hcc, not_and, ← adaptation_le_iff]
  change (∀ p ∈ (demuxTsPacket psi rp h buf).2, p.Inside) ↔ _
  rw [demuxTsPacket_piece]
  split
  · rename_i hr
    unfold Piece.Inside tsSize
    constructor
    · intro hin _
      have := (hin _ rfl).1
      dsimp only at this
      omega
    · rintro hle p hp
      obtain rfl := Option.some.inj hp
      have := hle hr
      dsimp only
      omega
  · rename_i hr
    exact ⟨fun _ hr' => absurd hr' hr, fun _ p hp => nomatch hp⟩

end

/-- A packet of PID 0x100 with an adaptation field of 256 bytes. -/
def longAdaptation : Nat → UInt8
  | 0 => tsSyncByte
  | 1 => 0x01
  | 2 => 0x00
  | 3 => 0x30
  | 4 => 0xFF
  | _ => 0

/-- A handle with one ipack, for every PID, and decoders and a repacker that do nothing. -/
def oneIpack : Streams Unit Unit Unit where
  pids := ⟨1, fun _ => 0, fun _ => 0xE0⟩
  cc := fun _ => 255
  ipack := fun _ => ⟨0, 0, ()⟩
  pesBuf := fun _ => 0
  pesBufLen := 8192
  pesBufPos := 0
  patDecoder := ()
  pmtDecoder := ()
  pmtpid := 0x20

def noTables : Psi Unit Unit := ⟨fun _ _ => ((), []), fun _ _ => ((), []), fun _ => ()⟩

def noRepacker : Repacker Unit := ⟨id, fun p => (p, []), fun _ _ p => (p, [])⟩

/-- The piece starts behind the packet and has a negative length. -/
theorem longAdaptation_outside :
    ¬∀ p ∈ (demuxTsPacket noTables noRepacker oneIpack longAdaptation).2, p.Inside := by
  intro h
  have hp : (demuxTsPacket noTables noRepacker oneIpack longAdaptation).2 = some ⟨260, -72⟩ := by decide
  exact absurd (h _ hp).1 (by decide)

end Mvpmc.TsDemux
