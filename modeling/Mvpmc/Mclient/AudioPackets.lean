import Mvpmc.Mclient.OutBuf
import Mvpmc.Lib.ByteOrder

/-! Audio packets of the music server: `receive_mpeg_data`, and the acknowledgement that `send_ack` gives. -/
namespace Mvpmc.Mclient
open Mvpmc.Lib Mvpmc.Lib.Circular

/-- The two bytes of an `unsigned short` exchanged. -/
def swapShort (x : Nat) : Nat := x % 256 * 256 + x / 256 % 256

/-- `ntohs` and `htons`, which take an `unsigned short`. The value of two bytes in network order is also
loaded this way. -/
def ntohs (order : ByteOrder) (x : Nat) : Nat :=
  match order with
  | .big => x % 2 ^ 16
  | .little => swapShort (x % 2 ^ 16)

/-- The fields of `receive_mpeg_header` that are read, and the bytes behind it. -/
structure MpegPacket where
  control : Nat
  wptr : UInt16
  seq : UInt16
  data : List UInt8
  deriving DecidableEq, Repr

/-- The numbers in a `packet_ack`, as they are stored. -/
structure PacketAck where
  wptr : Nat
  rptr : Nat
  seq : Nat
  deriving DecidableEq, Repr

/-- The ring and the number of the last packet buffered. -/
structure Slimp3 where
  ring : RingBuf
  seqHistory : Int := 0

/-- `send_ack`. -/
def sendAck (order : ByteOrder) (b : RingBuf) (seq : Nat) : PacketAck where
  wptr := ntohs order (b.head >>> 1)
  rptr := ntohs order (b.tail >>> (1 : Nat)).toNat
  seq := ntohs order seq

/-- Where `receive_mpeg_data` puts the head: the shift is inside of `ntohs`. -/
def headOf (order : ByteOrder) (wptr : UInt16) : Nat := ntohs order (ntohs order wptr.toNat <<< 1)

/-- `receive_mpeg_data`, and the acknowledgement if one is sent. -/
def receiveMpegData (order : ByteOrder) (s : Slimp3) (p : MpegPacket) : Slimp3 × Option PacketAck :=
  let recSeq : Int := p.seq.toNat
  let seqHistory := if recSeq < s.seqHistory then -1 else s.seqHistory
  let ring := { s.ring with head := headOf order p.wptr, playmode := p.control }
  let s :=
    if p.data.length ≠ 0 ∧ seqHistory < recSeq then ({ ring := ring.put p.data, seqHistory := recSeq } : Slimp3)
    else { ring := ring, seqHistory := seqHistory }
  (s, if s.seqHistory ≤ recSeq then some (sendAck order s.ring p.seq.toNat) else none)

/-- The player with the last packet it stored, and that packet once more as long as no other one is received. -/
structure Session where
  player : Slimp3
  stored : Option MpegPacket := none
  latest : Option MpegPacket := none

namespace Session
variable (order : ByteOrder)

/-- Whether `receive_mpeg_data` copies the packet. -/
def Stores (s : Session) (p : MpegPacket) : Prop :=
  p.data.length ≠ 0 ∧ ((p.seq.toNat : Int) < s.player.seqHistory ∨ s.player.seqHistory < p.seq.toNat)

instance (s : Session) (p : MpegPacket) : Decidable (s.Stores p) := inferInstanceAs (Decidable (_ ∧ _))

def receive (s : Session) (p : MpegPacket) : Session where
  player := (receiveMpegData order s.player p).1
  stored := if s.Stores p then some p else s.stored
  latest := if s.Stores p then some p else if s.latest = some p then some p else none

/-- The sequence number is not that of the last packet stored. -/
def New (s : Session) (p : MpegPacket) : Prop := ∀ last, s.stored = some last → p.seq ≠ last.seq

/-- The packet lands where the server says. A retransmission of the last packet stored changes nothing. -/
structure Lands (s : Session) (p : MpegPacket) : Prop where
  copied : s.New p → p.data.length ≠ 0 → s.Stores p
  bytes : s.New p → ∀ i (hi : i < p.data.length),
    (s.receive order p).player.ring.buf ((2 * p.wptr.toNat + i) % OUT_BUF_SIZE) = p.data[i]
  head : s.New p → (s.receive order p).player.ring.head = (2 * p.wptr.toNat + p.data.length) % OUT_BUF_SIZE
  again : s.latest = some p → (∀ k < OUT_BUF_SIZE, (s.receive order p).player.ring.buf k = s.player.ring.buf k) ∧
    (s.receive order p).player.ring.head = s.player.ring.head
  ack : ∀ a ∈ (receiveMpegData order s.player p).2, ntohs order a.wptr = (s.receive order p).player.ring.head / 2

/-- Every packet lands where the server says. -/
def AllLand (s : Session) : List MpegPacket → Prop
  | [] => True
  | p :: ps => s.Lands order p ∧ (s.receive order p).AllLand ps

end Session

/-- The write pointer survives the shift of its bytes as they are loaded. -/
def PointerFits (wptr : UInt16) : ByteOrder → Prop
  | .big => wptr.toNat < 2 ^ 15
  | .little => wptr.toNat / 256 < 128 ∧ wptr.toNat % 256 < 128

instance (wptr : UInt16) (order : ByteOrder) : Decidable (PointerFits wptr order) :=
  match order with
  | .big => inferInstanceAs (Decidable (_ < _))
  | .little => inferInstanceAs (Decidable (_ ∧ _))

namespace Session
variable (order : ByteOrder)

/-- A new packet has a pointer that fits, the first one with data has not the number 0, and the packet is
not a retransmission of the last one stored. -/
structure Tractable (s : Session) (p : MpegPacket) : Prop where
  pointer : s.New p → PointerFits p.wptr order
  first : s.stored = none → p.data.length ≠ 0 → p.seq ≠ 0
  once : s.latest ≠ some p

def AllTractable (s : Session) : List MpegPacket → Prop
  | [] => True
  | p :: ps => s.Tractable order p ∧ (s.receive order p).AllTractable ps

end Session

section
variable {order : ByteOrder} {s : Session} {p : MpegPacket} {ps : List MpegPacket}

theorem ntohs_lt (order : ByteOrder) (x : Nat) : ntohs order x < 2 ^ 16 := by
  cases order with
  | big => exact Nat.mod_lt x (by decide)
  | little =>
    unfold ntohs swapShort
    dsimp only
    omega

/-- With the other byte order the bytes change places. -/
theorem ntohs_little {high low : Nat} (hh : high < 256) (hl : low < 256) :
    ntohs .little (256 * high + low) = 256 * low + high := by
  have hsmall : (256 * high + low) % 2 ^ 16 = 256 * high + low := Nat.mod_eq_of_lt (by omega)
  have hlow : (256 * high + low) % 256 = low := by omega
  have hhigh : (256 * high + low) / 256 % 256 = high := by omega
  unfold ntohs swapShort
  dsimp only
  rw [hsmall, hlow, hhigh, Nat.mul_comm]

theorem exists_bytes {x : Nat} (hx : x < 2 ^ 16) : ∃ high < 256, ∃ low < 256, x = 256 * high + low :=
  ⟨x / 256, by omega, x % 256, by omega, by omega⟩

theorem ntohs_ntohs (order : ByteOrder) {x : Nat} (hx : x < 2 ^ 16) : ntohs order (ntohs order x) = x := by
  cases order with
  | big =>
    unfold ntohs
    dsimp only
    omega
  | little =>
    obtain ⟨high, hh, low, hl, rfl⟩ := exists_bytes hx
    rw [ntohs_little hh hl, ntohs_little hl hh]

theorem headOf_lt (order : ByteOrder) (wptr : UInt16) : headOf order wptr < OUT_BUF_SIZE := by
  have := ntohs_lt order (ntohs order wptr.toNat <<< 1)
  unfold headOf OUT_BUF_SIZE
  omega

theorem headOf_eq_iff (order : ByteOrder) (wptr : UInt16) : headOf order wptr = 2 * wptr.toNat ↔ PointerFits wptr order := by
  have hw := wptr.toNat_lt
  unfold headOf PointerFits
  rw [Nat.shiftLeft_eq]
  cases order with
  | big =>
    unfold ntohs
    dsimp only
    omega
  | little =>
    dsimp only
    generalize wptr.toNat = w at hw ⊢
    obtain ⟨high, hh, low, hl, rfl⟩ := exists_bytes hw
    -- the bit shifted out of the byte in front is lost, the other one moves to the wrong byte
    have hshift : ntohs .little ((256 * low + high) * 2 ^ 1) =
        256 * (2 * high % 256) + (2 * low + high / 128) % 256 := by
      have hmod : ntohs .little ((256 * low + high) * 2 ^ 1) =
          ntohs .little (256 * ((2 * low + high / 128) % 256) + 2 * high % 256) := by
        have he : (256 * low + high) * 2 ^ 1 % 2 ^ 16 =
            (256 * ((2 * low + high / 128) % 256) + 2 * high % 256) % 2 ^ 16 := by omega
        unfold ntohs
        dsimp only
        rw [he]
      rw [hmod, ntohs_little (by omega) (by omega)]
    have hhigh : (256 * high + low) / 256 = high := by omega
    have hlow : (256 * high + low) % 256 = low := by omega
    rw [ntohs_little hh hl, hshift, hhigh, hlow]
    constructor
    · intro he
      omega
    · rintro ⟨hh', hl'⟩
      have hcarry : high / 128 = 0 := Nat.div_eq_of_lt hh'
      have hkeep : 2 * high % 256 = 2 * high := Nat.mod_eq_of_lt (by omega)
      have hkeep' : (2 * low + high / 128) % 256 = 2 * low := by omega
      rw [hkeep, hkeep']
      omega

/-- `send_ack` reports half the head. -/
theorem sendAck_wptr {b : RingBuf} (hb : b.head < OUT_BUF_SIZE) (seq : Nat) :
    ntohs order (sendAck order b seq).wptr = b.head / 2 := by
  have hhalf : b.head >>> 1 = b.head / 2 := Nat.shiftRight_eq_div_pow b.head 1
  unfold OUT_BUF_SIZE at hb
  unfold sendAck
  dsimp only
  rw [hhalf, ntohs_ntohs order (by omega)]

theorem receive_stored (h : s.Stores p) : (receiveMpegData order s.player p).1 =
    { ring := ({ s.player.ring with head := headOf order p.wptr, playmode := p.control } : RingBuf).put p.data
      seqHistory := p.seq.toNat } := by
  have hstore : p.data.length ≠ 0 ∧
      (if (p.seq.toNat : Int) < s.player.seqHistory then -1 else s.player.seqHistory) < (p.seq.toNat : Int) := by
    refine ⟨h.1, ?_⟩
    have := h.2
    split <;> omega
  unfold receiveMpegData
  dsimp only
  rw [if_pos hstore]

theorem receive_dropped (h : ¬ s.Stores p) : (receiveMpegData order s.player p).1 =
    { ring := { s.player.ring with head := headOf order p.wptr, playmode := p.control }
      seqHistory := if (p.seq.toNat : Int) < s.player.seqHistory then -1 else s.player.seqHistory } := by
  have hstore : ¬ (p.data.length ≠ 0 ∧
      (if (p.seq.toNat : Int) < s.player.seqHistory then -1 else s.player.seqHistory) < (p.seq.toNat : Int)) := by
    rintro ⟨hne, hlt⟩
    refine h ⟨hne, ?_⟩
    split at hlt <;> omega
  unfold receiveMpegData
  dsimp only
  rw [if_neg hstore]

theorem receive_ack : (receiveMpegData order s.player p).2 =
    if (s.receive order p).player.seqHistory ≤ p.seq.toNat then
      some (sendAck order (s.receive order p).player.ring p.seq.toNat)
    else none := rfl

/-- A packet that is stored lands at the pointer as the shift leaves it. -/
theorem receive_ring_stored (order : ByteOrder) (h : s.Stores p) (hl : p.data.length < OUT_BUF_SIZE) :
    (∀ i (hi : i < p.data.length),
      (s.receive order p).player.ring.buf ((headOf order p.wptr + i) % OUT_BUF_SIZE) = p.data[i]) ∧
      (s.receive order p).player.ring.head = (headOf order p.wptr + p.data.length) % OUT_BUF_SIZE := by
  have hput := RingBuf.put_eq
    (b := { s.player.ring with head := headOf order p.wptr, playmode := p.control }) (headOf_lt order p.wptr) hl
  have hring : (s.receive order p).player.ring = _ := (congrArg Slimp3.ring (receive_stored h)).trans hput
  rw [hring]
  refine ⟨fun i hi => ?_, rfl⟩
  exact store_written _ _ _ _ _ (headOf_lt order p.wptr) hl.le hi

theorem receive_ring_dropped (h : ¬ s.Stores p) :
    (s.receive order p).player.ring = { s.player.ring with head := headOf order p.wptr, playmode := p.control } :=
  congrArg Slimp3.ring (receive_dropped h)

theorem receive_head_lt (hl : p.data.length < OUT_BUF_SIZE) : (s.receive order p).player.ring.head < OUT_BUF_SIZE := by
  by_cases h : s.Stores p
  · rw [(receive_ring_stored _ h hl).2]
    exact Nat.mod_lt _ (by decide)
  · rw [receive_ring_dropped h]
    exact headOf_lt order p.wptr

/-- What is known about the last packet stored: its number is in the history, unless that has been reset. -/
structure Session.Kept (order : ByteOrder) (s : Session) : Prop where
  history : ∀ last, s.stored = some last → s.player.seqHistory = -1 ∨ s.player.seqHistory = last.seq.toNat
  empty : s.stored = none → s.player.seqHistory = 0
  latest : ∀ last, s.latest = some last → s.player.seqHistory = last.seq.toNat ∧ last.data.length ≠ 0 ∧
    s.player.ring.head = (headOf order last.wptr + last.data.length) % OUT_BUF_SIZE

theorem Session.Kept.receive (h : s.Kept order) (hp : s.latest ≠ some p) (hl : p.data.length < OUT_BUF_SIZE) :
    (s.receive order p).Kept order := by
  by_cases hs : s.Stores p
  · have hstored : (s.receive order p).stored = some p := if_pos hs
    have hlatest : (s.receive order p).latest = some p := if_pos hs
    have hhistory : (s.receive order p).player.seqHistory = p.seq.toNat := congrArg Slimp3.seqHistory (receive_stored hs)
    refine ⟨fun last hlast => ?_, fun hnone => ?_, fun last hlast => ?_⟩
    · obtain rfl := Option.some.inj (hstored.symm.trans hlast)
      exact .inr hhistory
    · exact absurd (hstored.symm.trans hnone) (Option.some_ne_none p)
    · obtain rfl := Option.some.inj (hlatest.symm.trans hlast)
      exact ⟨hhistory, hs.1, (receive_ring_stored _ hs hl).2⟩
  · have hstored : (s.receive order p).stored = s.stored := if_neg hs
    have hlatest : (s.receive order p).latest = none := (if_neg hs).trans (if_neg hp)
    have hhistory : (s.receive order p).player.seqHistory =
        if (p.seq.toNat : Int) < s.player.seqHistory then -1 else s.player.seqHistory :=
      congrArg Slimp3.seqHistory (receive_dropped hs)
    refine ⟨fun last hlast => ?_, fun hnone => ?_, fun last hlast => ?_⟩
    · rw [hhistory]
      split
      · exact .inl rfl
      · exact h.history last (hstored.symm.trans hlast)
    · have hzero := h.empty (hstored.symm.trans hnone)
      rw [hhistory, hzero, if_neg (by omega)]
    · exact absurd (hlatest.symm.trans hlast) (Option.some_ne_none last).symm

/-- A new packet with data is copied, unless it is the first one and has the number 0. -/
theorem Session.Kept.stores (h : s.Kept order) (hnew : s.New p) (hd : p.data.length ≠ 0)
    (hfirst : s.stored = none → p.seq ≠ 0) : s.Stores p := by
  refine ⟨hd, ?_⟩
  cases hs : s.stored with
  | none =>
    have hne : p.seq.toNat ≠ 0 := fun he => hfirst hs (UInt16.toNat_inj.mp he)
    rw [h.empty hs]
    omega
  | some last =>
    have hne : p.seq.toNat ≠ last.seq.toNat := fun he => hnew last hs (UInt16.toNat_inj.mp he)
    rcases h.history last hs with hh | hh <;> rw [hh] <;> omega

theorem Session.Lands.tractable (hk : s.Kept order) (hl : p.data.length < OUT_BUF_SIZE) (h : s.Lands order p) :
    s.Tractable order p := by
  have hw := p.wptr.toNat_lt
  have hlt := headOf_lt order p.wptr
  refine ⟨fun hnew => ?_, fun hnone hd hseq => ?_, fun hlatest => ?_⟩
  · rw [← headOf_eq_iff]
    have hhead := h.head hnew
    by_cases hd : p.data.length = 0
    · have hs : ¬ s.Stores p := fun hs => hs.1 hd
      rw [receive_ring_dropped hs, hd, Nat.add_zero] at hhead
      rw [Nat.mod_eq_of_lt (by unfold OUT_BUF_SIZE; omega)] at hhead
      exact hhead
    · rw [(receive_ring_stored _ (h.copied hnew hd) hl).2] at hhead
      rw [Nat.add_comm, Nat.add_comm (2 * p.wptr.toNat)] at hhead
      unfold OUT_BUF_SIZE at hlt hhead
      exact lap_inj hhead (by omega) (by omega)
  · have hnew : s.New p := fun last hlast => absurd (hnone.symm.trans hlast) (Option.some_ne_none last).symm
    have hs := (h.copied hnew hd).2
    rw [hk.empty hnone, hseq] at hs
    exact absurd hs (by decide)
  · obtain ⟨hhistory, hd, hhead⟩ := hk.latest p hlatest
    have hs : ¬ s.Stores p := by
      rintro ⟨-, hs⟩
      omega
    have hsame := (h.again hlatest).2
    rw [receive_ring_dropped hs, hhead] at hsame
    unfold OUT_BUF_SIZE at hl hlt hsame
    dsimp only at hsame
    omega

theorem Session.Tractable.lands (hk : s.Kept order) (hl : p.data.length < OUT_BUF_SIZE) (h : s.Tractable order p) :
    s.Lands order p := by
  have hw := p.wptr.toNat_lt
  refine ⟨fun hnew hd => hk.stores hnew hd fun hnone => h.first hnone hd, fun hnew i hi => ?_, fun hnew => ?_,
    fun hlatest => absurd hlatest h.once, fun a ha => ?_⟩
  · have hhead := (headOf_eq_iff order p.wptr).mpr (h.pointer hnew)
    have hs := hk.stores hnew (by omega) fun hnone => h.first hnone (by omega)
    have hb := (receive_ring_stored order hs hl).1 i hi
    rwa [hhead] at hb
  · have hhead := (headOf_eq_iff order p.wptr).mpr (h.pointer hnew)
    by_cases hd : p.data.length = 0
    · have hs : ¬ s.Stores p := fun hs => hs.1 hd
      rw [receive_ring_dropped hs, hd, Nat.add_zero, Nat.mod_eq_of_lt (by unfold OUT_BUF_SIZE; omega)]
      exact hhead
    · have hs := hk.stores hnew hd fun hnone => h.first hnone hd
      rw [(receive_ring_stored _ hs hl).2, hhead]
  · have hack : a = sendAck order (s.receive order p).player.ring p.seq.toNat := by
      rw [receive_ack] at ha
      split at ha
      · exact (Option.some.inj ha).symm
      · cases ha
    rw [hack]
    exact sendAck_wptr (receive_head_lt hl) p.seq.toNat

/-- Nothing has been received yet. -/
structure Session.Fresh (s : Session) : Prop where
  history : s.player.seqHistory = 0
  stored : s.stored = none
  latest : s.latest = none

theorem Session.Fresh.kept (h : s.Fresh) : s.Kept order := by
  refine ⟨fun last hlast => ?_, fun _ => h.history, fun last hlast => ?_⟩
  · exact absurd (h.stored.symm.trans hlast) (Option.some_ne_none last).symm
  · exact absurd (h.latest.symm.trans hlast) (Option.some_ne_none last).symm

theorem Session.Kept.allLand_iff (hk : s.Kept order) (hl : ∀ p ∈ ps, p.data.length < OUT_BUF_SIZE) :
    s.AllLand order ps ↔ s.AllTractable order ps := by
  induction ps generalizing s with
  | nil => exact Iff.rfl
  | cons p ps ih =>
    obtain ⟨hp, hps⟩ := List.forall_mem_cons.mp hl
    constructor
    · rintro ⟨hland, hrest⟩
      have ht := hland.tractable hk hp
      exact ⟨ht, (ih (hk.receive ht.once hp) hps).mp hrest⟩
    · rintro ⟨ht, hrest⟩
      exact ⟨ht.lands hk hp, (ih (hk.receive ht.once hp) hps).mpr hrest⟩

end

/-- Over any sequence of audio packets, every one lands where the server says exactly as long as every pointer
of a new packet fits, the first data has not the number 0, and no packet stored is retransmitted. -/
theorem packets_land_iff (order : ByteOrder) (s : Session) (ps : List MpegPacket) (hs : s.Fresh)
    (hl : ∀ p ∈ ps, p.data.length + 18 ≤ RECV_BUF_SIZE) : s.AllLand order ps ↔ s.AllTractable order ps := by
  refine hs.kept.allLand_iff fun p hp => ?_
  have := hl p hp
  unfold RECV_BUF_SIZE at this
  unfold OUT_BUF_SIZE
  omega

/-- A player that has received nothing. -/
def idle : Session := { player := { ring := { buf := fun _ => 0 } } }

theorem idle_fresh : idle.Fresh := ⟨rfl, rfl, rfl⟩

/-- Two packets one behind the other. -/
theorem packets_land_two : idle.AllLand .big [⟨0, 0, 1, [1, 2]⟩, ⟨0, 1, 2, [3, 4]⟩] := by
  refine (packets_land_iff .big idle _ idle_fresh (by decide)).mpr ⟨⟨fun _ => by decide, fun _ _ => by decide, by decide⟩, ?_⟩
  exact ⟨⟨fun _ => by decide, fun _ _ => by decide, by decide⟩, trivial⟩

/-- The last packet is sent once more, and the head goes back to where it began. -/
theorem retransmission_moves_head : ¬ ∀ (order : ByteOrder) (s : Session) (ps : List MpegPacket), s.Fresh →
    (∀ p ∈ ps, p.data.length + 18 ≤ RECV_BUF_SIZE) → s.AllLand order ps := by
  intro h
  have hland := h .big idle [⟨0, 0, 1, [1, 2]⟩, ⟨0, 0, 1, [1, 2]⟩] idle_fresh (by decide)
  exact absurd (hland.2.1.again (by decide)).2 (by decide)

end Mvpmc.Mclient
