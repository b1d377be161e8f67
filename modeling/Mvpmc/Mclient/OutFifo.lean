import Mvpmc.Mclient.OutBuf

/-! The audio output ring as a queue between the stream and the audio device. -/
namespace Mvpmc.Mclient
open Mvpmc.Lib.Circular

/-- `http_buffer` on received bytes, or `send_mpeg_data` with the results of its two writes. -/
inductive OutOp where
  | buffer (data : List UInt8)
  | send (first second : Int)

/-- The ring, the bytes put into it and those the device has accepted. -/
structure Player where
  ring : RingBuf
  put : List UInt8 := []
  accepted : List UInt8 := []

namespace RingBuf

/-- How many bytes the first `write` is asked for. -/
def asked (b : RingBuf) : Int := if (b.head : Int) < b.tail then OUT_BUF_SIZE - b.tail else b.head - b.tail

/-- The second `write` is made. -/
def writesTwice (b : RingBuf) (first : Int) : Prop := (b.head : Int) < b.tail ∧ first = OUT_BUF_SIZE - b.tail

/-- Head and tail are in the buffer. -/
structure InRange (b : RingBuf) : Prop where
  head_lt : b.head < OUT_BUF_SIZE
  tail_nonneg : 0 ≤ b.tail
  tail_lt : b.tail < OUT_BUF_SIZE

/-- How many bytes there are between `tail` and `head`. -/
def level (b : RingBuf) : Nat := (b.head + OUT_BUF_SIZE - b.tail.toNat) % OUT_BUF_SIZE

/-- The bytes between `tail` and `head`. -/
def contents (b : RingBuf) : List UInt8 := window b.buf OUT_BUF_SIZE b.tail.toNat b.level

end RingBuf

namespace OutOp

/-- A packet is buffered only if there is room; a `write` returns -1 or a count up to the request. -/
def Allowed (b : RingBuf) : OutOp → Prop
  | buffer data => 1 ≤ data.length ∧ data.length ≤ STREAM_PACKET_SIZE ∧ b.hasRoom = true
  | send first second => -1 ≤ first ∧ first ≤ b.asked ∧ (b.writesTwice first → -1 ≤ second ∧ second ≤ b.head)

/-- A `write` that is made returns -1. -/
def WriteFails (b : RingBuf) : OutOp → Prop
  | buffer _ => False
  | send first second => first = -1 ∨ b.writesTwice first ∧ second = -1

end OutOp

namespace Player

/-- A call, with the device open. -/
def call (s : Player) : OutOp → Player
  | .buffer data => { s with ring := httpBuffer s.ring data, put := s.put ++ data }
  | .send first second =>
    let r := sendMpegData s.ring 0 first second
    { s with ring := r.1, accepted := s.accepted ++ r.2 }

/-- Every call is allowed where it is made. -/
def Allows (s : Player) : List OutOp → Prop
  | [] => True
  | op :: ops => op.Allowed s.ring ∧ (s.call op).Allows ops

/-- No `write` returns -1. -/
def WritesSucceed (s : Player) : List OutOp → Prop
  | [] => True
  | op :: ops => ¬ op.WriteFails s.ring ∧ (s.call op).WritesSucceed ops

/-- Head and tail are in the buffer, and what the device has accepted together with what lies between them
is what was put in, in order. -/
structure InOrder (s : Player) : Prop where
  inRange : s.ring.InRange
  bytes : s.accepted ++ s.ring.contents = s.put

/-- The ring is in order now and after each of the calls. -/
def StaysInOrder (s : Player) : List OutOp → Prop
  | [] => s.InOrder
  | op :: ops => s.InOrder ∧ (s.call op).StaysInOrder ops

end Player

namespace RingBuf
variable {b : RingBuf}

theorem bufferFull_eq (h : b.InRange) : b.bufferFull = b.level := by
  obtain ⟨hh, ht, hl⟩ := h
  unfold bufferFull level OUT_BUF_SIZE at *
  split <;> omega

theorem contents_length (b : RingBuf) : b.contents.length = b.level := window_length ..

/-- `n` bytes taken at the tail. -/
def advance (b : RingBuf) (n : Nat) : RingBuf := { b with tail := ((b.tail.toNat + n) % OUT_BUF_SIZE : Nat) }

theorem advance_inRange (h : b.InRange) (n : Nat) : (b.advance n).InRange where
  head_lt := h.head_lt
  tail_nonneg := Int.natCast_nonneg _
  tail_lt := Int.ofNat_lt.mpr (Nat.mod_lt _ (by decide))

theorem contents_advance (h : b.InRange) {n : Nat} (hn : n ≤ b.level) :
    window b.buf OUT_BUF_SIZE b.tail.toNat n ++ (b.advance n).contents = b.contents := by
  obtain ⟨hh, ht, hl⟩ := h
  have hlevel : (b.advance n).level = b.level - n := by
    unfold advance level OUT_BUF_SIZE at *
    dsimp only at hn ⊢
    rw [Int.toNat_natCast]
    omega
  have hrest : (b.advance n).contents = window b.buf OUT_BUF_SIZE (b.tail.toNat + n) (b.level - n) := by
    have hc : (b.advance n).contents = window b.buf OUT_BUF_SIZE (b.advance n).tail.toNat (b.advance n).level := rfl
    rw [hc, hlevel, ← window_mod b.buf OUT_BUF_SIZE (b.tail.toNat + n)]
    rfl
  rw [hrest, ← window_add, Nat.add_sub_cancel' hn]
  rfl

theorem advance_zero (h : b.InRange) : b.advance 0 = b := by
  obtain ⟨hh, ht, hl⟩ := h
  have htail : (((b.tail.toNat + 0) % OUT_BUF_SIZE : Nat) : Int) = b.tail := by
    unfold OUT_BUF_SIZE at *
    omega
  unfold advance
  rw [htail]

/-- `n` bytes in one piece, from the tail on. -/
theorem fromTail_eq (h : b.InRange) {n : Int} (hn : b.tail + n ≤ OUT_BUF_SIZE) :
    b.fromTail n = window b.buf OUT_BUF_SIZE b.tail.toNat n.toNat := by
  have := h.tail_nonneg
  have := h.tail_lt
  exact (window_eq_slice _ _ _ _ (by omega)).symm

theorem sendSplit_takes (h : b.InRange) (hsplit : (b.head : Int) < b.tail) {first second : Int}
    (hfirst : 0 ≤ first) (hle : first ≤ OUT_BUF_SIZE - b.tail)
    (hsecond : first = OUT_BUF_SIZE - b.tail → 0 ≤ second ∧ second ≤ b.head) :
    ∃ n ≤ b.level, b.sendSplit first second = (b.advance n, window b.buf OUT_BUF_SIZE b.tail.toNat n) := by
  obtain ⟨hh, ht, hl⟩ := h
  have hlevel : b.level = b.head + OUT_BUF_SIZE - b.tail.toNat := Nat.mod_eq_of_lt (by omega)
  unfold sendSplit
  by_cases hzero : first = 0
  · refine ⟨0, Nat.zero_le _, ?_⟩
    rw [if_pos hzero, advance_zero ⟨hh, ht, hl⟩, window_zero]
  rw [if_neg hzero]
  have hsent := fromTail_eq ⟨hh, ht, hl⟩ (n := first) (by omega)
  by_cases hend : first = OUT_BUF_SIZE - b.tail
  · obtain ⟨hge, hhead⟩ := hsecond hend
    -- the second write starts at the beginning of the buffer
    refine ⟨first.toNat + second.toNat, by omega, ?_⟩
    have htail : (((b.tail.toNat + (first.toNat + second.toNat)) % OUT_BUF_SIZE : Nat) : Int) = second := by
      have hsum : b.tail.toNat + (first.toNat + second.toNat) = second.toNat + OUT_BUF_SIZE := by omega
      rw [hsum, Nat.add_mod_right, Nat.mod_eq_of_lt (by omega)]
      omega
    have hbytes : b.fromTail first ++ slice b.buf 0 second.toNat =
        window b.buf OUT_BUF_SIZE b.tail.toNat (first.toNat + second.toNat) := by
      have hrest : first.toNat = OUT_BUF_SIZE - b.tail.toNat := by omega
      rw [hrest, window_eq_slices _ _ _ _ (by omega) (by omega), ← hrest]
      rfl
    rw [if_pos hend, advance, htail, ← hbytes]
    dsimp only [fromTail]
    split
    · rename_i hnone
      rw [hnone, Int.toNat_zero, slice_zero, List.append_nil]
    · split
      · rename_i hall
        rw [hall]
        rfl
      · rfl
  · refine ⟨first.toNat, by omega, ?_⟩
    have htail : (((b.tail.toNat + first.toNat) % OUT_BUF_SIZE : Nat) : Int) = b.tail + first := by
      rw [Nat.mod_eq_of_lt (by omega)]
      omega
    rw [if_neg hend, advance, htail, hsent]

theorem sendStraight_takes (h : b.InRange) (hone : b.tail ≤ b.head) {first : Int} (hfirst : 0 ≤ first)
    (hle : first ≤ b.head - b.tail) :
    ∃ n ≤ b.level, b.sendStraight first = (b.advance n, window b.buf OUT_BUF_SIZE b.tail.toNat n) := by
  obtain ⟨hh, ht, hl⟩ := h
  have hlevel : b.level = b.head - b.tail.toNat := by
    unfold level OUT_BUF_SIZE at *
    omega
  have htail : (((b.tail.toNat + first.toNat) % OUT_BUF_SIZE : Nat) : Int) = b.tail + first := by
    rw [Nat.mod_eq_of_lt (by omega)]
    omega
  refine ⟨first.toNat, by omega, ?_⟩
  unfold sendStraight
  split
  · rename_i hzero
    rw [hzero, Int.toNat_zero, advance_zero ⟨hh, ht, hl⟩, window_zero]
  · rw [advance, htail, fromTail_eq ⟨hh, ht, hl⟩ (by omega)]

theorem send_play (hp : b.playmode = 0) (first second : Int) : sendMpegData b 0 first second =
    if (b.head : Int) < b.tail then b.sendSplit first second else b.sendStraight first := by
  unfold sendMpegData
  rw [hp]
  exact if_neg (by decide)

/-- `send_mpeg_data` takes bytes off the front of the ring, unless a `write` fails. -/
theorem send_takes (h : b.InRange) (hp : b.playmode = 0) {first second : Int}
    (ha : (OutOp.send first second).Allowed b) (hw : ¬ (OutOp.send first second).WriteFails b) :
    ∃ n ≤ b.level, sendMpegData b 0 first second = (b.advance n, window b.buf OUT_BUF_SIZE b.tail.toNat n) := by
  obtain ⟨hge, hle, hsecond⟩ := ha
  obtain ⟨hfirst, hw⟩ := not_or.mp hw
  unfold asked at hle
  rw [send_play hp]
  by_cases hsplit : (b.head : Int) < b.tail
  · rw [if_pos hsplit] at hle ⊢
    refine sendSplit_takes h hsplit (by omega) hle ?_
    intro hend
    have := hsecond ⟨hsplit, hend⟩
    have hne : second ≠ -1 := fun he => hw ⟨⟨hsplit, hend⟩, he⟩
    omega
  · rw [if_neg hsplit] at hle ⊢
    exact sendStraight_takes h (not_lt.mp hsplit) (by omega) hle

/-- After a failing `write` the tail is in front of the buffer, or the ring is a byte longer. -/
theorem send_fails (h : b.InRange) (hp : b.playmode = 0) {first second : Int}
    (ha : (OutOp.send first second).Allowed b) (hw : (OutOp.send first second).WriteFails b) :
    (sendMpegData b 0 first second).1.tail < 0 ∨
      (sendMpegData b 0 first second).1.level ≠ b.level ∧ (sendMpegData b 0 first second).2 = [] := by
  obtain ⟨hh, ht, hl⟩ := h
  rw [send_play hp]
  -- a byte more between tail and head
  have hback {tail : Int} (htail : tail = b.tail - 1) :
      tail < 0 ∨ ({ b with tail := tail } : RingBuf).level ≠ b.level ∧ b.fromTail (-1) = [] := by
    by_cases hneg : tail < 0
    · exact .inl hneg
    · refine .inr ⟨?_, rfl⟩
      unfold level OUT_BUF_SIZE at *
      dsimp only
      omega
  rcases hw with rfl | ⟨⟨hsplit, hend⟩, rfl⟩
  · split
    · have hne : (-1 : Int) ≠ OUT_BUF_SIZE - b.tail := by omega
      rw [sendSplit, if_neg (by decide), if_neg hne]
      exact hback rfl
    · rw [sendStraight, if_neg (by decide)]
      exact hback rfl
  · have hpos : first ≠ 0 := by omega
    have hne : (-1 : Int) ≠ b.head := by omega
    rw [if_pos hsplit, sendSplit, if_neg hpos, if_pos hend]
    dsimp only
    rw [if_neg (by decide), if_neg hne]
    exact .inl (show (-1 : Int) < 0 by decide)

end RingBuf

section
variable {s : Player} {op : OutOp} {ops : List OutOp}

theorem Player.InOrder.buffer (h : s.InOrder) {data : List UInt8} (ha : (OutOp.buffer data).Allowed s.ring) :
    (s.call (.buffer data)).InOrder := by
  obtain ⟨hpos, hlen, hroom⟩ := ha
  obtain ⟨⟨hh, ht, hl⟩, hbytes⟩ := h
  have hlevel : s.ring.level + 2 * STREAM_PACKET_SIZE < OUT_BUF_SIZE := by
    have hfull := RingBuf.bufferFull_eq ⟨hh, ht, hl⟩
    simp only [RingBuf.hasRoom, decide_eq_true_eq, hfull] at hroom
    omega
  have hcall : s.call (.buffer data) = { s with ring := s.ring.put data, put := s.put ++ data } := by
    have hne : data.length ≠ 0 := by omega
    dsimp only [Player.call]
    rw [httpBuffer, if_pos hne]
  have hput := @RingBuf.put_eq s.ring data hh (by unfold STREAM_PACKET_SIZE OUT_BUF_SIZE at *; omega)
  have hhead : s.ring.head = (s.ring.tail.toNat + s.ring.level) % OUT_BUF_SIZE := by
    unfold RingBuf.level OUT_BUF_SIZE at *
    omega
  have hgrown : (s.ring.put data).level = s.ring.level + data.length := by
    rw [hput]
    unfold RingBuf.level STREAM_PACKET_SIZE OUT_BUF_SIZE at *
    dsimp only at hlevel ⊢
    omega
  rw [hcall]
  refine ⟨⟨?_, ?_, ?_⟩, ?_⟩
  · rw [hput]
    exact Nat.mod_lt _ (by decide)
  · rw [hput]
    exact ht
  · rw [hput]
    exact hl
  · have hnew : (s.ring.put data).contents = s.ring.contents ++ data := by
      unfold RingBuf.contents
      rw [hgrown, hput]
      dsimp only
      rw [hhead]
      exact window_store _ _ _ _ _ (by decide) (by unfold STREAM_PACKET_SIZE OUT_BUF_SIZE at *; omega)
    dsimp only
    rw [hnew, ← List.append_assoc, hbytes]

theorem Player.call_playmode (s : Player) (op : OutOp) (hp : s.ring.playmode = 0) : (s.call op).ring.playmode = 0 := by
  cases op with
  | buffer data =>
    dsimp only [Player.call]
    unfold httpBuffer RingBuf.put
    split
    · split <;> exact hp
    · exact hp
  | send first second =>
    dsimp only [Player.call]
    rw [RingBuf.send_play hp]
    unfold RingBuf.sendSplit RingBuf.sendStraight
    dsimp only
    split_ifs <;> exact hp

theorem Player.InOrder.send (h : s.InOrder) (hp : s.ring.playmode = 0) {first second : Int}
    (ha : (OutOp.send first second).Allowed s.ring) (hw : ¬ (OutOp.send first second).WriteFails s.ring) :
    (s.call (.send first second)).InOrder := by
  obtain ⟨n, hn, hsend⟩ := RingBuf.send_takes h.inRange hp ha hw
  have hcall : s.call (.send first second) =
      { s with ring := s.ring.advance n, accepted := s.accepted ++ window s.ring.buf OUT_BUF_SIZE s.ring.tail.toNat n } := by
    dsimp only [Player.call]
    rw [hsend]
  rw [hcall]
  refine ⟨RingBuf.advance_inRange h.inRange n, ?_⟩
  dsimp only
  rw [List.append_assoc, RingBuf.contents_advance h.inRange hn, h.bytes]

/-- A failing `write` leaves a ring out of order. -/
theorem Player.InOrder.not_of_fails (h : s.InOrder) (hp : s.ring.playmode = 0) {first second : Int}
    (ha : (OutOp.send first second).Allowed s.ring) (hw : (OutOp.send first second).WriteFails s.ring) :
    ¬ (s.call (.send first second)).InOrder := by
  intro h'
  rcases RingBuf.send_fails h.inRange hp ha hw with hneg | ⟨hlevel, hnone⟩
  · exact absurd h'.inRange.tail_nonneg (not_le.mpr hneg)
  · have hb := congrArg List.length h.bytes
    have hb' := congrArg List.length h'.bytes
    dsimp only [Player.call] at hb'
    rw [hnone, List.append_nil] at hb'
    rw [List.length_append, RingBuf.contents_length] at hb hb'
    omega

/-- A call leaves the ring in order just when none of its writes fails. -/
theorem Player.InOrder.call_iff (h : s.InOrder) (hp : s.ring.playmode = 0) (ha : op.Allowed s.ring) :
    (s.call op).InOrder ↔ ¬ op.WriteFails s.ring := by
  cases op with
  | buffer data => exact iff_of_true (h.buffer ha) id
  | send first second =>
    exact ⟨fun h' hw => h.not_of_fails hp ha hw h', h.send hp ha⟩

/-- Nothing has been played yet. -/
structure Player.Fresh (s : Player) : Prop where
  playmode : s.ring.playmode = 0
  head_lt : s.ring.head < OUT_BUF_SIZE
  tail : s.ring.tail = s.ring.head
  put : s.put = []
  accepted : s.accepted = []

theorem Player.Fresh.inOrder (h : s.Fresh) : s.InOrder := by
  have hlevel : s.ring.level = 0 := by
    rw [RingBuf.level, h.tail, Int.toNat_natCast, Nat.add_sub_cancel_left, Nat.mod_self]
  refine ⟨⟨h.head_lt, ?_, ?_⟩, ?_⟩
  · rw [h.tail]
    exact Int.natCast_nonneg _
  · rw [h.tail]
    exact Int.ofNat_lt.mpr h.head_lt
  · rw [RingBuf.contents, hlevel, h.put, h.accepted]
    rfl

theorem Player.InOrder.stays_iff (h : s.InOrder) (hp : s.ring.playmode = 0) (ha : s.Allows ops) :
    s.StaysInOrder ops ↔ s.WritesSucceed ops := by
  induction ops generalizing s with
  | nil => exact iff_of_true h trivial
  | cons op ops ih =>
    obtain ⟨hop, hrest⟩ := ha
    have hstep := h.call_iff hp hop
    constructor
    · rintro ⟨-, hs⟩
      have h' : (s.call op).InOrder := by
        cases ops with
        | nil => exact hs
        | cons op' ops => exact hs.1
      exact ⟨hstep.mp h', (ih h' (s.call_playmode op hp) hrest).mp hs⟩
    · rintro ⟨hw, hs⟩
      have h' := hstep.mpr hw
      exact ⟨h, (ih h' (s.call_playmode op hp) hrest).mpr hs⟩

end

/-- Over any calls in play mode with the device open, the ring is a queue in every state reached exactly as
long as no `write` fails. -/
theorem ring_in_order_iff (s : Player) (ops : List OutOp) (hs : s.Fresh) (ha : s.Allows ops) :
    s.StaysInOrder ops ↔ s.WritesSucceed ops :=
  hs.inOrder.stays_iff hs.playmode ha

/-- An empty ring. -/
def silent : Player := { ring := { buf := fun _ => 0 } }

theorem silent_fresh : silent.Fresh := ⟨rfl, by decide, rfl, rfl, rfl⟩

theorem silent_allows : silent.Allows [.buffer [1, 2, 3], .send 2 0] :=
  ⟨⟨by decide, by decide, by decide⟩, ⟨by decide, by decide, fun h => absurd h.1 (by decide)⟩, trivial⟩

/-- Three bytes are buffered and two of them played. -/
theorem ring_in_order_three : silent.StaysInOrder [.buffer [1, 2, 3], .send 2 0] :=
  (ring_in_order_iff silent _ silent_fresh silent_allows).mpr
    ⟨id, by rintro (h | ⟨-, h⟩) <;> exact absurd h (by decide), trivial⟩

/-- The first write fails, and the tail is in front of the buffer. -/
theorem failed_write_moves_tail : ¬ ∀ (s : Player) (ops : List OutOp), s.Fresh → s.Allows ops → s.StaysInOrder ops := by
  intro h
  have hstay := h silent [.send (-1) 0] silent_fresh ⟨⟨by decide, by decide, fun h => absurd h.1 (by decide)⟩, trivial⟩
  exact absurd hstay.2.inRange.tail_nonneg (by decide)

end Mvpmc.Mclient
