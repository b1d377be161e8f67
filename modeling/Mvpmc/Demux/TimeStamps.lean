import Mvpmc.Demux.Jit
import Mvpmc.Demux.SpuQueue

/-! The four decoders of time stamps, against the five bytes that a time stamp is packed into. -/
namespace Mvpmc.Demux
open Mvpmc.Lib.Circular

/-- The bytes of a time stamp: four bits that say which one it is, then the 33 bits of `p`, with
a marker bit behind the third, the eighteenth and the last of them. -/
def stampByte (code p : Nat) : Nat → UInt8
  | 0 => UInt8.ofNat ((code <<< 4) ||| ((p >>> 30) <<< 1) ||| 1)
  | 1 => UInt8.ofNat (p >>> 22)
  | 2 => UInt8.ofNat (((p >>> 15) <<< 1) ||| 1)
  | 3 => UInt8.ofNat (p >>> 7)
  | _ => UInt8.ofNat ((p <<< 1) ||| 1)

/-- `byte` reads a packet header from behind the start code on: it announces both time stamps
and carries `p` and `d`. -/
structure Stamped (byte : Nat → UInt8) (p d : Nat) : Prop where
  flags : byte 3 >>> 6 = 3
  pts : ∀ k < 5, byte (5 + k) = stampByte 3 p k
  dts : ∀ k < 5, byte (10 + k) = stampByte 1 d k

section
variable {p d code : Nat}

theorem bit_byte (n i : Nat) : (UInt8.ofNat n).toUInt32.toNat.testBit i = (decide (i < 8) && n.testBit i) := by
  rw [UInt8.toNat_toUInt32, UInt8.toNat_ofNat', Nat.testBit_mod_two_pow]

theorem bit_shiftRight (x k : UInt32) (i : Nat) :
    (x >>> k).toNat.testBit i = x.toNat.testBit (k.toNat % 32 + i) := by
  rw [UInt32.toNat_shiftRight, Nat.testBit_shiftRight]

theorem bit_shiftLeft (x k : UInt32) (i : Nat) : (x <<< k).toNat.testBit i =
    (decide (i < 32) && (decide (k.toNat % 32 ≤ i) && x.toNat.testBit (i - k.toNat % 32))) := by
  rw [UInt32.toNat_shiftLeft, Nat.testBit_mod_two_pow, Nat.testBit_shiftLeft]

theorem bit_or (x y : UInt32) (i : Nat) : (x ||| y).toNat.testBit i = (x.toNat.testBit i || y.toNat.testBit i) := by
  rw [UInt32.toNat_or, Nat.testBit_or]

theorem bit_and (x y : UInt32) (i : Nat) : (x &&& y).toNat.testBit i = (x.toNat.testBit i && y.toNat.testBit i) := by
  rw [UInt32.toNat_and, Nat.testBit_and]

theorem bit_one (i : Nat) : Nat.testBit 1 i = decide (i = 0) := by
  rw [Bool.eq_iff_iff, decide_eq_true_iff]
  exact Nat.testBit_one_eq_true_iff_self_eq_zero

/-- The bits of a mask, from those below its width. -/
theorem bit_mask (c n : Nat) (mask : Nat → Bool) (hc : c < 2 ^ n) (h : ∀ i < n, c.testBit i = mask i)
    (hm : ∀ i, n ≤ i → mask i = false) (i : Nat) : c.testBit i = mask i := by
  rcases Nat.lt_or_ge i n with hlt | hge
  · exact h i hlt
  · rw [hm i hge]
    exact Nat.testBit_lt_two_pow (Nat.lt_of_lt_of_le hc (Nat.pow_le_pow_right (by decide) hge))

theorem bit_mask07 (i : Nat) : (7 : UInt32).toNat.testBit i = decide (i < 3) :=
  bit_mask 7 3 (fun i => decide (i < 3)) (by decide) (by decide) (fun i hi => by simpa using hi) i

theorem bit_mask06 (i : Nat) : (6 : UInt32).toNat.testBit i = (decide (1 ≤ i) && decide (i < 3)) :=
  bit_mask 6 3 (fun i => decide (1 ≤ i) && decide (i < 3)) (by decide) (by decide) (fun i hi => by simp; omega) i

theorem bit_maskFE (i : Nat) : (0xFE : UInt32).toNat.testBit i = (decide (1 ≤ i) && decide (i < 8)) :=
  bit_mask 0xFE 8 (fun i => decide (1 ≤ i) && decide (i < 8)) (by decide) (by decide) (fun i hi => by simp; omega) i

/-- A word is a number cut to 32 bits when they agree bit by bit. -/
theorem toNat_eq_iff (x : UInt32) (n : Nat) : x.toNat = n % 2 ^ 32 ↔ ∀ i < 32, x.toNat.testBit i = n.testBit i := by
  constructor
  · intro h i hi
    rw [h, Nat.testBit_mod_two_pow, decide_eq_true hi, Bool.true_and]
  · intro h
    apply Nat.eq_of_testBit_eq
    intro i
    rw [Nat.testBit_mod_two_pow]
    by_cases hi : i < 32
    · rw [decide_eq_true hi, Bool.true_and]
      exact h i hi
    · rw [decide_eq_false hi, Bool.false_and]
      exact Nat.testBit_lt_two_pow (Nat.lt_of_lt_of_le x.toNat_lt (Nat.pow_le_pow_right (by decide) (by omega)))

/-- The video parser reads a presentation time stamp back. -/
theorem stamp_pts (code p : Nat) :
    (stamp (stampByte code p 4) (stampByte code p 3) (stampByte code p 2) (stampByte code p 1) (stampByte code p 0)).toNat =
      p % 2 ^ 32 := by
  rw [toNat_eq_iff]
  intro i hi
  simp only [stamp, stampByte, bit_or, bit_and, bit_mask07, bit_shiftLeft, bit_shiftRight, bit_byte, bit_one,
    Nat.testBit_or, Nat.testBit_shiftLeft, Nat.testBit_shiftRight]
  interval_cases i <;> simp

/-- So does the audio writer. -/
theorem audioPts_pts {buf : List UInt8} (h : ∀ k < 5, buf.getD (9 + k) 0 = stampByte code p k) :
    (audioPts buf).toNat = p % 2 ^ 32 := by
  have h0 := h 0 (by decide)
  have h1 := h 1 (by decide)
  have h2 := h 2 (by decide)
  have h3 := h 3 (by decide)
  have h4 := h 4 (by decide)
  rw [toNat_eq_iff]
  intro i hi
  simp only [audioPts, h0, h1, h2, h3, h4, stampByte, bit_or, bit_and, bit_mask06, bit_maskFE, bit_shiftLeft,
    bit_shiftRight, bit_byte, bit_one, Nat.testBit_or, Nat.testBit_shiftLeft, Nat.testBit_shiftRight]
  interval_cases i <;> simp

/-- The bits that the subpicture parser reads. From bit 15 on they come from one place too low, and so
do those from bit 30 on. -/
theorem spuStart_bit {mem : Nat → UInt8} (h : ∀ k < 5, mem (3 + k) = stampByte code p k) {i : Nat} (hi : i < 32) :
    (spuStart mem).toNat.testBit i =
      (((decide (i < 15) || decide (22 ≤ i)) && decide (i < 30) && p.testBit i) ||
        ((decide (14 ≤ i) && decide (i < 21) || decide (29 ≤ i)) && p.testBit (i + 1))) := by
  have h0 := h 0 (by decide)
  have h1 := h 1 (by decide)
  have h2 := h 2 (by decide)
  have h3 := h 3 (by decide)
  have h4 := h 4 (by decide)
  simp only [spuStart, h0, h1, h2, h3, h4, stampByte, bit_or, bit_and, bit_mask07, bit_shiftLeft, bit_shiftRight,
    bit_byte, bit_one, Nat.testBit_or, Nat.testBit_shiftLeft, Nat.testBit_shiftRight]
  interval_cases i <;> simp

/-- The bits that the video parser reads from a decoding time stamp: the bytes are taken the wrong way round. -/
theorem stamp_dts_bit (hd : d < 2 ^ 33) {i : Nat} (hi : i < 32) :
    (stamp (stampByte 1 d 0) (stampByte 1 d 1) (stampByte 1 d 2) (stampByte 1 d 3) (stampByte 1 d 4)).toNat.testBit i =
      if i < 3 then d.testBit (i + 30) else if i = 3 then true else if i < 7 then false
      else if i < 15 then d.testBit (i + 15) else if i < 22 then d.testBit i
      else if i < 30 then d.testBit (i - 15) else d.testBit (i - 30) := by
  have htop (j : Nat) (hj : 33 ≤ j) : d.testBit j = false :=
    Nat.testBit_lt_two_pow (Nat.lt_of_lt_of_le hd (Nat.pow_le_pow_right (by decide) hj))
  simp only [stamp, stampByte, bit_or, bit_and, bit_mask07, bit_shiftLeft, bit_shiftRight, bit_byte, bit_one,
    Nat.testBit_or, Nat.testBit_shiftLeft, Nat.testBit_shiftRight]
  interval_cases i <;> simp [htop]

/-- The subpicture parser gets these values right. -/
structure SpuExact (p : Nat) : Prop where
  middle : ∀ i, 15 ≤ i → i < 22 → p.testBit i = false
  top : p.testBit 30 = p.testBit 31 ∧ p.testBit 31 = p.testBit 32
  below : p.testBit 30 = true → p.testBit 29 = true

/-- The video parser gets these decoding time stamps right. -/
structure DtsExact (d : Nat) : Prop where
  low : ∀ i < 3, d.testBit i = d.testBit (i + 30)
  code : d.testBit 3 = true ∧ d.testBit 4 = false ∧ d.testBit 5 = false ∧ d.testBit 6 = false
  swapped : ∀ i, 7 ≤ i → i < 15 → d.testBit i = d.testBit (i + 15)

theorem spuStart_exact_iff {mem : Nat → UInt8} (h : ∀ k < 5, mem (3 + k) = stampByte code p k) :
    (spuStart mem).toNat = p % 2 ^ 32 ↔ SpuExact p := by
  rw [toNat_eq_iff]
  constructor
  · intro hall
    have hbit (i : Nat) (hi : i < 32) := (spuStart_bit h hi).symm.trans (hall i hi)
    have h21 := hbit 21 (by decide)
    have h20 := hbit 20 (by decide)
    have h19 := hbit 19 (by decide)
    have h18 := hbit 18 (by decide)
    have h17 := hbit 17 (by decide)
    have h16 := hbit 16 (by decide)
    have h15 := hbit 15 (by decide)
    have h29 := hbit 29 (by decide)
    have h30 := hbit 30 (by decide)
    have h31 := hbit 31 (by decide)
    simp at h15 h16 h17 h18 h19 h20 h21 h29 h30 h31
    refine ⟨fun i hi hlt => ?_, ⟨h30.symm, h31.symm⟩, h29⟩
    interval_cases i <;> simp_all
  · intro he i hi
    rw [spuStart_bit h hi]
    have hm := he.middle
    obtain ⟨ht1, ht2⟩ := he.top
    have hb := he.below
    interval_cases i <;> simp_all

theorem dts_exact_iff (hd : d < 2 ^ 33) :
    (stamp (stampByte 1 d 0) (stampByte 1 d 1) (stampByte 1 d 2) (stampByte 1 d 3) (stampByte 1 d 4)).toNat =
      d % 2 ^ 32 ↔ DtsExact d := by
  rw [toNat_eq_iff]
  constructor
  · intro hall
    have hbit (i : Nat) (hi : i < 32) := (stamp_dts_bit hd hi).symm.trans (hall i hi)
    refine ⟨fun i hi => ?_, ⟨?_, ?_, ?_, ?_⟩, fun i h7 h15 => ?_⟩
    · have hb := hbit i (by omega)
      rw [if_pos hi] at hb
      exact hb.symm
    · exact (hbit 3 (by decide)).symm
    · exact (hbit 4 (by decide)).symm
    · exact (hbit 5 (by decide)).symm
    · exact (hbit 6 (by decide)).symm
    · have hb := hbit i (by omega)
      rw [if_neg (by omega), if_neg (by omega), if_neg (by omega), if_pos h15] at hb
      exact hb.symm
  · intro he i hi
    rw [stamp_dts_bit hd hi]
    obtain ⟨h3, h4, h5, h6⟩ := he.code
    split
    · exact (he.low i ‹_›).symm
    · split
      · rename_i hi3
        rw [hi3, h3]
      · split
        · interval_cases i <;> simp_all
        · split
          · exact (he.swapped i (by omega) ‹_›).symm
          · split
            · rfl
            · split
              · have hs := he.swapped (i - 15) (by omega) (by omega)
                rw [show i - 15 + 15 = i by omega] at hs
                exact hs
              · have hl := he.low (i - 30) (by omega)
                rw [show i - 30 + 30 = i by omega] at hl
                exact hl

theorem flags_set {b : UInt8} (h : b >>> 6 = 3) : b >>> 7 ≠ 0 ∧ (b >>> 6) &&& 1 ≠ 0 := by
  refine ⟨fun h7 => ?_, by rw [h]; decide⟩
  have h6 := congrArg UInt8.toNat h
  have h7 := congrArg UInt8.toNat h7
  rw [UInt8.toNat_shiftRight, Nat.shiftRight_eq_div_pow] at h6 h7
  rw [show UInt8.toNat 6 % 8 = 6 from rfl, show UInt8.toNat 3 = 3 from rfl] at h6
  rw [show UInt8.toNat 7 % 8 = 7 from rfl, show UInt8.toNat 0 = 0 from rfl] at h7
  omega

/-- The video parser decodes the bytes where it finds them in the ring. -/
theorem timeStamps_of_stamped {sc : Scan} {tail head size : Nat} (hs : Stamped (fun k => sc.ringbuf size (sc.i + k)) p d)
    (h3 : ringbufValid tail head size (sc.i + 3) = true) (h9 : ringbufValid tail head size (sc.i + 9) = true)
    (h14 : ringbufValid tail head size (sc.i + 14) = true) :
    (sc.timeStamps tail head size).1.pts =
        stamp (stampByte 3 p 4) (stampByte 3 p 3) (stampByte 3 p 2) (stampByte 3 p 1) (stampByte 3 p 0) ∧
      (sc.timeStamps tail head size).1.dts =
        stamp (stampByte 1 d 0) (stampByte 1 d 1) (stampByte 1 d 2) (stampByte 1 d 3) (stampByte 1 d 4) := by
  obtain ⟨hp, hd⟩ := flags_set hs.flags
  have hpts (k : Nat) (hk : k < 5) := hs.pts k hk
  have hdts (k : Nat) (hk : k < 5) := hs.dts k hk
  simp only [← Nat.add_assoc] at hpts hdts
  unfold Scan.timeStamps
  simp only [h3, if_true, hp, hd, ne_eq, not_false_eq_true, true_and, h9, h14, Bool.true_eq_false, if_false]
  constructor
  · rw [← hpts 0 (by decide), ← hpts 1 (by decide), ← hpts 2 (by decide), ← hpts 3 (by decide), ← hpts 4 (by decide)]
  · rw [← hdts 0 (by decide), ← hdts 1 (by decide), ← hdts 2 (by decide), ← hdts 3 (by decide), ← hdts 4 (by decide)]

/-- The control sequence hands on the decoded time, or none. -/
theorem spuCommands_start (mem : Nat → UInt8) (size : Nat) (start : UInt32) {fuel cmd : Nat} {c c' : SpuControl}
    (h : spuCommands mem size start fuel cmd c = some c') (hc : c.start = 0 ∨ c.start = start) :
    c'.start = 0 ∨ c'.start = start := by
  fun_induction spuCommands mem size start fuel cmd c <;> simp_all

end

/-- The decoders agree on a header with the time stamps `p` and `d`, wherever each of them finds its
bytes, exactly for the values that the subpicture parser and the decoding time stamps get right. -/
theorem decoders_agree_iff {p d : Nat} (hd : d < 2 ^ 33) {byte : Nat → UInt8} (hs : Stamped byte p d)
    {sc : Scan} {tail head size : Nat} (hring : ∀ k < 15, sc.ringbuf size (sc.i + k) = byte k)
    (h3 : ringbufValid tail head size (sc.i + 3) = true) (h9 : ringbufValid tail head size (sc.i + 9) = true)
    (h14 : ringbufValid tail head size (sc.i + 14) = true) {buf : List UInt8} (hbuf : ∀ k < 10, buf.getD (4 + k) 0 = byte k)
    {mem : Nat → UInt8} (hmem : ∀ k < 13, mem k = byte (2 + k)) :
    ((sc.timeStamps tail head size).1.pts.toNat = p % 2 ^ 32 ∧ (audioPts buf).toNat = p % 2 ^ 32 ∧
      (spuStart mem).toNat = p % 2 ^ 32 ∧ (sc.timeStamps tail head size).1.dts.toNat = d % 2 ^ 32) ↔
    SpuExact p ∧ DtsExact d := by
  have hsc : Stamped (fun k => sc.ringbuf size (sc.i + k)) p d := by
    refine ⟨by rw [hring 3 (by decide)]; exact hs.flags, fun k hk => ?_, fun k hk => ?_⟩
    · rw [hring (5 + k) (by omega)]
      exact hs.pts k hk
    · rw [hring (10 + k) (by omega)]
      exact hs.dts k hk
  obtain ⟨hvp, hvd⟩ := timeStamps_of_stamped hsc h3 h9 h14
  have haudio : ∀ k < 5, buf.getD (9 + k) 0 = stampByte 3 p k := by
    intro k hk
    have hb := hbuf (5 + k) (by omega)
    rw [← Nat.add_assoc] at hb
    exact hb.trans (hs.pts k hk)
  have hspu : ∀ k < 5, mem (3 + k) = stampByte 3 p k := by
    intro k hk
    rw [hmem (3 + k) (by omega), show 2 + (3 + k) = 5 + k by omega]
    exact hs.pts k hk
  rw [hvp, hvd, stamp_pts, dts_exact_iff hd, spuStart_exact_iff hspu]
  exact ⟨fun h => h.2.2, fun h => ⟨rfl, audioPts_pts haudio, h⟩⟩

/-- The time of an item that arrives is the decoded one, or none was given. -/
theorem spuArrived_start {h : Handle} {mem : Nat → UInt8} {len k : Nat} {it : SpuItem}
    (ha : spuArrived h mem len = some (k, it)) : it.start = 0 ∨ it.start = spuStart mem := by
  have hitem (p : Nat → UInt8) (size dataSize : Nat) (x : SpuItem) (hx : spuItem? p size dataSize (spuStart mem) = some x) :
      x.start = 0 ∨ x.start = spuStart mem := by
    unfold spuItem? at hx
    split at hx
    · cases hx
    · rename_i c hc
      split at hx
      · cases hx
      · cases hx
        exact spuCommands_start p size _ hc (.inl rfl)
  unfold spuArrived at ha
  dsimp only at ha
  split at ha
  · cases ha
  · split at ha
    · split at ha
      · obtain ⟨x, hx, he⟩ := Option.map_eq_some_iff.mp ha
        cases he
        exact hitem _ _ _ _ hx
      · cases ha
    · split at ha
      · obtain ⟨x, hx, he⟩ := Option.map_eq_some_iff.mp ha
        cases he
        exact hitem _ _ _ _ hx
      · cases ha

/-- A header with both time stamps, from behind the start code on. -/
def stampedHeader (p d : Nat) (k : Nat) : UInt8 :=
  if k < 5 then [0, 13, 0x80, 0xC0, 10].getD k 0 else if k < 10 then stampByte 3 p (k - 5)
  else if k < 15 then stampByte 1 d (k - 10) else 0

theorem stampedHeader_stamped (p d : Nat) : Stamped (stampedHeader p d) p d := by
  refine ⟨?_, fun k hk => ?_, fun k hk => ?_⟩
  · rw [stampedHeader, if_pos (by decide)]
    decide
  · rw [stampedHeader, if_neg (by omega), if_pos (by omega), Nat.add_sub_cancel_left]
  · rw [stampedHeader, if_neg (by omega), if_neg (by omega), if_pos (by omega), Nat.add_sub_cancel_left]

/-- The header in a video ring of 80 bytes, at position 8. -/
def stampedScan (p d : Nat) : Scan where
  h := { demuxInit 100 (fun _ => 0) with video := { Stream.init 80 with buf := fun a => stampedHeader p d (a - 8) } }
  i := 8

theorem stampedScan_ring (p d : Nat) : ∀ k < 15, (stampedScan p d).ringbuf 80 ((stampedScan p d).i + k) = stampedHeader p d k := by
  intro k hk
  have hm : (8 + k) % 80 = 8 + k := Nat.mod_eq_of_lt (by omega)
  simp only [Scan.ringbuf, stampedScan, hm, Nat.add_sub_cancel_left]

theorem stampedHeader_buf (p d : Nat) :
    ∀ k < 10, ((List.range 14).map fun j => stampedHeader p d (j - 4)).getD (4 + k) 0 = stampedHeader p d k := by
  intro k hk
  have hlt : 4 + k < 14 := by omega
  simp [List.getD_eq_getElem?_getD, List.getElem?_map, List.getElem?_range hlt]

theorem decoders_agree_thousand :
    ((stampedScan 1000 8).timeStamps 3 40 80).1.pts = 1000 ∧ (spuStart fun k => stampedHeader 1000 8 (2 + k)) = 1000 := by
  have hall := (decoders_agree_iff (p := 1000) (d := 8) (by decide) (stampedHeader_stamped 1000 8) (stampedScan_ring 1000 8)
    (show ringbufValid 3 40 80 11 = true by decide) (show ringbufValid 3 40 80 17 = true by decide)
    (show ringbufValid 3 40 80 22 = true by decide) (stampedHeader_buf 1000 8)
    (show ∀ k < 13, (fun k => stampedHeader 1000 8 (2 + k)) k = stampedHeader 1000 8 (2 + k) from fun _ _ => rfl)).mpr
    ⟨⟨by decide, by decide, by decide⟩, ⟨by decide, by decide, by decide⟩⟩
  exact ⟨UInt32.toNat_inj.mp hall.1, UInt32.toNat_inj.mp hall.2.2.1⟩

/-- The time stamp 32768 (a third of a second) is 16384 to the subpicture parser. -/
theorem decoders_disagree : ¬ ∀ (p d : Nat), p < 2 ^ 33 → d < 2 ^ 33 → ∀ byte : Nat → UInt8, Stamped byte p d →
    ∀ (sc : Scan) (tail head size : Nat), (∀ k < 15, sc.ringbuf size (sc.i + k) = byte k) →
    ringbufValid tail head size (sc.i + 3) = true → ringbufValid tail head size (sc.i + 9) = true →
    ringbufValid tail head size (sc.i + 14) = true → ∀ buf : List UInt8, (∀ k < 10, buf.getD (4 + k) 0 = byte k) →
    ∀ mem : Nat → UInt8, (∀ k < 13, mem k = byte (2 + k)) →
    (sc.timeStamps tail head size).1.pts.toNat = p % 2 ^ 32 ∧ (audioPts buf).toNat = p % 2 ^ 32 ∧
      (spuStart mem).toNat = p % 2 ^ 32 ∧ (sc.timeStamps tail head size).1.dts.toNat = d % 2 ^ 32 := by
  intro hall
  have hspu := (hall 32768 8 (by decide) (by decide) _ (stampedHeader_stamped 32768 8) _ 3 40 80 (stampedScan_ring 32768 8)
    (by decide) (by decide) (by decide) _ (stampedHeader_buf 32768 8) (fun k => stampedHeader 32768 8 (2 + k))
    fun _ _ => rfl).2.2.1
  exact absurd hspu (by decide)

end Mvpmc.Demux
