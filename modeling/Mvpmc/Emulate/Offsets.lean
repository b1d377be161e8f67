import Mathlib.Tactic

/-! The 64-bit offsets of the media protocol: `INT64_TO_BUF`, `media_offset_64`, and the two messages that carry one. -/
namespace Mvpmc.Emulate

inductive LongWidth where
  | w32
  | w64
  deriving DecidableEq, Repr

def LongWidth.bits : LongWidth → Nat
  | .w32 => 32
  | .w64 => 64

/-- What the compiler chooses: the width of `long`, and whether `char` has a sign. -/
structure Abi where
  long : LongWidth
  charSigned : Bool

namespace Abi
variable (abi : Abi)

/-- A byte stored in a `char`. -/
def char (b : BitVec 8) : Int := if abi.charSigned then b.toInt else b.toNat

/-- `(src >> k) & 0xff` stored in a `char`. -/
def byteOf (src : BitVec 64) (k : Nat) : Int := abi.char ((src.sshiftRight k &&& 0xff#64).setWidth 8)

end Abi

/-- `(unsigned char) c`. -/
def uchar (c : Int) : BitVec 8 := BitVec.ofInt 8 c

/-- The bytes put over those of `buf` from `start` on. -/
def poke (buf : List Int) (start : Nat) (bytes : List Int) : List Int :=
  buf.take start ++ bytes ++ buf.drop (start + bytes.length)

section
variable (abi : Abi)

/-- `INT64_TO_BUF`. -/
def int64ToBuf (src : BitVec 64) : List Int :=
  [abi.byteOf src 24, abi.byteOf src 16, abi.byteOf src 8, abi.byteOf src 0,
    abi.byteOf src 56, abi.byteOf src 48, abi.byteOf src 40, abi.byteOf src 32]

/-- `INT64_TO_PROGBUF`. -/
def int64ToProgbuf (src : BitVec 64) : List Int :=
  [abi.byteOf src 24, abi.byteOf src 16, abi.byteOf src 8, abi.byteOf src 0, abi.byteOf src 40, abi.byteOf src 32]

/-- `BUF_TO_INT32`: an `int`. -/
def bufToInt32 (src : List Int) : BitVec 32 :=
  ((uchar (src.getD 0 0)).setWidth 32 <<< 24) ||| ((uchar (src.getD 1 0)).setWidth 32 <<< 16) |||
    ((uchar (src.getD 2 0)).setWidth 32 <<< 8) ||| (uchar (src.getD 3 0)).setWidth 32

/-- `media_offset_64`. Both halves are `int`s that become a `long`; the low one is `ulong` in the sum, and so loses
its sign only where the two have the same width. -/
def mediaOffset64 (ptr : List Int) : BitVec 64 :=
  let offlow := (bufToInt32 ptr).signExtend abi.long.bits
  let offhigh := (bufToInt32 (ptr.drop 4)).signExtend abi.long.bits
  offhigh.signExtend 64 * 0x100000000#64 + offlow.setWidth 64

def mediaSeekCommand : Int := 7

def rfbRdcProgress : Int := 9

/-- The message of `media_send_seek`. -/
def mediaSendSeek (fileid : Int × Int) (offset : BitVec 64) : List Int :=
  let buf := poke (List.replicate 40 0) 0 [mediaSeekCommand]
  let buf := poke buf 6 [fileid.1, fileid.2]
  poke buf 8 (int64ToBuf abi offset)

/-- The message of `RDCSendProgress`: ten bytes of `buf[12]`. -/
def rdcSendProgress (currentPosition : BitVec 64) : List Int :=
  let buf := poke (List.replicate 12 0) 0 [rfbRdcProgress]
  (poke buf 4 (int64ToProgbuf abi currentPosition)).take 10

end

theorem uchar_char (abi : Abi) (b : BitVec 8) : uchar (abi.char b) = b := by
  unfold uchar Abi.char
  split
  · exact BitVec.ofInt_toInt
  · rw [BitVec.ofInt_natCast, BitVec.ofNat_toNat, BitVec.setWidth_eq]

/-- A byte shifted down arithmetically. -/
theorem uchar_byteOf (abi : Abi) (x : BitVec 64) {k : Nat} (hk : k ≤ 56) : uchar (abi.byteOf x k) = x.extractLsb' k 8 := by
  rw [Abi.byteOf, uchar_char]
  ext i hi
  have hlt : k + i < 64 := by omega
  have h64 : i < 64 := by omega
  have hmask : ∀ i (h : i < 8), (255#8)[i] = true := by decide
  simp [BitVec.getElem_sshiftRight, hmask, hlt, h64]

/-- Four bytes, the highest first. -/
theorem word_of_bytes (x : BitVec 64) (k : Nat) :
    ((x.extractLsb' (k + 24) 8).setWidth 32 <<< 24) ||| ((x.extractLsb' (k + 16) 8).setWidth 32 <<< 16) |||
      ((x.extractLsb' (k + 8) 8).setWidth 32 <<< 8) ||| (x.extractLsb' k 8).setWidth 32 = x.extractLsb' k 32 := by
  ext i hi
  simp only [BitVec.getElem_or, BitVec.getElem_shiftLeft, BitVec.getLsbD_extractLsb',
    BitVec.getElem_setWidth, BitVec.getElem_extractLsb']
  rcases Nat.lt_or_ge i 8 with h8 | h8
  · simp [h8, show i < 16 by omega, show i < 24 by omega]
  · rcases Nat.lt_or_ge i 16 with h16 | h16
    · simp [h16, show ¬ i < 8 by omega, show i < 24 by omega, show i - 8 < 8 by omega,
        show k + 8 + (i - 8) = k + i by omega]
    · rcases Nat.lt_or_ge i 24 with h24 | h24
      · simp [h24, show ¬ i < 8 by omega, show ¬ i < 16 by omega, show ¬ i - 8 < 8 by omega, show i - 16 < 8 by omega,
          show k + 16 + (i - 16) = k + i by omega]
      · simp [show ¬ i < 8 by omega, show ¬ i < 16 by omega, show ¬ i < 24 by omega, show ¬ i - 8 < 8 by omega,
          show ¬ i - 16 < 8 by omega, show i - 24 < 8 by omega,
          show k + 24 + (i - 24) = k + i by omega]

theorem bufToInt32_low (abi : Abi) (x : BitVec 64) : bufToInt32 (int64ToBuf abi x) = x.extractLsb' 0 32 := by
  rw [← word_of_bytes x 0]
  simp [bufToInt32, int64ToBuf, uchar_byteOf]

theorem bufToInt32_high (abi : Abi) (x : BitVec 64) : bufToInt32 ((int64ToBuf abi x).drop 4) = x.extractLsb' 32 32 := by
  rw [← word_of_bytes x 32]
  simp [bufToInt32, int64ToBuf, uchar_byteOf]

theorem signExtend_toNat (y : BitVec 32) : (y.signExtend 64).toNat = y.toNat + if y.msb then 2 ^ 64 - 2 ^ 32 else 0 := by
  rw [BitVec.toNat_signExtend, BitVec.toNat_setWidth_of_le (by decide)]

/-- The high half, through a `long` of either width. -/
theorem highHalf_toNat (long : LongWidth) (hi : BitVec 32) :
    ((hi.signExtend long.bits).signExtend 64 * 0x100000000#64).toNat = hi.toNat * 2 ^ 32 := by
  have hlt := hi.isLt
  have hword : (hi.signExtend long.bits).signExtend 64 = hi.signExtend 64 := by
    cases long with
    | w32 => exact congrArg _ (BitVec.signExtend_eq hi)
    | w64 => exact BitVec.signExtend_eq _
  rw [hword, BitVec.toNat_mul, signExtend_toNat]
  norm_num
  split <;> omega

/-- What `media_offset_64` makes of the bytes of `x`: a 64-bit `long` extends the sign of the low half. -/
theorem mediaOffset64_toNat (abi : Abi) (x : BitVec 64) :
    (mediaOffset64 abi (int64ToBuf abi x)).toNat =
      (x.toNat + if abi.long = .w64 ∧ x.getLsbD 31 = true then 2 ^ 64 - 2 ^ 32 else 0) % 2 ^ 64 := by
  have hlow : (x.extractLsb' 0 32).toNat = x.toNat % 2 ^ 32 := by simp [BitVec.extractLsb'_toNat]
  have hhigh : (x.extractLsb' 32 32).toNat = x.toNat / 2 ^ 32 := by
    have := x.isLt
    rw [BitVec.extractLsb'_toNat, Nat.shiftRight_eq_div_pow]
    omega
  have hmsb : (x.extractLsb' 0 32).msb = x.getLsbD 31 := by simp [BitVec.msb_eq_getLsbD_last]
  unfold mediaOffset64
  rw [bufToInt32_low, bufToInt32_high]
  generalize x.extractLsb' 0 32 = lo at *
  generalize x.extractLsb' 32 32 = hi at *
  obtain ⟨long, charSigned⟩ := abi
  rw [BitVec.toNat_add, highHalf_toNat, ← hmsb]
  cases long with
  | w32 =>
    have hlo : (BitVec.setWidth 64 (lo.signExtend LongWidth.w32.bits)).toNat = lo.toNat :=
      (congrArg (fun y : BitVec 32 => (y.setWidth 64).toNat) (BitVec.signExtend_eq lo)).trans
        (BitVec.toNat_setWidth_of_le (by decide))
    rw [hlo, if_neg (fun h => LongWidth.noConfusion h.1)]
    omega
  | w64 =>
    have hlo : (BitVec.setWidth 64 (lo.signExtend LongWidth.w64.bits)).toNat = (lo.signExtend 64).toNat :=
      congrArg BitVec.toNat (BitVec.setWidth_eq _)
    rw [hlo, signExtend_toNat]
    cases lo.msb with
    | false =>
      simp
      omega
    | true =>
      simp
      omega

theorem mediaOffset64_eq_iff (abi : Abi) (x : BitVec 64) :
    mediaOffset64 abi (int64ToBuf abi x) = x ↔ abi.long = .w32 ∨ x.getLsbD 31 = false := by
  have hx := x.isLt
  rw [← BitVec.toNat_inj, mediaOffset64_toNat]
  by_cases h : abi.long = .w64 ∧ x.getLsbD 31 = true
  · rw [if_pos h]
    refine iff_of_false (by omega) ?_
    rintro (hl | hb)
    · exact absurd (hl.symm.trans h.1) (by decide)
    · exact absurd (hb.symm.trans h.2) (by decide)
  · rw [if_neg h]
    refine iff_of_true (by omega) ?_
    cases hl : abi.long with
    | w32 => exact .inl rfl
    | w64 => exact .inr (Bool.eq_false_of_not_eq_true fun hb => h ⟨hl, hb⟩)

/-- The offset stands in the message from byte 8 on. -/
theorem mediaSendSeek_offset (abi : Abi) (fileid : Int × Int) (x : BitVec 64) :
    mediaOffset64 abi ((mediaSendSeek abi fileid x).drop 8) = mediaOffset64 abi (int64ToBuf abi x) := rfl

/-- The position stands in the message from byte 4 on, and is all of it that depends on the position. -/
theorem rdcSendProgress_eq (abi : Abi) (x : BitVec 64) :
    rdcSendProgress abi x = [rfbRdcProgress, 0, 0, 0] ++ int64ToProgbuf abi x := rfl

/-- The six bytes are the 48 low bits. -/
theorem int64ToProgbuf_inj (abi : Abi) {x y : BitVec 64} (hx : x.toNat < 2 ^ 48) (hy : y.toNat < 2 ^ 48)
    (h : int64ToProgbuf abi x = int64ToProgbuf abi y) : x = y := by
  have hbyte (k : Nat) (hk : k ≤ 56) (he : abi.byteOf x k = abi.byteOf y k) :
      x.toNat / 2 ^ k % 256 = y.toNat / 2 ^ k % 256 := by
    have hu := congrArg (fun c => (uchar c).toNat) he
    simpa [uchar_byteOf, hk, BitVec.extractLsb'_toNat, Nat.shiftRight_eq_div_pow] using hu
  simp only [int64ToProgbuf, List.cons.injEq, and_true] at h
  obtain ⟨h3, h2, h1, h0, h5, h4⟩ := h
  have b0 := hbyte 0 (by decide) h0
  have b1 := hbyte 8 (by decide) h1
  have b2 := hbyte 16 (by decide) h2
  have b3 := hbyte 24 (by decide) h3
  have b4 := hbyte 32 (by decide) h4
  have b5 := hbyte 40 (by decide) h5
  apply BitVec.eq_of_toNat_eq
  omega

/-- An offset comes back out of the seek message, and a position of 48 bits is told by the progress message. -/
structure Survives (abi : Abi) (x : BitVec 64) : Prop where
  buf : mediaOffset64 abi (int64ToBuf abi x) = x
  seek : ∀ fileid, mediaOffset64 abi ((mediaSendSeek abi fileid x).drop 8) = x
  progress : x.toNat < 2 ^ 48 → ∀ y : BitVec 64, y.toNat < 2 ^ 48 →
    ((rdcSendProgress abi x).drop 4).take 6 = ((rdcSendProgress abi y).drop 4).take 6 → x = y

theorem offset_survives_iff (abi : Abi) (x : BitVec 64) : Survives abi x ↔ abi.long = .w32 ∨ x.getLsbD 31 = false := by
  constructor
  · intro h
    exact (mediaOffset64_eq_iff abi x).mp h.buf
  · intro h
    have hbuf := (mediaOffset64_eq_iff abi x).mpr h
    exact ⟨hbuf, fun fileid => (mediaSendSeek_offset abi fileid x).trans hbuf,
      fun hx y hy he => int64ToProgbuf_inj abi hx hy he⟩

/-- Byte 2 GiB of a file, on a 64-bit host. -/
theorem host_offset_lost : ¬ ∀ (abi : Abi) (x : BitVec 64), Survives abi x := by
  intro h
  have hbuf := (h ⟨.w64, true⟩ 0x80000000#64).buf
  exact absurd hbuf (by decide)

end Mvpmc.Emulate
