import Mvpmc.Emulate.Offsets

/-! `media_seek` and the commands that send its result: when the offset that is sought lies inside the file. -/
namespace Mvpmc.Emulate

def InInt64 (x : Int) : Prop := -9223372036854775808 ≤ x ∧ x < 9223372036854775808

instance (x : Int) : Decidable (InInt64 x) := inferInstanceAs (Decidable (_ ∧ _))

/-- The result of an operation on `int64_t`s. -/
def int64 (x : Int) : Option Int := if InInt64 x then some x else none

/-- What `mystream` says of a file while it plays. -/
structure Playing where
  length : Int
  currentPosition : Int
  queued : Int
  outPosition : Int
  bps : UInt16
  /-- One of 0, 20000 and 200000. -/
  blocklen : UInt32
  length_pos : 0 < length
  length_int64 : InInt64 length
  current_nonneg : 0 ≤ currentPosition
  current_le : currentPosition ≤ length
  queued_int64 : InInt64 queued
  outPosition_int64 : InInt64 outPosition

/-- The remote commands that send a seek. -/
inductive SeekCommand where
  | skip (seconds : UInt16)
  | replay (seconds : UInt16)
  | percent (byte : BitVec 8)
  | rewind
  | forward
  deriving DecidableEq, Repr

/-- `media_seek`, or `none` where a number leaves the range of `int64_t`. -/
def mediaSeek (s : Playing) (value : Int) : Option Int := do
  let offset ← (if s.queued ≠ 0 then int64 (s.queued - s.outPosition) else some 0)
  let offset := if offset < 0 then (s.blocklen.toNat : Int) else if s.length < offset then 0 else offset
  let perSecond ← int64 (value * s.bps.toNat)
  let offset1 ← int64 (perSecond * 100)
  let offset1 := if offset1 < 0 ∧ 0 < value then 0 else if s.length < offset1 then s.currentPosition else offset1
  let played ← int64 (s.currentPosition - offset)
  let rc ← int64 (played + offset1)
  return if rc < 0 then 0 else rc

/-- The offset that goes into the `MEDIA_SEEK` message. -/
def seekOffset (abi : Abi) (s : Playing) : SeekCommand → Option Int
  | .skip seconds => mediaSeek s seconds.toNat
  | .replay seconds => (int64 (-1 * seconds.toNat)).bind (mediaSeek s)
  | .percent byte => (int64 (s.length * abi.char byte)).map (·.tdiv 100)
  | .rewind => mediaSeek s 0
  | .forward => mediaSeek s 0

/-- The offset is computed in range and lies in the file. -/
def SeeksInside (abi : Abi) (s : Playing) (c : SeekCommand) : Prop :=
  ∃ offset, seekOffset abi s c = some offset ∧ 0 ≤ offset ∧ offset ≤ s.length

namespace Playing
variable (s : Playing)

/-- What is queued and not yet played can be counted. -/
def Counts : Prop := s.queued = 0 ∨ InInt64 (s.queued - s.outPosition)

/-- The bytes between what is on the screen and the position of the server. A count that cannot be is taken as one block
if it is negative, and as nothing if it is longer than the file. -/
def backlog : Int :=
  if s.queued = 0 then 0
  else if s.queued < s.outPosition then s.blocklen.toNat
  else if s.length < s.queued - s.outPosition then 0
  else s.queued - s.outPosition

/-- So many seconds in bytes. -/
def span (seconds : UInt16) : Int := seconds.toNat * s.bps.toNat * 100

/-- When a command stays inside the file. -/
def Fits (abi : Abi) : SeekCommand → Prop
  | .skip seconds => s.Counts ∧
      if s.span seconds ≤ s.length then s.currentPosition + s.span seconds ≤ s.length + s.backlog
      else 2 * s.currentPosition ≤ s.length + s.backlog
  | .replay seconds => s.Counts ∧ s.backlog + s.span seconds ≤ s.currentPosition + 9223372036854775808
  | .percent byte => -100 < s.length * abi.char byte ∧ s.length * abi.char byte < 100 * s.length + 100 ∧
      s.length * abi.char byte < 9223372036854775808
  | .rewind => s.Counts
  | .forward => s.Counts

theorem span_le (seconds : UInt16) : 0 ≤ s.span seconds ∧ s.span seconds ≤ 429483622500 := by
  have hs : seconds.toNat ≤ 65535 := Nat.le_of_lt_succ seconds.toNat_lt
  have hb : s.bps.toNat ≤ 65535 := Nat.le_of_lt_succ s.bps.toNat_lt
  have hmul := Nat.mul_le_mul hs hb
  unfold span
  norm_cast
  omega

theorem backlog_range : 0 ≤ s.backlog ∧ (s.backlog ≤ s.length ∨ s.backlog < 4294967296) := by
  have hb := s.blocklen.toNat_lt
  have hl := s.length_pos
  unfold backlog
  split
  · exact ⟨le_refl 0, .inr (by decide)⟩
  · split
    · exact ⟨Int.natCast_nonneg _, .inr (by omega)⟩
    · split
      · exact ⟨le_refl 0, .inr (by decide)⟩
      · exact ⟨by omega, .inl (by omega)⟩

end Playing

theorem int64_of_range {x : Int} (h : InInt64 x) : int64 x = some x := if_pos h

theorem int64_out {x : Int} (h : ¬ InInt64 x) : int64 x = none := if_neg h

/-- Where the backlog cannot be counted the sum leaves the range. -/
theorem mediaSeek_uncounted {s : Playing} (h : ¬ s.Counts) (value : Int) : mediaSeek s value = none := by
  obtain ⟨hq, hr⟩ := not_or.mp h
  unfold mediaSeek
  rw [if_pos hq, int64_out hr]
  rfl

/-- The three cases of the backlog, as the code computes them from the count. -/
theorem backlog_of_count {s : Playing} (h : s.Counts) : ∃ count,
    (if s.queued ≠ 0 then int64 (s.queued - s.outPosition) else some 0) = some count ∧
      (if count < 0 then (s.blocklen.toNat : Int) else if s.length < count then 0 else count) = s.backlog := by
  have hl := s.length_pos
  unfold Playing.backlog
  by_cases hq : s.queued = 0
  · refine ⟨0, if_neg (not_not_intro hq), ?_⟩
    rw [if_pos hq, if_neg (Int.lt_irrefl 0), if_neg (Int.not_lt.mpr hl.le)]
  · refine ⟨s.queued - s.outPosition, (if_pos hq).trans (int64_of_range (h.resolve_left hq)), ?_⟩
    rw [if_neg hq]
    by_cases hneg : s.queued < s.outPosition
    · rw [if_pos hneg, if_pos (by omega)]
    · rw [if_neg hneg, if_neg (by omega)]

/-- Otherwise the position is that of the server, less the backlog, and the time asked for added to it. -/
theorem mediaSeek_counted {s : Playing} (h : s.Counts) {value : Int} (hv : InInt64 (value * s.bps.toNat))
    (hv' : InInt64 (value * s.bps.toNat * 100)) :
    mediaSeek s value = (int64 (s.currentPosition - s.backlog +
      (if value * s.bps.toNat * 100 < 0 ∧ 0 < value then 0
        else if s.length < value * s.bps.toNat * 100 then s.currentPosition else value * s.bps.toNat * 100))).map
      fun rc => if rc < 0 then 0 else rc := by
  obtain ⟨count, hcount, hback⟩ := backlog_of_count h
  have hrange := s.backlog_range
  have hlen := s.length_int64.2
  have hcur := s.current_nonneg
  have hle := s.current_le
  have hplayed : InInt64 (s.currentPosition - s.backlog) := by
    unfold InInt64
    omega
  unfold mediaSeek
  rw [hcount]
  simp only [Option.bind_eq_bind, Option.bind_some, hback, int64_of_range hv, int64_of_range hv', int64_of_range hplayed]
  cases int64 _ with
  | none => rfl
  | some rc => rfl

/-- A result is inside the file if the sum is in range and not behind the end. -/
theorem clamped_inside {x length : Int} (hl : 0 < length) :
    (∃ offset, (int64 x).map (fun rc => if rc < 0 then 0 else rc) = some offset ∧ 0 ≤ offset ∧ offset ≤ length) ↔
      InInt64 x ∧ x ≤ length := by
  by_cases hx : InInt64 x
  · rw [int64_of_range hx]
    simp only [Option.map_some, Option.some.injEq, exists_eq_left', hx, true_and]
    split <;> omega
  · rw [int64_out hx]
    simp [hx]

section
variable {s : Playing} {seconds : UInt16}

/-- No number of seconds leaves the range. -/
theorem span_int64 (s : Playing) (seconds : UInt16) :
    InInt64 (seconds.toNat * s.bps.toNat) ∧ InInt64 (s.span seconds) ∧
      InInt64 (-1 * seconds.toNat * s.bps.toNat) ∧ InInt64 (-1 * seconds.toNat * s.bps.toNat * 100) := by
  obtain ⟨h0, hmax⟩ := s.span_le seconds
  have hs : s.span seconds = seconds.toNat * s.bps.toNat * 100 := rfl
  rw [show (-1 : Int) * seconds.toNat * s.bps.toNat = -(seconds.toNat * s.bps.toNat) by ring]
  generalize (seconds.toNat : Int) * s.bps.toNat = r at hs ⊢
  unfold InInt64
  omega

theorem skip_inside_iff (abi : Abi) : SeeksInside abi s (.skip seconds) ↔ s.Fits abi (.skip seconds) := by
  unfold SeeksInside seekOffset Playing.Fits
  dsimp only
  by_cases h : s.Counts
  · obtain ⟨hv, hv', -⟩ := span_int64 s seconds
    have hspan := s.span_le seconds
    have hrange := s.backlog_range
    have hlen := s.length_int64.2
    have hcur := s.current_nonneg
    have hle := s.current_le
    rw [mediaSeek_counted h hv hv', clamped_inside s.length_pos]
    rw [show (seconds.toNat : Int) * s.bps.toNat * 100 = s.span seconds from rfl]
    rw [if_neg (by omega)]
    simp only [h, true_and, InInt64]
    split
    · rw [if_neg (by omega)]
      omega
    · rw [if_pos (by omega)]
      omega
  · rw [mediaSeek_uncounted h]
    simp [h]

theorem replay_inside_iff (abi : Abi) : SeeksInside abi s (.replay seconds) ↔ s.Fits abi (.replay seconds) := by
  have hsec : InInt64 (-1 * (seconds.toNat : Int)) := by
    have := seconds.toNat_lt
    unfold InInt64
    omega
  unfold SeeksInside seekOffset Playing.Fits
  dsimp only
  rw [int64_of_range hsec, Option.bind_some]
  by_cases h : s.Counts
  · obtain ⟨-, -, hv, hv'⟩ := span_int64 s seconds
    have hspan := s.span_le seconds
    have hrange := s.backlog_range
    have hlen := s.length_int64.2
    have hcur := s.current_nonneg
    have hle := s.current_le
    have hpos := s.length_pos
    rw [mediaSeek_counted h hv hv', clamped_inside s.length_pos]
    rw [show (-1 : Int) * seconds.toNat * s.bps.toNat * 100 = -s.span seconds by unfold Playing.span; ring]
    rw [if_neg (by omega), if_neg (by omega)]
    simp only [h, true_and, InInt64]
    omega
  · rw [mediaSeek_uncounted h]
    simp [h]

theorem still_inside_iff (s : Playing) :
    (∃ offset, mediaSeek s 0 = some offset ∧ 0 ≤ offset ∧ offset ≤ s.length) ↔ s.Counts := by
  by_cases h : s.Counts
  · have hrange := s.backlog_range
    have hlen := s.length_int64.2
    have hcur := s.current_nonneg
    have hle := s.current_le
    have hpos := s.length_pos
    have h0 : InInt64 (0 * (s.bps.toNat : Int)) := by
      rw [Int.zero_mul]
      decide
    have h0' : InInt64 (0 * (s.bps.toNat : Int) * 100) := by
      rw [Int.zero_mul]
      decide
    rw [mediaSeek_counted h h0 h0', clamped_inside hpos, Int.zero_mul, Int.zero_mul]
    rw [if_neg (by omega), if_neg (by omega)]
    simp only [h, iff_true, InInt64]
    omega
  · rw [mediaSeek_uncounted h]
    simp [h]

theorem percent_inside_iff (abi : Abi) (byte : BitVec 8) :
    SeeksInside abi s (.percent byte) ↔ s.Fits abi (.percent byte) := by
  unfold SeeksInside seekOffset Playing.Fits
  dsimp only
  generalize s.length * abi.char byte = x
  have hpos := s.length_pos
  by_cases hx : InInt64 x
  · rw [int64_of_range hx]
    simp only [Option.map_some, Option.some.injEq, exists_eq_left']
    unfold InInt64 at hx
    rcases lt_or_ge x 0 with hneg | hnn
    · have ht : x.tdiv 100 = -(-x / 100) := by
        rw [← Int.tdiv_eq_ediv_of_nonneg (by omega), Int.neg_tdiv, Int.neg_neg]
      rw [ht]
      omega
    · rw [Int.tdiv_eq_ediv_of_nonneg hnn]
      omega
  · rw [int64_out hx]
    simp only [Option.map_none, reduceCtorEq, false_and, exists_false, false_iff]
    unfold InInt64 at hx
    omega

end

/-- A command seeks inside the file if and only if it fits. -/
theorem seeksInside_iff (abi : Abi) (s : Playing) (c : SeekCommand) : SeeksInside abi s c ↔ s.Fits abi c := by
  cases c with
  | skip seconds => exact skip_inside_iff abi
  | replay seconds => exact replay_inside_iff abi
  | percent byte => exact percent_inside_iff abi byte
  | rewind => exact still_inside_iff s
  | forward => exact still_inside_iff s

/-- The end of a file of a thousand bytes. -/
def atEnd : Playing where
  length := 1000
  currentPosition := 1000
  queued := 0
  outPosition := 0
  bps := 1
  blocklen := 200000
  length_pos := by decide
  length_int64 := by decide
  current_nonneg := by decide
  current_le := by decide
  queued_int64 := by decide
  outPosition_int64 := by decide

/-- A skip of one second leaves the file. -/
theorem skip_leaves_file : ¬ ∀ (abi : Abi) (s : Playing) (c : SeekCommand), SeeksInside abi s c := by
  intro h
  have hfits := (skip_inside_iff ⟨.w32, true⟩).mp (h ⟨.w32, true⟩ atEnd (.skip 1))
  exact absurd hfits.2 (by decide)

end Mvpmc.Emulate
