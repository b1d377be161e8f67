import Mvpmc.Demux.Offsets

/-! What one start code does to the scan of the video ring: which look-ahead it waits for,
what is decoded from it, and what it changes. -/
namespace Mvpmc.Demux
open Mvpmc.Lib.Circular

/-- Hour, minute, second and frame of a GOP header. -/
structure GopTime where
  hour : Nat
  minute : Nat
  second : Nat
  frame : Nat
  deriving DecidableEq, Repr

/-- What the scanner decodes from a start code. User data is read as a GOP header, too. -/
inductive Decoded where
  | video (pts : UInt32)
  | picture (type : UInt8)
  | sequence (width height aspect frameRate : Nat)
  | userData (afd : Option Nat) (time : Option GopTime)
  | gop (time : Option GopTime)
  | other
  deriving DecidableEq, Repr

section Bytes
variable (rb : Nat → UInt8) (identifier : Nat)

/-- The height in a sequence header. -/
def sequenceHeight : Nat := ((rb 1 &&& 0xf).toNat <<< 8) ||| (rb 2).toNat

/-- The picture type in a picture header. -/
def pictureType : UInt8 := (rb 1 >>> 3) &&& 7

/-- The time in a GOP header; one with low bits set in its fourth byte is ignored. -/
def gopTime : Option GopTime :=
  if rb 3 &&& 0x1f ≠ 0 then none
  else some
    { hour := ((rb 0 >>> 2) &&& 0x1f).toNat
      minute := (rb 1 >>> 4).toNat ||| ((rb 0 &&& 3).toNat <<< 4)
      second := ((rb 1 &&& 7).toNat <<< 3) ||| (rb 2 >>> 5).toNat
      frame := ((rb 2 &&& 0x1f).toNat <<< 1) ||| (rb 3 >>> 7).toNat }

/-- The fields of a start code, from the bytes behind it. -/
def decode : Decoded :=
  if isVideoStream identifier then
    .video (if rb 3 >>> 7 ≠ 0 then stamp (rb 9) (rb 8) (rb 7) (rb 6) (rb 5) else 0)
  else if identifier = 0 then .picture (pictureType rb)
  else if identifier = 0xb3 then
    .sequence ((rb 1 >>> 4).toNat ||| ((rb 0).toNat <<< 4)) (sequenceHeight rb) (rb 3 >>> 4).toNat (rb 3 &&& 0xf).toNat
  else if identifier = user_data_start_code then .userData (parseAfd rb) (gopTime rb)
  else if identifier = 0xb8 then .gop (gopTime rb)
  else .other

/-- The offset of the last byte that `decode` reads. -/
def decodeNeed : Nat :=
  if isVideoStream identifier then (if rb 3 >>> 7 ≠ 0 then 9 else 3)
  else if identifier = 0 then 1
  else if identifier = 0xb3 then 3
  else if identifier = user_data_start_code then 5
  else if identifier = 0xb8 then 3
  else 0

/-- The offset of the last byte that the scanner waits for; a DTS is waited for, too. -/
def lookAhead : Nat :=
  if isVideoStream identifier ∧ (rb 3 >>> 6) &&& 1 ≠ 0 then 14 else decodeNeed rb identifier

theorem decodeNeed_le : decodeNeed rb identifier ≤ 9 := by
  unfold decodeNeed
  repeat' split
  all_goals decide

theorem decodeNeed_le_lookAhead : decodeNeed rb identifier ≤ lookAhead rb identifier := by
  unfold lookAhead
  split
  · exact (decodeNeed_le rb identifier).trans (by decide)
  · exact le_refl _

theorem lookAhead_le : lookAhead rb identifier ≤ 14 := by
  unfold lookAhead
  split
  · exact le_refl _
  · exact (decodeNeed_le rb identifier).trans (by decide)

end Bytes

section Congruence
variable {rb rb' : Nat → UInt8} {identifier : Nat}

theorem three_le_lookAhead (hv : isVideoStream identifier = true) : 3 ≤ lookAhead rb identifier := by
  unfold lookAhead decodeNeed
  rw [if_pos hv]
  split
  · decide
  · split <;> decide

theorem lookAhead_congr (h : isVideoStream identifier = true → rb 3 = rb' 3) :
    lookAhead rb identifier = lookAhead rb' identifier := by
  unfold lookAhead decodeNeed
  by_cases hv : isVideoStream identifier = true
  · rw [h hv]
  · simp only [hv, Bool.false_eq_true, false_and, if_false]

theorem parseAfd_congr (h : ∀ k ≤ 5, rb k = rb' k) : parseAfd rb = parseAfd rb' := by
  unfold parseAfd
  rw [h 0 (by decide), h 1 (by decide), h 2 (by decide), h 3 (by decide), h 4 (by decide), h 5 (by decide)]

theorem gopTime_congr (h : ∀ k ≤ 3, rb k = rb' k) : gopTime rb = gopTime rb' := by
  unfold gopTime
  rw [h 0 (by decide), h 1 (by decide), h 2 (by decide), h 3 (by decide)]

/-- The decoded fields depend on the bytes that are needed for them. -/
theorem decode_congr (h : ∀ k ≤ decodeNeed rb identifier, rb k = rb' k) :
    decode rb identifier = decode rb' identifier := by
  unfold decodeNeed at h
  unfold decode
  split
  · rename_i hv
    rw [if_pos hv] at h
    have h3 : rb 3 = rb' 3 := h 3 (by split <;> decide)
    rw [← h3]
    split
    · rename_i hp
      rw [if_pos hp] at h
      rw [h 9 (by decide), h 8 (by decide), h 7 (by decide), h 6 (by decide), h 5 (by decide)]
    · rfl
  · rename_i hv
    rw [if_neg hv] at h
    split
    · rename_i h0
      rw [if_pos h0] at h
      unfold pictureType
      rw [h 1 (by decide)]
    · rename_i h0
      rw [if_neg h0] at h
      split
      · rename_i hb3
        rw [if_pos hb3] at h
        unfold sequenceHeight
        rw [h 0 (by decide), h 1 (by decide), h 2 (by decide), h 3 (by decide)]
      · rename_i hb3
        rw [if_neg hb3] at h
        split
        · rename_i hb2
          rw [if_pos hb2] at h
          rw [parseAfd_congr h, gopTime_congr fun k hk => h k (by omega)]
        · rename_i hb2
          rw [if_neg hb2] at h
          split
          · rename_i hb8
            rw [if_pos hb8] at h
            rw [gopTime_congr h]
          · rfl

end Congruence

/-- A line of bytes with the height of the sequence header in front of position `p` set to 480. -/
def ntscHeight (tape : Nat → UInt8) (p : Nat) : Nat → UInt8 :=
  Function.update (Function.update tape (p + 2) 0xE0) (p + 1) (1 ||| (tape (p + 1) &&& 0xf0))

namespace Scan
variable (sc : Scan) (tail head size identifier : Nat)

/-- The bytes from the index of the scan on. -/
def ahead : Nat → UInt8 := fun k => sc.ringbuf size (sc.i + k)

/-- The ring with the height of the sequence header at the index set to 480. -/
def ntscRing : Nat → UInt8 :=
  Function.update (Function.update sc.h.video.buf ((sc.i + 2) % size) 0xE0) ((sc.i + 1) % size)
    (1 ||| (Function.update sc.h.video.buf ((sc.i + 2) % size) 0xE0 ((sc.i + 1) % size) &&& 0xf0))

/-- The index and the start codes noted during a seek are the same. -/
structure Keeps (sc sc' : Scan) : Prop where
  i : sc'.i = sc.i
  foundStart : sc'.seekingFoundStart = sc.seekingFoundStart
  start : sc'.seekingStart = sc.seekingStart
  nextStart : sc'.nextSeekingStart = sc.nextSeekingStart

theorem Keeps.refl (sc : Scan) : Keeps sc sc := ⟨rfl, rfl, rfl, rfl⟩

theorem Keeps.trans {sc₁ sc₂ sc₃ : Scan} (h₁₂ : Keeps sc₁ sc₂) (h₂₃ : Keeps sc₂ sc₃) : Keeps sc₁ sc₃ :=
  ⟨h₂₃.i.trans h₁₂.i, h₂₃.foundStart.trans h₁₂.foundStart, h₂₃.start.trans h₁₂.start,
    h₂₃.nextStart.trans h₁₂.nextStart⟩

/-- The switch takes one branch. -/
theorem code_cases :
    isVideoStream identifier = true ∧ sc.code tail head size identifier = sc.videoCode tail head size ∨
      identifier = 0 ∧ sc.code tail head size identifier = sc.pictureCode tail head size ∨
      identifier = 0xb3 ∧ sc.code tail head size identifier = sc.sequenceCode tail head size ∨
      identifier = user_data_start_code ∧ sc.code tail head size identifier = sc.userDataCode tail head size ∨
      identifier = 0xb8 ∧ sc.code tail head size identifier = sc.gopCode tail head size ∨
      (isVideoStream identifier = false ∧ identifier ≠ 0 ∧ identifier ≠ 0xb3 ∧ identifier ≠ user_data_start_code ∧
        identifier ≠ 0xb8) ∧ sc.code tail head size identifier = (sc, false) := by
  have hid : isVideoStream identifier = true ↔ 0xE0 ≤ identifier ∧ identifier ≤ 0xEF := by simp [isVideoStream]
  unfold code
  by_cases hv : isVideoStream identifier = true
  · exact .inl ⟨hv, if_pos (hid.mp hv)⟩
  · rw [if_neg (fun h => hv (hid.mpr h))]
    by_cases h0 : identifier = 0
    · exact .inr (.inl ⟨h0, if_pos h0⟩)
    · rw [if_neg h0]
      by_cases hb3 : identifier = 0xb3
      · exact .inr (.inr (.inl ⟨hb3, if_pos hb3⟩))
      · rw [if_neg hb3]
        by_cases hb2 : identifier = user_data_start_code
        · exact .inr (.inr (.inr (.inl ⟨hb2, if_pos hb2⟩)))
        · rw [if_neg hb2]
          by_cases hb8 : identifier = 0xb8
          · exact .inr (.inr (.inr (.inr (.inl ⟨hb8, if_pos hb8⟩))))
          · exact .inr (.inr (.inr (.inr (.inr ⟨⟨Bool.eq_false_iff.mpr hv, h0, hb3, hb2, hb8⟩, if_neg hb8⟩))))

/-- A video start code changes the time stamps and, where it is complete, the seek. -/
theorem videoCode_eq : sc.videoCode tail head size =
    if (sc.timeStamps tail head size).2 then
      ({ sc with h.video.parserData := (sc.timeStamps tail head size).1 }, true)
    else (({ sc with h.video.parserData := (sc.timeStamps tail head size).1 } : Scan).seekStart size, false) := rfl

theorem seekStart_i : (sc.seekStart size).i = sc.i := by
  unfold seekStart
  dsimp only
  split
  · split <;> split <;> rfl
  · rfl

theorem videoCode_i : (sc.videoCode tail head size).1.i = sc.i := by
  rw [videoCode_eq]
  split
  · rfl
  · exact seekStart_i _ size

theorem videoCode_h : (sc.videoCode tail head size).1.h =
    { sc.h with video.parserData := (sc.timeStamps tail head size).1 } := by
  rw [videoCode_eq]
  split
  · rfl
  · rw [seekStart_h]

/-- The time stamps are complete with the flags and what the flags announce. -/
theorem timeStamps_out : (sc.timeStamps tail head size).2 = false ↔
    ringbufValid tail head size (sc.i + 3) = true ∧
      (sc.ahead size 3 >>> 7 ≠ 0 → ringbufValid tail head size (sc.i + 9) = true) ∧
      ((sc.ahead size 3 >>> 6) &&& 1 ≠ 0 → ringbufValid tail head size (sc.i + 14) = true) := by
  unfold timeStamps ahead
  dsimp only
  by_cases h3 : ringbufValid tail head size (sc.i + 3) = true
  · rw [if_pos h3]
    by_cases h9 : sc.ringbuf size (sc.i + 3) >>> 7 ≠ 0 ∧ ringbufValid tail head size (sc.i + 9) = false
    · rw [if_pos h9]
      simp [h3, h9.1, h9.2]
    · rw [if_neg h9]
      have h9' : sc.ringbuf size (sc.i + 3) >>> 7 ≠ 0 → ringbufValid tail head size (sc.i + 9) = true := by
        intro hp
        exact Bool.not_eq_false _ ▸ fun hv => h9 ⟨hp, hv⟩
      by_cases h14 : (sc.ringbuf size (sc.i + 3) >>> 6) &&& 1 ≠ 0 ∧ ringbufValid tail head size (sc.i + 14) = false
      · rw [if_pos h14]
        simp [h3, h14.1, h14.2]
      · rw [if_neg h14]
        have h14' : (sc.ringbuf size (sc.i + 3) >>> 6) &&& 1 ≠ 0 → ringbufValid tail head size (sc.i + 14) = true := by
          intro hd
          exact Bool.not_eq_false _ ▸ fun hv => h14 ⟨hd, hv⟩
        split <;> exact ⟨fun _ => ⟨h3, h9', h14'⟩, fun _ => rfl⟩
  · rw [if_neg h3]
    simp [h3]

/-- The time stamp of a complete video start code. -/
theorem timeStamps_pts (hout : (sc.timeStamps tail head size).2 = false) : (sc.timeStamps tail head size).1.pts =
    if sc.ahead size 3 >>> 7 ≠ 0 then
      stamp (sc.ahead size 9) (sc.ahead size 8) (sc.ahead size 7) (sc.ahead size 6) (sc.ahead size 5)
    else 0 := by
  obtain ⟨h3, h9, h14⟩ := (sc.timeStamps_out tail head size).mp hout
  unfold timeStamps ahead at *
  dsimp only
  rw [if_pos h3]
  by_cases hp : sc.ringbuf size (sc.i + 3) >>> 7 ≠ 0
  · rw [if_neg fun hc => absurd (hc.2.symm.trans (h9 hp)) Bool.false_ne_true, if_pos hp, if_pos hp]
    split
    · rename_i hc
      exact absurd (hc.2.symm.trans (h14 hc.1)) Bool.false_ne_true
    · split <;> rfl
  · have hz : sc.ringbuf size (sc.i + 3) >>> 7 = 0 := not_not.mp hp
    rw [if_neg fun hc => hp hc.1, if_neg hp, if_neg hp]
    split
    · rw [hz]
      rfl
    · split <;> rw [hz] <;> rfl

/-- A picture header is complete with the byte of its type, and only notes an I frame. -/
theorem pictureCode_eq : sc.pictureCode tail head size =
    if ringbufValid tail head size (sc.i + 1) then
      (if pictureType (sc.ahead size) = 1 then { sc with syncFound := true } else sc, false)
    else (sc, true) := by
  unfold pictureCode pictureType ahead
  split
  · split <;> rfl
  · rfl

theorem sequenceCode_keeps : Keeps sc (sc.sequenceCode tail head size).1 ∧
    (sc.sequenceCode tail head size).1.h.gop = sc.h.gop ∧
    (sc.sequenceCode tail head size).1.syncFound = sc.syncFound := by
  unfold sequenceCode announceAspect
  dsimp only
  split
  · split <;> split <;> exact ⟨⟨rfl, rfl, rfl, rfl⟩, rfl, rfl⟩
  · exact ⟨.refl sc, rfl, rfl⟩

theorem sequenceCode_out : (sc.sequenceCode tail head size).2 = !ringbufValid tail head size (sc.i + 3) := by
  unfold sequenceCode
  split
  · rename_i hv
    rw [hv]
    rfl
  · rename_i hv
    rw [Bool.eq_false_iff.mpr hv]
    rfl

/-- Only a complete sequence header of 576 lines is rewritten, for a display of 480. -/
theorem sequenceCode_buf : (sc.sequenceCode tail head size).1.h.video.buf =
    if ringbufValid tail head size (sc.i + 3) = true ∧ sc.h.height = 480 ∧ sequenceHeight (sc.ahead size) = 576
    then sc.ntscRing size else sc.h.video.buf := by
  unfold sequenceCode announceAspect sequenceHeight ahead ntscRing
  dsimp only
  by_cases hv : ringbufValid tail head size (sc.i + 3) = true
  · simp only [hv, if_true, true_and]
    split <;> split <;> rfl
  · rw [if_neg hv, if_neg fun hc => hv hc.1]

/-- A GOP header notes a sync point, where its low bits are clear. -/
theorem gopCode_keeps : Keeps sc (sc.gopCode tail head size).1 ∧
    (sc.gopCode tail head size).1.h.video = sc.h.video ∧
    (sc.gopCode tail head size).2 = !ringbufValid tail head size (sc.i + 3) ∧
    ((sc.gopCode tail head size).1 = sc ∨
      ringbufValid tail head size (sc.i + 3) = true ∧ sc.ahead size 3 &&& 0x1f = 0) := by
  unfold gopCode ahead
  dsimp only
  by_cases hv : ringbufValid tail head size (sc.i + 3) = true
  · simp only [hv, if_true, true_and]
    by_cases hb : sc.ringbuf size (sc.i + 3) &&& 0x1f = 0
    · rw [if_neg (fun hn => hn hb)]
      split
      · exact ⟨⟨rfl, rfl, rfl, rfl⟩, rfl, rfl, .inr hb⟩
      · split <;> exact ⟨⟨rfl, rfl, rfl, rfl⟩, rfl, rfl, .inr hb⟩
    · rw [if_pos hb]
      exact ⟨.refl sc, rfl, rfl, .inl rfl⟩
  · rw [if_neg hv, Bool.eq_false_iff.mpr hv]
    exact ⟨.refl sc, rfl, rfl, .inl rfl⟩

/-- The scan behind the AFD of user data, where the GOP case begins. -/
def afdRead : Scan :=
  match parseAfd (sc.ahead size) with
  | some afd =>
    if aspectDue sc.h.video.parserData (afd != sc.h.video.attr.stats.video.afd) then
      ({ sc with h.video.attr.stats.video.afd := afd }).announceAspect sc.h.video.attr.stats.video.aspect afd
    else sc
  | none => sc

theorem userDataCode_eq : sc.userDataCode tail head size =
    if ringbufValid tail head size (sc.i + 5) then (sc.afdRead size).gopCode tail head size else (sc, true) := rfl

theorem afdRead_keeps : Keeps sc (sc.afdRead size) ∧ (sc.afdRead size).h.gop = sc.h.gop ∧
    (sc.afdRead size).syncFound = sc.syncFound ∧ (sc.afdRead size).h.video.buf = sc.h.video.buf := by
  unfold afdRead announceAspect
  split
  · split <;> exact ⟨⟨rfl, rfl, rfl, rfl⟩, rfl, rfl, rfl⟩
  · exact ⟨.refl sc, rfl, rfl, rfl⟩

theorem afdRead_ahead : (sc.afdRead size).ahead size = sc.ahead size := by
  obtain ⟨hk, -, -, hb⟩ := sc.afdRead_keeps size
  unfold ahead ringbuf
  rw [hb, hk.i]

/-- User data is read over, or it is taken for a GOP header. -/
theorem userDataCode_keeps : Keeps sc (sc.userDataCode tail head size).1 ∧
    (sc.userDataCode tail head size).1.h.video.buf = sc.h.video.buf ∧
    ((sc.userDataCode tail head size).1.h.gop = sc.h.gop ∧
        (sc.userDataCode tail head size).1.syncFound = sc.syncFound ∨
      ringbufValid tail head size (sc.i + 5) = true ∧ sc.ahead size 3 &&& 0x1f = 0) := by
  obtain ⟨hk, hg, hs, hb⟩ := sc.afdRead_keeps size
  obtain ⟨hk', hv', -, hcases⟩ := (sc.afdRead size).gopCode_keeps tail head size
  rw [userDataCode_eq]
  split
  · rename_i hvalid
    refine ⟨hk.trans hk', ?_, ?_⟩
    · rw [hv', hb]
    · rcases hcases with he | ⟨-, hz⟩
      · rw [he]
        exact .inl ⟨hg, hs⟩
      · rw [afdRead_ahead] at hz
        exact .inr ⟨hvalid, hz⟩
  · exact ⟨.refl sc, rfl, .inl ⟨rfl, rfl⟩⟩

theorem pictureCode_keeps : Keeps sc (sc.pictureCode tail head size).1 ∧
    (sc.pictureCode tail head size).1.h = sc.h ∧
    ((sc.pictureCode tail head size).1.syncFound = sc.syncFound ∨
      ringbufValid tail head size (sc.i + 1) = true ∧ pictureType (sc.ahead size) = 1) := by
  rw [pictureCode_eq]
  split
  · rename_i hvalid
    split
    · rename_i hone
      exact ⟨⟨rfl, rfl, rfl, rfl⟩, rfl, .inr ⟨hvalid, hone⟩⟩
    · exact ⟨.refl sc, rfl, .inl rfl⟩
  · exact ⟨.refl sc, rfl, .inl rfl⟩

theorem code_i : (sc.code tail head size identifier).1.i = sc.i := by
  rcases sc.code_cases tail head size identifier with ⟨-, he⟩ | ⟨-, he⟩ | ⟨-, he⟩ | ⟨-, he⟩ | ⟨-, he⟩ | ⟨-, he⟩ <;>
    rw [he]
  · exact sc.videoCode_i tail head size
  · exact (sc.pictureCode_keeps tail head size).1.i
  · exact (sc.sequenceCode_keeps tail head size).1.i
  · exact (sc.userDataCode_keeps tail head size).1.i
  · exact (sc.gopCode_keeps tail head size).1.i

/-- A user data code that the scan takes for a GOP header. -/
def fallsThrough : Prop :=
  identifier = user_data_start_code ∧ ringbufValid tail head size (sc.i + 5) = true ∧ sc.ahead size 3 &&& 0x1f = 0

/-- Only video start codes are noted as restart points, and only three codes as sync points. -/
theorem code_keeps (hid : isVideoStream identifier = false) :
    Keeps sc (sc.code tail head size identifier).1 ∧
      ((sc.code tail head size identifier).1.syncFound = sc.syncFound ∨
        identifier = 0 ∧ ringbufValid tail head size (sc.i + 1) = true ∧ pictureType (sc.ahead size) = 1 ∨
        identifier = 0xb8 ∨ sc.fallsThrough tail head size identifier) := by
  rcases sc.code_cases tail head size identifier with ⟨hv, he⟩ | ⟨h0, he⟩ | ⟨-, he⟩ | ⟨hb2, he⟩ | ⟨hb8, he⟩ | ⟨-, he⟩
  · exact absurd (hid.symm.trans hv) Bool.false_ne_true
  · obtain ⟨hk, -, hs⟩ := sc.pictureCode_keeps tail head size
    rw [he]
    exact ⟨hk, hs.imp_right fun hs => .inl ⟨h0, hs⟩⟩
  · obtain ⟨hk, -, hs⟩ := sc.sequenceCode_keeps tail head size
    rw [he]
    exact ⟨hk, .inl hs⟩
  · obtain ⟨hk, -, hs⟩ := sc.userDataCode_keeps tail head size
    rw [he]
    exact ⟨hk, hs.imp And.right fun hs => .inr (.inr ⟨hb2, hs⟩)⟩
  · rw [he]
    exact ⟨(sc.gopCode_keeps tail head size).1, .inr (.inr (.inl hb8))⟩
  · rw [he]
    exact ⟨.refl sc, .inl rfl⟩

/-- The GOP changes at a GOP header, or at user data taken for one. -/
theorem code_gop : (sc.code tail head size identifier).1.h.gop = sc.h.gop ∨ identifier = 0xb8 ∨
    sc.fallsThrough tail head size identifier := by
  rcases sc.code_cases tail head size identifier with ⟨-, he⟩ | ⟨-, he⟩ | ⟨-, he⟩ | ⟨hb2, he⟩ | ⟨hb8, -⟩ | ⟨-, he⟩
  · rw [he, videoCode_h]
    exact .inl rfl
  · rw [he, (sc.pictureCode_keeps tail head size).2.1]
    exact .inl rfl
  · rw [he]
    exact .inl (sc.sequenceCode_keeps tail head size).2.1
  · rw [he]
    exact (sc.userDataCode_keeps tail head size).2.2.imp And.left fun hs => .inr ⟨hb2, hs⟩
  · exact .inr (.inl hb8)
  · rw [he]
    exact .inl rfl

/-- The only bytes that the scan changes are those of the height of a sequence header. -/
theorem code_buf : (sc.code tail head size identifier).1.h.video.buf =
    if identifier = 0xb3 ∧ ringbufValid tail head size (sc.i + 3) = true ∧ sc.h.height = 480 ∧
      sequenceHeight (sc.ahead size) = 576
    then sc.ntscRing size else sc.h.video.buf := by
  rcases sc.code_cases tail head size identifier with
    ⟨hv, he⟩ | ⟨h0, he⟩ | ⟨hb3, he⟩ | ⟨hb2, he⟩ | ⟨hb8, he⟩ | ⟨⟨-, -, hb3, -, -⟩, he⟩ <;> rw [he]
  · rw [videoCode_h, if_neg]
    rintro ⟨rfl, -⟩
    exact absurd hv (by decide)
  · rw [(sc.pictureCode_keeps tail head size).2.1, if_neg]
    rintro ⟨hb3, -⟩
    omega
  · rw [sequenceCode_buf]
    simp only [hb3, true_and]
  · rw [(sc.userDataCode_keeps tail head size).2.1, if_neg]
    rintro ⟨hb3, -⟩
    exact absurd (hb3.symm.trans hb2) (by decide)
  · rw [(sc.gopCode_keeps tail head size).2.1, if_neg]
    rintro ⟨hb3, -⟩
    omega
  · rw [if_neg fun h => hb3 h.1]

/-- A start code that is not complete rewrites nothing. -/
theorem code_buf_of_out (hout : (sc.code tail head size identifier).2 = true) :
    (sc.code tail head size identifier).1.h.video.buf = sc.h.video.buf := by
  rw [code_buf]
  refine if_neg ?_
  rintro ⟨rfl, hv, -⟩
  have hseq : (sc.code tail head size 0xb3).2 = !ringbufValid tail head size (sc.i + 3) :=
    sc.sequenceCode_out tail head size
  rw [hseq, hv] at hout
  exact Bool.false_ne_true hout

/-- A decoded GOP time is stored, or the GOP is left alone. -/
def TimeStored (sc' : Scan) : Option GopTime → Prop
  | none => sc'.h.gop = sc.h.gop
  | some t => sc'.h.gop = sc.h.gop ∨ sc'.h.gop.hour = t.hour ∧ sc'.h.gop.minute = t.minute ∧
      sc'.h.gop.second = t.second ∧ sc'.h.gop.frame = t.frame

/-- Where the scanner puts what it has decoded. -/
def Stored (sc' : Scan) : Decoded → Prop
  | .video pts => sc'.h.video.parserData.pts = pts
  | .picture type => sc'.syncFound = (sc.syncFound || type == 1)
  | .sequence width height aspect frameRate =>
    let video := sc'.h.video.attr.stats.video
    video.width = width ∧ video.height = height ∧ video.aspect = aspect ∧ video.frameRate = frameRate
  | .userData afd time => (∀ a, afd = some a → sc'.h.video.attr.stats.video.afd = a) ∧ sc.TimeStored sc' time
  | .gop time => sc.TimeStored sc' time
  | .other => sc' = sc

theorem gopCode_stores (hout : (sc.gopCode tail head size).2 = false) :
    sc.TimeStored (sc.gopCode tail head size).1 (gopTime (sc.ahead size)) := by
  have hv : ringbufValid tail head size (sc.i + 3) = true := by
    rw [(sc.gopCode_keeps tail head size).2.2.1, Bool.not_eq_false'] at hout
    exact hout
  by_cases hb : sc.ahead size 3 &&& 0x1f ≠ 0
  · have ht : gopTime (sc.ahead size) = none := if_pos hb
    have hg : sc.gopCode tail head size = (sc, false) := by
      unfold gopCode
      rw [if_pos hv]
      exact if_pos hb
    rw [ht, hg]
    exact rfl
  · have hb' : ¬ sc.ringbuf size (sc.i + 3) &&& 0x1f ≠ 0 := hb
    rw [gopTime, if_neg hb, gopCode, if_pos hv]
    dsimp only
    rw [if_neg hb']
    split
    · exact .inr ⟨rfl, rfl, rfl, rfl⟩
    · split
      · exact .inr ⟨rfl, rfl, rfl, rfl⟩
      · exact .inl rfl

theorem afdRead_afd {afd : Nat} (h : parseAfd (sc.ahead size) = some afd) :
    (sc.afdRead size).h.video.attr.stats.video.afd = afd := by
  unfold afdRead announceAspect
  rw [h]
  dsimp only
  split
  · rfl
  · rename_i hdue
    unfold aspectDue at hdue
    simp only [Bool.or_eq_true, not_or, bne_iff_ne, not_not] at hdue
    exact hdue.1.1.symm

theorem ntscRing_aspect (hs : 4 ≤ size) : sc.ntscRing size ((sc.i + 3) % size) = sc.ringbuf size (sc.i + 3) := by
  have hne (k : Nat) (hk : k < 3) : (sc.i + 3) % size ≠ (sc.i + k) % size := by
    intro he
    have := lap_inj he (by omega) (by omega)
    omega
  unfold ntscRing
  rw [Function.update_of_ne (hne 1 (by decide)), Function.update_of_ne (hne 2 (by decide))]
  rfl

theorem sequenceCode_stores (hs : 4 ≤ size) (hout : (sc.sequenceCode tail head size).2 = false) :
    let video := (sc.sequenceCode tail head size).1.h.video.attr.stats.video
    let rb := sc.ahead size
    video.width = ((rb 1 >>> 4).toNat ||| ((rb 0).toNat <<< 4)) ∧ video.height = sequenceHeight rb ∧
      video.aspect = (rb 3 >>> 4).toNat ∧ video.frameRate = (rb 3 &&& 0xf).toNat := by
  have hv : ringbufValid tail head size (sc.i + 3) = true := by
    rw [sequenceCode_out, Bool.not_eq_false'] at hout
    exact hout
  have haspect := sc.ntscRing_aspect size hs
  unfold ntscRing at haspect
  unfold sequenceCode announceAspect sequenceHeight ahead
  dsimp only
  rw [if_pos hv]
  by_cases hp : sc.h.height = 480 ∧
      ((sc.ringbuf size (sc.i + 1) &&& 0xf).toNat <<< 8) ||| (sc.ringbuf size (sc.i + 2)).toNat = 576
  · rw [if_pos hp]
    split <;> exact ⟨rfl, rfl, congrArg (fun b : UInt8 => (b >>> 4).toNat) haspect,
      congrArg (fun b : UInt8 => (b &&& 0xf).toNat) haspect⟩
  · rw [if_neg hp]
    split <;> exact ⟨rfl, rfl, rfl, rfl⟩

/-- What is decoded from a complete start code is what the scanner stores. -/
theorem code_stores (hs : 4 ≤ size) (hout : (sc.code tail head size identifier).2 = false) :
    sc.Stored (sc.code tail head size identifier).1 (decode (sc.ahead size) identifier) := by
  rcases sc.code_cases tail head size identifier with
    ⟨hv, he⟩ | ⟨rfl, he⟩ | ⟨rfl, he⟩ | ⟨rfl, he⟩ | ⟨rfl, he⟩ | ⟨⟨hv, h0, hb3, hb2, hb8⟩, he⟩ <;> rw [he] at hout ⊢
  · unfold decode
    rw [if_pos hv]
    have hts : (sc.timeStamps tail head size).2 = false := by
      rw [videoCode_eq] at hout
      split at hout
      · exact absurd hout.symm Bool.false_ne_true
      · rename_i h
        exact Bool.eq_false_iff.mpr h
    have hpts := sc.timeStamps_pts tail head size hts
    unfold Stored
    rw [videoCode_h]
    exact hpts
  · rw [pictureCode_eq] at hout ⊢
    split at hout
    · rename_i hv
      rw [if_pos hv]
      change Scan.syncFound _ = _
      dsimp only
      split
      · rename_i hone
        rw [hone]
        exact (Bool.or_true _).symm
      · rename_i hone
        rw [beq_eq_false_iff_ne.mpr hone]
        exact (Bool.or_false _).symm
    · exact absurd hout.symm Bool.false_ne_true
  · exact sc.sequenceCode_stores tail head size hs hout
  · rw [userDataCode_eq] at hout ⊢
    split at hout
    · rename_i hv
      rw [if_pos hv]
      have ht := (sc.afdRead size).gopCode_stores tail head size hout
      have hgop := ((sc.afdRead size).gopCode_keeps tail head size).2.1
      obtain ⟨-, hsame, -, -⟩ := sc.afdRead_keeps size
      rw [afdRead_ahead] at ht
      refine ⟨fun afd ha => ?_, ?_⟩
      · rw [hgop]
        exact sc.afdRead_afd size ha
      · unfold TimeStored at ht ⊢
        rw [hsame] at ht
        exact ht
    · exact absurd hout.symm Bool.false_ne_true
  · exact sc.gopCode_stores tail head size hout
  · unfold decode
    rw [if_neg (Bool.eq_false_iff.mp hv), if_neg h0, if_neg hb3, if_neg hb2, if_neg hb8]
    rfl

variable {sc tail head size} {base x : Nat}

theorem At.ahead (hat : sc.At base size x) (k : Nat) :
    sc.ahead size k = unroll sc.h.video.buf size base (x + k) := hat.ringbuf k

/-- The rewritten ring is the rewritten line of bytes, within a lap. -/
theorem At.ntscRing (hat : sc.At base size x) {y : Nat} (hx : x + 2 < y + size) (hy : y < x + size) :
    unroll (sc.ntscRing size) size base y = ntscHeight (unroll sc.h.video.buf size base) x y := by
  have hone : Function.update sc.h.video.buf ((sc.i + 2) % size) 0xE0 ((sc.i + 1) % size) =
      unroll sc.h.video.buf size base (x + 1) := by
    rw [hat.cell_add 2, hat.cell_add 1]
    refine (unroll_update sc.h.video.buf (0xE0 : UInt8) ?_ ?_).trans (if_neg ?_) <;> omega
  unfold Scan.ntscRing ntscHeight
  rw [hone, hat.cell_add 2, hat.cell_add 1, unroll_update _ _ (by omega) (by omega), unroll_update _ _ (by omega) (by omega)]
  simp only [Function.update_apply]

/-- Which look-ahead completes a start code: all of it is enough, and what is decoded from it has
to be there. A DTS without a PTS may be taken from behind the head of a ring that is nearly full. -/
theorem At.code_out (hat : sc.At base size x) {lo hi : Nat} (sp : Span base size lo hi tail head) (hlo : lo ≤ x)
    (hx : x < hi) (identifier : Nat) :
    ((sc.code tail head size identifier).2 = false → x + decodeNeed (sc.ahead size) identifier < hi) ∧
      (x + lookAhead (sc.ahead size) identifier < hi → (sc.code tail head size identifier).2 = false) := by
  have hroom := sp.room
  have hvalid (k : Nat) (hk : x + k + 1 < lo + size) : ringbufValid tail head size (sc.i + k) = true ↔ x + k < hi := by
    rw [sp.valid (hat.cell_add k) (by omega) hk, decide_eq_true_eq]
  rcases sc.code_cases tail head size identifier with
    ⟨hv, he⟩ | ⟨rfl, he⟩ | ⟨rfl, he⟩ | ⟨rfl, he⟩ | ⟨rfl, he⟩ | ⟨⟨hv, h0, hb3, hb2, hb8⟩, he⟩ <;> rw [he]
  · have hout : (sc.videoCode tail head size).2 = (sc.timeStamps tail head size).2 := by
      rw [videoCode_eq]
      split
      · rename_i h
        exact h.symm
      · rename_i h
        exact (Bool.eq_false_iff.mpr h).symm
    rw [hout, timeStamps_out, hvalid 3 (by omega)]
    constructor
    · rintro ⟨h3, h9, -⟩
      unfold decodeNeed
      rw [if_pos hv]
      split
      · rename_i hp
        exact (hvalid 9 (by omega)).mp (h9 hp)
      · exact h3
    · intro hneed
      have hle := decodeNeed_le_lookAhead (sc.ahead size) identifier
      have hneed' : x + decodeNeed (sc.ahead size) identifier < hi := by omega
      unfold decodeNeed at hneed'
      rw [if_pos hv] at hneed'
      refine ⟨?_, fun hp => ?_, fun hd => ?_⟩
      · split at hneed' <;> omega
      · rw [if_pos hp] at hneed'
        exact (hvalid 9 (by omega)).mpr hneed'
      · unfold lookAhead at hneed
        rw [if_pos ⟨hv, hd⟩] at hneed
        exact (hvalid 14 (by omega)).mpr hneed
  · have hout : (sc.pictureCode tail head size).2 = !ringbufValid tail head size (sc.i + 1) := by
      rw [pictureCode_eq]
      cases ringbufValid tail head size (sc.i + 1) <;> rfl
    rw [hout, Bool.not_eq_false', hvalid 1 (by omega)]
    exact ⟨id, id⟩
  · rw [sequenceCode_out, Bool.not_eq_false', hvalid 3 (by omega)]
    exact ⟨id, id⟩
  · have hout : (sc.userDataCode tail head size).2 = false ↔ ringbufValid tail head size (sc.i + 5) = true := by
      have hgop := ((sc.afdRead size).gopCode_keeps tail head size).2.2.1
      rw [userDataCode_eq, (sc.afdRead_keeps size).1.i] at *
      split
      · rename_i h5
        have h3 : ringbufValid tail head size (sc.i + 3) = true := by
          have := (hvalid 5 (by omega)).mp h5
          exact (hvalid 3 (by omega)).mpr (by omega)
        rw [hgop, h3]
        exact ⟨fun _ => h5, fun _ => rfl⟩
      · rename_i h5
        exact ⟨fun h => absurd h.symm Bool.false_ne_true, fun h => absurd h h5⟩
    rw [hout, hvalid 5 (by omega)]
    exact ⟨id, id⟩
  · rw [(sc.gopCode_keeps tail head size).2.2.1, Bool.not_eq_false', hvalid 3 (by omega)]
    exact ⟨id, id⟩
  · refine ⟨fun _ => ?_, fun _ => rfl⟩
    unfold decodeNeed
    rw [if_neg (Bool.eq_false_iff.mp hv), if_neg h0, if_neg hb3, if_neg hb2, if_neg hb8]
    exact hx

end Scan

theorem ntscHeight_of_lt {tape : Nat → UInt8} {p z : Nat} (hz : z ≤ p) : ntscHeight tape p z = tape z := by
  unfold ntscHeight
  rw [Function.update_of_ne (by omega), Function.update_of_ne (by omega)]

theorem ntscHeight_of_gt {tape : Nat → UInt8} {p z : Nat} (hz : p + 2 < z) : ntscHeight tape p z = tape z := by
  unfold ntscHeight
  rw [Function.update_of_ne (by omega), Function.update_of_ne (by omega)]

/-- A rewritten height makes no start code at the positions scanned after it. -/
theorem codeAt_ntscHeight {tape : Nat → UInt8} {p y : Nat} {identifier : UInt8} (hy : p ≤ y)
    (hc : codeAt (ntscHeight tape p) y identifier) : codeAt tape y identifier := by
  obtain ⟨h0, h1, h2, h3⟩ := hc
  have hp1 : ntscHeight tape p (p + 1) ≠ 0 := by
    unfold ntscHeight
    rw [Function.update_self]
    simp
  have hp2 : ntscHeight tape p (p + 2) ≠ 0 := by
    unfold ntscHeight
    rw [Function.update_of_ne (by omega), Function.update_self]
    decide
  rcases Nat.lt_or_ge (p + 2) y with hlt | hge
  · rw [ntscHeight_of_gt hlt] at h0
    rw [ntscHeight_of_gt (by omega)] at h1 h2 h3
    exact ⟨h0, h1, h2, h3⟩
  · obtain rfl | rfl | rfl : y = p ∨ y = p + 1 ∨ y = p + 2 := by omega
    · exact absurd h1 hp1
    · exact absurd h0 hp1
    · exact absurd h0 hp2

end Mvpmc.Demux
