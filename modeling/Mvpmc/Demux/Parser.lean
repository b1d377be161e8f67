import Mvpmc.Demux.Untouched

/-! One call of the parser: what each branch of `parse_frame` consumes and keeps. -/
namespace Mvpmc.Demux
open Mvpmc.Lib.Circular

/-- The call `demux_put` makes in the current state. -/
def parserCall (h : Handle) (buf : List UInt8) (past : Nat → UInt8) : Handle × Nat :=
  if isHeaderState h.state then addBuffer h buf past else parseFrame h buf past h.state

theorem not_header_of_frame {state : Nat} (hf : isFrameState state = true) : isHeaderState state = false := by
  simp only [isFrameState, isHeaderState, isVideoStream, isAudioStream, MPEG_program_end_code, pack_start_code,
    system_header_start_code, user_data_start_code, private_stream_1, private_stream_2, padding_stream,
    Bool.or_eq_true, Bool.and_eq_true, beq_iff_eq, decide_eq_true_eq, Bool.and_eq_false_iff,
    decide_eq_false_iff_not] at *
  omega

theorem frame_ne_one {state : Nat} (hf : isFrameState state = true) : state ≠ 1 := by
  rintro rfl
  exact absurd hf (by decide)

theorem frame_ne_zero {state : Nat} (hf : isFrameState state = true) : state ≠ 0 := by
  rintro rfl
  exact absurd hf (by decide)

/-- In the middle of a frame `parse_frame` goes on with the type it is in. -/
theorem parseFrame_frame {h : Handle} {buf : List UInt8} (past : Nat → UInt8) (hf : isFrameState h.state = true)
    (hb : buf ≠ []) : parseFrame h buf past h.state = frameBody h buf past h.state := by
  obtain ⟨b, rest, rfl⟩ := List.exists_cons_of_ne_nil hb
  rw [parseFrame, if_neg (frame_ne_zero hf)]

/-- At the start of a frame `parse_frame` reads the type first. -/
theorem parseFrame_type (h : Handle) (b : UInt8) (rest : List UInt8) (past : Nat → UInt8) :
    parseFrame h (b :: rest) past 0 =
      ((frameBody (startFrame h b.toNat) rest past b.toNat).1,
        (frameBody (startFrame h b.toNat) rest past b.toNat).2 + 1) := by
  rw [parseFrame, if_pos rfl]

/-- The start codes of the packets for a ring. -/
def isAv : StreamId → Nat → Bool
  | .audio => isAudioStream
  | .video => isVideoStream

/-- A packet for a ring whose length is known. -/
def avBody : StreamId → Nat → Handle → List UInt8 → Handle × Nat
  | .audio => audioBody
  | .video => videoBody

theorem isFrameState_of_av (sid : StreamId) {type : Nat} (hs : isAv sid type = true) : isFrameState type = true := by
  simp only [isFrameState, Bool.or_eq_true]
  cases sid <;> simp only [isAv] at hs <;> simp [hs]

theorem isFrameState_of_other {type : Nat} (hs : isOtherStream type = true) : isFrameState type = true := by
  simp only [isOtherStream, isFrameState, Bool.or_eq_true] at hs ⊢
  rcases hs with ((hs | hs) | hs) | hs <;> simp [hs]

section Dispatch
variable {h : Handle} {type : Nat} (buf : List UInt8) (past : Nat → UInt8)

theorem frameBody_pack (hr : h.remain = 0) : frameBody h buf past pack_start_code = packStart h buf := by
  rw [frameBody, if_neg (not_not.mpr hr), if_neg (by decide), if_pos rfl]

theorem frameBody_other (hr : h.remain = 0) (ho : isOtherStream type = true) :
    frameBody h buf past type = otherStream h buf past type := by
  have hnot : ¬ type = MPEG_program_end_code ∧ ¬ type = pack_start_code := by
    constructor <;> rintro rfl <;> exact absurd ho (by decide)
  rw [frameBody, if_neg (not_not.mpr hr), if_neg hnot.1, if_neg hnot.2, if_pos ho]

theorem frameBody_av (sid : StreamId) (hr : h.remain = 0) (ha : isAv sid type = true) :
    frameBody h buf past type = withHeader 2 (h.meet sid type) buf (avBody sid type) := by
  have hrange : 0xC0 ≤ type ∧ type ≤ 0xCF ∧ sid = .audio ∨ 0xE0 ≤ type ∧ type ≤ 0xEF ∧ sid = .video := by
    cases sid <;>
      simp only [isAv, isAudioStream, isVideoStream, Bool.and_eq_true, decide_eq_true_eq] at ha <;> simp [ha]
  have hnot : ¬ type = MPEG_program_end_code ∧ ¬ type = pack_start_code ∧ ¬ isOtherStream type = true ∧
      ¬ (type = 0xb3 ∨ type = 0xb5 ∨ type = 0xb8 ∨ type = 0) := by
    simp only [isOtherStream, MPEG_program_end_code, pack_start_code, private_stream_1, private_stream_2,
      system_header_start_code, padding_stream, Bool.or_eq_true, beq_iff_eq]
    omega
  rw [frameBody, if_neg (not_not.mpr hr), if_neg hnot.1, if_neg hnot.2.1, if_neg hnot.2.2.1]
  rcases hrange with ⟨hlo, hhi, rfl⟩ | ⟨-, -, rfl⟩
  · have hv : ¬ isVideoStream type = true := by
      simp only [isVideoStream, Bool.and_eq_true, decide_eq_true_eq]
      omega
    rw [if_neg hv, if_neg hnot.2.2.2]
    exact if_pos ha
  · exact if_pos ha

/-- A type that belongs to no packet leads back to the search. -/
theorem frameBody_none (hr : h.remain = 0) (hi : h.allowIframe = false) (hp : type ≠ pack_start_code)
    (ho : ¬ isOtherStream type = true) (hv : ¬ isVideoStream type = true) (ha : ¬ isAudioStream type = true) :
    frameBody h buf past type = ({ h with state := 1 }, 0) := by
  have hiframe : iframe h buf type = ({ h with state := 1 }, 0) := if_neg (by rw [hi]; decide)
  rw [frameBody, if_neg (not_not.mpr hr), if_neg hp, if_neg ho, if_neg hv, if_neg ha, hiframe, ite_self, ite_self]

end Dispatch

section Collect
variable (h : Handle) (k : Nat) (buf : List UInt8)

theorem collect_fst : (collect h k buf).1 =
    { h with buf := (collect h k buf).1.buf, bufsz := h.bufsz + (collect h k buf).2.1 } := rfl

theorem collect_done : (collect h k buf).2.2 = true ↔ k ≤ buf.length + h.bufsz := by
  simp [collect]

theorem collect_le : (collect h k buf).2.1 ≤ buf.length := by
  unfold collect
  simp only [decide_eq_true_eq]
  split <;> omega

theorem collect_of_done (hd : (collect h k buf).2.2 = true) : (collect h k buf).2.1 = k - h.bufsz := by
  simp only [collect, decide_eq_true_eq] at hd ⊢
  rw [if_pos hd]

theorem collect_of_not_done (hd : (collect h k buf).2.2 = false) : (collect h k buf).2.1 = buf.length := by
  simp only [collect, decide_eq_false_iff_not, decide_eq_true_eq] at hd ⊢
  rw [if_neg hd]

end Collect

theorem consume_frame (h : Handle) (n : Nat) :
    consume h n = { h with state := (consume h n).state, remain := (consume h n).remain } := by
  unfold consume
  split <;> rfl

theorem consume_state (h : Handle) (n : Nat) (hs : h.state ≠ 1) : (consume h n).state = 1 ↔ h.remain = n := by
  unfold consume
  split
  · simpa
  · simpa [hs]

theorem gather_keeps (h : Handle) (buf : List UInt8) (n : Nat) :
    (gather h buf n).state = h.state ∧ (gather h buf n).remain = h.remain ∧
      (gather h buf n).allowIframe = h.allowIframe := by
  unfold gather
  dsimp only
  split
  · have hp := parsePrivateStream1_sameFrame
      { h with spuBuf := blit h.spuBuf h.spuLen (buf.take n), spuLen := h.spuLen + n }
      (blit h.spuBuf h.spuLen (buf.take n)) (h.spuLen + n)
    exact ⟨hp.state, hp.remain, hp.allowIframe⟩
  · exact ⟨rfl, rfl, rfl⟩

theorem continueFrame_le (h : Handle) (buf : List UInt8) : (continueFrame h buf).2 ≤ buf.length := by
  have htake := List.length_take_le' (min h.remain buf.length) buf
  unfold continueFrame
  dsimp only
  split
  · exact Nat.min_le_right ..
  · exact (streamAdd_le ..).trans htake
  · exact (streamAdd_le ..).trans htake
  · exact Nat.min_le_right ..
  · exact Nat.min_le_right ..
  · exact Nat.min_le_right ..

theorem withHeader_le (k : Nat) (h : Handle) (buf : List UInt8) {body : Handle → List UInt8 → Handle × Nat}
    (hb : ∀ h rest, (body h rest).2 ≤ rest.length) : (withHeader k h buf body).2 ≤ buf.length := by
  have hk := collect_le h k buf
  unfold withHeader
  dsimp only
  split
  · have hr := hb (collect h k buf).1 (buf.drop (collect h k buf).2.1)
    rw [List.length_drop] at hr
    dsimp only
    omega
  · exact hk

theorem packBody_le (h : Handle) (rest : List UInt8) : (packBody h rest).2 ≤ rest.length := by
  unfold packBody
  dsimp only
  split
  · exact Nat.zero_le _
  · split
    · split
      · split
        · assumption
        · exact le_refl _
      · exact le_refl _
    · exact Nat.zero_le _

theorem otherBody_le (past : Nat → UInt8) (type : Nat) (h : Handle) (rest : List UInt8) :
    (otherBody past type h rest).2 ≤ rest.length := by
  unfold otherBody
  dsimp only
  split
  · assumption
  · exact le_refl _

theorem payload_le (h : Handle) (sid : StreamId) (force : Bool) (rest : List UInt8) (n : Nat) :
    (payload h sid force rest n).2 ≤ rest.length := by
  have htake := List.length_take_le' n rest
  unfold payload
  dsimp only
  split
  · have hle := (streamAdd_le h sid (rest.take n) force).trans htake
    split <;> exact hle
  · exact streamAdd_le ..

/-- `stream_add` and the count of the header parts are all that happens to the frame. -/
structure SameButHeadernum (h h' : Handle) : Prop where
  state : h'.state = h.state
  frameState : h'.frameState = h.frameState
  remain : h'.remain = h.remain
  buf : h'.buf = h.buf
  bufsz : h'.bufsz = h.bufsz
  allowIframe : h'.allowIframe = h.allowIframe
  spuBuf : h'.spuBuf = h.spuBuf
  spuLen : h'.spuLen = h.spuLen

namespace SameButHeadernum

theorem refl (h : Handle) : SameButHeadernum h h := ⟨rfl, rfl, rfl, rfl, rfl, rfl, rfl, rfl⟩

theorem trans {h₁ h₂ h₃ : Handle} (h₁₂ : SameButHeadernum h₁ h₂) (h₂₃ : SameButHeadernum h₂ h₃) :
    SameButHeadernum h₁ h₃ :=
  ⟨h₂₃.state.trans h₁₂.state, h₂₃.frameState.trans h₁₂.frameState, h₂₃.remain.trans h₁₂.remain,
    h₂₃.buf.trans h₁₂.buf, h₂₃.bufsz.trans h₁₂.bufsz, h₂₃.allowIframe.trans h₁₂.allowIframe,
    h₂₃.spuBuf.trans h₁₂.spuBuf, h₂₃.spuLen.trans h₁₂.spuLen⟩

theorem add (h : Handle) (sid : StreamId) (data : List UInt8) (force : Bool) :
    SameButHeadernum h (streamAdd h sid data force).1 := by
  have hs := streamAdd_sameFrame h sid data force
  exact ⟨hs.state, hs.frameState, hs.remain, hs.buf, hs.bufsz, hs.allowIframe, hs.spuBuf, hs.spuLen⟩

theorem count {h h' : Handle} (hs : SameButHeadernum h h') (n : Nat) :
    SameButHeadernum h { h' with headernum := n } :=
  ⟨hs.state, hs.frameState, hs.remain, hs.buf, hs.bufsz, hs.allowIframe, hs.spuBuf, hs.spuLen⟩

end SameButHeadernum

theorem videoHeaders_same (type fuel : Nat) (h : Handle) : SameButHeadernum h (videoHeaders type fuel h) := by
  have hfirst (g : Handle) : SameButHeadernum g
      (if g.headernum % 2 = 0 then streamAdd g .video (startCode type) false else (g, 4)).1 := by
    split
    · exact .add ..
    · exact .refl g
  fun_induction videoHeaders type fuel h with
  | case1 h => exact .refl h
  | case2 fuel h hc r hr => exact hfirst h
  | case3 fuel h hc r hr g hodd r2 hr2 =>
    refine SameButHeadernum.trans ?_ (.add ..)
    simp only [g]
    split
    · exact (hfirst h).count _
    · exact hfirst h
  | case4 fuel h hc r hr g hodd r2 hr2 ih =>
    refine SameButHeadernum.trans ?_ ih
    refine SameButHeadernum.trans ?_ ((SameButHeadernum.add ..).count _)
    simp only [g]
    split
    · exact (hfirst h).count _
    · exact hfirst h
  | case5 fuel h hc r hr g hodd ih =>
    refine SameButHeadernum.trans ?_ ih
    simp only [g]
    split
    · exact (hfirst h).count _
    · exact hfirst h
  | case6 fuel h hc => exact .refl h

theorem audioPart_same (h : Handle) (num : Nat) (part : List UInt8) :
    SameButHeadernum h (audioPart h num part).1 := by
  unfold audioPart
  dsimp only
  split
  · split
    · exact .add ..
    · exact (SameButHeadernum.add ..).count _
  · exact .refl h

theorem audioHeader_same (h : Handle) (type : Nat) : SameButHeadernum h (audioHeader h type).1 := by
  unfold audioHeader
  dsimp only
  split
  · exact (audioPart_same ..).trans (audioPart_same ..)
  · exact audioPart_same ..

theorem SameButHeadernum.frameLength {h h' : Handle} (hs : SameButHeadernum h h') :
    Demux.frameLength h' = Demux.frameLength h := by
  unfold Demux.frameLength
  rw [hs.buf]

theorem videoBody_le (type : Nat) (h : Handle) (rest : List UInt8) : (videoBody type h rest).2 ≤ rest.length := by
  unfold videoBody
  dsimp only
  split
  · exact Nat.zero_le _
  · exact payload_le ..

theorem audioBody_le (type : Nat) (h : Handle) (rest : List UInt8) : (audioBody type h rest).2 ≤ rest.length := by
  unfold audioBody
  dsimp only
  split
  · exact Nat.zero_le _
  · split
    · exact payload_le ..
    · exact Nat.zero_le _

theorem iframe_le (h : Handle) (buf : List UInt8) (type : Nat) : (iframe h buf type).2 ≤ buf.length := by
  unfold iframe
  dsimp only
  split
  · split
    · exact Nat.zero_le _
    · split <;> exact streamAdd_le ..
  · exact Nat.zero_le _

theorem frameBody_le (h : Handle) (buf : List UInt8) (past : Nat → UInt8) (type : Nat) :
    (frameBody h buf past type).2 ≤ buf.length := by
  unfold frameBody
  split
  · exact continueFrame_le ..
  · split
    · exact Nat.zero_le _
    · split
      · exact withHeader_le _ _ _ packBody_le
      · split
        · exact withHeader_le _ _ _ (otherBody_le past type)
        · split
          · exact withHeader_le _ _ _ (videoBody_le type)
          · split
            · exact iframe_le ..
            · split
              · exact withHeader_le _ _ _ (audioBody_le type)
              · exact Nat.zero_le _

theorem parseFrame_le (h : Handle) (buf : List UInt8) (past : Nat → UInt8) (type : Nat) :
    (parseFrame h buf past type).2 ≤ buf.length := by
  unfold parseFrame
  split
  · exact Nat.zero_le _
  · rename_i b rest
    split
    · simpa using frameBody_le (startFrame h b.toNat) rest past b.toNat
    · exact frameBody_le ..

theorem addBufferLoop_le (past : Nat → UInt8) (fuel : Nat) (h : Handle) (buf : List UInt8) :
    (addBufferLoop past fuel h buf).2 ≤ buf.length := by
  fun_induction addBufferLoop past fuel h buf with
  | case1 => exact Nat.zero_le _
  | case2 => exact Nat.zero_le _
  | case3 fuel h b rest hs r h' hne => exact parseFrame_le ..
  | case4 fuel h b rest hs r h' hne t ih =>
    have hr : r.2 ≤ (b :: rest).length := parseFrame_le ..
    rw [List.length_drop] at ih
    simp only [t]
    omega
  | case5 fuel h b rest hs t ih =>
    simp only [t, List.length_cons]
    omega

theorem parserCall_le (h : Handle) (buf : List UInt8) (past : Nat → UInt8) :
    (parserCall h buf past).2 ≤ buf.length := by
  unfold parserCall
  split
  · exact addBufferLoop_le ..
  · exact parseFrame_le ..

end Mvpmc.Demux
