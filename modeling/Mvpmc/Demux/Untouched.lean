import Mvpmc.Demux.Put
import Mvpmc.Demux.Ring

/-! What the calls below `parse_frame` leave alone. The video scanner and the video
ring touch no field of the frame parser, and the audio ring touches nothing else. -/
namespace Mvpmc.Demux
open Mvpmc.Lib.Circular

/-- Only what `parse_video_stream` may change differs. -/
def ScanOnly (h h' : Handle) : Prop :=
  h' = { h with
    video := { h.video with
      buf := h'.video.buf, parserData := h'.video.parserData
      attr.stats.video := h'.video.attr.stats.video }
    seeking := h'.seeking, jit := h'.jit, bps := h'.bps, gop := h'.gop, gopValid := h'.gopValid
    vidEvents := h'.vidEvents }

namespace ScanOnly

theorem refl (h : Handle) : ScanOnly h h := rfl

theorem trans {h₁ h₂ h₃ : Handle} (h₁₂ : ScanOnly h₁ h₂) (h₂₃ : ScanOnly h₂ h₃) : ScanOnly h₁ h₃ := by
  unfold ScanOnly at *
  rw [h₁₂] at h₂₃
  exact h₂₃

end ScanOnly

namespace Scan

theorem seekStart_h (sc : Scan) (size : Nat) : (sc.seekStart size).h = sc.h := by
  unfold seekStart
  dsimp only
  split
  · split <;> split <;> rfl
  · rfl

theorem videoCode_only (sc : Scan) (tail head size : Nat) : ScanOnly sc.h (sc.videoCode tail head size).1.h := by
  unfold videoCode
  dsimp only
  split
  · rfl
  · rw [seekStart_h]
    rfl

theorem pictureCode_only (sc : Scan) (tail head size : Nat) :
    ScanOnly sc.h (sc.pictureCode tail head size).1.h := by
  unfold pictureCode
  split
  · split <;> rfl
  · rfl

theorem sequenceCode_only (sc : Scan) (tail head size : Nat) :
    ScanOnly sc.h (sc.sequenceCode tail head size).1.h := by
  unfold sequenceCode announceAspect
  dsimp only
  split
  · split <;> split <;> rfl
  · rfl

theorem gopCode_only (sc : Scan) (tail head size : Nat) : ScanOnly sc.h (sc.gopCode tail head size).1.h := by
  unfold gopCode
  dsimp only
  split
  · split
    · rfl
    · split
      · rfl
      · split <;> rfl
  · rfl

theorem userDataCode_only (sc : Scan) (tail head size : Nat) :
    ScanOnly sc.h (sc.userDataCode tail head size).1.h := by
  unfold userDataCode announceAspect
  dsimp only
  split
  · refine ScanOnly.trans ?_ (gopCode_only _ tail head size)
    split
    · split <;> rfl
    · rfl
  · rfl

theorem code_only (sc : Scan) (tail head size identifier : Nat) :
    ScanOnly sc.h (sc.code tail head size identifier).1.h := by
  unfold code
  split
  · exact videoCode_only ..
  · split
    · exact pictureCode_only ..
    · split
      · exact sequenceCode_only ..
      · split
        · exact userDataCode_only ..
        · split
          · exact gopCode_only ..
          · rfl

theorem loop_only (tail head size fuel : Nat) (sc : Scan) : ScanOnly sc.h (loop tail head size fuel sc).h := by
  induction fuel generalizing sc with
  | zero => rfl
  | succ fuel ih =>
    unfold loop
    dsimp only
    split
    · split
      · have hc := code_only (sc.wrap size) tail head size ((sc.wrap size).behind size 1).toNat
        split
        · exact hc
        · exact hc.trans (ih _)
      · exact ih _
    · rfl

end Scan

theorem parseVideoStream_only (h : Handle) (tail head size : Nat) :
    ScanOnly h (parseVideoStream h tail head size).1 := by
  have hl := Scan.loop_only tail head size size { h := h, i := tail + 5 }
  unfold parseVideoStream
  dsimp only
  split
  · exact hl.trans rfl
  · exact hl

/-- Only the video ring and what its scanner reports differ. -/
def VideoOnly (h h' : Handle) : Prop :=
  h' = { h with
    video := h'.video, seeking := h'.seeking, jit := h'.jit, bps := h'.bps, gop := h'.gop
    gopValid := h'.gopValid, vidEvents := h'.vidEvents }

namespace VideoOnly
variable {h h' : Handle}

theorem trans {h₁ h₂ h₃ : Handle} (h₁₂ : VideoOnly h₁ h₂) (h₂₃ : VideoOnly h₂ h₃) : VideoOnly h₁ h₃ := by
  unfold VideoOnly at *
  rw [h₁₂] at h₂₃
  exact h₂₃

theorem field {β : Type} (f : Handle → β) (hv : VideoOnly h h') : f h' = f { h with
    video := h'.video, seeking := h'.seeking, jit := h'.jit, bps := h'.bps, gop := h'.gop
    gopValid := h'.gopValid, vidEvents := h'.vidEvents } :=
  congrArg f hv

theorem audio (hv : VideoOnly h h') : h'.audio = h.audio := hv.field Handle.audio
theorem state (hv : VideoOnly h h') : h'.state = h.state := hv.field Handle.state
theorem frameState (hv : VideoOnly h h') : h'.frameState = h.frameState := hv.field Handle.frameState
theorem remain (hv : VideoOnly h h') : h'.remain = h.remain := hv.field Handle.remain
theorem buf (hv : VideoOnly h h') : h'.buf = h.buf := hv.field Handle.buf
theorem bufsz (hv : VideoOnly h h') : h'.bufsz = h.bufsz := hv.field Handle.bufsz
theorem headernum (hv : VideoOnly h h') : h'.headernum = h.headernum := hv.field Handle.headernum
theorem allowIframe (hv : VideoOnly h h') : h'.allowIframe = h.allowIframe := hv.field Handle.allowIframe
theorem spuBuf (hv : VideoOnly h h') : h'.spuBuf = h.spuBuf := hv.field Handle.spuBuf
theorem spuLen (hv : VideoOnly h h') : h'.spuLen = h.spuLen := hv.field Handle.spuLen

end VideoOnly

theorem ScanOnly.videoOnly {h h' : Handle} (hs : ScanOnly h h') : VideoOnly h h' := by
  unfold ScanOnly at hs
  unfold VideoOnly
  rw [hs]

/-- The parts of the video ring that `stream_add` keeps. -/
structure SameRing (s s' : Stream) : Prop where
  size : s'.size = s.size
  parserCallback : s'.parserCallback = s.parserCallback
  current : s'.attr.current = s.attr.current
  ids : s'.attr.ids = s.attr.ids

theorem SameRing.refl (s : Stream) : SameRing s s := ⟨rfl, rfl, rfl, rfl⟩

theorem SameRing.trans {s₁ s₂ s₃ : Stream} (h₁₂ : SameRing s₁ s₂) (h₂₃ : SameRing s₂ s₃) : SameRing s₁ s₃ :=
  ⟨h₂₃.size.trans h₁₂.size, h₂₃.parserCallback.trans h₁₂.parserCallback, h₂₃.current.trans h₁₂.current,
    h₂₃.ids.trans h₁₂.ids⟩

theorem ScanOnly.ring {h h' : Handle} (hs : ScanOnly h h') : h'.video = { h.video with
    buf := h'.video.buf, parserData := h'.video.parserData
    attr.stats.video := h'.video.attr.stats.video } :=
  congrArg (fun x : Handle => x.video) hs

theorem ScanOnly.sameRing {h h' : Handle} (hs : ScanOnly h h') : SameRing h.video h'.video := by
  rw [hs.ring]
  exact ⟨rfl, rfl, rfl, rfl⟩

theorem ScanOnly.fullCount {h h' : Handle} (hs : ScanOnly h h') :
    h'.video.attr.stats.fullCount = h.video.attr.stats.fullCount := by
  rw [hs.ring]

theorem runParser_only (h : Handle) (wasSeeking : Bool) (stop : Nat) :
    VideoOnly h (runParser h wasSeeking stop) ∧ SameRing h.video (runParser h wasSeeking stop).video ∧
      (runParser h wasSeeking stop).video.attr.stats.fullCount = h.video.attr.stats.fullCount := by
  have hs := parseVideoStream_only h h.video.parserTail stop h.video.size
  have hr := hs.sameRing
  unfold runParser
  dsimp only
  split
  · exact ⟨hs.videoOnly.trans rfl, ⟨hr.size, hr.parserCallback, hr.current, hr.ids⟩, hs.fullCount⟩
  · exact ⟨hs.videoOnly.trans rfl, ⟨hr.size, hr.parserCallback, hr.current, hr.ids⟩, hs.fullCount⟩

namespace Stream
variable (s : Stream)

theorem hide_same (w : Bool) :
    SameRing s (s.hide w) ∧ (s.hide w).attr.stats.fullCount = s.attr.stats.fullCount := by
  unfold hide
  split <;> exact ⟨⟨rfl, rfl, rfl, rfl⟩, rfl⟩

theorem advance_same (w : Bool) (head : Nat) (data : List UInt8) :
    SameRing s (s.advance w head data) ∧
      (s.advance w head data).attr.stats.fullCount = s.attr.stats.fullCount := by
  unfold advance
  dsimp only
  split <;> exact ⟨⟨rfl, rfl, rfl, rfl⟩, rfl⟩

theorem filled_same (seeking : Bool) (n : Nat) :
    SameRing s (s.filled seeking n) ∧ (s.filled seeking n).attr.stats.fullCount = s.attr.stats.fullCount := by
  unfold filled
  cases seeking <;> exact ⟨⟨rfl, rfl, rfl, rfl⟩, rfl⟩

/-- The ring stays the same ring, whether it takes the block or not. -/
theorem append_same (seeking : Bool) (data : List UInt8) : SameRing s (s.append seeking data).1 := by
  unfold append
  split
  · exact .refl s
  · split
    · exact ⟨rfl, rfl, rfl, rfl⟩
    · exact (s.advance_same ..).1.trans (filled_same ..).1

end Stream

/-- `stream_add` on the video ring touches only that ring and what its scanner reports. -/
theorem streamAdd_video (h : Handle) (data : List UInt8) (hc : h.video.parserCallback = true) :
    VideoOnly h (streamAdd h .video data false).1 ∧ SameRing h.video (streamAdd h .video data false).1.video := by
  have hset (x : Handle) (s : Stream) : VideoOnly x (x.setStream .video s) := rfl
  have hr := (h.video.hide_same h.seeking).1
  have ha := (Stream.advance_same (h.video.hide h.seeking) h.seeking
    ((h.video.hide h.seeking).writeHead h.seeking) data).1
  obtain ⟨hv, hs, -⟩ := runParser_only
    (h.setStream .video ((h.video.hide h.seeking).advance h.seeking
      ((h.video.hide h.seeking).writeHead h.seeking) data)) h.seeking
    (((h.video.hide h.seeking).writeHead h.seeking + data.length) % (h.video.hide h.seeking).size)
  unfold streamAdd
  simp only [Handle.stream, Bool.not_false, Bool.and_true, hc, Bool.true_eq_false, false_and, if_false]
  split
  · exact ⟨rfl, .refl _⟩
  · split
    · exact ⟨hset .., hr.trans ⟨rfl, rfl, rfl, rfl⟩⟩
    · rw [if_pos (hr.parserCallback.trans hc)]
      exact ⟨((hset _ _).trans hv).trans (hset _ _), ((hr.trans ha).trans hs).trans (Stream.filled_same ..).1⟩

/-- The fields of the frame parser agree. -/
structure SameFrame (h h' : Handle) : Prop where
  state : h'.state = h.state
  frameState : h'.frameState = h.frameState
  remain : h'.remain = h.remain
  buf : h'.buf = h.buf
  bufsz : h'.bufsz = h.bufsz
  headernum : h'.headernum = h.headernum
  allowIframe : h'.allowIframe = h.allowIframe
  spuBuf : h'.spuBuf = h.spuBuf
  spuLen : h'.spuLen = h.spuLen

namespace SameFrame

theorem refl (h : Handle) : SameFrame h h := ⟨rfl, rfl, rfl, rfl, rfl, rfl, rfl, rfl, rfl⟩

theorem trans {h₁ h₂ h₃ : Handle} (h₁₂ : SameFrame h₁ h₂) (h₂₃ : SameFrame h₂ h₃) : SameFrame h₁ h₃ :=
  ⟨h₂₃.state.trans h₁₂.state, h₂₃.frameState.trans h₁₂.frameState, h₂₃.remain.trans h₁₂.remain,
    h₂₃.buf.trans h₁₂.buf, h₂₃.bufsz.trans h₁₂.bufsz, h₂₃.headernum.trans h₁₂.headernum,
    h₂₃.allowIframe.trans h₁₂.allowIframe, h₂₃.spuBuf.trans h₁₂.spuBuf, h₂₃.spuLen.trans h₁₂.spuLen⟩

theorem setStream (h : Handle) (sid : StreamId) (s : Stream) : SameFrame h (h.setStream sid s) := by
  cases sid <;> exact ⟨rfl, rfl, rfl, rfl, rfl, rfl, rfl, rfl, rfl⟩

end SameFrame

theorem VideoOnly.sameFrame {h h' : Handle} (hv : VideoOnly h h') : SameFrame h h' :=
  ⟨hv.state, hv.frameState, hv.remain, hv.buf, hv.bufsz, hv.headernum, hv.allowIframe, hv.spuBuf, hv.spuLen⟩

/-- `stream_add` does not touch the frame parser. -/
theorem streamAdd_sameFrame (h : Handle) (sid : StreamId) (data : List UInt8) (force : Bool) :
    SameFrame h (streamAdd h sid data force).1 := by
  unfold streamAdd
  dsimp only
  split
  · exact .refl h
  · split
    · exact .refl h
    · split
      · exact .setStream ..
      · refine SameFrame.trans ?_ (.setStream ..)
        split
        · exact SameFrame.trans (.setStream ..) (runParser_only _ _ _).1.sameFrame
        · exact .setStream ..

/-- `stream_add` consumes all of the block or nothing. -/
theorem streamAdd_count (h : Handle) (sid : StreamId) (data : List UInt8) (force : Bool) :
    (streamAdd h sid data force).2 = data.length ∨ (streamAdd h sid data force).2 = 0 := by
  unfold streamAdd
  dsimp only
  split
  · exact .inr rfl
  · split
    · exact .inl rfl
    · split
      · exact .inr rfl
      · exact .inl rfl

/-- How often a ring has answered `full`. -/
def Handle.refusals (h : Handle) : Nat := h.audio.attr.stats.fullCount + h.video.attr.stats.fullCount

theorem setStream_refusals (h : Handle) (sid : StreamId) (s : Stream) (d : Nat)
    (hs : s.attr.stats.fullCount = (h.stream sid).attr.stats.fullCount + d) :
    (h.setStream sid s).refusals = h.refusals + d := by
  cases sid <;> simp only [Handle.refusals, Handle.setStream, Handle.stream] at * <;> omega

/-- `stream_add` counts its refusals. -/
theorem streamAdd_refusals (h : Handle) (sid : StreamId) (data : List UInt8) (force : Bool) :
    (streamAdd h sid data force).2 = data.length ∧ (streamAdd h sid data force).1.refusals = h.refusals ∨
      (streamAdd h sid data force).2 = 0 ∧ data ≠ [] ∧
        (streamAdd h sid data force).1.refusals = h.refusals + 1 := by
  have parser (g : Handle) (w : Bool) (stop : Nat) : (runParser g w stop).refusals = g.refusals := by
    obtain ⟨hv, -, hf⟩ := runParser_only g w stop
    rw [Handle.refusals, Handle.refusals, hv.audio, hf]
  unfold streamAdd
  dsimp only
  split
  · rename_i h0
    exact .inl ⟨h0.symm, rfl⟩
  · rename_i h0
    split
    · exact .inl ⟨rfl, rfl⟩
    · split
      · refine .inr ⟨rfl, by simpa using h0, setStream_refusals h sid _ 1 ?_⟩
        exact congrArg (· + 1) (Stream.hide_same ..).2
      · refine .inl ⟨rfl, ?_⟩
        have hset := setStream_refusals h sid
          (((h.stream sid).hide (h.seeking && !force)).advance (h.seeking && !force)
            (((h.stream sid).hide (h.seeking && !force)).writeHead (h.seeking && !force)) data) 0
          ((Stream.advance_same ..).2.trans (Stream.hide_same ..).2)
        refine (setStream_refusals _ sid _ 0 ?_).trans (Eq.trans ?_ hset)
        · exact (Stream.filled_same ..).2
        · rw [Nat.add_zero]
          split
          · exact parser ..
          · rfl

theorem streamAdd_le (h : Handle) (sid : StreamId) (data : List UInt8) (force : Bool) :
    (streamAdd h sid data force).2 ≤ data.length := by
  rcases streamAdd_count h sid data force with hc | hc <;> omega

theorem parsePrivateAudio_sameFrame (base mode : Nat) (kind : StreamType) (ac3 : Bool) (h : Handle)
    (mem : Nat → UInt8) (len : Nat) : SameFrame h (parsePrivateAudio base mode kind ac3 h mem len).1 := by
  unfold parsePrivateAudio
  dsimp only
  split
  · exact .refl h
  · split
    · refine SameFrame.trans ?_ (streamAdd_sameFrame ..)
      exact ⟨rfl, rfl, rfl, rfl, rfl, rfl, rfl, rfl, rfl⟩
    · exact SameFrame.setStream h .audio _

theorem spuComplete_only (h : Handle) (id : Nat) (p : Nat → UInt8) (size dataSize : Nat) (start : UInt32) :
    (spuComplete h id p size dataSize start).1 = { h with
      spu := (spuComplete h id p size dataSize start).1.spu
      attrSpu := (spuComplete h id p size dataSize start).1.attrSpu } := by
  unfold spuComplete
  dsimp only
  split
  · rfl
  · split <;> rfl

/-- A subpicture only touches the subpicture tables. -/
theorem parseSpuFrame_only (h : Handle) (mem : Nat → UInt8) (len : Nat) :
    (parseSpuFrame h mem len).1 = { h with
      spu := (parseSpuFrame h mem len).1.spu, attrSpu := (parseSpuFrame h mem len).1.attrSpu } := by
  unfold parseSpuFrame
  dsimp only
  split
  · rfl
  · split
    · rfl
    · split
      · split
        · exact spuComplete_only ..
        · rfl
      · split
        · rfl
        · split
          · rfl
          · exact spuComplete_only ..

theorem parsePrivateStream1_sameFrame (h : Handle) (mem : Nat → UInt8) (len : Nat) :
    SameFrame h (parsePrivateStream1 h mem len) := by
  have hspu : SameFrame h (parseSpuFrame h mem len).1 := by
    rw [parseSpuFrame_only]
    exact ⟨rfl, rfl, rfl, rfl, rfl, rfl, rfl, rfl, rfl⟩
  have hac3 := parsePrivateAudio_sameFrame 128 AUDIO_MODE_AC3 .ac3 true (parseSpuFrame h mem len).1 mem len
  unfold parsePrivateStream1
  dsimp only
  split
  · exact hspu
  · split
    · exact hspu.trans hac3
    · exact (hspu.trans hac3).trans (parsePrivateAudio_sameFrame ..)

end Mvpmc.Demux
