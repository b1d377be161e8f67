import Mvpmc.Lib.Reach
import Mvpmc.Demux.Parser

/-! The handles a caller of the library can reach, and the shape of the frame parser
in all of them. -/
namespace Mvpmc.Demux
open Mvpmc.Lib Mvpmc.Lib.Circular

/-- The calls on a handle. `jit` is the bookkeeping of `demux_jit_write_audio`, which
otherwise drains the audio ring by the calls above it. -/
inductive Call where
  | put (buf : List UInt8) (past : Nat → UInt8)
  | get (sid : StreamId) (max : Int)
  | write (sid : StreamId) (max : Int) (first second : Option Nat)
  | jit (data : JitAudioData)
  | select (sid : StreamId) (id : Nat)
  | seek
  | flush

namespace Call

def run (h : Handle) : Call → Handle
  | put buf past => (demuxPut h buf past).1
  | get sid max => (demuxGet h sid max).1
  | write sid max first second => h.setStream sid ((h.stream sid).drainFd max first second).1
  | jit data => { h with jit := data }
  | select sid id => (demuxSetStream h sid id).1
  | seek => demuxSeek h
  | flush => demuxFlush h

/-- Feeding, draining and choosing a stream. -/
def isPlay : Call → Prop
  | seek => False
  | flush => False
  | _ => True

/-- Feeding, draining, seeking and flushing. -/
def isSeek : Call → Prop
  | select _ _ => False
  | _ => True

end Call

/-- The handles reached from `demux_init` by calls of the given kind. -/
def Reachable (allowed : Call → Prop) (size : Nat) : Handle → Prop :=
  Reach (fun h => ∃ junk, h = demuxInit size junk) fun h c h' => allowed c ∧ h' = c.run h

/-- `demux_put` is at most two calls of the parser. -/
theorem demuxPut_cases (h : Handle) (buf : List UInt8) (past : Nat → UInt8) :
    (demuxPut h buf past).1 = h ∨
      (isHeaderState h.state = true ∨ isFrameState h.state = true) ∧
        ((demuxPut h buf past).1 = (parserCall h buf past).1 ∨
          (parserCall h buf past).1.state = 1 ∧ (demuxPut h buf past).1 =
            (parserCall (parserCall h buf past).1 (buf.drop (parserCall h buf past).2) past).1) := by
  unfold demuxPut
  dsimp only
  split
  · exact .inl rfl
  · split
    · rename_i hh
      refine .inr ⟨.inl hh, .inl ?_⟩
      rw [parserCall, if_pos hh]
    · rename_i hh
      split
      · rename_i hf
        have hc : parserCall h buf past = parseFrame h buf past h.state := by rw [parserCall, if_neg hh]
        refine .inr ⟨.inr hf, ?_⟩
        split
        · rename_i h1
          split
          · exact .inl (by rw [hc])
          · refine .inr ⟨by rw [hc]; exact h1, ?_⟩
            rw [hc, parserCall, if_pos (by rw [h1]; rfl)]
        · exact .inl (by rw [hc])
      · exact .inl rfl

/-- The shape of the frame parser between two calls. -/
structure Shape (h : Handle) : Prop where
  state : isHeaderState h.state = true ∨ isFrameState h.state = true
  pack : h.state = pack_start_code → h.remain = 0 → h.bufsz < 7
  other : isOtherStream h.state = true → h.remain = 0 → h.bufsz < 2
  allowIframe : h.allowIframe = false

theorem Shape.of_header {h : Handle} (hs : isHeaderState h.state = true) (hi : h.allowIframe = false) :
    Shape h := by
  refine ⟨.inl hs, ?_, ?_, hi⟩
  · intro he
    rw [he] at hs
    exact absurd hs (by decide)
  · intro ho
    simp only [isOtherStream, isHeaderState, private_stream_1, private_stream_2, system_header_start_code,
      padding_stream, Bool.or_eq_true, Bool.and_eq_true, beq_iff_eq, decide_eq_true_eq] at ho hs
    omega

theorem Shape.of_same {h h' : Handle} (hsh : Shape h) (hs : SameFrame h h') : Shape h' :=
  ⟨by rw [hs.state]; exact hsh.state, by rw [hs.state, hs.remain, hs.bufsz]; exact hsh.pack,
    by rw [hs.state, hs.remain, hs.bufsz]; exact hsh.other, by rw [hs.allowIframe]; exact hsh.allowIframe⟩

/-- What a step inside a frame of type `type` leaves behind: the start of the search
for the next frame, or the same frame in good shape. -/
private structure StepShape (type : Nat) (h : Handle) : Prop where
  state : h.state = 1 ∨ h.state = type
  pack : h.state ≠ 1 → type = pack_start_code → h.remain = 0 → h.bufsz < 7
  other : h.state ≠ 1 → isOtherStream type = true → h.remain = 0 → h.bufsz < 2
  allowIframe : h.allowIframe = false

private theorem StepShape.of_one {type : Nat} {h : Handle} (hs : h.state = 1) (hi : h.allowIframe = false) :
    StepShape type h :=
  ⟨.inl hs, fun hne => absurd hs hne, fun hne => absurd hs hne, hi⟩

private theorem StepShape.of_remain {type : Nat} {h : Handle} (hs : h.state = type) (hr : h.remain ≠ 0)
    (hi : h.allowIframe = false) : StepShape type h :=
  ⟨.inr hs, fun _ _ h0 => absurd h0 hr, fun _ _ h0 => absurd h0 hr, hi⟩

private theorem StepShape.of_plain {type : Nat} {h : Handle} (hs : h.state = type) (hp : type ≠ pack_start_code)
    (ho : isOtherStream type = false) (hi : h.allowIframe = false) : StepShape type h :=
  ⟨.inr hs, fun _ he => absurd he hp, fun _ ht => absurd ht (by simp [ho]), hi⟩

private theorem consume_shape {h : Handle} {n type : Nat} (hs : h.state = type) (hn : n ≤ h.remain)
    (hi : h.allowIframe = false) : StepShape type (consume h n) := by
  unfold consume
  split
  · exact .of_one rfl hi
  · exact .of_remain hs (by dsimp only; omega) hi

private theorem continueFrame_shape {h : Handle} (buf : List UInt8) (hi : h.allowIframe = false) :
    StepShape h.state (continueFrame h buf).1 := by
  have hmin := Nat.min_le_left h.remain buf.length
  have hadd (sid : StreamId) (force : Bool) : StepShape h.state
      (consume (streamAdd h sid (buf.take (min h.remain buf.length)) force).1
        (streamAdd h sid (buf.take (min h.remain buf.length)) force).2) := by
    have hsame := streamAdd_sameFrame h sid (buf.take (min h.remain buf.length)) force
    have hle := streamAdd_le h sid (buf.take (min h.remain buf.length)) force
    rw [List.length_take] at hle
    refine consume_shape hsame.state ?_ (hsame.allowIframe.trans hi)
    rw [hsame.remain]
    omega
  unfold continueFrame
  dsimp only
  rcases h.frameState with _ | _ | _ | _ | _ | fs
  · exact consume_shape rfl hmin hi
  · exact hadd .audio true
  · exact hadd .video false
  · exact consume_shape rfl hmin hi
  · obtain ⟨hg1, hg2, hg3⟩ := gather_keeps h buf (min h.remain buf.length)
    exact consume_shape hg1 (by rw [hg2]; exact hmin) (hg3.trans hi)
  · have hone (g : Handle) (n : Nat) (hg : g.state = 1) (hgi : g.allowIframe = false) :
        StepShape h.state (consume g n) := by
      refine .of_one ?_ ?_
      · unfold consume
        split
        · rfl
        · exact hg
      · rw [consume_frame]
        exact hgi
    exact hone _ _ rfl hi

private theorem withHeader_shape {k type : Nat} {h : Handle} (buf : List UInt8)
    {body : Handle → List UInt8 → Handle × Nat} (hs : h.state = type) (hi : h.allowIframe = false)
    (hp : type = pack_start_code → k = 7) (ho : isOtherStream type = true → k = 2)
    (hbody : ∀ g rest, g.state = type → g.allowIframe = false → StepShape type (body g rest).1) :
    StepShape type (withHeader k h buf body).1 := by
  unfold withHeader
  dsimp only
  split
  · exact hbody _ _ hs hi
  · rename_i hd
    have hlt : ¬ k ≤ buf.length + h.bufsz := fun hle => hd ((collect_done h k buf).mpr hle)
    have hn := collect_of_not_done h k buf (by simpa using hd)
    have hsz : (collect h k buf).1.bufsz < k := by
      rw [collect_fst]
      dsimp only
      omega
    exact ⟨.inr hs, fun _ he _ => hp he ▸ hsz, fun _ he _ => ho he ▸ hsz, hi⟩

private theorem packBody_shape {h : Handle} (rest : List UInt8) (hs : h.state = pack_start_code)
    (hi : h.allowIframe = false) : StepShape pack_start_code (packBody h rest).1 := by
  unfold packBody
  dsimp only
  split
  · exact .of_one rfl hi
  · split
    · split
      · split
        · exact .of_one rfl hi
        · exact .of_remain hs (by dsimp only; omega) hi
      · exact .of_remain hs (by dsimp only; omega) hi
    · exact .of_one rfl hi

private theorem otherBody_shape {type : Nat} {h : Handle} (past : Nat → UInt8) (rest : List UInt8)
    (hs : h.state = type) (hi : h.allowIframe = false) : StepShape type (otherBody past type h rest).1 := by
  unfold otherBody
  dsimp only
  split
  · refine .of_one rfl ?_
    split
    · exact (parsePrivateStream1_sameFrame ..).allowIframe.trans hi
    · exact hi
  · split
    · exact .of_remain hs (by dsimp only; omega) hi
    · exact .of_remain hs (by dsimp only; omega) hi

private theorem payload_state (h : Handle) (sid : StreamId) (force : Bool) (rest : List UInt8) (n : Nat) :
    ((payload h sid force rest n).1.state = 1 ∨ (payload h sid force rest n).1.state = h.state) ∧
      (payload h sid force rest n).1.allowIframe = h.allowIframe := by
  unfold payload
  dsimp only
  split
  · have hs := streamAdd_sameFrame h sid (rest.take n) force
    split
    · exact ⟨.inl rfl, hs.allowIframe⟩
    · exact ⟨.inr hs.state, hs.allowIframe⟩
  · have hs := streamAdd_sameFrame h sid rest force
    exact ⟨.inr hs.state, hs.allowIframe⟩

private theorem videoBody_state (type : Nat) (h : Handle) (rest : List UInt8) :
    ((videoBody type h rest).1.state = 1 ∨ (videoBody type h rest).1.state = h.state) ∧
      (videoBody type h rest).1.allowIframe = h.allowIframe := by
  have hv := videoHeaders_same type 4 h
  unfold videoBody
  dsimp only
  split
  · exact ⟨.inr rfl, rfl⟩
  · rw [← hv.state, ← hv.allowIframe]
    exact payload_state ..

private theorem audioBody_state (type : Nat) (h : Handle) (rest : List UInt8) :
    ((audioBody type h rest).1.state = 1 ∨ (audioBody type h rest).1.state = h.state) ∧
      (audioBody type h rest).1.allowIframe = h.allowIframe := by
  have ha := audioHeader_same h type
  unfold audioBody
  dsimp only
  split
  · exact ⟨.inr rfl, rfl⟩
  · split
    · rw [← ha.state, ← ha.allowIframe]
      exact payload_state ..
    · exact ⟨.inr ha.state, ha.allowIframe⟩

/-- A packet that goes into a ring has no shape to keep while its header is collected. -/
private theorem plain_shape {type : Nat} {h : Handle} (buf : List UInt8) {sid : StreamId}
    {body : Handle → List UInt8 → Handle × Nat} (hs : h.state = type) (hi : h.allowIframe = false)
    (hp : type ≠ pack_start_code) (ho : isOtherStream type = false)
    (hbody : ∀ g rest, ((body g rest).1.state = 1 ∨ (body g rest).1.state = g.state) ∧
      (body g rest).1.allowIframe = g.allowIframe) :
    StepShape type (withHeader 2 (h.meet sid type) buf body).1 := by
  have hm := SameFrame.setStream h sid ((h.stream sid).meet type)
  refine withHeader_shape buf (hm.state.trans hs) (hm.allowIframe.trans hi) (fun he => absurd he hp)
    (fun he => absurd he (by simp [ho])) ?_
  intro g rest hg hgi
  obtain ⟨hst, hal⟩ := hbody g rest
  rcases hst with h1 | h1
  · exact .of_one h1 (hal.trans hgi)
  · exact .of_plain (h1.trans hg) hp ho (hal.trans hgi)

private theorem not_other_of_av {type : Nat} (h : isVideoStream type = true ∨ isAudioStream type = true) :
    type ≠ pack_start_code ∧ isOtherStream type = false := by
  simp only [isVideoStream, isAudioStream, isOtherStream, private_stream_1, private_stream_2,
    system_header_start_code, padding_stream, pack_start_code, Bool.and_eq_true, decide_eq_true_eq,
    Bool.or_eq_false_iff, beq_eq_false_iff_ne] at *
  omega

private theorem frameBody_shape {h : Handle} (buf : List UInt8) (past : Nat → UInt8)
    (hi : h.allowIframe = false) : StepShape h.state (frameBody h buf past h.state).1 := by
  unfold frameBody
  split
  · exact continueFrame_shape buf hi
  · split
    · exact .of_one rfl hi
    · split
      · rename_i hp
        rw [hp]
        refine withHeader_shape buf hp hi (fun _ => rfl) (fun ho => absurd ho (by decide)) ?_
        exact fun g rest hg hgi => packBody_shape rest hg hgi
      · split
        · rename_i hp ho
          refine withHeader_shape buf rfl hi (fun he => absurd he hp) (fun _ => rfl) ?_
          exact fun g rest hg hgi => otherBody_shape past rest hg hgi
        · split
          · rename_i hv
            obtain ⟨hp, ho⟩ := not_other_of_av (.inl hv)
            exact plain_shape buf rfl hi hp ho (videoBody_state h.state)
          · split
            · refine .of_one ?_ ?_ <;> simp only [iframe, hi, Bool.false_eq_true, if_false]
            · split
              · rename_i ha
                obtain ⟨hp, ho⟩ := not_other_of_av (.inr ha)
                exact plain_shape buf rfl hi hp ho (audioBody_state h.state)
              · exact .of_one rfl hi

/-- A type byte that does not stand for a frame leads back to the search. -/
private theorem frameBody_unknown {h : Handle} (buf : List UInt8) (past : Nat → UInt8)
    (hr : h.remain = 0) (hi : h.allowIframe = false) (hf : isFrameState h.state = false) :
    (frameBody h buf past h.state).1.state = 1 := by
  simp only [isFrameState, Bool.or_eq_false_iff, beq_eq_false_iff_ne] at hf
  obtain ⟨⟨⟨⟨⟨⟨⟨⟨⟨⟨h1, h2⟩, h3⟩, h4⟩, h5⟩, h6⟩, h7⟩, h8⟩, h9⟩, h10⟩, h11⟩ := hf
  have ho : isOtherStream h.state = false := by
    simp only [isOtherStream, Bool.or_eq_false_iff, beq_eq_false_iff_ne]
    exact ⟨⟨⟨h8, h7⟩, h3⟩, h9⟩
  unfold frameBody
  rw [if_neg (not_not.mpr hr), if_neg h1, if_neg h2, if_neg (by simp [ho]), if_neg (by simp [h5])]
  split
  · simp only [iframe, hi, Bool.false_eq_true, if_false]
  · rw [if_neg (by simp [h6])]

theorem parseFrame_shape {h : Handle} (hsh : Shape h) (buf : List UInt8) (past : Nat → UInt8) (type : Nat)
    (ht : type = 0 ∨ type = h.state ∧ isFrameState h.state = true) (hb : buf ≠ []) :
    Shape (parseFrame h buf past type).1 := by
  have hstep {g : Handle} (rest : List UInt8) (hi : g.allowIframe = false)
      (hf : isFrameState g.state = true ∨ (frameBody g rest past g.state).1.state = 1) :
      Shape (frameBody g rest past g.state).1 := by
    have hs := frameBody_shape rest past hi
    by_cases h1 : (frameBody g rest past g.state).1.state = 1
    · exact .of_header (by rw [h1]; rfl) hs.allowIframe
    · have heq := hs.state.resolve_left h1
      refine ⟨.inr (by rw [heq]; exact hf.resolve_right h1), ?_, ?_, hs.allowIframe⟩
      · exact fun he => hs.pack h1 (heq ▸ he)
      · exact fun he => hs.other h1 (heq ▸ he)
  rcases ht with rfl | ⟨rfl, hf⟩
  · obtain ⟨b, rest, rfl⟩ := List.exists_cons_of_ne_nil hb
    rw [parseFrame_type]
    refine hstep rest (g := startFrame h b.toNat) hsh.allowIframe ?_
    by_cases hf : isFrameState b.toNat = true
    · exact .inl hf
    · exact .inr (frameBody_unknown rest past rfl hsh.allowIframe (Bool.not_eq_true _ ▸ hf))
  · rw [parseFrame_frame past hf hb]
    exact hstep buf hsh.allowIframe (.inl hf)

theorem scanByte_header (state : Nat) (b : UInt8) : isHeaderState (scanByte state b) = true := by
  unfold scanByte
  split
  · split <;> rfl
  · split <;> rfl
  · split
    · rfl
    · split <;> rfl
  · rfl

theorem addBufferLoop_shape (past : Nat → UInt8) (fuel : Nat) (h : Handle) (buf : List UInt8) (hsh : Shape h) :
    Shape (addBufferLoop past fuel h buf).1 := by
  fun_induction addBufferLoop past fuel h buf with
  | case1 => exact hsh
  | case2 => exact hsh
  | case3 fuel h b rest hs r h' hne =>
    have hr : Shape r.1 := parseFrame_shape hsh _ past 0 (.inl rfl) (by simp)
    exact hr.of_same ⟨rfl, rfl, rfl, rfl, rfl, rfl, rfl, rfl, rfl⟩
  | case4 fuel h b rest hs r h' hne t ih =>
    have hr : Shape r.1 := parseFrame_shape hsh _ past 0 (.inl rfl) (by simp)
    exact ih (hr.of_same ⟨rfl, rfl, rfl, rfl, rfl, rfl, rfl, rfl, rfl⟩)
  | case5 fuel h b rest hs t ih => exact ih (.of_header (scanByte_header ..) hsh.allowIframe)

theorem parserCall_shape {h : Handle} (hsh : Shape h) (buf : List UInt8) (past : Nat → UInt8) :
    Shape (parserCall h buf past).1 := by
  unfold parserCall
  split
  · exact addBufferLoop_shape _ _ _ _ hsh
  · rename_i hh
    by_cases hb : buf = []
    · subst hb
      exact hsh
    · exact parseFrame_shape hsh buf past _ (.inr ⟨rfl, hsh.state.resolve_left hh⟩) hb

/-- Every call keeps the shape of the parser. -/
theorem Call.run_shape {h : Handle} (hsh : Shape h) (c : Call) : Shape (c.run h) := by
  cases c with
  | put buf past =>
    change Shape (demuxPut h buf past).1
    rcases demuxPut_cases h buf past with he | ⟨-, he | ⟨-, he⟩⟩ <;> rw [he]
    · exact hsh
    · exact parserCall_shape hsh buf past
    · exact parserCall_shape (parserCall_shape hsh buf past) _ past
  | get sid max =>
    simp only [Call.run, demuxGet]
    split
    · exact hsh
    · exact hsh.of_same (.setStream ..)
  | write sid max first second => exact hsh.of_same (.setStream ..)
  | jit data => exact hsh.of_same ⟨rfl, rfl, rfl, rfl, rfl, rfl, rfl, rfl, rfl⟩
  | select sid id =>
    simp only [Call.run, demuxSetStream]
    split
    · exact hsh
    · split
      · exact hsh.of_same (.setStream ..)
      · exact hsh
  | seek => exact hsh.of_same ⟨rfl, rfl, rfl, rfl, rfl, rfl, rfl, rfl, rfl⟩
  | flush => exact hsh.of_same ⟨rfl, rfl, rfl, rfl, rfl, rfl, rfl, rfl, rfl⟩

theorem Reachable.shape {allowed : Call → Prop} {size : Nat} {h : Handle} (hr : Reachable allowed size h) :
    Shape h := by
  refine Reach.invariant ?_ ?_ hr
  · rintro _ ⟨junk, rfl⟩
    exact .of_header rfl rfl
  · rintro h c _ hsh ⟨-, rfl⟩
    exact c.run_shape hsh

end Mvpmc.Demux
