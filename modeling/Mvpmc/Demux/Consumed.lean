import Mvpmc.Demux.Parser

/-! What `demux_put` reports. Its early exit for an exhausted buffer forgets the bytes
that `parse_frame` has just taken, so the count is lost exactly when a buffer ends
together with a frame that an earlier call began. -/
namespace Mvpmc.Demux
open Mvpmc.Lib.Circular

/-- The parser has processed the first `n` bytes of `buf`: calls that were shown what
was left of it have consumed `n` bytes in all. -/
inductive Processes (past : Nat → UInt8) : Handle → List UInt8 → Nat → Handle → Prop where
  | done (h : Handle) (buf : List UInt8) : Processes past h buf 0 h
  | call {h : Handle} {buf : List UInt8} {n : Nat} {h' : Handle} :
      Processes past (parserCall h buf past).1 (buf.drop (parserCall h buf past).2) n h' →
      Processes past h buf ((parserCall h buf past).2 + n) h'

/-- The ring takes the whole block. -/
def Handle.takes (h : Handle) (sid : StreamId) (force : Bool) (data : List UInt8) : Prop :=
  (streamAdd h sid data force).2 = data.length

/-- The buffer is all that remains of the frame, and the frame's ring takes it. -/
def continueEnds (h : Handle) (buf : List UInt8) : Prop :=
  match h.frameState with
  | 0 => h.remain = buf.length
  | 1 => h.remain = buf.length ∧ h.takes .audio true buf
  | 2 => h.remain = buf.length ∧ h.takes .video false buf
  | 3 => h.remain = buf.length
  | 4 => h.remain = buf.length
  | _ => buf.length ≤ h.remain

/-- The pack header ends where the code takes it to end, one byte short of its stuffing. -/
def packEnds (h : Handle) (rest : List UInt8) : Prop :=
  if h.buf 0 &&& 0xc0 = 0x40 then 3 ≤ rest.length ∧ rest.length = 2 + (rest.getD 2 0 &&& 7).toNat
  else rest = []

def otherEnds (h : Handle) (rest : List UInt8) : Prop := frameLength h = rest.length

def videoEnds (type : Nat) (h : Handle) (rest : List UInt8) : Prop :=
  type = h.video.attr.current ∧ frameLength h = rest.length ∧
    let h := videoHeaders type 4 h
    Handle.takes { h with video := h.video.countFrame } .video false rest

def audioEnds (type : Nat) (h : Handle) (rest : List UInt8) : Prop :=
  type = h.audio.attr.current ∧ frameLength h = rest.length ∧ (audioHeader h type).2 = true ∧
    let h := (audioHeader h type).1
    let s := h.audio.countFrame
    Handle.takes { h with audio := s.setType (audioType s.attr.type rest) } .audio true rest

def iframeEnds (type : Nat) (h : Handle) (buf : List UInt8) : Prop :=
  h.allowIframe = true ∧ h.takes .video false (startCode type) ∧
    (streamAdd h .video (startCode type) false).1.takes .video false buf

/-- The header is complete and the packet ends with the buffer. -/
def headerEnds (k : Nat) (h : Handle) (buf : List UInt8) (ends : Handle → List UInt8 → Prop) : Prop :=
  (collect h k buf).2.2 = true ∧ ends (collect h k buf).1 (buf.drop (collect h k buf).2.1)

/-- The frame of type `type` ends with the last byte of the buffer. -/
def bodyEnds (h : Handle) (buf : List UInt8) (type : Nat) : Prop :=
  if h.remain ≠ 0 then continueEnds h buf
  else if type = MPEG_program_end_code then False
  else if type = pack_start_code then headerEnds 7 h buf packEnds
  else if isOtherStream type then headerEnds 2 h buf otherEnds
  else if isVideoStream type then headerEnds 2 (h.meet .video type) buf (videoEnds type)
  else if type = 0xb3 ∨ type = 0xb5 ∨ type = 0xb8 ∨ type = 0 then iframeEnds type h buf
  else if isAudioStream type then headerEnds 2 (h.meet .audio type) buf (audioEnds type)
  else False

/-- The handle is in the middle of a frame that ends with the last byte of the buffer. -/
def EndsFrame (h : Handle) (buf : List UInt8) : Prop :=
  isFrameState h.state = true ∧ buf ≠ [] ∧ bodyEnds h buf h.state

private def Ends (r : Handle × Nat) (buf : List UInt8) : Prop := r.1.state = 1 ∧ r.2 = buf.length

private theorem continueFrame_ends (h : Handle) (buf : List UInt8) (hs : h.state ≠ 1) (hb : buf ≠ []) :
    Ends (continueFrame h buf) buf ↔ continueEnds h buf := by
  have hpos := List.length_pos_iff.mpr hb
  have hcount (sid : StreamId) (force : Bool) :
      Ends (consume (streamAdd h sid (buf.take (min h.remain buf.length)) force).1
        (streamAdd h sid (buf.take (min h.remain buf.length)) force).2,
        (streamAdd h sid (buf.take (min h.remain buf.length)) force).2) buf ↔
      h.remain = buf.length ∧ h.takes sid force buf := by
    have hsame := streamAdd_sameFrame h sid (buf.take (min h.remain buf.length)) force
    unfold Ends Handle.takes
    rw [consume_state _ _ (by rw [hsame.state]; exact hs), hsame.remain]
    constructor
    · rintro ⟨h1, h2⟩
      have he : h.remain = buf.length := h1.trans h2
      rw [he, Nat.min_self, List.take_length] at h2
      exact ⟨he, h2⟩
    · rintro ⟨h1, h2⟩
      rw [h1, Nat.min_self, List.take_length]
      exact ⟨h2.symm, h2⟩
  have hplain (g : Handle) (hgs : g.state ≠ 1) (hgr : g.remain = h.remain) :
      Ends (consume g (min h.remain buf.length), min h.remain buf.length) buf ↔ h.remain = buf.length := by
    unfold Ends
    rw [consume_state _ _ hgs, hgr]
    dsimp only
    omega
  unfold continueFrame continueEnds
  dsimp only
  rcases h.frameState with _ | _ | _ | _ | _ | fs
  · exact hplain h hs rfl
  · exact hcount .audio true
  · exact hcount .video false
  · exact hplain h hs rfl
  · have hg := gather_keeps h buf (min h.remain buf.length)
    exact hplain _ (by rw [hg.1]; exact hs) hg.2.1
  · have h1 (g : Handle) (n : Nat) (hg : g.state = 1) : (consume g n).state = 1 := by
      unfold consume
      split
      · rfl
      · exact hg
    refine (and_iff_right (h1 _ _ rfl)).trans ?_
    change min h.remain buf.length = buf.length ↔ buf.length ≤ h.remain
    omega

private theorem withHeader_ends (k : Nat) (h : Handle) (buf : List UInt8)
    {body : Handle → List UInt8 → Handle × Nat} {ends : Handle → List UInt8 → Prop} (hs : h.state ≠ 1)
    (hbody : ∀ g rest, g.state ≠ 1 → (Ends (body g rest) rest ↔ ends g rest)) :
    Ends (withHeader k h buf body) buf ↔ headerEnds k h buf ends := by
  have hk := collect_le h k buf
  unfold withHeader headerEnds
  dsimp only
  split
  · rename_i hd
    rw [← hbody _ _ (show (collect h k buf).1.state ≠ 1 from hs)]
    unfold Ends
    rw [List.length_drop]
    simp only [hd, true_and]
    omega
  · rename_i hd
    simp only [hd, Bool.false_eq_true, false_and, iff_false]
    exact fun he => hs he.1

private theorem packBody_ends (h : Handle) (rest : List UInt8) (hs : h.state ≠ 1) :
    Ends (packBody h rest) rest ↔ packEnds h rest := by
  have hexcl : h.buf 0 &&& 0xf0 = 0x20 → ¬ h.buf 0 &&& 0xc0 = 0x40 := by
    intro h1
    rw [show h.buf 0 &&& 0xc0 = (h.buf 0 &&& 0xf0) &&& 0xc0 by rw [UInt8.and_assoc]; rfl, h1]
    decide
  have hnil : (0 : Nat) = rest.length ↔ rest = [] := by rw [eq_comm, List.length_eq_zero_iff]
  unfold packBody packEnds Ends
  dsimp only
  split
  · rename_i h1
    rw [if_neg (hexcl h1)]
    simpa using hnil
  · split
    · split
      · rename_i h3
        split
        · simp only [true_and, h3]
          omega
        · rename_i hlt
          simp only [hs, false_and, false_iff, not_and]
          omega
      · rename_i h3
        simp [hs, h3]
    · simpa using hnil

private theorem otherBody_ends (past : Nat → UInt8) (type : Nat) (h : Handle) (rest : List UInt8)
    (hs : h.state ≠ 1) : Ends (otherBody past type h rest) rest ↔ otherEnds h rest := by
  unfold otherBody otherEnds Ends
  dsimp only
  split
  · simp
  · rename_i hlt
    constructor
    · rintro ⟨h1, -⟩
      split at h1 <;> exact absurd h1 hs
    · intro he
      omega

private theorem payload_ends (h : Handle) (sid : StreamId) (force : Bool) (rest : List UInt8) (n : Nat)
    (hs : h.state ≠ 1) : Ends (payload h sid force rest n) rest ↔ n = rest.length ∧ h.takes sid force rest := by
  unfold payload Ends Handle.takes
  dsimp only
  split
  · rename_i hle
    have hsame := streamAdd_sameFrame h sid (rest.take n) force
    split
    · rename_i hn
      simp only [true_and]
      constructor
      · intro he
        have hnl : n = rest.length := hn.trans he
        rw [hnl, List.take_length] at he
        exact ⟨hnl, he⟩
      · rintro ⟨he, ht⟩
        omega
    · rename_i hn
      simp only [hsame.state, hs, false_and, false_iff, not_and]
      intro he
      rw [he, List.take_length] at hn
      exact fun ht => hn ht.symm
  · have hsame := streamAdd_sameFrame h sid rest force
    simp only [hsame.state, hs, false_and, false_iff, not_and]
    omega

private theorem videoBody_ends (type : Nat) (h : Handle) (rest : List UInt8) (hs : h.state ≠ 1) :
    Ends (videoBody type h rest) rest ↔ videoEnds type h rest := by
  have hv := videoHeaders_same type 4 h
  unfold videoBody videoEnds
  dsimp only
  split
  · rename_i hne
    simp only [hne, false_and, iff_false]
    exact fun he => hs he.1
  · rename_i he
    rw [payload_ends _ _ _ _ _ (by rw [show _ = _ from hv.state]; exact hs), hv.frameLength]
    simp only [not_not.mp he, true_and]

private theorem audioBody_ends (type : Nat) (h : Handle) (rest : List UInt8) (hs : h.state ≠ 1) :
    Ends (audioBody type h rest) rest ↔ audioEnds type h rest := by
  have ha := audioHeader_same h type
  unfold audioBody audioEnds
  dsimp only
  split
  · rename_i hne
    simp only [hne, false_and, iff_false]
    exact fun he => hs he.1
  · rename_i he
    split
    · rename_i ht
      rw [payload_ends _ _ _ _ _ (by rw [show _ = _ from ha.state]; exact hs), ha.frameLength]
      exact ⟨fun ⟨hl, hk⟩ => ⟨not_not.mp he, hl, ht, hk⟩, fun ⟨_, hl, _, hk⟩ => ⟨hl, hk⟩⟩
    · rename_i hf
      simp only [hf, Bool.false_eq_true, false_and, and_false, iff_false]
      exact fun hend => hs (ha.state.symm.trans hend.1)

private theorem iframe_ends (type : Nat) (h : Handle) (buf : List UInt8) (hb : buf ≠ []) (hs : h.state ≠ 1) :
    Ends (iframe h buf type) buf ↔ iframeEnds type h buf := by
  have hpos := List.length_pos_iff.mpr hb
  have hsame := streamAdd_sameFrame h .video (startCode type) false
  have hsame2 := streamAdd_sameFrame (streamAdd h .video (startCode type) false).1 .video buf false
  unfold iframe iframeEnds Ends Handle.takes
  dsimp only
  split
  · rename_i hi
    split
    · rename_i h4
      simp only [hi, true_and, show (startCode type).length = 4 from rfl, h4, false_and, iff_false]
      omega
    · rename_i h4
      simp only [hi, true_and, show (startCode type).length = 4 from rfl, not_not.mp h4]
      split
      · rename_i he
        simp [he.symm]
      · rename_i hne
        simp only [hsame2.state, hsame.state, hs, false_and, false_iff]
        exact fun he => hne he.symm
  · rename_i hi
    simp only [hi, Bool.false_eq_true, false_and, iff_false]
    omega

/-- `parse_frame` in the middle of a frame ends it with the last byte of the buffer. -/
private theorem frameBody_ends (h : Handle) (buf : List UInt8) (past : Nat → UInt8) (type : Nat)
    (hs : h.state ≠ 1) (hb : buf ≠ []) : Ends (frameBody h buf past type) buf ↔ bodyEnds h buf type := by
  have hpos := List.length_pos_iff.mpr hb
  have hmeet (sid : StreamId) : (h.meet sid type).state ≠ 1 := by
    rw [show (h.meet sid type).state = h.state from (SameFrame.setStream h sid _).state]
    exact hs
  have hzero (g : Handle) : Ends (g, 0) buf ↔ False := by
    simp only [Ends, iff_false, not_and]
    omega
  unfold frameBody bodyEnds
  split
  · exact continueFrame_ends h buf hs hb
  · split
    · exact hzero _
    · split
      · exact withHeader_ends 7 h buf hs packBody_ends
      · split
        · exact withHeader_ends 2 h buf hs (otherBody_ends past type)
        · split
          · exact withHeader_ends 2 _ buf (hmeet .video) (videoBody_ends type)
          · split
            · exact iframe_ends type h buf hb hs
            · split
              · exact withHeader_ends 2 _ buf (hmeet .audio) (audioBody_ends type)
              · exact hzero _

/-- Every run of calls either consumes nothing without a call or starts with the
consumption of its first call. -/
private theorem Processes.zero {past : Nat → UInt8} {h h' : Handle} {buf : List UInt8} {n : Nat}
    (hp : Processes past h buf n h') (hn : n = 0) (hpos : (parserCall h buf past).2 ≠ 0) : h' = h := by
  cases hp with
  | done => rfl
  | call _ => omega

theorem Processes.one (past : Nat → UInt8) (h : Handle) (buf : List UInt8) :
    Processes past h buf (parserCall h buf past).2 (parserCall h buf past).1 :=
  .call (.done _ _)

private theorem parserCall_header {h : Handle} (hh : isHeaderState h.state = true) (buf : List UInt8)
    (past : Nat → UInt8) : parserCall h buf past = addBuffer h buf past := by
  rw [parserCall, if_pos hh]

private theorem parserCall_frame {h : Handle} (hf : isFrameState h.state = true) (buf : List UInt8)
    (past : Nat → UInt8) : parserCall h buf past = parseFrame h buf past h.state := by
  rw [parserCall, not_header_of_frame hf]
  rfl

/-- The value `demux_put` returns is what the parser consumed, unless the buffer ends
exactly with a frame that an earlier call began. There the call returns 0. -/
theorem demuxPut_reports (h : Handle) (buf : List UInt8) (past : Nat → UInt8) :
    (0 ≤ (demuxPut h buf past).2 → (demuxPut h buf past).2 ≤ buf.length ∧
      Processes past h buf (demuxPut h buf past).2.toNat (demuxPut h buf past).1) ↔ ¬ EndsFrame h buf := by
  unfold demuxPut EndsFrame
  by_cases hb : buf = []
  · subst hb
    simp only [List.length_nil, if_true, ne_eq, not_true_eq_false, false_and, and_false, not_false_eq_true,
      iff_true]
    exact fun _ => ⟨le_refl _, .done h []⟩
  rw [if_neg (by simpa using hb)]
  dsimp only
  split
  · -- a header state: one call of `add_buffer`
    rename_i hh
    have hnf : ¬ isFrameState h.state = true := fun hf => by simp [not_header_of_frame hf] at hh
    have hone := Processes.one past h buf
    have hle := parserCall_le h buf past
    rw [parserCall_header hh] at hone hle
    exact iff_of_true (fun _ => ⟨Int.ofNat_le.mpr hle, hone⟩) fun hend => hnf hend.1
  · split
    · rename_i hf
      have hs := frame_ne_one hf
      have hcall := parserCall_frame hf buf past
      have hle := parserCall_le h buf past
      rw [hcall] at hle
      have hends : Ends (parseFrame h buf past h.state) buf ↔ bodyEnds h buf h.state := by
        rw [parseFrame_frame past hf hb]
        exact frameBody_ends h buf past h.state hs hb
      have hone := Processes.one past h buf
      rw [hcall] at hone
      simp only [hf, ne_eq, hb, not_false_eq_true, true_and, ← hends]
      split
      · rename_i h1
        split
        · -- the frame and the buffer end together
          rename_i hnone
          have hall : (parseFrame h buf past h.state).2 = buf.length := by omega
          have hpos := List.length_pos_iff.mpr hb
          refine iff_of_false ?_ (not_not.mpr ⟨h1, hall⟩)
          intro hp
          have he := (hp (le_refl _)).2.zero rfl (by rw [hcall]; omega)
          rw [he] at h1
          exact hs h1
        · -- back to `add_buffer` for the rest
          rename_i hsome
          have hsecond := Processes.one past (parseFrame h buf past h.state).1
            (buf.drop (parseFrame h buf past h.state).2)
          have hrest := parserCall_le (parseFrame h buf past h.state).1
            (buf.drop (parseFrame h buf past h.state).2) past
          rw [parserCall_header (by rw [h1]; rfl)] at hsecond hrest
          rw [List.length_drop] at hrest
          refine iff_of_true (fun _ => ⟨by push_cast; omega, ?_⟩) (fun hend => hsome (by rw [hend.2]; omega))
          rw [← hcall] at hsecond ⊢
          exact .call hsecond
      · rename_i h1
        exact iff_of_true (fun _ => ⟨Int.ofNat_le.mpr hle, hone⟩) fun hend => h1 hend.1
    · rename_i hnf
      simp [hnf]

/-- An audio packet of one byte, cut before that byte: the second call takes the byte
and ends the frame, but returns 0. -/
theorem demuxPut_forgets :
    let h := (demuxPut (demuxInit 100 fun _ => 0) [0, 0, 1, 0xC0, 0, 1] fun _ => 0).1
    isFrameState h.state = true ∧ (demuxPut h [7] fun _ => 0).2 = 0 ∧
      (demuxPut h [7] fun _ => 0).1.audio.contents = [0, 0, 1, 0xC0, 0, 1, 7] ∧
      ¬ (0 ≤ (demuxPut h [7] fun _ => 0).2 → (demuxPut h [7] fun _ => 0).2 ≤ ([7] : List UInt8).length ∧
        Processes (fun _ => 0) h [7] (demuxPut h [7] fun _ => 0).2.toNat (demuxPut h [7] fun _ => 0).1) := by
  intro h
  have hz : (demuxPut h [7] fun _ => 0).2 = 0 := by decide
  refine ⟨by decide, hz, by decide, ?_⟩
  intro hp
  have hproc := (hp (le_of_eq hz.symm)).2
  have he := hproc.zero (by rw [hz]; rfl) (by decide)
  have hstate : (demuxPut h [7] fun _ => 0).1.state = h.state := congrArg Handle.state he
  exact absurd hstate (by decide)

end Mvpmc.Demux
