import Mvpmc.Demux.Reach

/-! A call on the handle as a sequence of `stream_add` calls. Between them the frame
parser changes nothing that the rings work on, so what every `stream_add` keeps holds
after the call. -/
namespace Mvpmc.Demux
open Mvpmc.Lib Mvpmc.Lib.Circular

/-- The two streams agree in everything `stream_add` and the drains work on. -/
structure SameStore (s s' : Stream) : Prop where
  buf : s'.buf = s.buf
  head : s'.head = s.head
  tail : s'.tail = s.tail
  size : s'.size = s.size
  parserTail : s'.parserTail = s.parserTail
  seekingHead : s'.seekingHead = s.seekingHead
  seekingHeadValid : s'.seekingHeadValid = s.seekingHeadValid
  parserCallback : s'.parserCallback = s.parserCallback
  curBytes : s'.attr.stats.curBytes = s.attr.stats.curBytes

theorem SameStore.refl (s : Stream) : SameStore s s := ⟨rfl, rfl, rfl, rfl, rfl, rfl, rfl, rfl, rfl⟩

/-- A change that no ring sees. -/
structure Quiet (h h' : Handle) : Prop where
  audio : SameStore h.audio h'.audio
  video : SameStore h.video h'.video
  seeking : h'.seeking = h.seeking
  bytes : h'.bytes = h.bytes
  size : h'.size = h.size

/-- Only fields outside the rings change. -/
theorem Quiet.of_eq {h h' : Handle} (ha : h'.audio = h.audio) (hv : h'.video = h.video)
    (hs : h'.seeking = h.seeking) (hb : h'.bytes = h.bytes) (hz : h'.size = h.size) : Quiet h h' :=
  ⟨ha ▸ .refl _, hv ▸ .refl _, hs, hb, hz⟩

/-- Audio goes into its ring during a seek as well, video does not. -/
def StreamId.force : StreamId → Bool
  | .audio => true
  | .video => false

/-- A property kept by every `stream_add` of the parser and by every change outside the rings. -/
structure Kept (P : Handle → Prop) : Prop where
  quiet : ∀ {h h' : Handle}, P h → Quiet h h' → P h'
  add : ∀ {h : Handle} (sid : StreamId) (data : List UInt8), P h → P (streamAdd h sid data sid.force).1

/-- A property kept by every `stream_add` of the parser, by every subpicture frame, and by every
change outside the rings and the subpicture streams. -/
structure Carried (P : Handle → Prop) : Prop where
  quiet : ∀ {h h' : Handle}, P h → Quiet h h' → h'.spu = h.spu → h'.spuCurrent = h.spuCurrent → P h'
  add : ∀ {h : Handle} (sid : StreamId) (data : List UInt8), P h → P (streamAdd h sid data sid.force).1
  spu : ∀ {h : Handle} (mem : Nat → UInt8) (len : Nat), P h → P (parseSpuFrame h mem len).1

namespace Stream

theorem setType_same (s : Stream) (type : Nat) : SameStore s (s.setType type) :=
  ⟨rfl, rfl, rfl, rfl, rfl, rfl, rfl, rfl, rfl⟩

theorem register_same (s : Stream) (id : Nat) (type : StreamType) : SameStore s (s.register id type) := by
  unfold register
  split <;> exact ⟨rfl, rfl, rfl, rfl, rfl, rfl, rfl, rfl, rfl⟩

theorem selectFirst_same (s : Stream) (id : Nat) : SameStore s (s.selectFirst id) := by
  unfold selectFirst
  split <;> exact ⟨rfl, rfl, rfl, rfl, rfl, rfl, rfl, rfl, rfl⟩

end Stream

theorem SameStore.trans {s₁ s₂ s₃ : Stream} (h₁₂ : SameStore s₁ s₂) (h₂₃ : SameStore s₂ s₃) : SameStore s₁ s₃ :=
  ⟨h₂₃.buf.trans h₁₂.buf, h₂₃.head.trans h₁₂.head, h₂₃.tail.trans h₁₂.tail, h₂₃.size.trans h₁₂.size,
    h₂₃.parserTail.trans h₁₂.parserTail, h₂₃.seekingHead.trans h₁₂.seekingHead,
    h₂₃.seekingHeadValid.trans h₁₂.seekingHeadValid, h₂₃.parserCallback.trans h₁₂.parserCallback,
    h₂₃.curBytes.trans h₁₂.curBytes⟩

theorem Quiet.setStream {h : Handle} {sid : StreamId} {s : Stream} (hs : SameStore (h.stream sid) s) :
    Quiet h (h.setStream sid s) := by
  cases sid with
  | audio => exact ⟨hs, .refl _, rfl, rfl, rfl⟩
  | video => exact ⟨.refl _, hs, rfl, rfl, rfl⟩

theorem Quiet.meet (h : Handle) (sid : StreamId) (type : Nat) : Quiet h (h.meet sid type) :=
  .setStream ((Stream.register_same ..).trans (Stream.selectFirst_same ..))

namespace Carried
variable {P : Handle → Prop} (hk : Carried P) {h : Handle}
include hk

theorem frame {h' : Handle} (hp : P h) (ha : h'.audio = h.audio) (hv : h'.video = h.video)
    (hs : h'.seeking = h.seeking) (hb : h'.bytes = h.bytes) (hz : h'.size = h.size) (hspu : h'.spu = h.spu)
    (hcur : h'.spuCurrent = h.spuCurrent) : P h' :=
  hk.quiet hp (.of_eq ha hv hs hb hz) hspu hcur

theorem meet (sid : StreamId) (type : Nat) (hp : P h) : P (h.meet sid type) := by
  refine hk.quiet hp (.meet h sid type) ?_ ?_ <;> cases sid <;> rfl

theorem parsePrivateAudio (base mode : Nat) (kind : StreamType) (ac3 : Bool) (mem : Nat → UInt8) (len : Nat)
    (hp : P h) : P (parsePrivateAudio base mode kind ac3 h mem len).1 := by
  unfold Demux.parsePrivateAudio
  dsimp only
  split
  · exact hp
  · have hsame := ((Stream.register_same h.audio (byteAt mem (byteAt mem 2 + 3)) kind).trans
      (Stream.selectFirst_same _ (byteAt mem (byteAt mem 2 + 3)))).trans (Stream.setType_same _ mode)
    have hann := hk.quiet hp (.setStream hsame : Quiet h (h.setStream .audio _)) rfl rfl
    split
    · exact hk.add .audio _ (hk.frame hann rfl rfl rfl rfl rfl rfl rfl)
    · exact hann

theorem parsePrivateStream1 (mem : Nat → UInt8) (len : Nat) (hp : P h) : P (parsePrivateStream1 h mem len) := by
  have hspu := hk.spu mem len hp
  have hac3 := hk.parsePrivateAudio 128 AUDIO_MODE_AC3 .ac3 true mem len hspu
  unfold Demux.parsePrivateStream1
  dsimp only
  split
  · exact hspu
  · split
    · exact hac3
    · exact hk.parsePrivateAudio _ _ _ _ mem len hac3

theorem consume (n : Nat) (hp : P h) : P (consume h n) := by
  rw [consume_frame]
  exact hk.frame hp rfl rfl rfl rfl rfl rfl rfl

theorem gather (buf : List UInt8) (n : Nat) (hp : P h) : P (gather h buf n) := by
  have hstore : P { h with spuBuf := blit h.spuBuf h.spuLen (buf.take n), spuLen := h.spuLen + n } :=
    hk.frame hp rfl rfl rfl rfl rfl rfl rfl
  unfold Demux.gather
  dsimp only
  split
  · exact hk.frame (hk.parsePrivateStream1 _ _ hstore) rfl rfl rfl rfl rfl rfl rfl
  · exact hstore

theorem continueFrame (buf : List UInt8) (hp : P h) : P (continueFrame h buf).1 := by
  unfold Demux.continueFrame
  dsimp only
  split
  · exact hk.consume _ hp
  · exact hk.consume _ (hk.add .audio _ hp)
  · exact hk.consume _ (hk.add .video _ hp)
  · exact hk.consume _ hp
  · exact hk.consume _ (hk.gather buf _ hp)
  · exact hk.consume _ (hk.frame hp rfl rfl rfl rfl rfl rfl rfl)

theorem withHeader (k : Nat) (buf : List UInt8) {body : Handle → List UInt8 → Handle × Nat}
    (hb : ∀ g rest, P g → P (body g rest).1) (hp : P h) : P (withHeader k h buf body).1 := by
  have hc : P (collect h k buf).1 := hk.frame hp rfl rfl rfl rfl rfl rfl rfl
  unfold Demux.withHeader
  dsimp only
  split
  · exact hb _ _ hc
  · exact hc

theorem packBody (rest : List UInt8) (hp : P h) : P (packBody h rest).1 := by
  have htype (g : Handle) (n : Nat) (ha : g.audio = h.audio) (hv : g.video = h.video.setType n)
      (hs : g.seeking = h.seeking) (hb : g.bytes = h.bytes) (hz : g.size = h.size) (hspu : g.spu = h.spu)
      (hcur : g.spuCurrent = h.spuCurrent) : P g :=
    hk.quiet hp ⟨ha ▸ .refl _, hv ▸ Stream.setType_same .., hs, hb, hz⟩ hspu hcur
  unfold Demux.packBody
  dsimp only
  split
  · exact htype _ 1 rfl rfl rfl rfl rfl rfl rfl
  · split
    · split
      · split <;> exact htype _ 2 rfl rfl rfl rfl rfl rfl rfl
      · exact htype _ 2 rfl rfl rfl rfl rfl rfl rfl
    · exact hk.frame hp rfl rfl rfl rfl rfl rfl rfl

theorem otherBody (past : Nat → UInt8) (type : Nat) (rest : List UInt8) (hp : P h) :
    P (otherBody past type h rest).1 := by
  unfold Demux.otherBody
  dsimp only
  split
  · split
    · exact hk.frame (hk.parsePrivateStream1 _ _ hp) rfl rfl rfl rfl rfl rfl rfl
    · exact hk.frame hp rfl rfl rfl rfl rfl rfl rfl
  · split <;> exact hk.frame hp rfl rfl rfl rfl rfl rfl rfl

theorem payload (sid : StreamId) (rest : List UInt8) (n : Nat) (hp : P h) :
    P (payload h sid sid.force rest n).1 := by
  unfold Demux.payload
  dsimp only
  split
  · split <;> exact hk.frame (hk.add sid _ hp) rfl rfl rfl rfl rfl rfl rfl
  · exact hk.frame (hk.add sid _ hp) rfl rfl rfl rfl rfl rfl rfl

theorem videoHeaders (type fuel : Nat) (hp : P h) : P (videoHeaders type fuel h) := by
  have hfirst (g : Handle) (hg : P g) :
      P (if g.headernum % 2 = 0 then streamAdd g .video (startCode type) false else (g, 4)).1 := by
    split
    · exact hk.add .video _ hg
    · exact hg
  have hcount (g : Handle) (hg : P g) : P
      (if g.headernum % 2 = 0 then
        { (if g.headernum % 2 = 0 then streamAdd g .video (startCode type) false else (g, 4)).1 with
          headernum := (if g.headernum % 2 = 0 then streamAdd g .video (startCode type) false
            else (g, 4)).1.headernum + 1 }
      else (if g.headernum % 2 = 0 then streamAdd g .video (startCode type) false else (g, 4)).1) := by
    split
    · exact hk.frame (hk.add .video _ hg) rfl rfl rfl rfl rfl rfl rfl
    · exact hg
  fun_induction Demux.videoHeaders type fuel h with
  | case1 h => exact hp
  | case2 fuel h hc r hr => exact hfirst h hp
  | case3 fuel h hc r hr g hodd r2 hr2 => exact hk.add .video _ (hcount h hp)
  | case4 fuel h hc r hr g hodd r2 hr2 ih =>
    exact ih (hk.frame (hk.add .video (slice g.buf 0 g.bufsz) (hcount h hp)) rfl rfl rfl rfl rfl rfl rfl)
  | case5 fuel h hc r hr g hodd ih => exact ih (hcount h hp)
  | case6 fuel h hc => exact hp

theorem videoBody (type : Nat) (rest : List UInt8) (hp : P h) : P (videoBody type h rest).1 := by
  unfold Demux.videoBody
  dsimp only
  split
  · exact hk.frame hp rfl rfl rfl rfl rfl rfl rfl
  · refine hk.payload .video rest _ (hk.quiet (hk.videoHeaders type 4 hp) ⟨.refl _, ?_, rfl, rfl, rfl⟩ rfl rfl)
    exact ⟨rfl, rfl, rfl, rfl, rfl, rfl, rfl, rfl, rfl⟩

theorem audioPart (num : Nat) (part : List UInt8) (hp : P h) : P (audioPart h num part).1 := by
  unfold Demux.audioPart
  dsimp only
  split
  · split
    · exact hk.add .audio _ hp
    · exact hk.frame (hk.add .audio _ hp) rfl rfl rfl rfl rfl rfl rfl
  · exact hp

theorem audioHeader (type : Nat) (hp : P h) : P (audioHeader h type).1 := by
  unfold Demux.audioHeader
  dsimp only
  split
  · exact hk.audioPart _ _ (hk.audioPart _ _ hp)
  · exact hk.audioPart _ _ hp

theorem audioBody (type : Nat) (rest : List UInt8) (hp : P h) : P (audioBody type h rest).1 := by
  have hh := hk.audioHeader type hp
  unfold Demux.audioBody
  dsimp only
  split
  · exact hk.frame hp rfl rfl rfl rfl rfl rfl rfl
  · split
    · refine hk.payload .audio rest _ (hk.quiet hh ⟨?_, .refl _, rfl, rfl, rfl⟩ rfl rfl)
      exact ⟨rfl, rfl, rfl, rfl, rfl, rfl, rfl, rfl, rfl⟩
    · exact hh

theorem iframe (buf : List UInt8) (type : Nat) (hp : P h) : P (iframe h buf type).1 := by
  unfold Demux.iframe
  dsimp only
  split
  · split
    · exact hk.add .video _ hp
    · split <;> exact hk.frame (hk.add .video _ (hk.add .video _ hp)) rfl rfl rfl rfl rfl rfl rfl
  · exact hk.frame hp rfl rfl rfl rfl rfl rfl rfl

theorem frameBody (buf : List UInt8) (past : Nat → UInt8) (type : Nat) (hp : P h) :
    P (frameBody h buf past type).1 := by
  unfold Demux.frameBody
  split
  · exact hk.continueFrame buf hp
  · split
    · exact hk.frame hp rfl rfl rfl rfl rfl rfl rfl
    · split
      · exact hk.withHeader 7 buf (fun _ _ => hk.packBody _) hp
      · split
        · exact hk.withHeader 2 buf (fun _ _ => hk.otherBody past type _) hp
        · split
          · exact hk.withHeader 2 buf (fun _ _ => hk.videoBody type _) (hk.meet _ _ hp)
          · split
            · exact hk.iframe buf type hp
            · split
              · exact hk.withHeader 2 buf (fun _ _ => hk.audioBody type _) (hk.meet _ _ hp)
              · exact hk.frame hp rfl rfl rfl rfl rfl rfl rfl

theorem parseFrame (buf : List UInt8) (past : Nat → UInt8) (type : Nat) (hp : P h) :
    P (parseFrame h buf past type).1 := by
  unfold Demux.parseFrame
  split
  · exact hp
  · split
    · exact hk.frameBody _ past _ (hk.frame hp rfl rfl rfl rfl rfl rfl rfl)
    · exact hk.frameBody _ past _ hp

variable (hc : ∀ {h : Handle} (n : Nat), P h → P (h.counted n))
include hc

theorem addBufferLoop (past : Nat → UInt8) (fuel : Nat) (buf : List UInt8) (hp : P h) :
    P (addBufferLoop past fuel h buf).1 := by
  fun_induction Demux.addBufferLoop past fuel h buf with
  | case1 => exact hp
  | case2 => exact hp
  | case3 fuel h b rest hs r h' hne => exact hc _ (hk.parseFrame _ past 0 hp)
  | case4 fuel h b rest hs r h' hne t ih => exact ih (hc _ (hk.parseFrame _ past 0 hp))
  | case5 fuel h b rest hs t ih => exact ih (hc _ (hk.frame hp rfl rfl rfl rfl rfl rfl rfl))

theorem parserCall (buf : List UInt8) (past : Nat → UInt8) (hp : P h) : P (parserCall h buf past).1 := by
  unfold Demux.parserCall
  split
  · exact hk.addBufferLoop hc past _ buf hp
  · exact hk.parseFrame buf past _ hp

/-- What `stream_add` keeps, `demux_put` keeps. -/
theorem demuxPut (buf : List UInt8) (past : Nat → UInt8) (hp : P h) : P (demuxPut h buf past).1 := by
  rcases demuxPut_cases h buf past with he | ⟨-, he | ⟨-, he⟩⟩ <;> rw [he]
  · exact hp
  · exact hk.parserCall hc buf past hp
  · exact hk.parserCall hc _ past (hk.parserCall hc buf past hp)

end Carried

/-- What changes outside the rings keep, a subpicture frame keeps. -/
theorem Kept.carried {P : Handle → Prop} (hk : Kept P) : Carried P where
  quiet hp hq _ _ := hk.quiet hp hq
  add := hk.add
  spu mem len hp := by
    rw [parseSpuFrame_only]
    exact hk.quiet hp (.of_eq rfl rfl rfl rfl rfl)

/-- From one handle to another by `stream_add` calls that each meet `C`, and changes that
no ring sees. -/
inductive Steps (C : Handle → StreamId → List UInt8 → Prop) (h : Handle) : Handle → Prop where
  | refl : Steps C h h
  | quiet {g g' : Handle} : Steps C h g → Quiet g g' → Steps C h g'
  | count {g : Handle} (n : Nat) : Steps C h g → Steps C h (g.counted n)
  | add {g : Handle} (sid : StreamId) (data : List UInt8) :
      Steps C h g → C g sid data → Steps C h (streamAdd g sid data sid.force).1

/-- `demux_put` does nothing to the rings but through `stream_add`. -/
theorem demuxPut_steps (h : Handle) (buf : List UInt8) (past : Nat → UInt8) :
    Steps (fun _ _ _ => True) h (demuxPut h buf past).1 := by
  have hk : Kept (Steps (fun _ _ _ => True) h) := ⟨.quiet, fun sid data hs => .add sid data hs trivial⟩
  exact hk.carried.demuxPut .count buf past .refl

/-- What the steps keep. -/
theorem Steps.keep {C : Handle → StreamId → List UInt8 → Prop} {P : Handle → Prop} {h h' : Handle}
    (hquiet : ∀ {g g' : Handle}, P g → Quiet g g' → P g') (hcount : ∀ {g : Handle} (n : Nat), P g → P (g.counted n))
    (hadd : ∀ {g : Handle} (sid : StreamId) (data : List UInt8), P g → C g sid data →
      P (streamAdd g sid data sid.force).1) (hs : Steps C h h') (hp : P h) : P h' := by
  induction hs with
  | refl => exact hp
  | quiet _ hq ih => exact hquiet ih hq
  | count n _ ih => exact hcount n ih
  | add sid data _ hc ih => exact hadd sid data ih hc

/-- All calls on a handle: those of `Call`, and the two resets. -/
inductive AnyCall where
  | base (c : Call)
  | reset
  | attrReset

def AnyCall.run (h : Handle) : AnyCall → Handle
  | base c => c.run h
  | reset => demuxReset h
  | attrReset => demuxAttrReset h

/-- The handles reached from `demux_init` by calls of which each meets `ok` in the state it is made in. -/
def Attained (ok : Handle → AnyCall → Prop) (size : Nat) : Handle → Prop :=
  Reach (fun h => ∃ junk, h = demuxInit size junk) fun h c h' => ok h c ∧ h' = c.run h

theorem Attained.shape {ok : Handle → AnyCall → Prop} {size : Nat} {h : Handle} (ha : Attained ok size h) :
    Shape h := by
  refine Reach.invariant ?_ ?_ ha
  · rintro _ ⟨junk, rfl⟩
    exact .of_header rfl rfl
  · rintro h c _ hsh ⟨-, rfl⟩
    cases c with
    | base c => exact c.run_shape hsh
    | reset => exact hsh.of_same ⟨rfl, rfl, rfl, rfl, rfl, rfl, rfl, rfl, rfl⟩
    | attrReset => exact hsh.of_same ⟨rfl, rfl, rfl, rfl, rfl, rfl, rfl, rfl, rfl⟩

end Mvpmc.Demux
