import Mvpmc.Demux.Steps
import Mvpmc.Lib.Roster

/-! The tables of stream ids (`stream_attr_t.ids`) against the streams that the packets name. -/
namespace Mvpmc.Demux
open Mvpmc.Lib Mvpmc.Lib.Circular

/-- A packet names the stream of a ring that it belongs to. -/
structure Announcement where
  ring : StreamId
  info : StreamInfo
  deriving DecidableEq

/-- The ids of each ring and their types come from disjoint ranges. -/
def Announcement.Proper (a : Announcement) : Prop :=
  match a.ring, a.info.type with
  | .video, .mpeg => isVideoStream a.info.id = true
  | .video, _ => False
  | .audio, .mpeg => isAudioStream a.info.id = true
  | .audio, .ac3 => 128 ≤ a.info.id ∧ a.info.id < 160
  | .audio, .pcm => 160 ≤ a.info.id ∧ a.info.id < 192

/-- The audio streams that a private packet can name by its substream number. -/
def substream (sub : Nat) : List Announcement :=
  if 128 ≤ sub ∧ sub < 160 then [⟨.audio, ⟨sub, .ac3⟩⟩]
  else if 160 ≤ sub ∧ sub < 192 then [⟨.audio, ⟨sub, .pcm⟩⟩]
  else []

/-- The substream number behind the header of a private packet. -/
def substreamId (mem : Nat → UInt8) : Nat := byteAt mem (byteAt mem 2 + 3)

/-- What `parse_frame` finds in the frame it is in. -/
def frameAnnounces (h : Handle) (buf : List UInt8) (past : Nat → UInt8) (type : Nat) : List Announcement :=
  if h.remain ≠ 0 then
    let n := min h.remain buf.length
    if h.frameState = 4 ∧ h.remain = n then substream (substreamId (blit h.spuBuf h.spuLen (buf.take n))) else []
  else if type = private_stream_1 then
    let c := collect h 2 buf
    let rest := buf.drop c.2.1
    if c.2.2 ∧ frameLength c.1 ≤ rest.length then substream (substreamId (memory rest past)) else []
  else if isVideoStream type then [⟨.video, ⟨type, .mpeg⟩⟩]
  else if isAudioStream type then [⟨.audio, ⟨type, .mpeg⟩⟩]
  else []

def parseFrameAnnounces (h : Handle) (buf : List UInt8) (past : Nat → UInt8) (type : Nat) : List Announcement :=
  match buf with
  | [] => []
  | b :: rest =>
    if type = 0 then frameAnnounces (startFrame h b.toNat) rest past b.toNat
    else frameAnnounces h buf past type

def addBufferAnnounces (past : Nat → UInt8) : Nat → Handle → List UInt8 → List Announcement
  | 0, _, _ => []
  | _, _, [] => []
  | fuel + 1, h, b :: rest =>
    if h.state = 4 then
      let r := parseFrame h (b :: rest) past 0
      let h' := r.1.counted (r.2 + 1)
      parseFrameAnnounces h (b :: rest) past 0 ++
        if h'.state ≠ 1 then [] else addBufferAnnounces past fuel h' ((b :: rest).drop r.2)
    else addBufferAnnounces past fuel (Handle.counted { h with state := scanByte h.state b } 1) rest

/-- The packets that `demux_put` reads to the point where their stream is known, in their order. -/
def putAnnounces (h : Handle) (buf : List UInt8) (past : Nat → UInt8) : List Announcement :=
  if buf.length = 0 then []
  else if isHeaderState h.state then addBufferAnnounces past buf.length h buf
  else if isFrameState h.state then
    let r := parseFrame h buf past h.state
    parseFrameAnnounces h buf past h.state ++
      if r.1.state = 1 then addBufferAnnounces past (buf.length - r.2) r.1 (buf.drop r.2) else []
  else []

/-- The streams that were named for one ring. -/
def namedOn (ring : StreamId) (as : List Announcement) : List StreamInfo :=
  (as.filter (·.ring = ring)).map (·.info)

/-- No table has changed. -/
structure SameIds (h h' : Handle) : Prop where
  audio : h'.audio.attr.ids = h.audio.attr.ids
  video : h'.video.attr.ids = h.video.attr.ids

/-- The tables of both rings have taken in what was named, and nothing else. -/
structure Enrolled (h : Handle) (as : List Announcement) (h' : Handle) : Prop where
  ids : ∀ sid, (h'.stream sid).attr.ids = Roster.enterAll (·.id) (h.stream sid).attr.ids (namedOn sid as)

theorem Stream.register_ids (s : Stream) (id : Nat) (type : StreamType) :
    (s.register id type).attr.ids = Roster.enter (·.id) s.attr.ids ⟨id, type⟩ := by
  unfold Stream.register Roster.enter
  split <;> rfl

namespace SameIds
variable {h h₁ h₂ : Handle}

theorem refl (h : Handle) : SameIds h h := ⟨rfl, rfl⟩

theorem trans (h₁₂ : SameIds h h₁) (h₂₃ : SameIds h₁ h₂) : SameIds h h₂ :=
  ⟨h₂₃.audio.trans h₁₂.audio, h₂₃.video.trans h₁₂.video⟩

/-- A change of other fields goes before. -/
theorem after (hs : SameIds h₁ h₂) (ha : h₁.audio.attr.ids = h.audio.attr.ids)
    (hv : h₁.video.attr.ids = h.video.attr.ids) : SameIds h h₂ :=
  SameIds.trans ⟨ha, hv⟩ hs

theorem stream (hs : SameIds h h₁) (sid : StreamId) : (h₁.stream sid).attr.ids = (h.stream sid).attr.ids := by
  cases sid
  · exact hs.audio
  · exact hs.video

theorem setStream {sid : StreamId} {s : Stream} (hs : s.attr.ids = (h.stream sid).attr.ids) :
    SameIds h (h.setStream sid s) := by
  cases sid
  · exact ⟨hs, rfl⟩
  · exact ⟨rfl, hs⟩

end SameIds

namespace Enrolled
variable {h h₁ h₂ : Handle} {as bs : List Announcement}

theorem of_same (hs : SameIds h h₁) : Enrolled h [] h₁ := ⟨hs.stream⟩

theorem trans (h₁₂ : Enrolled h as h₁) (h₂₃ : Enrolled h₁ bs h₂) : Enrolled h (as ++ bs) h₂ := by
  refine ⟨fun sid => ?_⟩
  have happ : namedOn sid (as ++ bs) = namedOn sid as ++ namedOn sid bs := by
    rw [namedOn, List.filter_append, List.map_append]
    rfl
  rw [h₂₃.ids sid, h₁₂.ids sid, happ, Roster.enterAll_append]

theorem thenSame (he : Enrolled h as h₁) (hs : SameIds h₁ h₂) : Enrolled h as h₂ :=
  ⟨fun sid => (hs.stream sid).trans (he.ids sid)⟩

theorem ofFrame (he : Enrolled h₁ as h₂) (hs : SameIds h h₁) : Enrolled h as h₂ :=
  ⟨fun sid => by rw [he.ids sid, hs.stream sid]⟩

/-- One stream is registered, whatever is done to its ring besides. -/
theorem register {sid : StreamId} {info : StreamInfo} {s : Stream}
    (hs : s.attr.ids = ((h.stream sid).register info.id info.type).attr.ids) :
    Enrolled h [⟨sid, info⟩] (h.setStream sid s) := by
  refine ⟨fun ring => ?_⟩
  rw [Stream.register_ids] at hs
  cases sid <;> cases ring <;> first | exact hs | rfl

end Enrolled

theorem Stream.selectFirst_ids (s : Stream) (id : Nat) : (s.selectFirst id).attr.ids = s.attr.ids := by
  unfold Stream.selectFirst
  split <;> rfl

theorem meet_enrolled (h : Handle) (sid : StreamId) (type : Nat) :
    Enrolled h [⟨sid, ⟨type, .mpeg⟩⟩] (h.meet sid type) :=
  .register (Stream.selectFirst_ids ..)

theorem runParser_ids (h : Handle) (w : Bool) (stop : Nat) : SameIds h (runParser h w stop) := by
  obtain ⟨hv, hr, -⟩ := runParser_only h w stop
  exact ⟨congrArg (·.attr.ids) hv.audio, hr.ids⟩

/-- `stream_add` registers nothing. -/
theorem streamAdd_ids (h : Handle) (sid : StreamId) (data : List UInt8) (force : Bool) :
    SameIds h (streamAdd h sid data force).1 := by
  have hhide := ((h.stream sid).hide_same (h.seeking && !force)).1.ids
  have hadv (head : Nat) := (Stream.advance_same ((h.stream sid).hide (h.seeking && !force))
    (h.seeking && !force) head data).1.ids
  unfold streamAdd
  dsimp only
  split
  · exact .refl h
  · split
    · exact .refl h
    · split
      · exact .setStream (s := ((h.stream sid).hide (h.seeking && !force)).countFull) hhide
      · refine SameIds.trans ?_ (.setStream (Stream.filled_same ..).1.ids)
        split
        · exact SameIds.trans (.setStream ((hadv _).trans hhide)) (runParser_ids ..)
        · exact .setStream ((hadv _).trans hhide)

/-- The parser of one kind of private audio registers the substream numbers of its range. -/
theorem parsePrivateAudio_enrolled {base : Nat} (mode : Nat) (kind : StreamType) (ac3 : Bool) (h : Handle)
    {mem : Nat → UInt8} (len : Nat) (hr : base ≤ substreamId mem ∧ substreamId mem < base + 32) :
    0 ≤ (parsePrivateAudio base mode kind ac3 h mem len).2 ∧
      Enrolled h [⟨.audio, ⟨substreamId mem, kind⟩⟩] (parsePrivateAudio base mode kind ac3 h mem len).1 := by
  have hann : Enrolled h [⟨.audio, ⟨substreamId mem, kind⟩⟩]
      (h.setStream .audio (h.audio.announce (substreamId mem) mode kind)) :=
    .register (Stream.selectFirst_ids ..)
  unfold substreamId at hr hann ⊢
  have hid : ¬ 31 < u32 ((byteAt mem (byteAt mem 2 + 3) : Int) - base) := by
    unfold u32
    omega
  unfold parsePrivateAudio
  dsimp only
  rw [if_neg hid]
  split
  · refine ⟨by dsimp only; omega, hann.thenSame ?_⟩
    exact (streamAdd_ids ..).after rfl rfl
  · exact ⟨Int.natCast_nonneg len, hann⟩

/-- It refuses all others. -/
theorem parsePrivateAudio_refused {base : Nat} (mode : Nat) (kind : StreamType) (ac3 : Bool) (h : Handle)
    {mem : Nat → UInt8} (len : Nat) (hb : base ≤ 256) (hr : ¬ (base ≤ substreamId mem ∧ substreamId mem < base + 32)) :
    parsePrivateAudio base mode kind ac3 h mem len = (h, -1) := by
  have hlt : byteAt mem (byteAt mem 2 + 3) < 256 := (mem _).toNat_lt
  unfold substreamId at hr
  unfold parsePrivateAudio
  refine if_pos ?_
  unfold u32
  omega

/-- A subpicture packet has a substream number of its own range. -/
theorem parseSpuFrame_done {h : Handle} {mem : Nat → UInt8} {len : Nat} (hdone : (parseSpuFrame h mem len).2 = 0) :
    substream (substreamId mem) = [] := by
  have hlt : substreamId mem < 256 := (mem _).toNat_lt
  have hid : ¬ 31 < u32 ((substreamId mem : Int) - 32) := by
    intro hid
    have hout : (parseSpuFrame h mem len).2 = -1 := by
      unfold parseSpuFrame
      exact congrArg Prod.snd (if_pos hid)
    omega
  unfold u32 at hid
  rw [substream, if_neg (by omega), if_neg (by omega)]

theorem parsePrivateStream1_enrolled (h : Handle) (mem : Nat → UInt8) (len : Nat) :
    Enrolled h (substream (substreamId mem)) (parsePrivateStream1 h mem len) := by
  have hspu : SameIds h (parseSpuFrame h mem len).1 := by
    rw [parseSpuFrame_only]
    exact ⟨rfl, rfl⟩
  unfold parsePrivateStream1
  dsimp only
  split
  · rename_i hdone
    rw [parseSpuFrame_done hdone]
    exact .of_same hspu
  · by_cases hac3 : 128 ≤ substreamId mem ∧ substreamId mem < 128 + 32
    · obtain ⟨hok, he⟩ := parsePrivateAudio_enrolled AUDIO_MODE_AC3 .ac3 true (parseSpuFrame h mem len).1 len hac3
      rw [substream, if_pos hac3, parseAc3Frame, if_pos hok]
      exact he.ofFrame hspu
    · have hno : ¬ (0 : Int) ≤ -1 := by decide
      rw [substream, if_neg hac3, parseAc3Frame, parsePrivateAudio_refused _ _ _ _ _ (by decide) hac3, if_neg hno,
        parsePcmFrame]
      by_cases hpcm : 160 ≤ substreamId mem ∧ substreamId mem < 160 + 32
      · rw [if_pos hpcm]
        exact (parsePrivateAudio_enrolled AUDIO_MODE_PCM .pcm false (parseSpuFrame h mem len).1 len hpcm).2.ofFrame
          hspu
      · rw [if_neg hpcm, parsePrivateAudio_refused _ _ _ _ _ (by decide) hpcm]
        exact .of_same hspu

theorem consume_ids (h : Handle) (n : Nat) : SameIds h (consume h n) := by
  rw [consume_frame]
  exact ⟨rfl, rfl⟩

theorem payload_ids (h : Handle) (sid : StreamId) (force : Bool) (rest : List UInt8) (n : Nat) :
    SameIds h (payload h sid force rest n).1 := by
  unfold payload
  dsimp only
  split
  · split <;> exact (streamAdd_ids ..).trans ⟨rfl, rfl⟩
  · exact (streamAdd_ids ..).trans ⟨rfl, rfl⟩

theorem videoHeaders_ids (type fuel : Nat) (h : Handle) : SameIds h (videoHeaders type fuel h) := by
  have hfirst (g : Handle) : SameIds g
      (if g.headernum % 2 = 0 then streamAdd g .video (startCode type) false else (g, 4)).1 := by
    split
    · exact streamAdd_ids ..
    · exact .refl g
  have hcount (g : Handle) : SameIds g
      (if g.headernum % 2 = 0 then
        { (if g.headernum % 2 = 0 then streamAdd g .video (startCode type) false else (g, 4)).1 with
          headernum := (if g.headernum % 2 = 0 then streamAdd g .video (startCode type) false
            else (g, 4)).1.headernum + 1 }
      else (if g.headernum % 2 = 0 then streamAdd g .video (startCode type) false else (g, 4)).1) := by
    split
    · exact (streamAdd_ids ..).trans ⟨rfl, rfl⟩
    · exact .refl g
  fun_induction videoHeaders type fuel h with
  | case1 h => exact .refl h
  | case2 fuel h hc r hr => exact hfirst h
  | case3 fuel h hc r hr g hodd r2 hr2 => exact (hcount h).trans (streamAdd_ids ..)
  | case4 fuel h hc r hr g hodd r2 hr2 ih =>
    exact ((hcount h).trans (streamAdd_ids g .video (slice g.buf 0 g.bufsz) false)).trans
      (ih.after rfl rfl)
  | case5 fuel h hc r hr g hodd ih => exact (hcount h).trans ih
  | case6 fuel h hc => exact .refl h

theorem videoBody_ids (type : Nat) (h : Handle) (rest : List UInt8) : SameIds h (videoBody type h rest).1 := by
  unfold videoBody
  dsimp only
  split
  · exact ⟨rfl, rfl⟩
  · exact (videoHeaders_ids type 4 h).trans ((payload_ids ..).after rfl rfl)

theorem audioPart_ids (h : Handle) (num : Nat) (part : List UInt8) : SameIds h (audioPart h num part).1 := by
  unfold audioPart
  dsimp only
  split
  · split
    · exact streamAdd_ids ..
    · exact (streamAdd_ids ..).trans ⟨rfl, rfl⟩
  · exact .refl h

theorem audioHeader_ids (h : Handle) (type : Nat) : SameIds h (audioHeader h type).1 := by
  unfold audioHeader
  dsimp only
  split
  · exact (audioPart_ids ..).trans (audioPart_ids ..)
  · exact audioPart_ids ..

theorem audioBody_ids (type : Nat) (h : Handle) (rest : List UInt8) : SameIds h (audioBody type h rest).1 := by
  unfold audioBody
  dsimp only
  split
  · exact ⟨rfl, rfl⟩
  · split
    · exact (audioHeader_ids h type).trans ((payload_ids ..).after rfl rfl)
    · exact audioHeader_ids h type

theorem iframe_ids (h : Handle) (buf : List UInt8) (type : Nat) : SameIds h (iframe h buf type).1 := by
  unfold iframe
  dsimp only
  split
  · split
    · exact streamAdd_ids ..
    · split <;> exact ((streamAdd_ids ..).trans (streamAdd_ids ..)).trans ⟨rfl, rfl⟩
  · exact ⟨rfl, rfl⟩

theorem packBody_ids (h : Handle) (rest : List UInt8) : SameIds h (packBody h rest).1 := by
  unfold packBody
  dsimp only
  split
  · exact ⟨rfl, rfl⟩
  · split
    · split
      · split <;> exact ⟨rfl, rfl⟩
      · exact ⟨rfl, rfl⟩
    · exact ⟨rfl, rfl⟩

/-- A header is collected without a look at the tables. -/
theorem withHeader_ids {k : Nat} {h : Handle} {buf : List UInt8} {body : Handle → List UInt8 → Handle × Nat}
    (hb : ∀ g rest, SameIds g (body g rest).1) : SameIds h (withHeader k h buf body).1 := by
  unfold withHeader
  dsimp only
  split
  · exact (hb ..).after rfl rfl
  · exact ⟨rfl, rfl⟩

theorem gather_enrolled (h : Handle) (buf : List UInt8) (n : Nat) :
    Enrolled h (if h.remain = n then substream (substreamId (blit h.spuBuf h.spuLen (buf.take n))) else [])
      (gather h buf n) := by
  have hp := parsePrivateStream1_enrolled
    { h with spuBuf := blit h.spuBuf h.spuLen (buf.take n), spuLen := h.spuLen + n }
    (blit h.spuBuf h.spuLen (buf.take n)) (h.spuLen + n)
  have hold : Enrolled h (substream (substreamId (blit h.spuBuf h.spuLen (buf.take n)))) _ :=
    hp.ofFrame ⟨rfl, rfl⟩
  unfold gather
  dsimp only
  split
  · exact hold.thenSame ⟨rfl, rfl⟩
  · exact .of_same ⟨rfl, rfl⟩

theorem continueFrame_enrolled (h : Handle) (buf : List UInt8) :
    Enrolled h (if h.frameState = 4 ∧ h.remain = min h.remain buf.length then
      substream (substreamId (blit h.spuBuf h.spuLen (buf.take (min h.remain buf.length)))) else [])
      (continueFrame h buf).1 := by
  by_cases h4 : h.frameState = 4
  · have hg := gather_enrolled h buf (min h.remain buf.length)
    unfold continueFrame
    simp only [h4, true_and]
    exact hg.thenSame (consume_ids ..)
  · rw [if_neg fun hb => h4 hb.1]
    refine .of_same ?_
    unfold continueFrame
    dsimp only
    split
    · exact consume_ids ..
    · exact (streamAdd_ids ..).trans (consume_ids ..)
    · exact (streamAdd_ids ..).trans (consume_ids ..)
    · exact consume_ids ..
    · contradiction
    · exact (consume_ids ..).after rfl rfl

theorem otherStream_enrolled (h : Handle) (buf : List UInt8) (past : Nat → UInt8) (type : Nat) :
    Enrolled h (if type = private_stream_1 ∧ (collect h 2 buf).2.2 = true ∧
        frameLength (collect h 2 buf).1 ≤ (buf.drop (collect h 2 buf).2.1).length then
      substream (substreamId (memory (buf.drop (collect h 2 buf).2.1) past)) else [])
      (otherStream h buf past type).1 := by
  unfold otherStream withHeader
  dsimp only
  by_cases hdone : (collect h 2 buf).2.2 = true
  · rw [if_pos hdone]
    unfold otherBody
    dsimp only
    by_cases hlen : frameLength (collect h 2 buf).1 ≤ (buf.drop (collect h 2 buf).2.1).length
    · rw [if_pos hlen]
      by_cases htype : type = private_stream_1
      · rw [if_pos htype, if_pos ⟨htype, hdone, hlen⟩]
        have hp : Enrolled h (substream (substreamId (memory (buf.drop (collect h 2 buf).2.1) past))) _ :=
          (parsePrivateStream1_enrolled (collect h 2 buf).1 (memory (buf.drop (collect h 2 buf).2.1) past)
            (frameLength (collect h 2 buf).1)).ofFrame ⟨rfl, rfl⟩
        exact hp.thenSame ⟨rfl, rfl⟩
      · rw [if_neg htype, if_neg fun hb => htype hb.1]
        exact .of_same ⟨rfl, rfl⟩
    · rw [if_neg hlen, if_neg fun hb => hlen hb.2.2]
      split <;> exact .of_same ⟨rfl, rfl⟩
  · rw [if_neg hdone, if_neg fun hb => hdone hb.2.1]
    exact .of_same ⟨rfl, rfl⟩

theorem not_av_of_other {type : Nat} (ho : isOtherStream type = true) :
    ¬ isVideoStream type = true ∧ ¬ isAudioStream type = true := by
  simp only [isOtherStream, isVideoStream, isAudioStream, private_stream_1, private_stream_2,
    system_header_start_code, padding_stream, Bool.or_eq_true, Bool.and_eq_true, beq_iff_eq,
    decide_eq_true_eq] at *
  omega

theorem frameBody_enrolled (h : Handle) (buf : List UInt8) (past : Nat → UInt8) (type : Nat) :
    Enrolled h (frameAnnounces h buf past type) (frameBody h buf past type).1 := by
  unfold frameAnnounces
  by_cases hr : h.remain ≠ 0
  · rw [if_pos hr, frameBody, if_pos hr]
    exact continueFrame_enrolled h buf
  have hr0 : h.remain = 0 := not_not.mp hr
  rw [if_neg hr]
  dsimp only
  by_cases ho : isOtherStream type = true
  · rw [frameBody_other buf past hr0 ho]
    have he := otherStream_enrolled h buf past type
    by_cases hp : type = private_stream_1
    · simp only [hp, true_and, if_true] at he ⊢
      exact he
    · obtain ⟨hv, ha⟩ := not_av_of_other ho
      rw [if_neg hp, if_neg hv, if_neg ha]
      rwa [if_neg fun hb => hp hb.1] at he
  have hp : type ≠ private_stream_1 := by
    rintro rfl
    exact ho rfl
  rw [if_neg hp]
  by_cases hv : isVideoStream type = true
  · rw [if_pos hv, frameBody_av buf past .video hr0 hv]
    exact (meet_enrolled h .video type).thenSame (withHeader_ids fun g rest => videoBody_ids type g rest)
  rw [if_neg hv]
  by_cases ha : isAudioStream type = true
  · rw [if_pos ha, frameBody_av buf past .audio hr0 ha]
    exact (meet_enrolled h .audio type).thenSame (withHeader_ids fun g rest => audioBody_ids type g rest)
  rw [if_neg ha, frameBody, if_neg hr, if_neg ho, if_neg hv, if_neg ha]
  refine .of_same ?_
  split
  · exact ⟨rfl, rfl⟩
  · split
    · exact withHeader_ids fun g rest => packBody_ids g rest
    · split
      · exact iframe_ids ..
      · exact ⟨rfl, rfl⟩

theorem parseFrame_enrolled (h : Handle) (buf : List UInt8) (past : Nat → UInt8) (type : Nat) :
    Enrolled h (parseFrameAnnounces h buf past type) (parseFrame h buf past type).1 := by
  unfold parseFrameAnnounces parseFrame
  split
  · exact .of_same (.refl h)
  · split
    · exact (frameBody_enrolled ..).ofFrame ⟨rfl, rfl⟩
    · exact frameBody_enrolled ..

theorem addBufferLoop_enrolled (past : Nat → UInt8) (fuel : Nat) (h : Handle) (buf : List UInt8) :
    Enrolled h (addBufferAnnounces past fuel h buf) (addBufferLoop past fuel h buf).1 := by
  fun_induction addBufferLoop past fuel h buf with
  | case1 => exact .of_same (.refl _)
  | case2 fuel h => cases fuel <;> exact .of_same (.refl h)
  | case3 fuel h b rest hs r h' hne =>
    rw [addBufferAnnounces, if_pos hs]
    dsimp only
    rw [if_pos hne, List.append_nil]
    exact (parseFrame_enrolled h (b :: rest) past 0).thenSame ⟨rfl, rfl⟩
  | case4 fuel h b rest hs r h' hne t ih =>
    rw [addBufferAnnounces, if_pos hs]
    dsimp only
    rw [if_neg hne]
    have hf : Enrolled h (parseFrameAnnounces h (b :: rest) past 0) h' :=
      (parseFrame_enrolled h (b :: rest) past 0).thenSame ⟨rfl, rfl⟩
    exact hf.trans ih
  | case5 fuel h b rest hs t ih =>
    rw [addBufferAnnounces, if_neg hs]
    exact ih.ofFrame ⟨rfl, rfl⟩

/-- After `demux_put` the tables know the streams that its packets named besides the old ones. -/
theorem demuxPut_enrolled (h : Handle) (buf : List UInt8) (past : Nat → UInt8) :
    Enrolled h (putAnnounces h buf past) (demuxPut h buf past).1 := by
  unfold putAnnounces demuxPut
  split
  · exact .of_same (.refl h)
  · split
    · exact addBufferLoop_enrolled ..
    · split
      · dsimp only
        have hf := parseFrame_enrolled h buf past h.state
        split
        · split
          · rename_i h0
            rw [h0]
            refine hf.trans ?_
            exact .of_same (.refl _)
          · refine hf.trans ?_
            rw [addBuffer, List.length_drop]
            exact addBufferLoop_enrolled ..
        · exact hf.trans (.of_same (.refl _))
      · exact .of_same (.refl h)

theorem substream_proper (sub : Nat) : ∀ a ∈ substream sub, a.Proper := by
  unfold substream
  split
  · rename_i hr
    exact List.forall_mem_singleton.mpr hr
  · split
    · rename_i hr
      exact List.forall_mem_singleton.mpr hr
    · exact List.forall_mem_nil _

theorem frameAnnounces_proper (h : Handle) (buf : List UInt8) (past : Nat → UInt8) (type : Nat) :
    ∀ a ∈ frameAnnounces h buf past type, a.Proper := by
  unfold frameAnnounces
  dsimp only
  split
  · split
    · exact substream_proper _
    · exact List.forall_mem_nil _
  · split
    · split
      · exact substream_proper _
      · exact List.forall_mem_nil _
    · split
      · rename_i hv
        exact List.forall_mem_singleton.mpr hv
      · split
        · rename_i ha
          exact List.forall_mem_singleton.mpr ha
        · exact List.forall_mem_nil _

theorem parseFrameAnnounces_proper (h : Handle) (buf : List UInt8) (past : Nat → UInt8) (type : Nat) :
    ∀ a ∈ parseFrameAnnounces h buf past type, a.Proper := by
  unfold parseFrameAnnounces
  split
  · exact List.forall_mem_nil _
  · split
    · exact frameAnnounces_proper _ _ _ _
    · exact frameAnnounces_proper _ _ _ _

theorem addBufferAnnounces_proper (past : Nat → UInt8) (fuel : Nat) (h : Handle) (buf : List UInt8) :
    ∀ a ∈ addBufferAnnounces past fuel h buf, a.Proper := by
  fun_induction addBufferAnnounces past fuel h buf with
  | case1 => exact List.forall_mem_nil _
  | case2 => exact List.forall_mem_nil _
  | case3 fuel h b rest hs r h' ih =>
    refine List.forall_mem_append.mpr ⟨parseFrameAnnounces_proper _ _ _ _, ?_⟩
    split
    · exact List.forall_mem_nil _
    · exact ih
  | case4 fuel h b rest hs ih => exact ih

/-- Every packet names an id of its kind. -/
theorem putAnnounces_proper (h : Handle) (buf : List UInt8) (past : Nat → UInt8) :
    ∀ a ∈ putAnnounces h buf past, a.Proper := by
  unfold putAnnounces
  dsimp only
  split
  · exact List.forall_mem_nil _
  · split
    · exact addBufferAnnounces_proper _ _ _ _
    · split
      · refine List.forall_mem_append.mpr ⟨parseFrameAnnounces_proper _ _ _ _, ?_⟩
        split
        · exact addBufferAnnounces_proper _ _ _ _
        · exact List.forall_mem_nil _
      · exact List.forall_mem_nil _

end Mvpmc.Demux
