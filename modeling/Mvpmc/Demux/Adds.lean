import Mvpmc.Demux.ProgramStream
import Mvpmc.Demux.Progress

/-! What the parts of the parser add to the audio ring. -/
namespace Mvpmc.Demux.ProgramStream
open Mvpmc.Lib Mvpmc.Lib.Transducer Mvpmc.Lib.Circular

/-- The rings are set up, and the audio ring has room for the longest packet. -/
structure Ready (h : Handle) : Prop where
  ok : h.audio.Ok
  size : 65542 < h.audio.size
  audio : h.audio.parserCallback = false
  video : h.video.parserCallback = true
  allowIframe : h.allowIframe = false

/-- From `h` to `h'` the audio ring got the bytes `w`, and the choice of streams stays. -/
structure Adds (h h' : Handle) (w : List UInt8) : Prop where
  ready : Ready h'
  contents : h'.audio.contents = h.audio.contents ++ w
  audio : h'.audio.attr.current = h.audio.attr.current
  video : h'.video.attr.current = h.video.attr.current

theorem Adds.refl {h : Handle} (hr : Ready h) : Adds h h [] := ⟨hr, by simp, rfl, rfl⟩

theorem Adds.trans {h₁ h₂ h₃ : Handle} {w₁ w₂ : List UInt8} (h₁₂ : Adds h₁ h₂ w₁) (h₂₃ : Adds h₂ h₃ w₂) :
    Adds h₁ h₃ (w₁ ++ w₂) :=
  ⟨h₂₃.ready, by rw [h₂₃.contents, h₁₂.contents, List.append_assoc], h₂₃.audio.trans h₁₂.audio,
    h₂₃.video.trans h₁₂.video⟩

theorem Adds.stream_current {h h' : Handle} {w : List UInt8} (ha : Adds h h' w) (sid : StreamId) :
    (h'.stream sid).attr.current = (h.stream sid).attr.current := by
  cases sid with
  | audio => exact ha.audio
  | video => exact ha.video

/-- The two streams look the same to the parser. -/
structure SameData (s s' : Stream) : Prop where
  buf : s'.buf = s.buf
  head : s'.head = s.head
  tail : s'.tail = s.tail
  size : s'.size = s.size
  parserCallback : s'.parserCallback = s.parserCallback

theorem SameData.ok {s s' : Stream} (hs : SameData s s') (h : s.Ok) : s'.Ok :=
  ⟨hs.size ▸ h.size_lt, hs.head ▸ hs.size ▸ h.head_lt, hs.tail ▸ hs.size ▸ h.tail_lt,
    hs.head ▸ hs.tail ▸ h.head_ne⟩

theorem SameData.contents {s s' : Stream} (hs : SameData s s') : s'.contents = s.contents := by
  simp only [Stream.contents, Stream.avail, hs.buf, hs.head, hs.tail, hs.size]

/-- A change that leaves the data of the audio ring and the choice of streams alone. -/
theorem Adds.of_same {h h' : Handle} (hr : Ready h) (hs : SameData h.audio h'.audio)
    (hv : h'.video.parserCallback = h.video.parserCallback) (hi : h'.allowIframe = h.allowIframe)
    (hca : h'.audio.attr.current = h.audio.attr.current) (hcv : h'.video.attr.current = h.video.attr.current) :
    Adds h h' [] :=
  ⟨⟨hs.ok hr.ok, hs.size ▸ hr.size, hs.parserCallback.trans hr.audio, hv.trans hr.video, hi.trans hr.allowIframe⟩,
    by rw [hs.contents, List.append_nil], hca, hcv⟩

/-- Only fields of the frame parser change. -/
theorem Adds.of_frame {h h' : Handle} (hr : Ready h) (ha : h'.audio = h.audio) (hv : h'.video = h.video)
    (hi : h'.allowIframe = h.allowIframe) : Adds h h' [] :=
  .of_same hr (ha ▸ ⟨rfl, rfl, rfl, rfl, rfl⟩) (by rw [hv]) hi (by rw [ha]) (by rw [hv])

/-- The audio ring takes a block of at most a packet's length whole, or counts a refusal. -/
theorem streamAdd_audio_adds {h : Handle} (hr : Ready h) (data : List UInt8) (hl : data.length ≤ 65535) :
    (streamAdd h .audio data true).2 = data.length ∧ Adds h (streamAdd h .audio data true).1 data ∨
      (streamAdd h .audio data true).2 = 0 ∧ data ≠ [] ∧ Adds h (streamAdd h .audio data true).1 [] ∧
        h.refusals < (streamAdd h .audio data true).1.refusals := by
  have hsize := hr.size
  obtain ⟨hok, hz, hcase⟩ := Stream.append_eq hr.ok h.seeking data (by omega)
  have hsame := h.audio.append_same h.seeking data
  have hready : Ready (streamAdd h .audio data true).1 := by
    rw [streamAdd_audio h data hr.audio]
    exact ⟨hok, hz ▸ hsize, hsame.parserCallback.trans hr.audio, hr.video, hr.allowIframe⟩
  have hcount := streamAdd_refusals h .audio data true
  have hcur : (streamAdd h .audio data true).1.audio.attr.current = h.audio.attr.current ∧
      (streamAdd h .audio data true).1.video.attr.current = h.video.attr.current := by
    rw [streamAdd_audio h data hr.audio]
    exact ⟨hsame.current, rfl⟩
  have hval : (streamAdd h .audio data true).1.audio = (h.audio.append h.seeking data).1 ∧
      (streamAdd h .audio data true).2 = (h.audio.append h.seeking data).2 := by
    rw [streamAdd_audio h data hr.audio]
    exact ⟨rfl, rfl⟩
  rcases hcase with ⟨-, hcon, hn⟩ | ⟨⟨hd, -⟩, hcon, hn⟩
  · exact .inl ⟨hval.2.trans hn, ⟨hready, by rw [hval.1, hcon], hcur.1, hcur.2⟩⟩
  · have hpos := List.length_pos_iff.mpr hd
    refine .inr ⟨hval.2.trans hn, hd, ⟨hready, by rw [hval.1, hcon, List.append_nil], hcur.1, hcur.2⟩, ?_⟩
    have hzero := hval.2.trans hn
    omega

theorem streamAdd_video_adds {h : Handle} (hr : Ready h) (data : List UInt8) :
    Adds h (streamAdd h .video data false).1 [] := by
  obtain ⟨hv, hs⟩ := streamAdd_video h data hr.video
  exact .of_same hr (hv.audio ▸ ⟨rfl, rfl, rfl, rfl, rfl⟩) hs.parserCallback hv.allowIframe
    (by rw [hv.audio]) hs.current

theorem videoHeaders_adds (type fuel : Nat) {h : Handle} (hr : Ready h) : Adds h (videoHeaders type fuel h) [] := by
  have hnum (g : Handle) (n : Nat) (hg : Ready g) : Adds g { g with headernum := n } [] :=
    .of_frame hg rfl rfl rfl
  have hfirst (g : Handle) (hg : Ready g) : Adds g
      (if g.headernum % 2 = 0 then streamAdd g .video (startCode type) false else (g, 4)).1 [] := by
    split
    · exact streamAdd_video_adds hg _
    · exact .refl hg
  fun_induction videoHeaders type fuel h with
  | case1 h => exact .refl hr
  | case2 fuel h hc r hn => exact hfirst h hr
  | case3 fuel h hc r hn g hodd r2 hn2 =>
    have hg : Adds h g [] := by
      simp only [g]
      split
      · exact (hfirst h hr).trans (hnum _ _ (hfirst h hr).ready)
      · exact hfirst h hr
    exact hg.trans (streamAdd_video_adds hg.ready _)
  | case4 fuel h hc r hn g hodd r2 hn2 ih =>
    have hg : Adds h g [] := by
      simp only [g]
      split
      · exact (hfirst h hr).trans (hnum _ _ (hfirst h hr).ready)
      · exact hfirst h hr
    have h2 := hg.trans (streamAdd_video_adds hg.ready (slice g.buf 0 g.bufsz))
    have h3 := h2.trans (hnum _ (r2.1.headernum + 1) h2.ready)
    exact h3.trans (ih h3.ready)
  | case5 fuel h hc r hn g hodd ih =>
    have hg : Adds h g [] := by
      simp only [g]
      split
      · exact (hfirst h hr).trans (hnum _ _ (hfirst h hr).ready)
      · exact hfirst h hr
    exact hg.trans (ih hg.ready)
  | case6 fuel h hc => exact .refl hr

/-- The rings are set up and the configuration knows the streams being played. -/
structure Good (h : Handle) (c : Config) : Prop where
  ready : Ready h
  audio : c.audio = h.audio.attr.current
  video : c.video = h.video.attr.current

theorem Good.adds {h h' : Handle} {c : Config} {w : List UInt8} (hg : Good h c) (ha : Adds h h' w) : Good h' c :=
  ⟨ha.ready, hg.audio.trans ha.audio.symm, hg.video.trans ha.video.symm⟩

/-- Only fields of the frame parser change. -/
theorem Good.of_frame {h h' : Handle} {c : Config} (hg : Good h c) (ha : h'.audio = h.audio)
    (hv : h'.video = h.video) (hi : h'.allowIframe = h.allowIframe) : Good h' c :=
  hg.adds (.of_frame hg.ready ha hv hi)

theorem Good.goto {h : Handle} {c : Config} (hg : Good h c) (p : Place) : Good h (c.goto p) :=
  ⟨hg.ready, hg.audio, hg.video⟩

section Private
variable {h : Handle} {c : Config}

theorem byteAt_lt (mem : Nat → UInt8) (i : Nat) : byteAt mem i < 256 := (mem i).toNat_lt

private theorem outside_range (sub base : Nat) (hs : sub < 256) (hb : base < 256) :
    31 < u32 ((sub : Int) - base) ↔ ¬ (base ≤ sub ∧ sub < base + 32) := by
  unfold u32
  omega

private theorem announce_data (s : Stream) (sub mode : Nat) (kind : StreamType) :
    SameData s (s.announce sub mode kind) ∧
      (s.announce sub mode kind).attr.current = if s.attr.current = noStream then sub else s.attr.current := by
  have hreg : SameData s (s.register sub kind) ∧ (s.register sub kind).attr.current = s.attr.current := by
    unfold Stream.register
    split <;> exact ⟨⟨rfl, rfl, rfl, rfl, rfl⟩, rfl⟩
  obtain ⟨⟨h1, h2, h3, h4, h5⟩, hc⟩ := hreg
  unfold Stream.announce Stream.selectFirst Stream.setType
  rw [hc]
  split
  · exact ⟨⟨h1, h2, h3, h4, h5⟩, rfl⟩
  · exact ⟨⟨h1, h2, h3, h4, h5⟩, hc⟩

/-- The substream byte decides, wherever it is read from. -/
private def subOf (mem : Nat → UInt8) : Nat := byteAt mem (byteAt mem 2 + 3)

/-- What an audio packet with this substream byte sends to the ring. -/
private def privateBytes (c : Config) (mem : Nat → UInt8) (len : Nat) : List UInt8 :=
  if subOf mem = (c.select .audio (subOf mem)).audio then
    slice (fun i => mem (byteAt mem 2 + 7 + i)) 0 (len - (byteAt mem 2 + 7))
  else []

private theorem parsePrivateAudio_other (base mode : Nat) (kind : StreamType) (ac3 : Bool) (h : Handle)
    (mem : Nat → UInt8) (len : Nat) (hb : base < 256) (hs : ¬ (base ≤ subOf mem ∧ subOf mem < base + 32)) :
    parsePrivateAudio base mode kind ac3 h mem len = (h, -1) := by
  unfold parsePrivateAudio
  rw [if_pos ((outside_range _ _ (byteAt_lt ..) hb).mpr hs)]

private theorem playPrivate_adds (ac3 : Bool) (hr : Ready h) (data : List UInt8) (hl : data.length ≤ 65535) :
    Adds h (playPrivate ac3 h data).1 data ∨
      data ≠ [] ∧ Adds h (playPrivate ac3 h data).1 [] ∧ h.refusals < (playPrivate ac3 h data).1.refusals := by
  have hready : Ready { h with ac3Audio := h.ac3Audio || ac3 } :=
    ⟨hr.ok, hr.size, hr.audio, hr.video, hr.allowIframe⟩
  have hadds : Adds h { h with ac3Audio := h.ac3Audio || ac3 } [] := .of_frame hr rfl rfl rfl
  rcases streamAdd_audio_adds hready data hl with ⟨-, ha⟩ | ⟨-, hd, ha, hlt⟩
  · exact .inl (hadds.trans ha)
  · exact .inr ⟨hd, hadds.trans ha, hlt⟩

private theorem announce_good (hg : Good h c) (sub mode : Nat) (kind : StreamType) :
    Good (h.setStream .audio (h.audio.announce sub mode kind)) (c.select .audio sub) := by
  obtain ⟨hdata, hcur⟩ := announce_data h.audio sub mode kind
  refine ⟨⟨hdata.ok hg.ready.ok, hdata.size ▸ hg.ready.size, hdata.parserCallback.trans hg.ready.audio,
    hg.ready.video, hg.ready.allowIframe⟩, ?_, hg.video⟩
  change (if c.audio = noStream then sub else c.audio) = (h.audio.announce sub mode kind).attr.current
  rw [hcur, hg.audio]

private theorem parsePrivateAudio_good (base mode : Nat) (kind : StreamType) (ac3 : Bool) (hg : Good h c)
    (mem : Nat → UInt8) (len : Nat) (hl : len ≤ 65535) (hb : base < 256)
    (hs : base ≤ subOf mem ∧ subOf mem < base + 32) :
    0 ≤ (parsePrivateAudio base mode kind ac3 h mem len).2 ∧
      Good (parsePrivateAudio base mode kind ac3 h mem len).1 (c.select .audio (subOf mem)) ∧
      ((parsePrivateAudio base mode kind ac3 h mem len).1.audio.contents =
          h.audio.contents ++ privateBytes c mem len ∨
        privateBytes c mem len ≠ [] ∧ h.refusals < (parsePrivateAudio base mode kind ac3 h mem len).1.refusals) := by
  have hgood := announce_good hg (subOf mem) mode kind
  have hcon := (announce_data h.audio (subOf mem) mode kind).1.contents
  have hcount := announce_refusals h (subOf mem) mode kind
  have heq : parsePrivateAudio base mode kind ac3 h mem len =
      if subOf mem = (c.select .audio (subOf mem)).audio then
        ((playPrivate ac3 (h.setStream .audio (h.audio.announce (subOf mem) mode kind))
          (slice (fun i => mem (byteAt mem 2 + 7 + i)) 0 (len - (byteAt mem 2 + 7)))).1,
          (playPrivate ac3 (h.setStream .audio (h.audio.announce (subOf mem) mode kind))
          (slice (fun i => mem (byteAt mem 2 + 7 + i)) 0 (len - (byteAt mem 2 + 7)))).2 +
            ((byteAt mem 2 + 7 : Nat) : Int))
      else (h.setStream .audio (h.audio.announce (subOf mem) mode kind), (len : Int)) := by
    rw [hgood.audio, parsePrivateAudio, if_neg (fun hout => (outside_range _ _ (byteAt_lt ..) hb).mp hout hs)]
    rfl
  rw [heq, privateBytes]
  split
  · have hlen : (slice (fun i => mem (byteAt mem 2 + 7 + i)) 0 (len - (byteAt mem 2 + 7))).length ≤ 65535 := by
      rw [slice_length]
      omega
    rcases playPrivate_adds ac3 hgood.ready _ hlen with ha | ⟨hd, ha, hlt⟩
    · exact ⟨by dsimp only; omega, hgood.adds ha, .inl (ha.contents.trans (congrArg (· ++ _) hcon))⟩
    · exact ⟨by dsimp only; omega, hgood.adds ha, .inr ⟨hd, hcount ▸ hlt⟩⟩
  · refine ⟨by dsimp only; omega, hgood, .inl ?_⟩
    rw [List.append_nil]
    exact hcon

private theorem parseSpuFrame_adds (hr : Ready h) (mem : Nat → UInt8) (len : Nat) :
    Adds h (parseSpuFrame h mem len).1 [] := by
  rw [parseSpuFrame_only]
  exact .of_frame hr rfl rfl rfl

private theorem parseSpuFrame_audio (mem : Nat → UInt8) (len : Nat) (hs : 128 ≤ subOf mem) :
    parseSpuFrame h mem len = (h, -1) := by
  unfold parseSpuFrame
  rw [if_pos]
  have := byteAt_lt mem (byteAt mem 2 + 3)
  exact (outside_range (subOf mem) 32 this (by decide)).mpr (by omega)

/-- A private packet of an audio substream. -/
private theorem private_audio (hg : Good h c) (mem : Nat → UInt8) (len : Nat) (hl : len ≤ 65535)
    (hs : 128 ≤ subOf mem ∧ subOf mem < 192) :
    Good (parsePrivateStream1 h mem len) (c.select .audio (subOf mem)) ∧
      ((parsePrivateStream1 h mem len).audio.contents = h.audio.contents ++ privateBytes c mem len ∨
        privateBytes c mem len ≠ [] ∧ h.refusals < (parsePrivateStream1 h mem len).refusals) := by
  unfold parsePrivateStream1
  rw [parseSpuFrame_audio mem len hs.1, if_neg (show ¬ (-1 : Int) = 0 by decide)]
  dsimp only
  by_cases hac3 : subOf mem < 160
  · obtain ⟨hn, hgood, hcon⟩ := parsePrivateAudio_good 128 AUDIO_MODE_AC3 .ac3 true hg mem len hl (by decide)
      ⟨hs.1, hac3⟩
    rw [show parseAc3Frame h mem len = parsePrivateAudio 128 AUDIO_MODE_AC3 .ac3 true h mem len from rfl,
      if_pos hn]
    exact ⟨hgood, hcon⟩
  · obtain ⟨hn, hgood, hcon⟩ := parsePrivateAudio_good 160 AUDIO_MODE_PCM .pcm false hg mem len hl (by decide)
      ⟨by omega, hs.2⟩
    rw [show parseAc3Frame h mem len = (h, -1) from
      parsePrivateAudio_other _ _ _ _ _ _ _ (by decide) (by omega), if_neg (show ¬ 0 ≤ (-1 : Int) by decide)]
    exact ⟨hgood, hcon⟩

/-- Any other private packet leaves the audio ring alone. -/
private theorem private_other (hr : Ready h) (mem : Nat → UInt8) (len : Nat)
    (hs : ¬ (128 ≤ subOf mem ∧ subOf mem < 192)) : Adds h (parsePrivateStream1 h mem len) [] := by
  have hspu := parseSpuFrame_adds hr mem len
  unfold parsePrivateStream1
  dsimp only
  split
  · exact hspu
  · have hac3 : parseAc3Frame (parseSpuFrame h mem len).1 mem len = ((parseSpuFrame h mem len).1, -1) :=
      parsePrivateAudio_other _ _ _ _ _ _ _ (by decide) (by omega)
    have hpcm : parsePcmFrame (parseSpuFrame h mem len).1 mem len = ((parseSpuFrame h mem len).1, -1) :=
      parsePrivateAudio_other _ _ _ _ _ _ _ (by decide) (by omega)
    rw [hac3, if_neg (show ¬ 0 ≤ (-1 : Int) by decide), hpcm]
    exact hspu

/-- A complete private packet follows the machine. -/
theorem private_follows (full : Bool) (hg : Good h c) (mem : Nat → UInt8) (pkt : List UInt8)
    (hm : slice mem 0 pkt.length = pkt) (hl : pkt.length ≤ 65535)
    (hroom : full = true ∨ (parsePrivateStream1 h mem pkt.length).refusals ≤ h.refusals) :
    (privateDone full c pkt).1.place = .cut ∨
      Good (parsePrivateStream1 h mem pkt.length) (privateDone full c pkt).1 ∧
        (privateDone full c pkt).1.place = .search 1 ∧
        (parsePrivateStream1 h mem pkt.length).audio.contents =
          h.audio.contents ++ (privateDone full c pkt).2 := by
  have hget (i : Nat) (hi : i < pkt.length) : pkt.getD i 0 = mem i := by
    conv_lhs => rw [← hm]
    simp [slice, hi]
  have hheader : 2 < pkt.length → (pkt.getD 2 0).toNat = byteAt mem 2 := fun h2 => by rw [hget 2 h2]; rfl
  by_cases hin : pkt.length ≤ (pkt.getD 2 0).toNat + 3
  · have hdone : privateDone full c pkt = (c.goto (if c.audio = noStream then .cut else .search 1), []) := by
      rw [privateDone, if_pos hin]
    rw [hdone]
    by_cases hc : c.audio = noStream
    · rw [if_pos hc]
      exact .inl rfl
    · rw [if_neg hc]
      refine .inr ?_
      by_cases hs : 128 ≤ subOf mem ∧ subOf mem < 192
      · -- the packet is too short for its header, so the ring gets nothing
        have hshort : privateBytes c mem pkt.length = [] := by
          have hz : pkt.length - (byteAt mem 2 + 7) = 0 := by
            by_cases h2 : 2 < pkt.length
            · have := hheader h2
              omega
            · omega
          unfold privateBytes
          rw [hz, slice_zero, ite_self]
        have hsel : c.select .audio (subOf mem) = c := by
          rw [Config.select, if_neg hc]
        obtain ⟨hgood, hcon⟩ := private_audio hg mem pkt.length hl hs
        rw [hshort] at hcon
        rw [hsel] at hgood
        exact ⟨hgood.goto _, rfl, hcon.resolve_right fun hne => hne.1 rfl⟩
      · have hadds := private_other hg.ready mem pkt.length hs
        exact ⟨(hg.adds hadds).goto _, rfl, hadds.contents⟩
  · have h2 : 2 < pkt.length := by omega
    have hsub : (pkt.getD ((pkt.getD 2 0).toNat + 3) 0).toNat = subOf mem := by
      rw [hget _ (by omega), hheader h2]
      rfl
    have hdone : privateDone full c pkt =
        if 128 ≤ subOf mem ∧ subOf mem < 192 then
          if subOf mem = (c.select .audio (subOf mem)).audio then
            ((c.select .audio (subOf mem)).goto (if full then .cut else .search 1), pkt.drop (byteAt mem 2 + 7))
          else ((c.select .audio (subOf mem)).goto (.search 1), [])
        else (c.goto (.search 1), []) := by
      rw [privateDone, if_neg hin, hsub, hheader h2]
    rw [hdone]
    split
    · rename_i hs
      obtain ⟨hgood, hcon⟩ := private_audio hg mem pkt.length hl hs
      have hbytes : privateBytes c mem pkt.length =
          if subOf mem = (c.select .audio (subOf mem)).audio then pkt.drop (byteAt mem 2 + 7) else [] := by
        unfold privateBytes
        congr 1
        conv_rhs => rw [← hm]
        rw [slice_drop, slice_shift, Nat.zero_add, Nat.add_zero]
      rw [hbytes] at hcon
      split
      · rename_i hplay
        rw [if_pos hplay] at hcon
        cases full with
        | true => exact .inl rfl
        | false =>
          refine .inr ⟨hgood.goto _, rfl, hcon.resolve_right fun hne => ?_⟩
          have := hroom.resolve_left (by decide)
          omega
      · rename_i hplay
        rw [if_neg hplay] at hcon
        exact .inr ⟨hgood.goto _, rfl, hcon.resolve_right fun hne => hne.1 rfl⟩
    · rename_i hs
      have hadds := private_other hg.ready mem pkt.length hs
      exact .inr ⟨(hg.adds hadds).goto _, rfl, hadds.contents⟩

end Private

end Mvpmc.Demux.ProgramStream
