import Mvpmc.Demux.Reach

/-! Progress of the parser. One packet stops it for good: a stream that is not being
played and declares a length of zero leaves `remain` at zero without going back to
the search for a start code. -/
namespace Mvpmc.Demux
open Mvpmc.Lib Mvpmc.Lib.Circular

/-- The call the demuxer makes for the buffer consumes something. -/
def Consumes (h : Handle) (buf : List UInt8) (past : Nat → UInt8) : Prop :=
  (isHeaderState h.state = true ∨ isFrameState h.state = true) ∧ 0 < (parserCall h buf past).2

/-- This call consumes something, or the next one for the same buffer does. -/
def Progress (h : Handle) (buf : List UInt8) (past : Nat → UInt8) : Prop :=
  Consumes h buf past ∨ Consumes (parserCall h buf past).1 buf past

/-- No ring answers `full` in these two calls. -/
def Room (h : Handle) (buf : List UInt8) (past : Nat → UInt8) : Prop :=
  (parserCall h buf past).1.refusals = h.refusals ∧
    (parserCall (parserCall h buf past).1 buf past).1.refusals = h.refusals

/-- A stream that is not the one being played. -/
def Stream.notPlayed (s : Stream) (type : Nat) : Prop := s.attr.current ≠ noStream ∧ s.attr.current ≠ type

/-- The two length bytes of a packet that is not being played are read, and are zero. -/
structure Wedged (h : Handle) : Prop where
  stream : isAudioStream h.state = true ∧ h.audio.notPlayed h.state ∨
    isVideoStream h.state = true ∧ h.video.notPlayed h.state
  remain : h.remain = 0
  bufsz : 2 ≤ h.bufsz
  length : frameLength h = 0

theorem addBuffer_pos (h : Handle) (buf : List UInt8) (past : Nat → UInt8) (hb : buf ≠ []) :
    0 < (addBuffer h buf past).2 := by
  obtain ⟨b, rest, rfl⟩ := List.exists_cons_of_ne_nil hb
  change 0 < (addBufferLoop past (rest.length + 1) h (b :: rest)).2
  rw [addBufferLoop]
  dsimp only
  split
  · have hpos : 0 < (parseFrame h (b :: rest) past 0).2 := by
      rw [parseFrame_type]
      exact Nat.succ_pos _
    split
    · exact hpos
    · exact Nat.add_pos_left hpos _
  · exact Nat.add_pos_left Nat.one_pos _

theorem consumes_of_header {h : Handle} {buf : List UInt8} (past : Nat → UInt8)
    (hh : isHeaderState h.state = true) (hb : buf ≠ []) : Consumes h buf past := by
  refine ⟨.inl hh, ?_⟩
  rw [parserCall, if_pos hh]
  exact addBuffer_pos h buf past hb

section Refusals

theorem streamAdd_refusals_le (h : Handle) (sid : StreamId) (data : List UInt8) (force : Bool) :
    h.refusals ≤ (streamAdd h sid data force).1.refusals := by
  rcases streamAdd_refusals h sid data force with ⟨-, hr⟩ | ⟨-, -, hr⟩ <;> omega

/-- A ring that does not count a refusal takes the block. -/
theorem streamAdd_taken {h : Handle} {sid : StreamId} {data : List UInt8} {force : Bool}
    (hr : (streamAdd h sid data force).1.refusals ≤ h.refusals) : (streamAdd h sid data force).2 = data.length := by
  rcases streamAdd_refusals h sid data force with ⟨hn, -⟩ | ⟨-, -, hr'⟩
  · exact hn
  · omega

theorem videoHeaders_refusals_le (type fuel : Nat) (h : Handle) :
    h.refusals ≤ (videoHeaders type fuel h).refusals := by
  have hfirst (g : Handle) : g.refusals ≤
      (if g.headernum % 2 = 0 then streamAdd g .video (startCode type) false else (g, 4)).1.refusals := by
    split
    · exact streamAdd_refusals_le ..
    · exact le_refl _
  fun_induction videoHeaders type fuel h with
  | case1 h => exact le_refl _
  | case2 fuel h hc r hr => exact hfirst h
  | case3 fuel h hc r hr g hodd r2 hr2 =>
    have hg : h.refusals ≤ g.refusals := by
      simp only [g]
      split <;> exact hfirst h
    exact hg.trans (streamAdd_refusals_le ..)
  | case4 fuel h hc r hr g hodd r2 hr2 ih =>
    have hg : h.refusals ≤ g.refusals := by
      simp only [g]
      split <;> exact hfirst h
    exact (hg.trans (streamAdd_refusals_le ..)).trans ih
  | case5 fuel h hc r hr g hodd ih =>
    have hg : h.refusals ≤ g.refusals := by
      simp only [g]
      split <;> exact hfirst h
    exact hg.trans ih
  | case6 fuel h hc => exact le_refl _

theorem playPrivate_refusals_le (ac3 : Bool) (h : Handle) (data : List UInt8) :
    h.refusals ≤ (playPrivate ac3 h data).1.refusals :=
  streamAdd_refusals_le { h with ac3Audio := h.ac3Audio || ac3 } .audio data true

theorem announce_refusals (h : Handle) (sub mode : Nat) (kind : StreamType) :
    (h.setStream .audio (h.audio.announce sub mode kind)).refusals = h.refusals := by
  refine setStream_refusals h .audio _ 0 ?_
  unfold Stream.announce Stream.setType Stream.selectFirst Stream.register
  split <;> split <;> rfl

theorem parsePrivateAudio_refusals_le (base mode : Nat) (kind : StreamType) (ac3 : Bool) (h : Handle)
    (mem : Nat → UInt8) (len : Nat) : h.refusals ≤ (parsePrivateAudio base mode kind ac3 h mem len).1.refusals := by
  unfold parsePrivateAudio
  dsimp only
  split
  · exact le_refl _
  · rw [← announce_refusals h (byteAt mem (byteAt mem 2 + 3)) mode kind]
    split
    · exact playPrivate_refusals_le ..
    · exact le_refl _

theorem parsePrivateStream1_refusals_le (h : Handle) (mem : Nat → UInt8) (len : Nat) :
    h.refusals ≤ (parsePrivateStream1 h mem len).refusals := by
  have hspu : h.refusals ≤ (parseSpuFrame h mem len).1.refusals := by
    rw [parseSpuFrame_only]
    exact le_refl _
  have hac3 := hspu.trans (parsePrivateAudio_refusals_le 128 AUDIO_MODE_AC3 .ac3 true _ mem len)
  unfold parsePrivateStream1
  dsimp only
  split
  · exact hspu
  · split
    · exact hac3
    · exact hac3.trans (parsePrivateAudio_refusals_le ..)

theorem consume_refusals (h : Handle) (n : Nat) : (consume h n).refusals = h.refusals := by
  rw [consume_frame]
  rfl

theorem gather_refusals_le (h : Handle) (buf : List UInt8) (n : Nat) : h.refusals ≤ (gather h buf n).refusals := by
  have hp := parsePrivateStream1_refusals_le
    { h with spuBuf := blit h.spuBuf h.spuLen (buf.take n), spuLen := h.spuLen + n }
    (blit h.spuBuf h.spuLen (buf.take n)) (h.spuLen + n)
  unfold gather
  dsimp only
  split
  · exact hp
  · exact le_refl _

theorem continueFrame_refusals_le (h : Handle) (buf : List UInt8) :
    h.refusals ≤ (continueFrame h buf).1.refusals := by
  unfold continueFrame
  dsimp only
  split <;> dsimp only <;> rw [consume_refusals]
  · exact streamAdd_refusals_le ..
  · exact streamAdd_refusals_le ..
  · exact gather_refusals_le ..
  · exact le_refl _

theorem packBody_refusals (h : Handle) (rest : List UInt8) : (packBody h rest).1.refusals = h.refusals := by
  unfold packBody
  dsimp only
  split
  · rfl
  · split
    · split
      · split <;> rfl
      · rfl
    · rfl

theorem otherBody_refusals_le (past : Nat → UInt8) (type : Nat) (h : Handle) (rest : List UInt8) :
    h.refusals ≤ (otherBody past type h rest).1.refusals := by
  unfold otherBody
  dsimp only
  split
  · split
    · exact parsePrivateStream1_refusals_le ..
    · exact le_refl _
  · split <;> exact le_refl _

theorem payload_refusals_le (h : Handle) (sid : StreamId) (force : Bool) (rest : List UInt8) (n : Nat) :
    h.refusals ≤ (payload h sid force rest n).1.refusals := by
  unfold payload
  dsimp only
  split
  · split <;> exact streamAdd_refusals_le ..
  · exact streamAdd_refusals_le ..

/-- A part of the header that the ring does not take is counted as a refusal. -/
theorem audioPart_refusals (h : Handle) (num : Nat) (part : List UInt8) :
    h.refusals ≤ (audioPart h num part).1.refusals ∧
      ((audioPart h num part).2 = false → h.refusals < (audioPart h num part).1.refusals) := by
  unfold audioPart
  dsimp only
  split
  · rcases streamAdd_refusals h .audio part true with ⟨hn, hr⟩ | ⟨hn, hp, hr⟩
    · rw [if_neg (not_not.mpr hn)]
      exact ⟨hr.ge, fun hf => nomatch hf⟩
    · have hpos := List.length_pos_iff.mpr hp
      rw [if_pos (by omega)]
      dsimp only
      omega
  · exact ⟨le_refl _, fun hf => nomatch hf⟩

theorem audioHeader_refusals (h : Handle) (type : Nat) :
    h.refusals ≤ (audioHeader h type).1.refusals ∧
      ((audioHeader h type).2 = false → h.refusals < (audioHeader h type).1.refusals) := by
  obtain ⟨h1, h2⟩ := audioPart_refusals h 0 (startCode type)
  unfold audioHeader
  dsimp only
  split
  · obtain ⟨h3, h4⟩ := audioPart_refusals (audioPart h 0 (startCode type)).1 1
      (slice (audioPart h 0 (startCode type)).1.buf 0 (audioPart h 0 (startCode type)).1.bufsz)
    exact ⟨h1.trans h3, fun hf => h1.trans_lt (h4 hf)⟩
  · exact ⟨h1, h2⟩

theorem avBody_refusals_le (sid : StreamId) (type : Nat) (h : Handle) (rest : List UInt8) :
    h.refusals ≤ (avBody sid type h rest).1.refusals := by
  cases sid with
  | audio =>
    rw [avBody, audioBody]
    dsimp only
    split
    · exact le_refl _
    · have hle := (audioHeader_refusals h type).1
      split
      · refine le_trans ?_ (payload_refusals_le ..)
        exact hle
      · exact hle
  | video =>
    rw [avBody, videoBody]
    dsimp only
    split
    · exact le_refl _
    · refine le_trans ?_ (payload_refusals_le ..)
      exact videoHeaders_refusals_le type 4 h

theorem withHeader_refusals_le (k : Nat) (h : Handle) (buf : List UInt8)
    {body : Handle → List UInt8 → Handle × Nat} (hb : ∀ g rest, g.refusals ≤ (body g rest).1.refusals) :
    h.refusals ≤ (withHeader k h buf body).1.refusals := by
  unfold withHeader
  dsimp only
  split
  · exact hb (collect h k buf).1 _
  · exact le_refl _

end Refusals

/-- With room in the ring a payload goes on: an empty one ends the frame. -/
theorem payload_progress {h : Handle} {sid : StreamId} {force : Bool} {rest : List UInt8} {n : Nat}
    (hb : rest ≠ []) (hr : (payload h sid force rest n).1.refusals ≤ h.refusals) :
    (payload h sid force rest n).1.state = 1 ∨ 0 < (payload h sid force rest n).2 := by
  have hpos := List.length_pos_iff.mpr hb
  unfold payload at hr ⊢
  dsimp only at hr ⊢
  split
  · rename_i hle
    rw [if_pos hle] at hr
    have ht : (streamAdd h sid (rest.take n) force).2 = (rest.take n).length := by
      refine streamAdd_taken ?_
      split at hr <;> exact hr
    rw [List.length_take, Nat.min_eq_left hle] at ht
    rw [if_pos ht.symm]
    exact .inl rfl
  · rename_i hlt
    rw [if_neg hlt] at hr
    have ht : (streamAdd h sid rest force).2 = rest.length := streamAdd_taken hr
    exact .inr (by dsimp only; omega)

theorem continueFrame_pos {h : Handle} {buf : List UInt8} (hr : h.remain ≠ 0) (hb : buf ≠ [])
    (hroom : (continueFrame h buf).1.refusals = h.refusals) : 0 < (continueFrame h buf).2 := by
  have hpos := List.length_pos_iff.mpr hb
  have hmin : 0 < min h.remain buf.length := by omega
  have hadd (sid : StreamId) (force : Bool)
      (hf : (consume (streamAdd h sid (buf.take (min h.remain buf.length)) force).1
        (streamAdd h sid (buf.take (min h.remain buf.length)) force).2).refusals = h.refusals) :
      0 < (streamAdd h sid (buf.take (min h.remain buf.length)) force).2 := by
    rw [consume_frame] at hf
    rw [streamAdd_taken (le_of_eq hf), List.length_take]
    omega
  revert hroom
  unfold continueFrame
  dsimp only
  rcases h.frameState with _ | _ | _ | _ | _ | fs
  · exact fun _ => hmin
  · exact hadd .audio true
  · exact hadd .video false
  · exact fun _ => hmin
  · exact fun _ => hmin
  · exact fun _ => hmin

/-- The header of a packet that has `bufsz` of its `k` bytes. -/
theorem withHeader_pos {k : Nat} {h : Handle} {buf : List UInt8}
    (body : Handle → List UInt8 → Handle × Nat) (hb : buf ≠ []) (hk : h.bufsz < k) :
    0 < (withHeader k h buf body).2 := by
  have hpos := List.length_pos_iff.mpr hb
  unfold withHeader
  dsimp only
  split
  · rename_i hd
    have := collect_of_done h k buf hd
    dsimp only
    omega
  · rename_i hd
    have := collect_of_not_done h k buf (by simpa using hd)
    dsimp only
    omega

/-- A complete header leaves the whole buffer to the body. -/
theorem withHeader_complete {h : Handle} {k : Nat} (buf : List UInt8)
    (body : Handle → List UInt8 → Handle × Nat) (hk : k ≤ h.bufsz) :
    ∃ g : Handle, SameFrame h g ∧ g.audio = h.audio ∧ g.video = h.video ∧ withHeader k h buf body = body g buf := by
  have hd : (collect h k buf).2.2 = true := (collect_done h k buf).mpr (by omega)
  have hn : (collect h k buf).2.1 = 0 := by
    have := collect_of_done h k buf hd
    omega
  refine ⟨(collect h k buf).1, ?_, rfl, rfl, ?_⟩
  · have hbuf : (collect h k buf).1.buf = h.buf := by
      change blit h.buf h.bufsz (buf.take (collect h k buf).2.1) = h.buf
      rw [hn, List.take_zero]
      funext i
      simp [blit]
    have hsz : (collect h k buf).1.bufsz = h.bufsz := by
      rw [collect_fst, hn]
      rfl
    exact ⟨rfl, rfl, rfl, hbuf, hsz, rfl, rfl, rfl, rfl⟩
  · unfold withHeader
    rw [if_pos hd]
    simp only [hn, List.drop_zero, Nat.zero_add]

theorem SameFrame.frameLength {h h' : Handle} (hs : SameFrame h h') : Demux.frameLength h' = Demux.frameLength h := by
  unfold Demux.frameLength
  rw [hs.buf]

theorem meet_current (s : Stream) (type : Nat) :
    (s.meet type).attr.current = if s.attr.current = noStream then type else s.attr.current := by
  have hreg : (s.register type .mpeg).attr.current = s.attr.current := by
    unfold Stream.register
    split <;> rfl
  unfold Stream.meet Stream.selectFirst
  rw [hreg]
  split
  · rfl
  · exact hreg

theorem meet_eq_iff (s : Stream) (type : Nat) : type ≠ (s.meet type).attr.current ↔ s.notPlayed type := by
  rw [meet_current, Stream.notPlayed]
  split
  · rename_i h
    simp [h]
  · rename_i h
    exact ⟨fun hne => ⟨h, fun he => hne he.symm⟩, fun hne he => hne.2 he.symm⟩

theorem meet_sameFrame (h : Handle) (sid : StreamId) (type : Nat) : SameFrame h (h.meet sid type) := .setStream ..

theorem meet_refusals (h : Handle) (sid : StreamId) (type : Nat) : (h.meet sid type).refusals = h.refusals := by
  refine setStream_refusals h sid _ 0 ?_
  unfold Stream.meet Stream.selectFirst Stream.register
  split <;> split <;> rfl

theorem iframe_refusals_le (h : Handle) (buf : List UInt8) (type : Nat) :
    h.refusals ≤ (iframe h buf type).1.refusals := by
  have hfirst := streamAdd_refusals_le h .video (startCode type) false
  have hsecond := hfirst.trans (streamAdd_refusals_le _ .video buf false)
  unfold iframe
  dsimp only
  split
  · split
    · exact hfirst
    · split <;> exact hsecond
  · exact le_refl _

theorem frameBody_refusals_le (h : Handle) (buf : List UInt8) (past : Nat → UInt8) (type : Nat) :
    h.refusals ≤ (frameBody h buf past type).1.refusals := by
  by_cases hr : h.remain = 0
  · by_cases hav : ∃ sid, isAv sid type = true
    · obtain ⟨sid, hs⟩ := hav
      rw [frameBody_av buf past sid hr hs, ← meet_refusals h sid type]
      exact withHeader_refusals_le _ _ _ (avBody_refusals_le sid type)
    · have hv : ¬ isVideoStream type = true := fun hs => hav ⟨.video, hs⟩
      have ha : ¬ isAudioStream type = true := fun hs => hav ⟨.audio, hs⟩
      rw [frameBody, if_neg (not_not.mpr hr), if_neg hv, if_neg ha]
      split
      · exact le_refl _
      · split
        · exact withHeader_refusals_le _ _ _ fun g rest => (packBody_refusals g rest).ge
        · split
          · exact withHeader_refusals_le _ _ _ (otherBody_refusals_le past type)
          · split
            · exact iframe_refusals_le ..
            · exact le_refl _
  · rw [frameBody, if_pos hr]
    exact continueFrame_refusals_le ..

theorem parseFrame_refusals_le (h : Handle) (buf : List UInt8) (past : Nat → UInt8) (type : Nat) :
    h.refusals ≤ (parseFrame h buf past type).1.refusals := by
  cases buf with
  | nil => exact le_refl _
  | cons b rest =>
    unfold parseFrame
    dsimp only
    split
    · exact frameBody_refusals_le (startFrame h b.toNat) rest past b.toNat
    · exact frameBody_refusals_le ..

theorem addBufferLoop_refusals_le (past : Nat → UInt8) (fuel : Nat) (h : Handle) (buf : List UInt8) :
    h.refusals ≤ (addBufferLoop past fuel h buf).1.refusals := by
  fun_induction addBufferLoop past fuel h buf with
  | case1 => exact le_refl _
  | case2 => exact le_refl _
  | case3 fuel h b rest hs r h' hne => exact parseFrame_refusals_le h (b :: rest) past 0
  | case4 fuel h b rest hs r h' hne t ih => exact (parseFrame_refusals_le h (b :: rest) past 0).trans ih
  | case5 fuel h b rest hs t ih => exact ih

/-- The frame goes on by itself in the next call. -/
private def Resumes (h h' : Handle) : Prop :=
  h'.state = 1 ∨ h'.state = h.state ∧ h'.remain ≠ 0 ∧ h'.frameState = 0

private theorem discard_resumes {h g : Handle} (hs : g.state = h.state) (hl : frameLength g ≠ 0) :
    Resumes h (discard g).1 :=
  .inr ⟨hs, hl, rfl⟩

private theorem videoBody_progress {type : Nat} {h g : Handle} {buf : List UInt8} (hb : buf ≠ [])
    (hs : g.state = h.state) (hw : type ≠ g.video.attr.current → frameLength g ≠ 0)
    (hr : (videoBody type g buf).1.refusals ≤ g.refusals) :
    0 < (videoBody type g buf).2 ∨ Resumes h (videoBody type g buf).1 := by
  unfold videoBody at hr ⊢
  dsimp only at hr ⊢
  split
  · rename_i hne
    exact .inr (discard_resumes hs (hw hne))
  · rename_i he
    rw [if_neg he] at hr
    rcases payload_progress hb (hr.trans (videoHeaders_refusals_le type 4 g)) with h1 | hpos
    · exact .inr (.inl h1)
    · exact .inl hpos

private theorem audioBody_progress {type : Nat} {h g : Handle} {buf : List UInt8} (hb : buf ≠ [])
    (hs : g.state = h.state) (hw : type ≠ g.audio.attr.current → frameLength g ≠ 0)
    (hr : (audioBody type g buf).1.refusals ≤ g.refusals) :
    0 < (audioBody type g buf).2 ∨ Resumes h (audioBody type g buf).1 := by
  obtain ⟨hle, hlt⟩ := audioHeader_refusals g type
  unfold audioBody at hr ⊢
  dsimp only at hr ⊢
  split
  · rename_i hne
    exact .inr (discard_resumes hs (hw hne))
  · rename_i he
    rw [if_neg he] at hr
    split
    · rename_i ht
      rw [if_pos ht] at hr
      rcases payload_progress hb (hr.trans hle) with h1 | hpos
      · exact .inr (.inl h1)
      · exact .inl hpos
    · rename_i hf
      rw [if_neg hf] at hr
      have := hlt (by simpa using hf)
      dsimp only at hr
      omega

/-- A packet for one of the rings whose header is still incomplete takes bytes; a
complete one goes to its body. -/
private theorem avStream_progress {h : Handle} {sid : StreamId} {buf : List UInt8}
    {body : Handle → List UInt8 → Handle × Nat} (hb : buf ≠ [])
    (hroom : (withHeader 2 (h.meet sid h.state) buf body).1.refusals = h.refusals)
    (hbody : 2 ≤ h.bufsz → ∀ g : Handle, SameFrame h g → g.stream sid = (h.stream sid).meet h.state →
      (body g buf).1.refusals ≤ g.refusals → 0 < (body g buf).2 ∨ Resumes h (body g buf).1) :
    0 < (withHeader 2 (h.meet sid h.state) buf body).2 ∨
      Resumes h (withHeader 2 (h.meet sid h.state) buf body).1 := by
  have hm := meet_sameFrame h sid h.state
  rcases Nat.lt_or_ge h.bufsz 2 with hlt | hge
  · exact .inl (withHeader_pos body hb (by rw [hm.bufsz]; exact hlt))
  · obtain ⟨g, hg, ha, hv, he⟩ := withHeader_complete (h := h.meet sid h.state) (k := 2) buf body
      (by rw [hm.bufsz]; exact hge)
    rw [he] at hroom ⊢
    have hgr : g.refusals = h.refusals := by
      rw [← meet_refusals h sid h.state]
      simp only [Handle.refusals, ha, hv]
    refine hbody hge g (hm.trans hg) ?_ (by omega)
    cases sid
    · exact ha
    · exact hv

private theorem frameBody_progress {h : Handle} (hsh : Shape h) {buf : List UInt8} (past : Nat → UInt8)
    (hb : buf ≠ []) (hw : ¬ Wedged h)
    (hroom : (frameBody h buf past h.state).1.refusals = h.refusals) :
    0 < (frameBody h buf past h.state).2 ∨ Resumes h (frameBody h buf past h.state).1 := by
  have hunplayed (sid : StreamId) (hav : sid = .audio ∧ isAudioStream h.state = true ∨
      sid = .video ∧ isVideoStream h.state = true) (hr : h.remain = 0) (hk : 2 ≤ h.bufsz)
      (hne : h.state ≠ ((h.stream sid).meet h.state).attr.current) : frameLength h ≠ 0 := by
    intro h0
    rw [meet_eq_iff] at hne
    rcases hav with ⟨rfl, hav⟩ | ⟨rfl, hav⟩
    · exact hw ⟨.inl ⟨hav, hne⟩, hr, hk, h0⟩
    · exact hw ⟨.inr ⟨hav, hne⟩, hr, hk, h0⟩
  revert hroom
  unfold frameBody
  split
  · rename_i hr
    exact fun hroom => .inl (continueFrame_pos hr hb hroom)
  · rename_i hr
    have hr := not_not.mp hr
    split
    · exact fun _ => .inr (.inl rfl)
    · split
      · rename_i hp
        exact fun _ => .inl (withHeader_pos packBody hb (hsh.pack hp hr))
      · split
        · rename_i ho
          exact fun _ => .inl (withHeader_pos _ hb (hsh.other ho hr))
        · split
          · rename_i hv
            intro hroom
            refine avStream_progress hb hroom fun hk g hg hst hrg => videoBody_progress hb hg.state ?_ hrg
            intro hne
            rw [hg.frameLength]
            exact hunplayed .video (.inr ⟨rfl, hv⟩) hr hk (by rw [← hst]; exact hne)
          · split
            · refine fun _ => .inr (.inl ?_)
              simp only [iframe, hsh.allowIframe, Bool.false_eq_true, if_false]
            · split
              · rename_i ha
                intro hroom
                refine avStream_progress hb hroom fun hk g hg hst hrg => audioBody_progress hb hg.state ?_ hrg
                intro hne
                rw [hg.frameLength]
                exact hunplayed .audio (.inl ⟨rfl, ha⟩) hr hk (by rw [← hst]; exact hne)
              · exact fun _ => .inr (.inl rfl)

private theorem consumes_of_frame {h : Handle} {buf : List UInt8} (past : Nat → UInt8) (hb : buf ≠ [])
    (hf : isFrameState h.state = true) (hr : h.remain ≠ 0) (h0 : h.frameState = 0) : Consumes h buf past := by
  have hpos := List.length_pos_iff.mpr hb
  refine ⟨.inr hf, ?_⟩
  rw [parserCall, not_header_of_frame hf, if_neg (by simp), parseFrame_frame past hf hb, frameBody, if_pos hr,
    continueFrame, h0]
  exact Nat.lt_min.mpr ⟨Nat.pos_of_ne_zero hr, hpos⟩

/-- A packet that is not being played, with a length of zero, takes nothing and stays. -/
private theorem frameBody_wedged {h : Handle} (hw : Wedged h) (buf : List UInt8) (past : Nat → UInt8) :
    (frameBody h buf past h.state).2 = 0 ∧ Wedged (frameBody h buf past h.state).1 := by
  obtain ⟨hst, hr, hk, hl⟩ := hw
  have hstay (sid : StreamId) (g : Handle) (hg : SameFrame (h.meet sid h.state) g)
      (ha : g.audio = (h.meet sid h.state).audio) (hv : g.video = (h.meet sid h.state).video) :
      Wedged (discard g).1 := by
    have hfull := (meet_sameFrame h sid h.state).trans hg
    have hcur (s : Stream) (hs : s.notPlayed h.state) : (s.meet h.state).notPlayed h.state := by
      rw [Stream.notPlayed, meet_current, if_neg hs.1]
      exact hs
    refine ⟨?_, ?_, ?_, ?_⟩
    · change isAudioStream g.state = true ∧ g.audio.notPlayed g.state ∨
        isVideoStream g.state = true ∧ g.video.notPlayed g.state
      rw [hfull.state, ha, hv]
      refine hst.imp ?_ ?_
      · rintro ⟨h1, h2⟩
        cases sid
        · exact ⟨h1, hcur _ h2⟩
        · exact ⟨h1, h2⟩
      · rintro ⟨h1, h2⟩
        cases sid
        · exact ⟨h1, h2⟩
        · exact ⟨h1, hcur _ h2⟩
    · exact hfull.frameLength.trans hl
    · exact hfull.bufsz ▸ hk
    · exact hfull.frameLength.trans hl
  have hcomplete (sid : StreamId) (body : Handle → List UInt8 → Handle × Nat)
      (hbody : ∀ g : Handle, g.stream sid = (h.stream sid).meet h.state → body g buf = discard g) :
      (withHeader 2 (h.meet sid h.state) buf body).2 = 0 ∧
        Wedged (withHeader 2 (h.meet sid h.state) buf body).1 := by
    obtain ⟨g, hg, ha, hv, he⟩ := withHeader_complete (h := h.meet sid h.state) (k := 2) buf body
      (by rw [(meet_sameFrame h sid h.state).bufsz]; exact hk)
    have hgs : g.stream sid = (h.stream sid).meet h.state := by
      cases sid
      · exact ha
      · exact hv
    rw [he, hbody g hgs]
    exact ⟨rfl, hstay sid g hg ha hv⟩
  rcases hst with ⟨hav, hnp⟩ | ⟨hav, hnp⟩
  · rw [frameBody_av buf past .audio hr hav]
    refine hcomplete .audio _ fun g hg => ?_
    rw [avBody, audioBody, if_pos]
    rw [show g.audio = h.audio.meet h.state from hg]
    exact (meet_eq_iff _ _).mpr hnp
  · rw [frameBody_av buf past .video hr hav]
    refine hcomplete .video _ fun g hg => ?_
    rw [avBody, videoBody, if_pos]
    rw [show g.video = h.video.meet h.state from hg]
    exact (meet_eq_iff _ _).mpr hnp

theorem Wedged.frame {h : Handle} (hw : Wedged h) : isFrameState h.state = true := by
  simp only [isFrameState, Bool.or_eq_true]
  rcases hw.stream with ⟨ha, -⟩ | ⟨hv, -⟩
  · simp [ha]
  · simp [hv]

/-- Once wedged, the demuxer stays wedged and consumes nothing, whatever it is fed. -/
theorem Wedged.call {h : Handle} (hw : Wedged h) (buf : List UInt8) (past : Nat → UInt8) :
    (parserCall h buf past).2 = 0 ∧ Wedged (parserCall h buf past).1 := by
  have hf := hw.frame
  rw [parserCall, not_header_of_frame hf, if_neg (by simp)]
  by_cases hb : buf = []
  · subst hb
    exact ⟨rfl, hw⟩
  · rw [parseFrame_frame past hf hb]
    exact frameBody_wedged hw buf past

theorem Wedged.feed {h : Handle} (hw : Wedged h) (bufs : List (List UInt8)) (past : Nat → UInt8) :
    Wedged (bufs.foldl (fun h buf => (parserCall h buf past).1) h) := by
  induction bufs generalizing h with
  | nil => exact hw
  | cons buf bufs ih => exact ih (hw.call buf past).2

/-- In every handle that feeding, draining and choosing streams can reach, a call with
room in the rings makes progress exactly if the handle is not stuck at a packet of
length zero that is not being played; there nothing is consumed any more. -/
theorem progress_iff_not_wedged (size : Nat) (h : Handle) (hreach : Reachable Call.isPlay size h)
    (buf : List UInt8) (hb : buf ≠ []) (past : Nat → UInt8) (hroom : Room h buf past) :
    (Progress h buf past ↔ ¬ Wedged h) ∧
      (Wedged h → ∀ bufs : List (List UInt8),
        ¬ Consumes (bufs.foldl (fun h buf => (parserCall h buf past).1) h) buf past) := by
  have hsh : Shape h := hreach.shape
  have hnone {g : Handle} (hw : Wedged g) : ¬ Consumes g buf past := fun hc => by
    have := (hw.call buf past).1
    have := hc.2
    omega
  refine ⟨⟨?_, ?_⟩, fun hw bufs => hnone (hw.feed bufs past)⟩
  · rintro (hc | hc) hw
    · exact hnone hw hc
    · exact hnone (hw.call buf past).2 hc
  · intro hw
    rcases hsh.state with hh | hf
    · exact .inl (consumes_of_header past hh hb)
    · have hcall : parserCall h buf past = frameBody h buf past h.state := by
        rw [parserCall, not_header_of_frame hf, if_neg (by simp), parseFrame_frame past hf hb]
      have hr := hroom.1
      rw [hcall] at hr
      unfold Progress
      rw [hcall]
      rcases frameBody_progress hsh past hb hw hr with hpos | h1 | ⟨hs, hrem, h0⟩
      · exact .inl ⟨.inr hf, by rw [hcall]; exact hpos⟩
      · exact .inr (consumes_of_header past (by rw [h1]; rfl) hb)
      · exact .inr (consumes_of_frame past hb (by rw [hs]; exact hf) hrem h0)

/-- A fresh demuxer takes the first byte it is given. -/
theorem progress_of_fresh :
    (Progress (demuxInit 100 fun _ => 0) [0] (fun _ => 0) ↔ ¬ Wedged (demuxInit 100 fun _ => 0)) ∧
      (Wedged (demuxInit 100 fun _ => 0) → ∀ bufs : List (List UInt8),
        ¬ Consumes (bufs.foldl (fun h buf => (parserCall h buf fun _ => 0).1) (demuxInit 100 fun _ => 0)) [0]
          (fun _ => 0)) :=
  progress_iff_not_wedged 100 _ (.start ⟨_, rfl⟩) [0] (by decide) _ ⟨by decide, by decide⟩

/-- After an audio packet of stream C0, an empty packet of stream C1 stops the demuxer:
the rings have room, and neither this call nor the next consumes the byte offered. -/
theorem empty_unplayed_packet_wedges :
    let past : Nat → UInt8 := fun _ => 0
    let h := (demuxPut (demuxInit 100 past) [0, 0, 1, 0xC0, 0, 0, 0, 0, 1, 0xC1, 0, 0] past).1
    Reachable Call.isPlay 100 h ∧ Room h [0xFF] past ∧ ¬ Progress h [0xFF] past := by
  intro past h
  refine ⟨.next (.put [0, 0, 1, 0xC0, 0, 0, 0, 0, 1, 0xC1, 0, 0] past) (.start ⟨past, rfl⟩) ⟨trivial, rfl⟩, ?_, ?_⟩
  · exact ⟨by decide, by decide⟩
  · rintro (⟨-, hc⟩ | ⟨-, hc⟩)
    · exact absurd hc (by decide)
    · exact absurd hc (by decide)

end Mvpmc.Demux
