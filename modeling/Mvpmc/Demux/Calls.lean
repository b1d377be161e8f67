import Mvpmc.Demux.Simulation

/-! Whole calls of the parser follow the machine of `ProgramStream`. -/
namespace Mvpmc.Demux.ProgramStream
open Mvpmc.Lib Mvpmc.Lib.Transducer Mvpmc.Lib.Circular

section Frame
variable {full : Bool} {c : Config} {h : Handle} {buf : List UInt8}

private theorem meet_same (s : Stream) (type : Nat) : SameData s (s.meet type) := by
  unfold Stream.meet Stream.selectFirst Stream.register
  split <;> split <;> exact ⟨rfl, rfl, rfl, rfl, rfl⟩

theorem meet_contents (h : Handle) (sid : StreamId) (type : Nat) :
    (h.meet sid type).audio.contents = h.audio.contents := by
  cases sid with
  | audio => exact (meet_same h.audio type).contents
  | video => rfl

/-- The first stream of a kind is selected by the machine as well. -/
theorem meet_good (hg : Good h c) (sid : StreamId) (type : Nat) : Good (h.meet sid type) (c.select sid type) := by
  obtain ⟨hok, hsize, hac, hvc, hi⟩ := hg.ready
  cases sid with
  | audio =>
    have hs := meet_same h.audio type
    refine ⟨⟨hs.ok hok, hs.size ▸ hsize, hs.parserCallback.trans hac, hvc, hi⟩, ?_, hg.video⟩
    change (if c.audio = noStream then type else c.audio) = (h.audio.meet type).attr.current
    rw [meet_current, hg.audio]
  | video =>
    have hs := meet_same h.video type
    refine ⟨⟨hok, hsize, hac, hs.parserCallback.trans hvc, hi⟩, hg.audio, ?_⟩
    change (if c.video = noStream then type else c.video) = (h.video.meet type).attr.current
    rw [meet_current, hg.video]

theorem select_current (hg : Good h c) (sid : StreamId) (type : Nat)
    (hcur : (h.stream sid).attr.current ≠ noStream) : c.select sid type = c := by
  cases sid with
  | audio =>
    rw [Config.select, if_neg]
    exact fun he => hcur (hg.audio.symm.trans he)
  | video =>
    rw [Config.select, if_neg]
    exact fun he => hcur (hg.video.symm.trans he)

/-- Meeting a stream again changes nothing the machine knows. -/
theorem meet_adds (hr : Ready h) (sid : StreamId) (type : Nat) (hcur : (h.stream sid).attr.current ≠ noStream) :
    Adds h (h.meet sid type) [] := by
  have hg : Good h ⟨.cut, h.audio.attr.current, h.video.attr.current⟩ := ⟨hr, rfl, rfl⟩
  have hm := meet_good hg sid type
  rw [select_current hg sid type hcur] at hm
  exact ⟨hm.ready, by rw [meet_contents, List.append_nil], hm.audio.symm, hm.video.symm⟩

theorem packStart_follows (hg : Good h c) (hs : h.state = pack_start_code) (hr : h.remain = 0) (hb : h.bufsz < 7) :
    Follows full c (.pack (slice h.buf 0 h.bufsz)) h [] buf (packStart h buf) := by
  refine withHeader_follows hg (collects_pack full c) hb ?_ ?_
  · rintro g rfl hlt
    exact .pack [] hs hr hlt
  · rintro g rest rfl - -
    exact packBody_follows (g := (collect h 7 buf).1) (hg.of_frame rfl rfl rfl) hs rest (slice (collect h 7 buf).1.buf 0 7) rfl

theorem otherStream_follows (past : Nat → UInt8) (hg : Good h c) (hs : isOtherStream h.state = true)
    (hr : h.remain = 0) (hb : h.bufsz < 2)
    (hroom : full = true ∨ (otherStream h buf past h.state).1.refusals ≤ h.refusals) :
    Follows full c (.other h.state (slice h.buf 0 h.bufsz)) h [] buf (otherStream h buf past h.state) := by
  refine withHeader_follows hg (collects_other full c h.state) hb ?_ ?_
  · rintro g rfl hlt
    exact .other [] hs hr hlt
  · rintro g rest rfl rfl hsz
    have hgood : Good (collect h 2 buf).1 c := hg.of_frame rfl rfl rfl
    have hdone : (collect h 2 buf).2.2 = true := by
      by_contra hd
      have hno : ¬ 2 ≤ buf.length + h.bufsz := fun hle => hd ((collect_done h 2 buf).mpr hle)
      have hn := collect_of_not_done h 2 buf (by simpa using hd)
      rw [collect_fst] at hsz
      dsimp only at hsz
      omega
    have hroom : full = true ∨
        (otherBody past h.state (collect h 2 buf).1 (buf.drop (collect h 2 buf).2.1)).1.refusals ≤
          (collect h 2 buf).1.refusals := by
      refine hroom.imp_right fun hle => ?_
      rw [otherStream, withHeader, if_pos hdone] at hle
      exact hle
    by_cases hp : h.state = private_stream_1
    · rw [hp] at hroom ⊢
      have := privateBody_follows hgood (show (collect h 2 buf).1.state = private_stream_1 from hp) _ past hroom
      rw [otherDone, if_pos rfl]
      exact this
    · rw [otherDone, if_neg hp]
      exact skipBody_follows (hgood.goto _) (isFrameState_of_other hs) _ past hp

theorem avStream_follows (sid : StreamId) (hg : Good h c) (hs : isAv sid h.state = true)
    (hcur : (h.stream sid).attr.current ≠ noStream) (hr : h.remain = 0) (hb : h.bufsz < 2) (hn : h.headernum = 0) :
    Follows full c (.av sid h.state (slice h.buf 0 h.bufsz)) h [] buf
      (withHeader 2 h buf (avBody sid h.state)) := by
  refine withHeader_follows hg (collects_av full c sid h.state) hb ?_ ?_
  · rintro g rfl hlt
    cases sid with
    | audio => exact .av .audio [] hs hcur hr hlt hn
    | video => exact .av .video [] hs hcur hr hlt hn
  · rintro g rest rfl - hsz
    have hgood : Good (collect h 2 buf).1 c := hg.of_frame rfl rfl rfl
    cases sid with
    | audio => exact audioBody_follows hgood hs hr hsz hn hcur rest
    | video => exact videoBody_follows hgood hs hsz hcur rest

/-- A packet for a ring whose header is complete goes on with its body. -/
private theorem av_complete (buf : List UInt8) (sid : StreamId) (past : Nat → UInt8) (hr : Ready h) (hs : isAv sid h.state = true)
    (hcur : (h.stream sid).attr.current ≠ noStream) (hrem : h.remain = 0) (hb : h.bufsz = 2) :
    ∃ g : Handle, SameFrame h g ∧ Adds h g [] ∧ g.refusals = h.refusals ∧
      frameBody h buf past h.state = avBody sid h.state g buf := by
  have hm := meet_sameFrame h sid h.state
  have hma := meet_adds hr sid h.state hcur
  obtain ⟨g, hg, ha, hv, he⟩ := withHeader_complete (h := h.meet sid h.state) (k := 2) buf (avBody sid h.state)
    (by rw [hm.bufsz, hb])
  refine ⟨g, hm.trans hg, ?_, ?_, ?_⟩
  · have := hma.trans (Adds.of_frame hma.ready ha hv hg.allowIframe)
    rwa [List.append_nil] at this
  · rw [← meet_refusals h sid h.state, Handle.refusals, ha, hv]
    rfl
  · rw [frameBody_av buf past sid hrem hs, he]

private theorem av_ne_noStream (sid : StreamId) {type : Nat} (hs : isAv sid type = true) : type ≠ noStream := by
  rintro rfl
  cases sid <;> exact absurd hs (by decide)

/-- A packet for a ring with a part of its header read. -/
private theorem av_follows (sid : StreamId) (past : Nat → UInt8) (hg : Good h c) (hs : isAv sid h.state = true)
    (hcur : (h.stream sid).attr.current ≠ noStream) (hr : h.remain = 0) (hb : h.bufsz < 2) (hn : h.headernum = 0) :
    Follows full c (.av sid h.state (slice h.buf 0 h.bufsz)) h [] buf (frameBody h buf past h.state) := by
  have hm := meet_sameFrame h sid h.state
  have hma := meet_adds hg.ready sid h.state hcur
  have hcur' : ((h.meet sid h.state).stream sid).attr.current ≠ noStream := by
    rw [hma.stream_current sid]
    exact hcur
  have hfol : Follows full c _ (h.meet sid h.state) [] buf _ := avStream_follows sid (hg.adds hma)
    (by rw [hm.state]; exact hs) hcur' (hm.remain.trans hr) (by rw [hm.bufsz]; exact hb) (hm.headernum.trans hn)
  rw [hm.state, hm.buf, hm.bufsz] at hfol
  rw [frameBody_av buf past sid hr hs]
  exact .mono [] hma rfl (meet_refusals h sid h.state).ge hfol

/-- A packet for the audio ring with a part of its header refused before. -/
private theorem owed_follows (past : Nat → UInt8) (hg : Good h c) (hs : isAudioStream h.state = true)
    (hp : h.state = h.audio.attr.current) (hr : h.remain = 0) (hb : h.bufsz = 2) (hn : h.headernum ≤ 1) :
    Follows full c (remaining (frameLength h) (.copy .audio)) h (owedHeader h) buf (frameBody h buf past h.state) := by
  have hcur : h.audio.attr.current ≠ noStream := hp ▸ av_ne_noStream .audio hs
  obtain ⟨g, hsame, ha, href, he⟩ := av_complete buf .audio past hg.ready hs hcur hr hb
  have hfol : Follows full c _ g _ buf _ := audioBody_owed (hg.adds ha) (by rw [hsame.state]; exact hs)
    (hsame.remain.trans hr) (hsame.bufsz.trans hb) (by rw [hsame.headernum]; exact hn) (by rw [hsame.state, ha.audio]; exact hp) buf
  have howed : owedHeader g = owedHeader h := by
    rw [owedHeader, hsame.headernum, hsame.state, hsame.buf]
    rfl
  rw [hsame.frameLength, howed, hsame.state] at hfol
  rw [he]
  exact .mono (owedHeader h) ha rfl href.ge hfol

/-- A packet that is not being played and announces no body. -/
private theorem stuck_follows (sid : StreamId) (past : Nat → UInt8) (hg : Good h c) (hs : isAv sid h.state = true)
    (hnp : (h.stream sid).notPlayed h.state) (hr : h.remain = 0) (hb : h.bufsz = 2) (hl : frameLength h = 0) :
    Follows full c .stuck h [] buf (frameBody h buf past h.state) := by
  obtain ⟨g, hsame, ha, href, he⟩ := av_complete buf sid past hg.ready hs hnp.1 hr hb
  have hgnp : (g.stream sid).notPlayed g.state := by
    rw [Stream.notPlayed, ha.stream_current sid, hsame.state]
    exact hnp
  have hbody : avBody sid h.state g buf = discard g := by
    rw [← hsame.state]
    cases sid with
    | audio =>
      rw [avBody, audioBody, if_pos]
      exact fun he => hgnp.2 he.symm
    | video =>
      rw [avBody, videoBody, if_pos]
      exact fun he => hgnp.2 he.symm
  have hfol : Follows full c _ g [] buf _ := discard_follows sid (hg.adds ha) (by rw [hsame.state]; exact hs)
    (hsame.bufsz.trans hb) hgnp buf
  rw [if_pos (hsame.frameLength.trans hl)] at hfol
  rw [he, hbody]
  exact .mono [] ha rfl href.ge hfol

/-- In the middle of a frame `parse_frame` follows the machine. -/
theorem frameBody_follows {p : Place} {pend : List UInt8} (past : Nat → UInt8) (hg : Good h c)
    (hat : At h pend p buf) (hf : isFrameState h.state = true)
    (hroom : full = true ∨ (frameBody h buf past h.state).1.refusals ≤ h.refusals) :
    Follows full c p h pend buf (frameBody h buf past h.state) := by
  have hcont (hr : h.remain ≠ 0) : frameBody h buf past h.state = continueFrame h buf := by
    rw [frameBody, if_pos hr]
  have hno (state : Nat) (hh : isHeaderState state = true) : h.state ≠ state := by
    rintro rfl
    rw [not_header_of_frame hf] at hh
    exact absurd hh (by decide)
  cases hat with
  | search rest hh => exact absurd rfl (hno h.state hh)
  | doubt state rest hst hor =>
    rcases hst with rfl | rfl <;> rcases hor with he | he <;> exact absurd he (hno _ rfl)
  | pack rest hs hr hb =>
    rw [hs, frameBody_pack buf past hr]
    exact packStart_follows hg hs hr hb
  | pack2 rest hs hr hr3 h3 =>
    rw [hcont hr]
    exact pack2_follows hg hs hr hr3 h3
  | peeked b rest h1 hb => exact absurd h1 (hno 1 rfl)
  | stuffed rest hst =>
    rcases hst with h1 | ⟨hs, hr, hr7, h1⟩
    · exact absurd h1 (hno 1 rfl)
    · rw [hcont hr]
      exact stuffed_follows hg hs hr hr7 h1
  | other rest hs hr hb =>
    rw [frameBody_other buf past hr hs] at hroom ⊢
    exact otherStream_follows past hg hs hr hb hroom
  | skip rest hs hr h0 =>
    rw [hcont hr]
    exact skip_follows hg hs hr h0
  | private1 rest hs hr h4 hl =>
    rw [hcont hr] at hroom ⊢
    exact private1_follows hg hs hr h4 hl hroom
  | av sid rest hs hcur hr hb hn =>
    exact av_follows sid past hg hs hcur hr hb hn
  | copy sid rest hs hr hl hfs =>
    rw [hcont hr]
    exact copy_follows sid hg hs hr hl hfs
  | owed rest hs hp hr hb hn =>
    exact owed_follows past hg hs hp hr hb hn
  | stuck sid rest hs hnp hr hb hl =>
    exact stuck_follows sid past hg hs hnp hr hb hl

/-- A packet for a ring right behind its type byte. -/
private theorem avStart_follows (sid : StreamId) (past : Nat → UInt8) (hg : Good h c) (type : Nat) (ht : type < 256)
    (hs : isAv sid type = true) (rest : List UInt8) :
    Follows full (c.select sid type) (.av sid type []) ((startFrame h type).meet sid type) [] rest
      (frameBody (startFrame h type) rest past type) := by
  have hm := meet_sameFrame (startFrame h type) sid type
  have hgood : Good (startFrame h type) c := hg.of_frame rfl rfl rfl
  have hcur : (((startFrame h type).meet sid type).stream sid).attr.current ≠ noStream := by
    have hmeet : (((startFrame h type).meet sid type).stream sid) = ((startFrame h type).stream sid).meet type := by
      cases sid <;> rfl
    rw [hmeet, meet_current]
    split
    · rw [noStream]
      omega
    · assumption
  have hfol : Follows full (c.select sid type) _ ((startFrame h type).meet sid type) [] rest _ :=
    avStream_follows sid (meet_good hgood sid type) (by rw [hm.state]; exact hs) hcur hm.remain
      (by rw [hm.bufsz]; exact Nat.two_pos) hm.headernum
  rw [hm.state, hm.bufsz] at hfol
  rw [frameBody_av rest past sid rfl hs]
  exact hfol

/-- The type byte and what follows it. -/
theorem parseFrame_follows (past : Nat → UInt8) (hg : Good h c) (b : UInt8) (rest : List UInt8)
    (hroom : full = true ∨ (parseFrame h (b :: rest) past 0).1.refusals ≤ h.refusals) :
    Follows full c (.search 4) h [] (b :: rest) (parseFrame h (b :: rest) past 0) := by
  obtain ⟨type, hb⟩ : ∃ type, b.toNat = type := ⟨_, rfl⟩
  have ht : type < 256 := hb ▸ b.toNat_lt
  rw [parseFrame_type, hb] at hroom ⊢
  have hgood : Good (startFrame h type) c := hg.of_frame rfl rfl rfl
  -- the machine reads the same byte
  have hgo (c' : Config) (p : Place) (g : Handle) (r : Handle × Nat) (hstart : start c type = c'.goto p)
      (hcon : g.audio.contents = h.audio.contents) (href : h.refusals ≤ g.refusals)
      (hf : Follows full c' p g [] rest r) : Follows full c (.search 4) h [] (b :: rest) (r.1, r.2 + 1) := by
    have hstep : step full (c.goto (.search 4)) b = (c'.goto p, []) := by
      rw [← hstart, ← hb]
      rfl
    have hrun : run (step full) (c.goto (.search 4)) ((b :: rest).take 1) = (c'.goto p, []) := by
      rw [List.take_succ_cons, List.take_zero, run_singleton, hstep]
    rw [Nat.add_comm]
    exact .prepend hrun (by simp [hcon]) href hf
  by_cases hp : type = pack_start_code
  · subst hp
    rw [frameBody_pack rest past rfl]
    exact hgo c (.pack []) _ _ rfl rfl (le_refl _) (packStart_follows hgood rfl rfl (by change 0 < 7; decide))
  by_cases ho : isOtherStream type = true
  · have hend : type ≠ MPEG_program_end_code := by
      rintro rfl
      exact absurd ho (by decide)
    rw [frameBody_other rest past rfl ho] at hroom ⊢
    refine hgo c (.other type []) _ _ ?_ rfl (le_refl _)
      (otherStream_follows (h := startFrame h type) past hgood ho rfl Nat.two_pos hroom)
    rw [start, if_neg hend, if_neg hp, if_pos ho]
  by_cases hv : isVideoStream type = true
  · have hend : type ≠ MPEG_program_end_code := by
      rintro rfl
      exact absurd hv (by decide)
    refine hgo (c.select .video type) (.av .video type []) _ _ ?_ (meet_contents (startFrame h type) .video type)
      (meet_refusals (startFrame h type) .video type).ge (avStart_follows .video past hg type ht hv rest)
    rw [start, if_neg hend, if_neg hp, if_neg ho, if_pos hv]
  by_cases ha : isAudioStream type = true
  · have hend : type ≠ MPEG_program_end_code := by
      rintro rfl
      exact absurd ha (by decide)
    refine hgo (c.select .audio type) (.av .audio type []) _ _ ?_ (meet_contents (startFrame h type) .audio type)
      (meet_refusals (startFrame h type) .audio type).ge (avStart_follows .audio past hg type ht ha rest)
    rw [start, if_neg hend, if_neg hp, if_neg ho, if_neg hv, if_pos ha]
  · rw [frameBody_none (h := startFrame h type) rest past rfl hg.ready.allowIframe hp ho hv ha]
    refine hgo c (.search 1) { startFrame h type with state := 1 } (_, 0) ?_ rfl (le_refl _)
      (.stay [] (hg.of_frame rfl rfl rfl) (.search_one rfl rest) rfl (.inl rfl))
    rw [start, if_neg hp, if_neg ho, if_neg hv, if_neg ha, ite_self]

end Frame

section Loop
variable {full : Bool} {c : Config} {p : Place} {h : Handle} {pend buf : List UInt8}

theorem At.state (hat : At h pend p buf) : isHeaderState h.state = true ∨ isFrameState h.state = true := by
  cases hat with
  | search _ hh => exact .inl hh
  | doubt state _ hst hor => rcases hst with rfl | rfl <;> rcases hor with he | he <;> exact .inl (by rw [he]; rfl)
  | peeked b _ h1 => exact .inl (by rw [h1]; rfl)
  | stuffed _ hst => exact hst.imp (fun h1 => by rw [h1]; rfl) fun hs => by rw [hs.1]; rfl
  | pack _ hs => exact .inr (by rw [hs]; rfl)
  | pack2 _ hs => exact .inr (by rw [hs]; rfl)
  | other _ hs => exact .inr (isFrameState_of_other hs)
  | skip _ hs => exact .inr hs
  | private1 _ hs => exact .inr (by rw [hs]; rfl)
  | av sid _ hs => exact .inr (isFrameState_of_av sid hs)
  | copy sid _ hs => exact .inr (isFrameState_of_av sid hs)
  | owed _ hs => exact .inr (isFrameState_of_av .audio hs)
  | stuck sid _ hs => exact .inr (isFrameState_of_av sid hs)

/-- The places in the search for a start code; nothing is pending there. -/
theorem At.header (hat : At h pend p buf) (hh : isHeaderState h.state = true) :
    pend = [] ∧ (p = .search h.state ∨
      (∃ state, p = .doubt state ∧ (state = 1 ∨ state = 2) ∧ (h.state = state ∨ h.state = state + 1)) ∨
      (∃ b rest, p = .pack2 2 ∧ buf = b :: rest ∧ h.state = 1 ∧ b &&& 7 = 0) ∨ p = .stuffed ∧ h.state = 1) := by
  have hno (hf : isFrameState h.state = true) : False := by
    rw [not_header_of_frame hf] at hh
    exact absurd hh (by decide)
  cases hat with
  | search => exact ⟨rfl, .inl rfl⟩
  | doubt state _ hst hor => exact ⟨rfl, .inr (.inl ⟨state, rfl, hst, hor⟩)⟩
  | peeked b rest h1 hb => exact ⟨rfl, .inr (.inr (.inl ⟨b, rest, rfl, rfl, h1, hb⟩))⟩
  | stuffed _ hst =>
    rcases hst with h1 | ⟨hs, -⟩
    · exact ⟨rfl, .inr (.inr (.inr ⟨rfl, h1⟩))⟩
    · exact (hno (by rw [hs]; rfl)).elim
  | pack _ hs => exact (hno (by rw [hs]; rfl)).elim
  | pack2 _ hs => exact (hno (by rw [hs]; rfl)).elim
  | other _ hs => exact (hno (isFrameState_of_other hs)).elim
  | skip _ hs => exact (hno hs).elim
  | private1 _ hs => exact (hno (by rw [hs]; rfl)).elim
  | av sid _ hs => exact (hno (isFrameState_of_av sid hs)).elim
  | copy sid _ hs => exact (hno (isFrameState_of_av sid hs)).elim
  | owed _ hs => exact (hno (isFrameState_of_av .audio hs)).elim
  | stuck sid _ hs => exact (hno (isFrameState_of_av sid hs)).elim

theorem At.search_four (hat : At h pend p buf) (h4 : h.state = 4) : p = .search 4 := by
  obtain ⟨-, hp | ⟨state, -, hst, hor⟩ | ⟨b, rest, -, -, h1, -⟩ | ⟨-, h1⟩⟩ := hat.header (by rw [h4]; rfl)
  · rw [hp, h4]
  · omega
  · omega
  · omega

/-- The place depends on the fields of the frame parser and on the streams selected. -/
theorem At.same {h' : Handle} (hat : At h pend p buf) (hsame : SameFrame h h')
    (ha : h'.audio.attr.current = h.audio.attr.current) (hv : h'.video.attr.current = h.video.attr.current) :
    At h' pend p buf := by
  obtain ⟨e1, e2, e3, e4, e5, e6, e7, e8, e9⟩ := hsame
  have hcur (sid : StreamId) : (h'.stream sid).attr.current = (h.stream sid).attr.current := by
    cases sid
    · exact ha
    · exact hv
  cases hat with
  | search rest hh =>
    rw [← e1] at hh ⊢
    exact .search buf hh
  | doubt state rest hst hor => exact .doubt state buf hst (by rw [e1]; exact hor)
  | pack rest hs hr hb =>
    rw [← e4, ← e5]
    exact .pack buf (e1.trans hs) (e3.trans hr) (by rw [e5]; exact hb)
  | pack2 rest hs hr hr3 h3 =>
    rw [← e3] at hr hr3 ⊢
    exact .pack2 buf (e1.trans hs) hr hr3 (e2.trans h3)
  | peeked b rest h1 hb => exact .peeked b rest (e1.trans h1) hb
  | stuffed rest hst => exact .stuffed buf (by rw [e1, e2, e3]; exact hst)
  | other rest hs hr hb =>
    rw [← e1, ← e4, ← e5]
    exact .other buf (by rw [e1]; exact hs) (e3.trans hr) (by rw [e5]; exact hb)
  | skip rest hs hr h0 =>
    rw [← e3] at hr ⊢
    exact .skip buf (by rw [e1]; exact hs) hr (e2.trans h0)
  | private1 rest hs hr h4 hl =>
    rw [← e3, ← e8, ← e9]
    exact .private1 buf (e1.trans hs) (by rw [e3]; exact hr) (e2.trans h4) (by rw [e3, e9]; exact hl)
  | av sid rest hs hc hr hb hn =>
    rw [← e1, ← e4, ← e5]
    exact .av sid buf (by rw [e1]; exact hs) (by rw [hcur]; exact hc) (e3.trans hr) (by rw [e5]; exact hb)
      (e6.trans hn)
  | copy sid rest hs hr hl hfs =>
    rw [← e3] at hr hl ⊢
    exact .copy sid buf (by rw [e1]; exact hs) hr hl (e2.trans hfs)
  | owed rest hs hp hr hb hn =>
    have howed : owedHeader h' = owedHeader h := by
      rw [owedHeader, e6, e1, e4]
      rfl
    have hlen : frameLength h' = frameLength h := by
      rw [frameLength, e4]
      rfl
    rw [← howed, ← hlen]
    exact .owed buf (by rw [e1]; exact hs) (by rw [e1, ha]; exact hp) (e3.trans hr) (e5.trans hb) (by rw [e6]; exact hn)
  | stuck sid rest hs hnp hr hb hl =>
    refine .stuck sid buf (by rw [e1]; exact hs) ?_ (e3.trans hr) (e5.trans hb) ?_
    · rw [Stream.notPlayed, hcur, e1]
      exact hnp
    · rw [frameLength, e4]
      exact hl

theorem At.counted (hat : At h pend p buf) (n : Nat) : At (h.counted n) pend p buf :=
  hat.same ⟨rfl, rfl, rfl, rfl, rfl, rfl, rfl, rfl, rfl⟩ rfl rfl

theorem Good.counted (hg : Good h c) (n : Nat) : Good (h.counted n) c := hg.of_frame rfl rfl rfl

theorem Follows.counted {r : Handle × Nat} (hf : Follows full c p h pend buf r) (n : Nat) :
    Follows full c p h pend buf (r.1.counted n, r.2) :=
  hf.imp_right fun ⟨pend', hg, hat, hcon, hpend⟩ => ⟨pend', hg.counted n, hat.counted n, hcon, hpend⟩

/-- A second call on what the first one left. -/
theorem Follows.andThen {r t : Handle × Nat} (hf : Follows full c p h pend buf r) (href : h.refusals ≤ r.1.refusals)
    (hnext : ∀ (c' : Config) (pend' : List UInt8), Good r.1 c' → At r.1 pend' c'.place (buf.drop r.2) →
      Follows full c' c'.place r.1 pend' (buf.drop r.2) t) :
    Follows full c p h pend buf (t.1, r.2 + t.2) := by
  rcases hf with hcut | ⟨pend', hg, hat, hcon, -⟩
  · refine .of_cut ?_
    rw [List.take_add, run_append, run_cut full _ hcut]
    exact hcut
  · exact .prepend rfl hcon href (hnext _ pend' hg hat)

/-- One byte of the search, in the handle and in the machine. -/
private theorem scan_follows (full : Bool) (c : Config) {b : UInt8} {rest : List UInt8} (hat : At h pend p (b :: rest))
    (hh : isHeaderState h.state = true) (h4 : h.state ≠ 4) :
    (step full (c.goto p) b).1.place = .cut ∨ ∃ p', step full (c.goto p) b = (c.goto p', []) ∧
      At { h with state := scanByte h.state b } [] p' rest := by
  have hone (he : scanByte h.state b = 1) : At { h with state := scanByte h.state b } [] (.search 1) rest :=
    .search_one he rest
  obtain ⟨-, rfl | ⟨state, rfl, hst, hor⟩ | ⟨b', rest', rfl, hbuf, h1, hb⟩ | ⟨rfl, h1⟩⟩ := hat.header hh
  · refine .inr ⟨.search (scanByte h.state b), if_neg h4, ?_⟩
    exact .search (h := { h with state := scanByte h.state b }) rest (scanByte_header ..)
  · rcases hst with rfl | rfl
    · by_cases hb : b = 0
      · refine .inr ⟨.doubt 2, by simp [step, Config.goto, hb], .doubt 2 rest (.inr rfl) ?_⟩
        rcases hor with he | he <;> simp [he, hb, scanByte]
      · refine .inr ⟨.search 1, by simp [step, Config.goto, hb], hone ?_⟩
        rcases hor with he | he <;> simp [he, hb, scanByte]
    · by_cases hb1 : b = 1
      · exact .inl (by simp [step, Config.goto, hb1])
      · by_cases hb : b = 0
        · have h3 : scanByte h.state b = 3 := by
            rcases hor with he | he <;> simp [he, hb, scanByte]
          refine .inr ⟨.search 3, by simp [step, Config.goto, hb], ?_⟩
          rw [h3]
          exact .search (h := { h with state := 3 }) rest rfl
        · refine .inr ⟨.search 1, by simp [step, Config.goto, hb, hb1], hone ?_⟩
          rcases hor with he | he <;> simp [he, hb, hb1, scanByte]
  · -- the byte that `parse_frame` has already looked at
    obtain ⟨rfl, rfl⟩ := List.cons.inj hbuf
    refine .inr ⟨tenthByte b, by simp [step, Config.goto], ?_⟩
    rw [tenthByte, if_pos hb, h1]
    by_cases h0 : b = 0
    · rw [if_pos h0]
      exact .doubt 1 rest (.inl rfl) (.inr (by simp [h0, scanByte]))
    · rw [if_neg h0]
      exact .search_one (by simp [h0, scanByte]) rest
  · exact .inl rfl

/-- `add_buffer` follows the machine. -/
theorem addBufferLoop_follows (past : Nat → UInt8) (fuel : Nat) (h : Handle) (buf : List UInt8) (c : Config)
    (p : Place) (hg : Good h c) (hat : At h [] p buf) (hh : isHeaderState h.state = true) (hfuel : buf.length ≤ fuel)
    (hroom : full = true ∨ (addBufferLoop past fuel h buf).1.refusals ≤ h.refusals) :
    Follows full c p h [] buf (addBufferLoop past fuel h buf) := by
  fun_induction addBufferLoop past fuel h buf generalizing c p with
  | case1 h buf => exact .stay [] hg hat rfl (.inl rfl)
  | case2 fuel h => exact .stay [] hg hat rfl (.inl rfl)
  | case3 fuel h b rest hs r h' hne =>
    obtain rfl := hat.search_four hs
    have hf : Follows full c (.search 4) h [] (b :: rest) r := parseFrame_follows past hg b rest hroom
    have hle : h.refusals ≤ r.1.refusals := parseFrame_refusals_le h (b :: rest) past 0
    exact hf.counted _
  | case4 fuel h b rest hs r h' hone t ih =>
    obtain rfl := hat.search_four hs
    have hle : h.refusals ≤ r.1.refusals := parseFrame_refusals_le h (b :: rest) past 0
    have hmore : h'.refusals ≤ t.1.refusals := addBufferLoop_refusals_le ..
    have hf : Follows full c (.search 4) h [] (b :: rest) r :=
      parseFrame_follows past hg b rest (hroom.imp_right fun hge => hmore.trans hge)
    refine (hf.counted (r.2 + 1)).andThen (t := t) hle fun c' pend' hg' hat' => ?_
    have hh' : isHeaderState h'.state = true := by
      rw [not_not.mp hone]
      rfl
    obtain rfl := (hat'.header hh').1
    refine ih c' c'.place hg' hat' hh' ?_ (hroom.imp_right fun hge => hge.trans hle)
    have hpos : 0 < r.2 := by
      simp only [r, parseFrame_type]
      exact Nat.succ_pos _
    rw [List.length_cons] at hfuel
    rw [List.length_drop, List.length_cons]
    omega
  | case5 fuel h b rest hs t ih =>
    have hcount : 1 + t.2 = t.2 + 1 := Nat.add_comm ..
    rcases scan_follows full c hat hh hs with hcut | ⟨p', hstep, hat'⟩
    · refine .of_cut ?_
      rw [hcount, List.take_succ_cons, run_cons, run_cut full _ hcut]
      exact hcut
    · have hrun : run (step full) (c.goto p) ((b :: rest).take 1) = (c.goto p', []) := by
        rw [List.take_succ_cons, List.take_zero, run_singleton, hstep]
      refine .prepend hrun (by simp) (le_refl _) (ih c p' (hg.of_frame rfl rfl rfl) (hat'.counted 1) ?_ ?_ hroom)
      · exact scanByte_header ..
      · exact Nat.le_of_succ_le_succ hfuel

/-- Every call of the parser follows the machine. -/
theorem parserCall_follows (past : Nat → UInt8) (hb : buf ≠ []) (hg : Good h c) (hat : At h pend p buf)
    (hroom : full = true ∨ (parserCall h buf past).1.refusals ≤ h.refusals) :
    Follows full c p h pend buf (parserCall h buf past) := by
  by_cases hh : isHeaderState h.state = true
  · obtain rfl := (hat.header hh).1
    rw [parserCall, if_pos hh] at hroom ⊢
    exact addBufferLoop_follows past buf.length h buf c p hg hat hh (le_refl _) hroom
  · have hf : isFrameState h.state = true := hat.state.resolve_left hh
    rw [parserCall, if_neg hh, parseFrame_frame past hf hb] at hroom ⊢
    exact frameBody_follows past hg hat hf hroom

end Loop
end Mvpmc.Demux.ProgramStream
