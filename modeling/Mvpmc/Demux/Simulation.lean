import Mvpmc.Demux.Adds

/-! Every call of the parser follows the machine of `ProgramStream`, byte for byte,
as long as the machine does not reach a place where the cut decides. -/
namespace Mvpmc.Demux.ProgramStream
open Mvpmc.Lib Mvpmc.Lib.Transducer Mvpmc.Lib.Circular

/-- The header bytes of an audio packet that are read but not yet in the ring. -/
def owedHeader (h : Handle) : List UInt8 :=
  (if h.headernum = 0 then startCode h.state else []) ++ slice h.buf 0 2

/-- The handle is at a place of the machine. `pend` are bytes that the machine has sent
and the ring refused so far, `rest` is what is left of the buffer. -/
inductive At (h : Handle) : List UInt8 → Place → List UInt8 → Prop where
  | search (rest : List UInt8) : isHeaderState h.state = true → At h [] (.search h.state) rest
  | doubt (state : Nat) (rest : List UInt8) : state = 1 ∨ state = 2 → h.state = state ∨ h.state = state + 1 →
      At h [] (.doubt state) rest
  | pack (rest : List UInt8) : h.state = pack_start_code → h.remain = 0 → h.bufsz < 7 →
      At h [] (.pack (slice h.buf 0 h.bufsz)) rest
  | pack2 (rest : List UInt8) : h.state = pack_start_code → h.remain ≠ 0 → h.remain ≤ 3 → h.frameState = 3 →
      At h [] (.pack2 (3 - h.remain)) rest
  /-- `parse_frame` looked at the tenth byte and left it to the search. -/
  | peeked (b : UInt8) (rest : List UInt8) : h.state = 1 → b &&& 7 = 0 → At h [] (.pack2 2) (b :: rest)
  | stuffed (rest : List UInt8) :
      h.state = 1 ∨ h.state = pack_start_code ∧ h.remain ≠ 0 ∧ h.remain ≤ 7 ∧ h.frameState = 1 →
      At h [] .stuffed rest
  | other (rest : List UInt8) : isOtherStream h.state = true → h.remain = 0 → h.bufsz < 2 →
      At h [] (.other h.state (slice h.buf 0 h.bufsz)) rest
  | skip (rest : List UInt8) : isFrameState h.state = true → h.remain ≠ 0 → h.frameState = 0 →
      At h [] (.skip h.remain) rest
  | private1 (rest : List UInt8) : h.state = private_stream_1 → h.remain ≠ 0 → h.frameState = 4 →
      h.spuLen + h.remain ≤ 65535 → At h [] (.private1 (h.spuLen + h.remain) (slice h.spuBuf 0 h.spuLen)) rest
  | av (sid : StreamId) (rest : List UInt8) : isAv sid h.state = true → (h.stream sid).attr.current ≠ noStream →
      h.remain = 0 → h.bufsz < 2 → h.headernum = 0 → At h [] (.av sid h.state (slice h.buf 0 h.bufsz)) rest
  | copy (sid : StreamId) (rest : List UInt8) : isAv sid h.state = true → h.remain ≠ 0 → h.remain ≤ 65535 →
      h.frameState = sid.frameState → At h [] (.copy sid h.remain) rest
  /-- The audio ring refused a part of the header. -/
  | owed (rest : List UInt8) : isAudioStream h.state = true → h.state = h.audio.attr.current → h.remain = 0 →
      h.bufsz = 2 → h.headernum ≤ 1 → At h (owedHeader h) (remaining (frameLength h) (.copy .audio)) rest
  | stuck (sid : StreamId) (rest : List UInt8) : isAv sid h.state = true → (h.stream sid).notPlayed h.state →
      h.remain = 0 → h.bufsz = 2 → frameLength h = 0 → At h [] .stuck rest

/-- The machine goes from the place `p` over the bytes consumed, and the result `r` of
the call is where the machine is then; what the machine sent is in the ring or pending. -/
def Follows (full : Bool) (c : Config) (p : Place) (h : Handle) (pend buf : List UInt8) (r : Handle × Nat) : Prop :=
  let t := run (step full) (c.goto p) (buf.take r.2)
  t.1.place = .cut ∨ ∃ pend', Good r.1 t.1 ∧ At r.1 pend' t.1.place (buf.drop r.2) ∧
    r.1.audio.contents ++ pend' = h.audio.contents ++ pend ++ t.2 ∧ (pend' = [] ∨ h.refusals < r.1.refusals)

section Follows
variable {full : Bool} {c : Config} {p : Place} {h : Handle} {pend buf : List UInt8}

/-- A call whose bytes lead the machine to a known place. -/
theorem Follows.intro {r : Handle × Nat} {c' : Config} {w : List UInt8} (pend' : List UInt8)
    (hrun : run (step full) (c.goto p) (buf.take r.2) = (c', w)) (hg : Good r.1 c')
    (hat : At r.1 pend' c'.place (buf.drop r.2))
    (hcon : r.1.audio.contents ++ pend' = h.audio.contents ++ pend ++ w)
    (hpend : pend' = [] ∨ h.refusals < r.1.refusals) : Follows full c p h pend buf r := by
  refine .inr ⟨pend', ?_, ?_, ?_, hpend⟩
  · rw [hrun]
    exact hg
  · rw [hrun]
    exact hat
  · rw [hrun]
    exact hcon

/-- A call that sends nothing to the audio ring. -/
theorem Follows.quiet {r : Handle × Nat} {c' : Config}
    (hrun : run (step full) (c.goto p) (buf.take r.2) = (c', [])) (hg : Good r.1 c')
    (hat : At r.1 [] c'.place (buf.drop r.2)) (hcon : r.1.audio.contents = h.audio.contents) :
    Follows full c p h [] buf r :=
  .intro [] hrun hg hat (by simp [hcon]) (.inl rfl)

theorem Follows.of_cut {r : Handle × Nat} (hrun : (run (step full) (c.goto p) (buf.take r.2)).1.place = .cut) :
    Follows full c p h pend buf r :=
  .inl hrun

/-- A call that consumes nothing and leaves the machine where it is. -/
theorem Follows.stay {h' : Handle} (pend' : List UInt8) (hg : Good h' c) (hat : At h' pend' p buf)
    (hcon : h'.audio.contents ++ pend' = h.audio.contents ++ pend)
    (hpend : pend' = [] ∨ h.refusals < h'.refusals) : Follows full c p h pend buf (h', 0) :=
  .intro pend' (by rw [List.take_zero, run_nil]) (hg.goto p) hat (by simpa using hcon) hpend

/-- First `k` bytes, then a call on what is behind them. -/
theorem Follows.prepend {c' : Config} {p' : Place} {g : Handle} {pend' w : List UInt8} {k : Nat} {r : Handle × Nat}
    (hrun : run (step full) (c.goto p) (buf.take k) = (c'.goto p', w))
    (hcon : g.audio.contents ++ pend' = h.audio.contents ++ pend ++ w) (href : h.refusals ≤ g.refusals)
    (hf : Follows full c' p' g pend' (buf.drop k) r) : Follows full c p h pend buf (r.1, k + r.2) := by
  have htake : buf.take (k + r.2) = buf.take k ++ (buf.drop k).take r.2 := List.take_add
  have hall : run (step full) (c.goto p) (buf.take (k + r.2)) =
      ((run (step full) (c'.goto p') ((buf.drop k).take r.2)).1,
        w ++ (run (step full) (c'.goto p') ((buf.drop k).take r.2)).2) := by
    rw [htake, run_append, hrun]
  rcases hf with hcut | ⟨pend'', hg, hat, hcon', hpend⟩
  · refine .of_cut ?_
    rw [hall]
    exact hcut
  · refine .intro pend'' hall hg ?_ ?_ ?_
    · rw [← List.drop_drop]
      exact hat
    · rw [hcon', hcon]
      simp
    · exact hpend.imp_right fun hlt => by dsimp only; omega

/-- A call after some of the pending bytes went into the ring. -/
theorem Follows.mono {g : Handle} {w : List UInt8} {r : Handle × Nat} (pend' : List UInt8) (ha : Adds h g w)
    (hw : pend = w ++ pend') (href : h.refusals ≤ g.refusals) (hf : Follows full c p g pend' buf r) :
    Follows full c p h pend buf r := by
  rcases hf with hcut | ⟨pend'', hg, hat, hcon, hpend⟩
  · exact .of_cut hcut
  · refine .inr ⟨pend'', hg, hat, ?_, hpend.imp_right fun hlt => by omega⟩
    rw [hcon, ha.contents, hw]
    simp

end Follows
theorem At.search_one {h : Handle} (h1 : h.state = 1) (rest : List UInt8) : At h [] (.search 1) rest := by
  rw [← h1]
  exact .search rest (by rw [h1]; rfl)

section Continue
variable {full : Bool} {c : Config} {h : Handle} {buf : List UInt8}

private theorem consume_adds {g : Handle} (hr : Ready g) (n : Nat) : Adds g (consume g n) [] := by
  rw [consume_frame]
  exact .of_frame hr rfl rfl rfl

private theorem consume_zero {g : Handle} (hr : g.remain ≠ 0) : consume g 0 = g := by
  rw [consume, if_neg hr]
  rfl

/-- After `n` bytes of a frame: the search, or the frame with less remaining. -/
private theorem consume_at {g : Handle} {n : Nat} (rest : List UInt8) (place : Nat → Place)
    (hmore : g.remain ≠ n → At { g with remain := g.remain - n } [] (place (g.remain - n)) rest)
    (hn : n ≤ g.remain) : At (consume g n) [] (remaining (g.remain - n) place) rest := by
  rw [consume, remaining]
  by_cases he : g.remain = n
  · rw [if_pos he, if_pos (by omega)]
    exact .search_one rfl rest
  · rw [if_neg he, if_neg (by omega)]
    exact hmore he

private theorem take_min_length (n : Nat) : (buf.take (min n buf.length)).length = min n buf.length := by
  rw [List.length_take]
  omega

theorem skip_follows (hg : Good h c) (hf : isFrameState h.state = true) (hr : h.remain ≠ 0)
    (h0 : h.frameState = 0) : Follows full c (.skip h.remain) h [] buf (continueFrame h buf) := by
  have heq : continueFrame h buf = (consume h (min h.remain buf.length), min h.remain buf.length) := by
    rw [continueFrame, h0]
    rfl
  have hadds := consume_adds hg.ready (min h.remain buf.length)
  have hrun := run_skip full c h.remain hr (buf.take (min h.remain buf.length))
    (by rw [take_min_length]; exact Nat.min_le_left ..)
  rw [take_min_length] at hrun
  rw [heq]
  refine .intro [] hrun ((hg.adds hadds).goto _) ?_ (by simp [hadds.contents]) (.inl rfl)
  refine consume_at _ .skip (fun hne => ?_) (Nat.min_le_left ..)
  have hlt : h.remain - min h.remain buf.length ≠ 0 := by
    have := Nat.min_le_left h.remain buf.length
    omega
  exact .skip (h := { h with remain := h.remain - min h.remain buf.length }) _ hf hlt h0

private theorem run_pack2 (full : Bool) (c : Config) (k : Nat) (xs : List UInt8) (hl : k + xs.length ≤ 2) :
    run (step full) (c.goto (.pack2 k)) xs = (c.goto (.pack2 (k + xs.length)), []) := by
  induction xs generalizing k with
  | nil => rfl
  | cons x xs ih =>
    rw [List.length_cons] at hl
    have hstep : step full (c.goto (.pack2 k)) x = (c.goto (.pack2 (k + 1)), []) := by
      simp only [step, Config.goto, if_pos (show k < 2 by omega)]
    rw [run_cons, hstep, ih (k + 1) (by omega), List.length_cons]
    simp only [List.append_nil, Nat.add_assoc, Nat.add_comm 1]

/-- The search goes on after the tenth byte of a pack header. -/
private theorem tenthByte_at {g : Handle} (h1 : g.state = 1) (b : UInt8) (rest : List UInt8) :
    At g [] (tenthByte b) rest := by
  unfold tenthByte
  split
  · split
    · exact .doubt 1 rest (.inl rfl) (.inl h1)
    · exact .search_one h1 rest
  · split
    · exact .search_one h1 rest
    · exact .stuffed rest (.inl h1)

theorem pack2_follows (hg : Good h c) (hs : h.state = pack_start_code) (hr : h.remain ≠ 0)
    (hr3 : h.remain ≤ 3) (h3 : h.frameState = 3) :
    Follows full c (.pack2 (3 - h.remain)) h [] buf (continueFrame h buf) := by
  have heq : continueFrame h buf = (consume h (min h.remain buf.length), min h.remain buf.length) := by
    rw [continueFrame, h3]
    rfl
  have hadds := consume_adds hg.ready (min h.remain buf.length)
  rw [heq]
  rcases Nat.lt_or_ge buf.length h.remain with hlt | hge
  · -- the header is not complete yet
    rw [Nat.min_eq_right hlt.le] at hadds ⊢
    have hrun := run_pack2 full c (3 - h.remain) (buf.take buf.length) (by rw [List.take_length]; omega)
    rw [List.take_length] at hrun
    refine .intro [] (by rw [List.take_length]; exact hrun) ((hg.adds hadds).goto _) ?_
      (by simp [hadds.contents]) (.inl rfl)
    have hcons : consume h buf.length = { h with remain := h.remain - buf.length } := by
      rw [consume, if_neg (by omega)]
    rw [hcons]
    have hplace : 3 - h.remain + buf.length = 3 - (h.remain - buf.length) := by omega
    rw [hplace]
    exact .pack2 (h := { h with remain := h.remain - buf.length }) _ hs (by dsimp only; omega)
      (by dsimp only; omega) h3
  · rw [Nat.min_eq_left hge] at hadds ⊢
    have hne : buf.take h.remain ≠ [] := by
      intro he
      have := congrArg List.length he
      rw [List.length_take, Nat.min_eq_left hge] at this
      exact hr this
    obtain ⟨ys, y, hys⟩ := (List.eq_nil_or_concat (buf.take h.remain)).resolve_left hne
    rw [List.concat_eq_append] at hys
    have hlen : ys.length + 1 = h.remain := by
      have := congrArg List.length hys
      rw [List.length_take, Nat.min_eq_left hge, List.length_append, List.length_singleton] at this
      exact this.symm
    have hlast : step full (c.goto (.pack2 2)) y = (c.goto (tenthByte y), []) := rfl
    have hrun : run (step full) (c.goto (.pack2 (3 - h.remain))) (buf.take h.remain) =
        (c.goto (tenthByte y), []) := by
      rw [hys, run_append, run_pack2 full c _ ys (by omega), show 3 - h.remain + ys.length = 2 by omega,
        run_singleton, hlast, List.append_nil]
    refine .intro [] hrun ((hg.adds hadds).goto _) ?_ (by simp [hadds.contents]) (.inl rfl)
    refine tenthByte_at ?_ y _
    rw [consume, if_pos rfl]

/-- A payload that goes on in the ring of its stream. -/
theorem copy_follows (sid : StreamId) (hg : Good h c) (hs : isAv sid h.state = true) (hr : h.remain ≠ 0)
    (hl : h.remain ≤ 65535) (hfs : h.frameState = sid.frameState) :
    Follows full c (.copy sid h.remain) h [] buf (continueFrame h buf) := by
  have hmin := Nat.min_le_left h.remain buf.length
  have hrun := run_copy full c sid h.remain hr (buf.take (min h.remain buf.length))
    (by rw [take_min_length]; exact hmin)
  rw [take_min_length] at hrun
  have hmore (g : Handle) (n : Nat) (hsame : SameFrame h g) (hle : n ≤ h.remain) (hne : g.remain ≠ n)
      (rest : List UInt8) : At { g with remain := g.remain - n } [] (.copy sid (g.remain - n)) rest := by
    rw [hsame.remain] at hne ⊢
    refine .copy (h := { g with remain := h.remain - n }) sid rest ?_ ?_ ?_ ?_
    · exact hsame.state ▸ hs
    · change h.remain - n ≠ 0
      omega
    · change h.remain - n ≤ 65535
      omega
    · exact hsame.frameState.trans hfs
  -- the ring takes the bytes, or is full and nothing is consumed
  have htaken (g : Handle) {w : List UInt8} (hsame : SameFrame h g) (ha : Adds h g w)
      (hw : w = if sid = .audio then buf.take (min h.remain buf.length) else []) :
      Follows full c (.copy sid h.remain) h [] buf
        (consume g (min h.remain buf.length), min h.remain buf.length) := by
    have hadds := ha.trans (consume_adds ha.ready (min h.remain buf.length))
    refine .intro [] hrun ((hg.adds hadds).goto _) ?_ (by simp [hadds.contents, hw]) (.inl rfl)
    have hat := consume_at (buf.drop (min h.remain buf.length)) (.copy sid)
      (fun hne => hmore _ _ hsame hmin hne _) (by rw [hsame.remain]; exact hmin)
    rw [hsame.remain] at hat
    exact hat
  have hrefused (g : Handle) (hsame : SameFrame h g) (ha : Adds h g []) :
      Follows full c (.copy sid h.remain) h [] buf (consume g 0, 0) := by
    rw [consume_zero (by rw [hsame.remain]; exact hr)]
    refine .stay [] (hg.adds ha) ?_ (by simp [ha.contents]) (.inl rfl)
    rw [← hsame.remain]
    refine .copy sid buf ?_ ?_ ?_ (hsame.frameState.trans hfs)
    · rw [hsame.state]
      exact hs
    · rw [hsame.remain]
      exact hr
    · rw [hsame.remain]
      exact hl
  rw [continueFrame, hfs]
  cases sid with
  | audio =>
    have hsame := streamAdd_sameFrame h .audio (buf.take (min h.remain buf.length)) true
    change Follows full c _ h [] buf (consume (streamAdd h .audio _ true).1 (streamAdd h .audio _ true).2,
      (streamAdd h .audio _ true).2)
    rcases streamAdd_audio_adds hg.ready (buf.take (min h.remain buf.length))
        (by rw [take_min_length]; omega) with ⟨hn, ha⟩ | ⟨hn, -, ha, -⟩
    · rw [hn, take_min_length]
      exact htaken _ hsame ha rfl
    · rw [hn]
      exact hrefused _ hsame ha
  | video =>
    have hsame := streamAdd_sameFrame h .video (buf.take (min h.remain buf.length)) false
    have ha := streamAdd_video_adds hg.ready (buf.take (min h.remain buf.length))
    change Follows full c _ h [] buf (consume (streamAdd h .video _ false).1 (streamAdd h .video _ false).2,
      (streamAdd h .video _ false).2)
    rcases streamAdd_count h .video (buf.take (min h.remain buf.length)) false with hn | hn
    · rw [hn, take_min_length]
      exact htaken _ hsame ha rfl
    · rw [hn]
      exact hrefused _ hsame ha

/-- Stuffing bytes that go to the audio ring: the machine has stopped at the first. -/
theorem stuffed_follows (hg : Good h c) (hs : h.state = pack_start_code) (hr : h.remain ≠ 0)
    (hr7 : h.remain ≤ 7) (h1 : h.frameState = 1) : Follows full c .stuffed h [] buf (continueFrame h buf) := by
  have heq : continueFrame h buf =
      (consume (streamAdd h .audio (buf.take (min h.remain buf.length)) true).1
        (streamAdd h .audio (buf.take (min h.remain buf.length)) true).2,
        (streamAdd h .audio (buf.take (min h.remain buf.length)) true).2) := by
    rw [continueFrame, h1]
    rfl
  have hsame := streamAdd_sameFrame h .audio (buf.take (min h.remain buf.length)) true
  have hstay {w : List UInt8} (ha : Adds h (streamAdd h .audio (buf.take (min h.remain buf.length)) true).1 w)
      (hw : w = []) : Follows full c .stuffed h [] buf
        (consume (streamAdd h .audio (buf.take (min h.remain buf.length)) true).1 0, 0) := by
    rw [consume_zero (by rw [hsame.remain]; exact hr)]
    refine .stay [] (hg.adds ha) ?_ (by simp [ha.contents, hw]) (.inl rfl)
    refine .stuffed buf (.inr ⟨hsame.state.trans hs, ?_, ?_, hsame.frameState.trans h1⟩)
    · rw [hsame.remain]
      exact hr
    · rw [hsame.remain]
      exact hr7
  rw [heq]
  rcases streamAdd_audio_adds hg.ready (buf.take (min h.remain buf.length))
      (by rw [take_min_length]; omega) with ⟨hn, ha⟩ | ⟨hn, -, ha, -⟩
  · rw [take_min_length] at hn
    rcases buf with - | ⟨b, bs⟩
    · have h0 := hn.trans (Nat.min_zero _)
      rw [h0]
      exact hstay ha (by simp)
    · refine .of_cut ?_
      have htake : (b :: bs).take (min h.remain (b :: bs).length) =
          b :: bs.take (min h.remain (b :: bs).length - 1) := by
        rw [List.take_cons]
        rw [List.length_cons]
        omega
      rw [hn, htake, run_cons]
      exact (run_cut full (c.goto .cut) rfl _).symm ▸ rfl
  · rw [hn]
    exact hstay ha rfl

/-- A private packet that is collected in `spu_buf`. -/
theorem private1_follows (hg : Good h c) (hs : h.state = private_stream_1) (hr : h.remain ≠ 0)
    (h4 : h.frameState = 4) (hl : h.spuLen + h.remain ≤ 65535)
    (hroom : full = true ∨ (continueFrame h buf).1.refusals ≤ h.refusals) :
    Follows full c (.private1 (h.spuLen + h.remain) (slice h.spuBuf 0 h.spuLen)) h [] buf (continueFrame h buf) := by
  have heq : continueFrame h buf =
      (consume (gather h buf (min h.remain buf.length)) (min h.remain buf.length), min h.remain buf.length) := by
    rw [continueFrame, h4]
    rfl
  have hslice : slice (blit h.spuBuf h.spuLen (buf.take (min h.remain buf.length))) 0
      (h.spuLen + min h.remain buf.length) = slice h.spuBuf 0 h.spuLen ++ buf.take (min h.remain buf.length) := by
    have := slice_blit_append h.spuBuf 0 h.spuLen (buf.take (min h.remain buf.length))
    rwa [Nat.zero_add, take_min_length] at this
  rw [heq] at hroom ⊢
  rcases Nat.lt_or_ge buf.length h.remain with hlt | hge
  · rw [Nat.min_eq_right hlt.le] at hslice hroom ⊢
    have hgather : gather h buf buf.length =
        { h with spuBuf := blit h.spuBuf h.spuLen (buf.take buf.length), spuLen := h.spuLen + buf.length } := by
      rw [gather, if_neg]
      exact fun he => absurd he (by dsimp only; omega)
    have hcons : consume (gather h buf buf.length) buf.length = { h with
        spuBuf := blit h.spuBuf h.spuLen (buf.take buf.length), spuLen := h.spuLen + buf.length
        remain := h.remain - buf.length } := by
      rw [hgather, consume, if_neg]
      exact fun he => absurd he (by dsimp only; omega)
    have hrun := (collects_private full c (h.spuLen + h.remain)).run_lt (slice h.spuBuf 0 h.spuLen)
      (buf.take buf.length) (by rw [slice_length, List.take_length]; omega)
    rw [hcons]
    refine .intro [] hrun ((hg.goto _).of_frame rfl rfl rfl) ?_ (by simp) (.inl rfl)
    rw [← hslice]
    have hsum : h.spuLen + h.remain = h.spuLen + buf.length + (h.remain - buf.length) := by omega
    rw [hsum]
    exact .private1 (h := { h with
        spuBuf := blit h.spuBuf h.spuLen (buf.take buf.length), spuLen := h.spuLen + buf.length
        remain := h.remain - buf.length }) _ hs (by dsimp only; omega) h4 (by dsimp only; omega)
  · rw [Nat.min_eq_left hge] at hslice hroom ⊢
    have htake : (buf.take h.remain).length = h.remain := by rw [List.length_take, Nat.min_eq_left hge]
    have hrun := (collects_private full c (h.spuLen + h.remain)).run_eq (slice h.spuBuf 0 h.spuLen)
      (buf.take h.remain) (by intro he; rw [he] at htake; exact hr htake.symm) (by rw [slice_length, htake])
    obtain ⟨g, hgd⟩ : ∃ g : Handle, g = { h with
        spuBuf := blit h.spuBuf h.spuLen (buf.take h.remain), spuLen := h.spuLen + h.remain } := ⟨_, rfl⟩
    have hgood : Good g c := hgd ▸ hg.of_frame rfl rfl rfl
    have hcons : consume (gather h buf h.remain) h.remain =
        { parsePrivateStream1 g g.spuBuf (h.spuLen + h.remain) with spuLen := 0, state := 1 } := by
      have hgather : gather h buf h.remain =
          { parsePrivateStream1 g g.spuBuf (h.spuLen + h.remain) with spuLen := 0 } := by
        rw [gather, if_pos rfl, hgd]
      have hrem : (parsePrivateStream1 g g.spuBuf (h.spuLen + h.remain)).remain = h.remain := by
        rw [(parsePrivateStream1_sameFrame ..).remain, hgd]
      rw [hgather, consume, if_pos hrem]
    rw [hcons] at hroom ⊢
    have hpkt : (slice h.spuBuf 0 h.spuLen ++ buf.take h.remain).length = h.spuLen + h.remain := by
      rw [List.length_append, slice_length, htake]
    have hfol := private_follows full hgood g.spuBuf (slice h.spuBuf 0 h.spuLen ++ buf.take h.remain)
      (by rw [hpkt, hgd]; exact hslice) (by omega) (by
        rw [hpkt]
        refine hroom.imp_right fun hle => ?_
        rw [hgd] at hle ⊢
        exact hle)
    rw [hpkt] at hfol
    generalize privateDone full c (slice h.spuBuf 0 h.spuLen ++ buf.take h.remain) = d at hrun hfol
    rcases hfol with hcut | ⟨hg', hplace, hcon⟩
    · refine .of_cut ?_
      rw [hrun]
      exact hcut
    · refine .intro [] hrun (hg'.of_frame rfl rfl rfl) ?_ ?_ (.inl rfl)
      · rw [hplace]
        exact .search_one rfl _
      · rw [List.append_nil, List.append_nil]
        change (parsePrivateStream1 g g.spuBuf (h.spuLen + h.remain)).audio.contents = _
        rw [hcon, hgd]

end Continue

section Headers
variable {full : Bool} {c : Config} {h : Handle} {buf : List UInt8}

theorem collect_slice (h : Handle) (k : Nat) (buf : List UInt8) :
    slice (collect h k buf).1.buf 0 (collect h k buf).1.bufsz =
      slice h.buf 0 h.bufsz ++ buf.take (collect h k buf).2.1 := by
  have hle := collect_le h k buf
  have hs := slice_blit_append h.buf 0 h.bufsz (buf.take (collect h k buf).2.1)
  rw [Nat.zero_add, List.length_take, Nat.min_eq_left hle] at hs
  exact hs

/-- A header that is collected first. The body starts where the machine is after the
last header byte, with everything the machine sent for it still pending. -/
theorem withHeader_follows {k : Nat} {place : List UInt8 → Place} {done : List UInt8 → Config × List UInt8}
    {body : Handle → List UInt8 → Handle × Nat} (hg : Good h c)
    (hc : Collects (step full) k (fun got => c.goto (place got)) done) (hk : h.bufsz < k)
    (hlt : ∀ g : Handle, g = (collect h k buf).1 → g.bufsz < k → At g [] (place (slice g.buf 0 g.bufsz)) [])
    (hbody : ∀ (g : Handle) (rest : List UInt8), g = (collect h k buf).1 → rest = buf.drop (collect h k buf).2.1 →
      g.bufsz = k → Follows full (done (slice g.buf 0 k)).1 (done (slice g.buf 0 k)).1.place g
        (done (slice g.buf 0 k)).2 rest (body g rest)) :
    Follows full c (place (slice h.buf 0 h.bufsz)) h [] buf (withHeader k h buf body) := by
  have hle := collect_le h k buf
  have hslice := collect_slice h k buf
  have hsz : (collect h k buf).1.bufsz = h.bufsz + (collect h k buf).2.1 := rfl
  unfold withHeader
  by_cases hd : (collect h k buf).2.2 = true
  · rw [if_pos hd]
    have hn := collect_of_done h k buf hd
    have hfull : (collect h k buf).1.bufsz = k := by omega
    have hlen : (buf.take (collect h k buf).2.1).length = k - h.bufsz := by
      rw [List.length_take]
      omega
    have hrun := hc.run_eq (slice h.buf 0 h.bufsz) (buf.take (collect h k buf).2.1)
      (by intro he; rw [he] at hlen; simp only [List.length_nil] at hlen; omega) (by rw [slice_length, hlen]; omega)
    rw [← hslice, hfull] at hrun
    exact .prepend (g := (collect h k buf).1) hrun (by simp [collect]) (le_refl _) (hbody _ _ rfl rfl hfull)
  · rw [if_neg hd]
    have hn := collect_of_not_done h k buf (by simpa using hd)
    have hno : ¬ k ≤ buf.length + h.bufsz := fun hle => hd ((collect_done h k buf).mpr hle)
    have hrun := hc.run_lt (slice h.buf 0 h.bufsz) (buf.take (collect h k buf).2.1)
      (by rw [slice_length, List.length_take]; omega)
    rw [← hslice] at hrun
    refine .intro [] hrun ((hg.goto _).of_frame rfl rfl rfl) ?_ (by simp [collect]) (.inl rfl)
    have hrest : buf.drop (collect h k buf).2.1 = [] := by rw [hn, List.drop_length]
    rw [hrest]
    exact hlt (collect h k buf).1 rfl (by omega)

theorem frameLength_eq {g : Handle} : frameLength g = lengthOf (slice g.buf 0 2) := rfl

theorem frameLength_le (g : Handle) : frameLength g ≤ 65535 := by
  have h0 := byteAt_lt g.buf 0
  have h1 := byteAt_lt g.buf 1
  unfold frameLength
  omega

private theorem run_stuffed (full : Bool) (c : Config) (xs : List UInt8) (hx : xs ≠ []) :
    (run (step full) (c.goto .stuffed) xs).1.place = .cut := by
  obtain ⟨x, xs, rfl⟩ := List.exists_cons_of_ne_nil hx
  have hstep : step full (c.goto .stuffed) x = (c.goto .cut, []) := rfl
  rw [run_cons, hstep, run_cut full (c.goto .cut) rfl]
  rfl

private theorem run_tenth (full : Bool) (c : Config) (b0 b1 b2 : UInt8) (xs : List UInt8) :
    run (step full) (c.goto (.pack2 0)) (b0 :: b1 :: b2 :: xs) = run (step full) (c.goto (tenthByte b2)) xs := by
  have h0 : step full (c.goto (.pack2 0)) b0 = (c.goto (.pack2 1), []) := rfl
  have h1 : step full (c.goto (.pack2 1)) b1 = (c.goto (.pack2 2), []) := rfl
  have h2 : step full (c.goto (.pack2 2)) b2 = (c.goto (tenthByte b2), []) := rfl
  rw [run_cons, h0, run_cons, h1, run_cons, h2]
  simp

/-- An MPEG-2 pack header from its eighth byte on. -/
private theorem pack2Body_follows {g : Handle} (hg : Good g c) (hs : g.state = pack_start_code)
    (rest : List UInt8) (h1 : ¬ g.buf 0 &&& 0xf0 = 0x20) (h2 : g.buf 0 &&& 0xc0 = 0x40) :
    Follows full c (.pack2 0) g [] rest (packBody g rest) := by
  have hgood (p : Place) (g' : Handle) (ha : g'.audio = g.audio) (hv : g'.video = g.video.setType 2)
      (hi : g'.allowIframe = g.allowIframe) : Good g' (c.goto p) :=
    Good.adds (hg.goto p) (.of_same hg.ready (ha ▸ ⟨rfl, rfl, rfl, rfl, rfl⟩) (by rw [hv]; rfl) hi (by rw [ha])
      (by rw [hv]; rfl))
  unfold packBody
  rw [if_neg h1, if_pos h2]
  dsimp only
  rcases Nat.lt_or_ge rest.length 3 with hlt | hge
  · rw [if_neg (by omega)]
    have hrun := run_pack2 full c 0 (rest.take rest.length) (by rw [List.take_length]; omega)
    rw [List.take_length, Nat.zero_add] at hrun
    refine .quiet (by rw [List.take_length]; exact hrun) (hgood (.pack2 rest.length) _ rfl rfl rfl) ?_ rfl
    rw [show (c.goto (.pack2 rest.length)).place = .pack2 (3 - (3 - rest.length)) by
      rw [show 3 - (3 - rest.length) = rest.length by omega]; rfl]
    exact .pack2 _ hs (by dsimp only; omega) (by dsimp only; omega) rfl
  · rw [if_pos hge]
    obtain ⟨b0, b1, b2, xs, rfl⟩ : ∃ b0 b1 b2 xs, rest = b0 :: b1 :: b2 :: xs := by
      match rest, hge with
      | b0 :: b1 :: b2 :: xs, _ => exact ⟨b0, b1, b2, xs, rfl⟩
    have hget : (b0 :: b1 :: b2 :: xs).getD 2 0 = b2 := rfl
    have hlen : (b0 :: b1 :: b2 :: xs).length = xs.length + 3 := rfl
    rw [hget, hlen]
    have hzero (hn : (b2 &&& 7).toNat = 0) : b2 &&& 7 = 0 := UInt8.toNat_inj.mp hn
    have hone (hn : (b2 &&& 7).toNat = 1) : b2 &&& 7 = 1 := UInt8.toNat_inj.mp hn
    -- the stuffing bytes: none, one, or so many that the cut decides
    rcases Nat.lt_trichotomy (b2 &&& 7).toNat 1 with hn | hn | hn
    · have hn : (b2 &&& 7).toNat = 0 := by omega
      rw [hn, if_pos (by omega)]
      refine .quiet ?_ (hgood (.pack2 2) _ rfl rfl rfl) ?_ rfl
      · exact run_pack2 full c 0 [b0, b1] (le_refl 2)
      · exact .peeked b2 xs rfl (hzero hn)
    · rw [hn, if_pos (by omega)]
      have hplace : tenthByte b2 = .search 1 := by
        rw [tenthByte, if_neg (by rw [hone hn]; decide), if_pos (hone hn)]
      refine .quiet ?_ (hgood (.search 1) _ rfl rfl rfl) ?_ rfl
      · rw [← hplace]
        exact run_tenth full c b0 b1 b2 []
      · exact .search_one rfl _
    · have hplace : tenthByte b2 = .stuffed := by
        rw [tenthByte, if_neg (fun he => by rw [he] at hn; exact absurd hn (by decide)),
          if_neg (fun he => by rw [he] at hn; exact absurd hn (by decide))]
      have hcut (k : Nat) (hk : xs.take k ≠ []) :
          (run (step full) (c.goto (.pack2 0)) ((b0 :: b1 :: b2 :: xs).take (k + 3))).1.place = .cut := by
        rw [List.take_succ_cons, List.take_succ_cons, List.take_succ_cons, run_tenth, hplace]
        exact run_stuffed full c _ hk
      have htake (k : Nat) (hk : 0 < k) (hx : 0 < xs.length) : xs.take k ≠ [] := by
        intro he
        have := congrArg List.length he
        rw [List.length_take, List.length_nil] at this
        omega
      split
      · rw [show 2 + (b2 &&& 7).toNat = ((b2 &&& 7).toNat - 1) + 3 by omega]
        exact .of_cut (hcut _ (htake _ (by omega) (by omega)))
      · rcases Nat.eq_zero_or_pos xs.length with hx | hx
        · have hx : xs = [] := List.length_eq_zero_iff.mp hx
          subst hx
          have hseven : (b2 &&& 7).toNat ≤ 7 := by
            rw [UInt8.toNat_and]
            exact Nat.and_le_right
          refine .quiet ?_ (hgood .stuffed _ rfl rfl rfl) ?_ rfl
          · rw [← hplace]
            exact run_tenth full c b0 b1 b2 []
          · refine .stuffed _ (.inr ⟨hs, ?_, ?_, rfl⟩) <;> dsimp only <;> rw [List.length_nil] <;> omega
        · exact .of_cut (hcut _ (htake _ hx hx))

/-- The rest of a pack header of which seven bytes are known. -/
theorem packBody_follows {g : Handle} (hg : Good g c) (hs : g.state = pack_start_code)
    (rest got : List UInt8) (h0 : got.getD 0 0 = g.buf 0) :
    Follows full (packDone c got).1 (packDone c got).1.place g (packDone c got).2 rest (packBody g rest) := by
  have hexcl : g.buf 0 &&& 0xf0 = 0x20 → ¬ g.buf 0 &&& 0xc0 = 0x40 := by
    intro h1
    rw [show g.buf 0 &&& 0xc0 = (g.buf 0 &&& 0xf0) &&& 0xc0 by rw [UInt8.and_assoc]; rfl, h1]
    decide
  have hstay (g' : Handle) (ha : g'.audio = g.audio) (hv : g'.video.parserCallback = g.video.parserCallback)
      (hcv : g'.video.attr.current = g.video.attr.current) (hi : g'.allowIframe = g.allowIframe)
      (h1 : g'.state = 1) : Follows full (c.goto (.search 1)) (.search 1) g [] rest (g', 0) := by
    have hadds : Adds g g' [] :=
      .of_same hg.ready (ha ▸ ⟨rfl, rfl, rfl, rfl, rfl⟩) hv hi (by rw [ha]) hcv
    exact .stay [] ((hg.adds hadds).goto _) (.search_one h1 rest) (by rw [ha]) (.inl rfl)
  by_cases h2 : g.buf 0 &&& 0xc0 = 0x40
  · have hdone : packDone c got = (c.goto (.pack2 0), []) := by
      rw [packDone, h0, if_pos h2]
    rw [hdone]
    exact pack2Body_follows (hg.goto _) hs rest (fun h1 => hexcl h1 h2) h2
  · have hdone : packDone c got = (c.goto (.search 1), []) := by
      rw [packDone, h0, if_neg h2]
    rw [hdone]
    unfold packBody
    by_cases h1 : g.buf 0 &&& 0xf0 = 0x20
    · rw [if_pos h1]
      exact hstay _ rfl rfl rfl rfl rfl
    · rw [if_neg h1, if_neg h2]
      exact hstay _ rfl rfl rfl rfl rfl

/-- A packet that is skipped. -/
theorem skipBody_follows {type : Nat} {g : Handle} (hg : Good g c) (hf : isFrameState g.state = true)
    (rest : List UInt8) (past : Nat → UInt8) (hp : type ≠ private_stream_1) :
    Follows full c (remaining (frameLength g) .skip) g [] rest (otherBody past type g rest) := by
  unfold otherBody
  dsimp only
  rw [if_neg hp, if_neg hp]
  by_cases h0 : frameLength g = 0
  · rw [remaining, if_pos h0, if_pos (by omega), h0]
    exact .stay [] (hg.of_frame rfl rfl rfl) (.search_one rfl rest) rfl (.inl rfl)
  rw [remaining, if_neg h0]
  split
  · rename_i hle
    have hlen : (rest.take (frameLength g)).length = frameLength g := by rw [List.length_take, Nat.min_eq_left hle]
    have hrun := run_skip full c (frameLength g) h0 (rest.take (frameLength g)) (le_of_eq hlen)
    rw [hlen, Nat.sub_self] at hrun
    exact .quiet hrun ((hg.goto _).of_frame rfl rfl rfl) (.search_one rfl _) rfl
  · rename_i hlt
    have hrun := run_skip full c (frameLength g) h0 (rest.take rest.length) (by rw [List.take_length]; omega)
    rw [List.take_length, remaining, if_neg (by omega)] at hrun
    refine .quiet (by rw [List.take_length]; exact hrun) ((hg.goto _).of_frame rfl rfl rfl) ?_ rfl
    exact .skip _ hf (by dsimp only; omega) rfl

/-- A private packet of which the length is known. -/
theorem privateBody_follows {g : Handle} (hg : Good g c) (hs : g.state = private_stream_1)
    (rest : List UInt8) (past : Nat → UInt8)
    (hroom : full = true ∨ (otherBody past private_stream_1 g rest).1.refusals ≤ g.refusals) :
    let d := if frameLength g = 0 then privateDone full c [] else (c.goto (.private1 (frameLength g) []), [])
    Follows full d.1 d.1.place g d.2 rest (otherBody past private_stream_1 g rest) := by
  have hle := frameLength_le g
  unfold otherBody at hroom ⊢
  dsimp only at hroom ⊢
  rw [if_pos rfl, if_pos rfl] at *
  by_cases hn : frameLength g ≤ rest.length
  · rw [if_pos hn] at hroom ⊢
    have hlen : (rest.take (frameLength g)).length = frameLength g := by rw [List.length_take, Nat.min_eq_left hn]
    have hmem : slice (memory rest past) 0 (frameLength g) = rest.take (frameLength g) := by
      apply List.ext_getElem (by rw [slice_length, hlen])
      intro i h1 h2
      rw [slice_length] at h1
      have hi : i < rest.length := by omega
      simp [slice, memory, hi]
    have hfol := private_follows full hg (memory rest past) (rest.take (frameLength g)) (by rw [hlen]; exact hmem)
      (by omega) (by rw [hlen]; exact hroom)
    rw [hlen] at hfol
    by_cases h0 : frameLength g = 0
    · rw [if_pos h0]
      rw [h0, List.take_zero] at hfol
      rw [h0]
      generalize privateDone full c [] = d at hfol
      rcases hfol with hcut | ⟨hg', hplace, hcon⟩
      · exact .of_cut (by rw [List.take_zero, run_nil]; exact hcut)
      · refine .stay [] (hg'.of_frame rfl rfl rfl) ?_ ?_ (.inl rfl)
        · rw [hplace]
          exact .search_one rfl rest
        · rw [List.append_nil]
          exact hcon
    · rw [if_neg h0]
      have hrun := (collects_private full c (frameLength g)).run_eq [] (rest.take (frameLength g))
        (by intro he; rw [he] at hlen; exact h0 hlen.symm) (by rw [List.length_nil, hlen, Nat.zero_add])
      rw [List.nil_append] at hrun
      generalize privateDone full c (rest.take (frameLength g)) = d at hfol hrun
      rcases hfol with hcut | ⟨hg', hplace, hcon⟩
      · exact .of_cut (by rw [← hrun] at hcut; exact hcut)
      · refine .intro [] hrun (hg'.of_frame rfl rfl rfl) ?_ ?_ (.inl rfl)
        · rw [hplace]
          exact .search_one rfl _
        · rw [List.append_nil, List.append_nil]
          exact hcon
  · rw [if_neg hn]
    have h0 : frameLength g ≠ 0 := by omega
    rw [if_neg h0]
    have hrun := (collects_private full c (frameLength g)).run_lt [] (rest.take rest.length)
      (by rw [List.length_nil, List.take_length]; omega)
    refine .quiet hrun ((hg.goto _).of_frame rfl rfl rfl) ?_ rfl
    have hslice : slice (blit g.spuBuf 0 rest) 0 rest.length = rest := slice_blit g.spuBuf 0 rest
    have hplace : (c.goto (.private1 (frameLength g) ([] ++ rest.take rest.length))).place =
        .private1 (rest.length + (frameLength g - rest.length)) (slice (blit g.spuBuf 0 rest) 0 rest.length) := by
      rw [hslice, List.nil_append, List.take_length, show rest.length + (frameLength g - rest.length) =
        frameLength g by omega]
      rfl
    rw [hplace]
    exact .private1 _ hs (by dsimp only; omega) rfl (by dsimp only; omega)

/-- A payload goes into the ring of its stream as far as the ring takes it. -/
private theorem payload_follows {g : Handle} (sid : StreamId) (hg : Good g c) (hs : isAv sid g.state = true)
    (rest : List UInt8) (n : Nat) (hn : n ≤ 65535) (force : Bool) (hf : force = decide (sid = .audio)) :
    Follows full c (remaining n (.copy sid)) g [] rest (payload g sid force rest n) := by
  -- what the ring does with a block
  have hadd (data : List UInt8) (hl : data.length ≤ 65535) :
      (streamAdd g sid data force).2 = data.length ∧
          Adds g (streamAdd g sid data force).1 (if sid = .audio then data else []) ∨
        (streamAdd g sid data force).2 = 0 ∧ data ≠ [] ∧ Adds g (streamAdd g sid data force).1 [] := by
    subst hf
    cases sid with
    | audio =>
      rcases streamAdd_audio_adds hg.ready data hl with ⟨hc, ha⟩ | ⟨hc, hd, ha, -⟩
      · exact .inl ⟨hc, ha⟩
      · exact .inr ⟨hc, hd, ha⟩
    | video =>
      have ha := streamAdd_video_adds hg.ready data
      rcases streamAdd_refusals g .video data false with ⟨hc, -⟩ | ⟨hc, hd, -⟩
      · exact .inl ⟨hc, ha⟩
      · exact .inr ⟨hc, hd, ha⟩
  have hcopy (data : List UInt8) (m : Nat) (hm : m ≠ 0) (hm2 : m ≤ 65535) (rest' : List UInt8) :
      At { (streamAdd g sid data force).1 with remain := m, frameState := sid.frameState } []
        (.copy sid m) rest' :=
    .copy sid rest' ((streamAdd_sameFrame g sid data force).state ▸ hs) hm hm2 rfl
  have hrefused (data : List UInt8) (h0 : n ≠ 0) (ha : Adds g (streamAdd g sid data force).1 []) :
      Follows full c (remaining n (.copy sid)) g [] rest
        ({ (streamAdd g sid data force).1 with remain := n - 0, frameState := sid.frameState }, 0) := by
    rw [remaining, if_neg h0]
    refine .stay [] (Good.of_frame (hg.adds ha) rfl rfl rfl) (hcopy data n h0 hn rest) ?_ (.inl rfl)
    rw [List.append_nil]
    exact ha.contents
  unfold payload
  dsimp only
  by_cases hle : n ≤ rest.length
  · rw [if_pos hle]
    have hlen : (rest.take n).length = n := by rw [List.length_take, Nat.min_eq_left hle]
    rcases hadd (rest.take n) (by omega) with ⟨hc, ha⟩ | ⟨hc, hd, ha⟩
    · rw [hlen] at hc
      rw [if_pos hc.symm, hc]
      have hrun : run (step full) (c.goto (remaining n (.copy sid))) (rest.take n) =
          (c.goto (.search 1), if sid = .audio then rest.take n else []) := by
        by_cases h0 : n = 0
        · rw [h0, List.take_zero, run_nil, ite_self]
          rfl
        · rw [remaining, if_neg h0, run_copy full c sid n h0 _ (le_of_eq hlen), hlen, Nat.sub_self]
          rfl
      refine .intro [] hrun (Good.of_frame ((hg.adds ha).goto _) rfl rfl rfl) (.search_one rfl _) ?_ (.inl rfl)
      rw [List.append_nil, List.append_nil]
      exact ha.contents
    · have h0 : n ≠ 0 := fun h0 => hd (by rw [h0, List.take_zero])
      rw [hc, if_neg h0]
      exact hrefused _ h0 ha
  · rw [if_neg hle]
    have h0 : n ≠ 0 := by omega
    rcases hadd rest (by omega) with ⟨hc, ha⟩ | ⟨hc, -, ha⟩
    · rw [hc]
      have hrun := run_copy full c sid n h0 (rest.take rest.length) (by rw [List.take_length]; omega)
      rw [List.take_length, remaining, if_neg (by omega)] at hrun
      refine .intro [] (by rw [remaining, if_neg h0, List.take_length]; exact hrun)
        (Good.of_frame ((hg.adds ha).goto _) rfl rfl rfl) (hcopy rest _ (by omega) (by omega) _) ?_ (.inl rfl)
      rw [List.append_nil, List.append_nil]
      exact ha.contents
    · rw [hc]
      exact hrefused _ h0 ha

/-- A packet that is not being played is skipped, or stops the demuxer. -/
theorem discard_follows {g : Handle} (sid : StreamId) (hg : Good g c) (hs : isAv sid g.state = true)
    (hb : g.bufsz = 2) (hnp : (g.stream sid).notPlayed g.state) (rest : List UInt8) :
    Follows full c (if frameLength g = 0 then .stuck else .skip (frameLength g)) g [] rest (discard g) := by
  refine .stay [] (hg.of_frame rfl rfl rfl) ?_ rfl (.inl rfl)
  split
  · rename_i h0
    refine .stuck sid rest hs ?_ h0 hb h0
    cases sid <;> exact hnp
  · rename_i h0
    refine .skip rest ?_ h0 rfl
    cases sid with
    | audio =>
      simp only [isFrameState, Bool.or_eq_true]
      simp [show isAudioStream g.state = true from hs]
    | video =>
      simp only [isFrameState, Bool.or_eq_true]
      simp [show isVideoStream g.state = true from hs]

/-- A video packet whose length is known. -/
theorem videoBody_follows {g : Handle} (hg : Good g c) (hs : isAv .video g.state = true) (hb : g.bufsz = 2)
    (hcur : g.video.attr.current ≠ noStream) (rest : List UInt8) :
    Follows full (avDone .video g.state c (slice g.buf 0 2)).1 (avDone .video g.state c (slice g.buf 0 2)).1.place g
      (avDone .video g.state c (slice g.buf 0 2)).2 rest (videoBody g.state g rest) := by
  have hv := videoHeaders_same g.state 4 g
  have ha := videoHeaders_adds g.state 4 hg.ready
  unfold avDone videoBody
  rw [show c.current .video = g.video.attr.current from hg.video, ← frameLength_eq]
  by_cases hp : g.state = g.video.attr.current
  · rw [if_pos hp, if_neg (not_not.mpr hp)]
    dsimp only
    rw [hv.frameLength]
    have hcount : Adds (videoHeaders g.state 4 g) { videoHeaders g.state 4 g with
        video := (videoHeaders g.state 4 g).video.countFrame } [] :=
      .of_same ha.ready ⟨rfl, rfl, rfl, rfl, rfl⟩ rfl rfl rfl rfl
    have hvs : isAv .video (videoHeaders g.state 4 g).state = true := by
      rw [hv.state]
      exact hs
    refine .mono [] (ha.trans hcount) rfl (videoHeaders_refusals_le g.state 4 g) ?_
    exact payload_follows .video ((hg.adds (ha.trans hcount)).goto _) hvs rest _ (frameLength_le g) false rfl
  · rw [if_neg hp, if_pos hp]
    exact discard_follows .video (hg.goto _) hs hb ⟨hcur, fun he => hp he.symm⟩ rest

/-- A part of the header that is not in the ring yet. -/
private theorem audioPart_adds {g : Handle} (hr : Ready g) (num : Nat) (part : List UInt8) (hl : part.length ≤ 65535)
    (hn : g.headernum = num) :
    (audioPart g num part).2 = true ∧ Adds g (audioPart g num part).1 part ∧
        (audioPart g num part).1.headernum = num + 1 ∨
      (audioPart g num part).2 = false ∧ Adds g (audioPart g num part).1 [] ∧
        (audioPart g num part).1.headernum = num ∧ g.refusals < (audioPart g num part).1.refusals := by
  have hsame := streamAdd_sameFrame g .audio part true
  unfold audioPart
  rw [if_pos hn]
  rcases streamAdd_audio_adds hr part hl with ⟨hc, ha⟩ | ⟨hc, hd, ha, hlt⟩
  · rw [if_neg (not_not.mpr hc)]
    have hcount : Adds (streamAdd g .audio part true).1 { (streamAdd g .audio part true).1 with
        headernum := (streamAdd g .audio part true).1.headernum + 1 } [] := .of_frame ha.ready rfl rfl rfl
    refine .inl ⟨rfl, ?_, by rw [hsame.headernum, hn]⟩
    have := ha.trans hcount
    rwa [List.append_nil] at this
  · have hpos := List.length_pos_iff.mpr hd
    rw [if_pos (by omega)]
    exact .inr ⟨rfl, ha, hsame.headernum.trans hn, hlt⟩

/-- The header goes into the ring, or a part of it stays owed. -/
private theorem audioHeader_adds {g : Handle} (hr : Ready g) (hb : g.bufsz = 2) (hn : g.headernum ≤ 1) :
    (audioHeader g g.state).2 = true ∧ Adds g (audioHeader g g.state).1 (owedHeader g) ∨
      (audioHeader g g.state).2 = false ∧ (audioHeader g g.state).1.headernum ≤ 1 ∧
        g.refusals < (audioHeader g g.state).1.refusals ∧
        ∃ w, Adds g (audioHeader g g.state).1 w ∧ owedHeader g = w ++ owedHeader (audioHeader g g.state).1 := by
  have howed (g' : Handle) (hs : SameButHeadernum g g') (h0 : g'.headernum ≠ 0) :
      owedHeader g' = slice g.buf 0 2 := by
    rw [owedHeader, if_neg h0, hs.buf, List.nil_append]
  -- the length bytes, once the start code is in the ring
  have hsecond (g' : Handle) (hs : SameButHeadernum g g') (hr' : Ready g') (h1 : g'.headernum = 1) :
      (audioPart g' 1 (slice g'.buf 0 g'.bufsz)).2 = true ∧
          Adds g' (audioPart g' 1 (slice g'.buf 0 g'.bufsz)).1 (slice g.buf 0 2) ∨
        (audioPart g' 1 (slice g'.buf 0 g'.bufsz)).2 = false ∧
          (audioPart g' 1 (slice g'.buf 0 g'.bufsz)).1.headernum ≤ 1 ∧
          g'.refusals < (audioPart g' 1 (slice g'.buf 0 g'.bufsz)).1.refusals ∧
          Adds g' (audioPart g' 1 (slice g'.buf 0 g'.bufsz)).1 [] ∧
          slice g.buf 0 2 = owedHeader (audioPart g' 1 (slice g'.buf 0 g'.bufsz)).1 := by
    have hsame := hs.trans (audioPart_same g' 1 (slice g'.buf 0 g'.bufsz))
    rcases audioPart_adds hr' 1 (slice g'.buf 0 g'.bufsz) (by rw [slice_length, hs.bufsz, hb]; decide) h1 with
      ⟨ht, ha, -⟩ | ⟨hf, ha, hn', hlt⟩
    · refine .inl ⟨ht, ?_⟩
      rwa [hs.buf, hs.bufsz, hb] at ha ⊢
    · exact .inr ⟨hf, le_of_eq hn', hlt, ha, (howed _ hsame (by rw [hn']; decide)).symm⟩
  unfold audioHeader
  dsimp only
  rcases Nat.eq_zero_or_pos g.headernum with h0 | h1
  · have hall : owedHeader g = startCode g.state ++ slice g.buf 0 2 := by rw [owedHeader, if_pos h0]
    have hsame := audioPart_same g 0 (startCode g.state)
    rcases audioPart_adds hr 0 (startCode g.state) (by rw [show (startCode g.state).length = 4 from rfl]; decide) h0
      with ⟨ht, ha, hn'⟩ | ⟨hf, ha, hn', hlt⟩
    · have hle := (audioPart_refusals g 0 (startCode g.state)).1
      rw [ht, if_pos rfl]
      rcases hsecond _ hsame ha.ready hn' with ⟨ht2, ha2⟩ | ⟨hf2, hn2, hlt2, ha2, ho⟩
      · exact .inl ⟨ht2, hall ▸ ha.trans ha2⟩
      · refine .inr ⟨hf2, hn2, by omega, startCode g.state, ?_, by rw [hall, ho]⟩
        have := ha.trans ha2
        rwa [List.append_nil] at this
    · rw [hf, if_neg (by decide)]
      refine .inr ⟨hf, by omega, hlt, [], ha, ?_⟩
      rw [hall, owedHeader, if_pos hn', hsame.state, hsame.buf, List.nil_append]
  · have hone : g.headernum = 1 := by omega
    have hskip : audioPart g 0 (startCode g.state) = (g, true) := by
      rw [audioPart, if_neg (by omega)]
    have hall : owedHeader g = slice g.buf 0 2 := howed g (.refl g) (by omega)
    rw [hskip, if_pos rfl, hall]
    rcases hsecond g (.refl g) hr hone with ⟨ht2, ha2⟩ | ⟨hf2, hn2, hlt2, ha2, ho⟩
    · exact .inl ⟨ht2, ha2⟩
    · exact .inr ⟨hf2, hn2, hlt2, [], ha2, ho⟩

/-- An audio packet that is being played, with its header owed to the ring. -/
theorem audioBody_owed {g : Handle} (hg : Good g c) (hs : isAudioStream g.state = true) (hr : g.remain = 0)
    (hb : g.bufsz = 2) (hn : g.headernum ≤ 1) (hp : g.state = g.audio.attr.current) (rest : List UInt8) :
    Follows full c (remaining (frameLength g) (.copy .audio)) g (owedHeader g) rest (audioBody g.state g rest) := by
  have hsame := audioHeader_same g g.state
  have href := (audioHeader_refusals g g.state).1
  unfold audioBody
  rw [if_neg (not_not.mpr hp)]
  dsimp only
  rcases audioHeader_adds hg.ready hb hn with ⟨ht, ha⟩ | ⟨hf, hn', hlt, w, ha, hw⟩
  · rw [if_pos ht, hsame.frameLength]
    generalize audioType _ rest = type
    have hcount : Adds (audioHeader g g.state).1 { (audioHeader g g.state).1 with
        audio := (audioHeader g g.state).1.audio.countFrame.setType type } [] :=
      .of_same ha.ready ⟨rfl, rfl, rfl, rfl, rfl⟩ rfl rfl rfl rfl
    have has : isAudioStream (audioHeader g g.state).1.state = true := by
      rw [hsame.state]
      exact hs
    refine .mono [] (ha.trans hcount) (by simp) href ?_
    exact payload_follows .audio (hg.adds (ha.trans hcount)) has rest _ (frameLength_le g) true rfl
  · rw [hf, if_neg (by decide)]
    refine .stay (owedHeader (audioHeader g g.state).1) (hg.adds ha) ?_ ?_ (.inr hlt)
    · rw [← hsame.frameLength]
      refine .owed rest (by rw [hsame.state]; exact hs) ?_ (hsame.remain.trans hr) (hsame.bufsz.trans hb) hn'
      rw [hsame.state, ha.audio]
      exact hp
    · rw [ha.contents, hw, List.append_assoc]

/-- An audio packet whose length is known. -/
theorem audioBody_follows {g : Handle} (hg : Good g c) (hs : isAv .audio g.state = true) (hr : g.remain = 0)
    (hb : g.bufsz = 2) (hn : g.headernum = 0) (hcur : g.audio.attr.current ≠ noStream) (rest : List UInt8) :
    Follows full (avDone .audio g.state c (slice g.buf 0 2)).1 (avDone .audio g.state c (slice g.buf 0 2)).1.place g
      (avDone .audio g.state c (slice g.buf 0 2)).2 rest (audioBody g.state g rest) := by
  unfold avDone
  rw [show c.current .audio = g.audio.attr.current from hg.audio, ← frameLength_eq]
  by_cases hp : g.state = g.audio.attr.current
  · rw [if_pos hp, if_pos rfl]
    have howed : startCode g.state ++ slice g.buf 0 2 = owedHeader g := by rw [owedHeader, if_pos hn]
    rw [howed]
    exact audioBody_owed (hg.goto _) hs hr hb (by omega) hp rest
  · have hbody : audioBody g.state g rest = discard g := by rw [audioBody, if_pos hp]
    rw [if_neg hp, hbody]
    exact discard_follows .audio (hg.goto _) hs hb ⟨hcur, fun he => hp he.symm⟩ rest

end Headers

end Mvpmc.Demux.ProgramStream
