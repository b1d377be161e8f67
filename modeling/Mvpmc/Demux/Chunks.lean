import Mvpmc.Demux.Calls

/-! A feeder that cuts its input into chunks and presents again what a call did not
consume. Without refusals the audio ring does not depend on the cut. -/
namespace Mvpmc.Demux.ProgramStream
open Mvpmc.Lib Mvpmc.Lib.Transducer Mvpmc.Lib.Circular

/-- A buffer, and the memory behind it. -/
structure Chunk where
  data : List UInt8
  past : Nat → UInt8

/-- The bytes of a list of chunks. -/
def bytesOf (chunks : List Chunk) : List UInt8 := chunks.flatMap Chunk.data

/-- The demuxer, and the chunks to come; the first one is what is left of the current. -/
structure Feeder where
  h : Handle
  chunks : List Chunk

/-- One call for the current chunk, or the next chunk. -/
def Feeder.step (f : Feeder) : Feeder :=
  match f.chunks with
  | [] => f
  | ⟨[], _⟩ :: next => ⟨f.h, next⟩
  | ⟨b :: data, past⟩ :: next =>
    let r := parserCall f.h (b :: data) past
    ⟨r.1, ⟨(b :: data).drop r.2, past⟩ :: next⟩

def Feeder.run (f : Feeder) (n : Nat) : Feeder := Feeder.step^[n] f

/-- No ring ever answers `full`. -/
def NeverFull (h : Handle) (chunks : List Chunk) : Prop :=
  ∀ n, ((Feeder.mk h chunks).run n).h.refusals = h.refusals

/-- In the end the bytes appended to the audio ring are `w`. -/
def Appends (h : Handle) (chunks : List Chunk) (w : List UInt8) : Prop :=
  ∃ bound, ∀ n ≥ bound, ((Feeder.mk h chunks).run n).h.audio.contents = h.audio.contents ++ w

/-- However the bytes are cut into chunks, the same bytes are appended to the audio ring. -/
def ChunkIndependent (h : Handle) (bytes : List UInt8) : Prop :=
  ∀ first second : List Chunk, (∀ chunk ∈ first, chunk.data ≠ []) → (∀ chunk ∈ second, chunk.data ≠ []) →
    bytesOf first = bytes → bytesOf second = bytes → NeverFull h first → NeverFull h second →
    ∃ w, Appends h first w ∧ Appends h second w

/-- The machine of a handle that is searching for a start code. -/
def searching (h : Handle) : Config := ⟨.search 1, h.audio.attr.current, h.video.attr.current⟩

/-- A call without refusals consumes something, except at an empty packet that is not played. -/
theorem parserCall_pos {h : Handle} {p : Place} {pend buf : List UInt8} (past : Nat → UInt8) (hb : buf ≠ [])
    (hat : At h pend p buf) (hpend : pend = []) (hroom : (parserCall h buf past).1.refusals = h.refusals) :
    0 < (parserCall h buf past).2 ∨ p = .stuck := by
  by_cases hh : isHeaderState h.state = true
  · exact .inl (consumes_of_header past hh hb).2
  have hf : isFrameState h.state = true := hat.state.resolve_left hh
  have hcall : parserCall h buf past = frameBody h buf past h.state := by
    rw [parserCall, if_neg hh, parseFrame_frame past hf hb]
  rw [hcall] at hroom ⊢
  have hcont (hr : h.remain ≠ 0) : 0 < (frameBody h buf past h.state).2 := by
    rw [frameBody, if_pos hr] at hroom ⊢
    exact continueFrame_pos hr hb hroom
  have hno (state : Nat) (hs : isHeaderState state = true) : h.state ≠ state := by
    rintro rfl
    exact hh hs
  cases hat with
  | search _ hs => exact absurd hs hh
  | doubt state _ hst hor =>
    rcases hst with rfl | rfl <;> rcases hor with he | he <;> exact absurd he (hno _ rfl)
  | peeked b _ h1 => exact absurd h1 (hno 1 rfl)
  | stuffed _ hst =>
    rcases hst with h1 | ⟨-, hr, -⟩
    · exact absurd h1 (hno 1 rfl)
    · exact .inl (hcont hr)
  | pack _ hs hr hk =>
    rw [hs, frameBody_pack buf past hr]
    exact .inl (withHeader_pos packBody hb hk)
  | pack2 _ _ hr => exact .inl (hcont hr)
  | other _ hs hr hk =>
    rw [frameBody_other buf past hr hs]
    exact .inl (withHeader_pos _ hb hk)
  | skip _ _ hr => exact .inl (hcont hr)
  | private1 _ _ hr => exact .inl (hcont hr)
  | av sid _ hs _ hr hk =>
    rw [frameBody_av buf past sid hr hs]
    exact .inl (withHeader_pos _ hb (by rw [(meet_sameFrame ..).bufsz]; exact hk))
  | copy sid _ _ hr => exact .inl (hcont hr)
  | owed _ =>
    have hlen := congrArg List.length hpend
    rw [owedHeader, List.length_append, slice_length] at hlen
    exact absurd hlen (by simp)
  | stuck => exact .inr rfl

section Run
variable {h : Handle} {c : Config}

/-- At the end of a chunk the place does not depend on what comes next. -/
theorem At.next {p : Place} {pend : List UInt8} (hat : At h pend p []) (rest : List UInt8) : At h pend p rest := by
  cases hat with
  | search _ hh => exact .search rest hh
  | doubt state _ hst hor => exact .doubt state rest hst hor
  | pack _ hs hr hb => exact .pack rest hs hr hb
  | pack2 _ hs hr hr3 h3 => exact .pack2 rest hs hr hr3 h3
  | stuffed _ hst => exact .stuffed rest hst
  | other _ hs hr hb => exact .other rest hs hr hb
  | skip _ hs hr h0 => exact .skip rest hs hr h0
  | private1 _ hs hr h4 hl => exact .private1 rest hs hr h4 hl
  | av sid _ hs hc hr hb hn => exact .av sid rest hs hc hr hb hn
  | copy sid _ hs hr hl hfs => exact .copy sid rest hs hr hl hfs
  | owed _ hs hp hr hb hn => exact .owed rest hs hp hr hb hn
  | stuck sid _ hs hnp hr hb hl => exact .stuck sid rest hs hnp hr hb hl

/-- What is left of the current chunk. -/
def current (chunks : List Chunk) : List UInt8 := (chunks.head?.map Chunk.data).getD []

/-- The steps a feeder needs at most: one for each byte and one for each chunk. -/
def work (chunks : List Chunk) : Nat := (bytesOf chunks).length + chunks.length

theorem Feeder.run_succ (f : Feeder) (n : Nat) : f.run (n + 1) = f.step.run n := rfl

theorem bytesOf_cons (chunk : Chunk) (next : List Chunk) :
    bytesOf (chunk :: next) = chunk.data ++ bytesOf next := List.flatMap_cons ..

/-- A call that consumes something leaves less work. -/
theorem work_call (data : List UInt8) (past : Nat → UInt8) (next : List Chunk) (k : Nat) (hpos : 0 < k)
    (hle : k ≤ data.length) : work (⟨data.drop k, past⟩ :: next) < work (⟨data, past⟩ :: next) := by
  simp only [work, bytesOf_cons, List.length_append, List.length_drop, List.length_cons]
  omega

/-- A run without refusals appends what the machine sends. -/
theorem run_appends (n : Nat) (f : Feeder) (c : Config) (hg : Good f.h c) (hat : At f.h [] c.place (current f.chunks))
    (hcut : (run (step false) c (bytesOf f.chunks)).1.place ≠ .cut) (hroom : ∀ k, (f.run k).h.refusals = f.h.refusals)
    (hn : work f.chunks ≤ n ∨ c.place = .stuck) :
    (f.run n).h.audio.contents = f.h.audio.contents ++ (run (step false) c (bytesOf f.chunks)).2 := by
  induction n generalizing f c with
  | zero =>
    rcases hn with hn | hs
    · have hnil : bytesOf f.chunks = [] := List.length_eq_zero_iff.mp (by unfold work at hn; omega)
      rw [hnil, run_nil, List.append_nil]
      rfl
    · rw [run_stuck false c hs, List.append_nil]
      rfl
  | succ n ih =>
    obtain ⟨h, chunks⟩ := f
    have hroom' (k : Nat) : ((Feeder.mk h chunks).step.run k).h.refusals = (Feeder.mk h chunks).step.h.refusals :=
      (hroom (k + 1)).trans (hroom 1).symm
    rw [Feeder.run_succ]
    match chunks with
    | [] => exact ih ⟨h, []⟩ c hg hat hcut hroom' (.inl (Nat.zero_le n))
    | ⟨[], past⟩ :: next =>
      refine ih ⟨h, next⟩ c hg (hat.next _) hcut hroom' (hn.imp_left fun hn => ?_)
      rw [work, bytesOf_cons, List.length_cons] at hn
      exact Nat.le_of_succ_le_succ hn
    | ⟨b :: data, past⟩ :: next =>
      obtain ⟨r, hr⟩ : ∃ r, r = parserCall h (b :: data) past := ⟨_, rfl⟩
      have hstep : (Feeder.mk h (⟨b :: data, past⟩ :: next)).step =
          ⟨r.1, ⟨(b :: data).drop r.2, past⟩ :: next⟩ := by rw [hr]; rfl
      have hsame : r.1.refusals = h.refusals := by
        have := hroom 1
        rwa [Feeder.run_succ, hstep] at this
      have hf : Follows false c c.place h [] (b :: data) r := by
        rw [hr] at hsame ⊢
        exact parserCall_follows past (List.cons_ne_nil b data) hg hat (.inr hsame.le)
      have hbytes : bytesOf (⟨b :: data, past⟩ :: next) =
          (b :: data).take r.2 ++ bytesOf (⟨(b :: data).drop r.2, past⟩ :: next) := by
        rw [bytesOf_cons, bytesOf_cons, ← List.append_assoc, List.take_append_drop]
      rw [hstep] at hroom' ⊢
      rw [hbytes, run_append] at hcut ⊢
      rcases hf with hc | ⟨pend, hg', hat', hcon, hpend⟩
      · rw [goto_place] at hc
        rw [run_cut false _ hc] at hcut
        exact absurd hc hcut
      rw [goto_place] at hg' hat' hcon
      obtain rfl : pend = [] := hpend.resolve_right (by omega)
      rw [ih ⟨r.1, ⟨(b :: data).drop r.2, past⟩ :: next⟩ _ hg' hat' hcut hroom' ?_, ← List.append_nil r.1.audio.contents, hcon]
      · simp
      · rcases hn with hn | hs
        · rcases parserCall_pos past (List.cons_ne_nil b data) hat rfl (hr ▸ hsame) with hpos | hs
          · refine .inl ?_
            have hle := parserCall_le h (b :: data) past
            rw [← hr] at hpos hle
            have hlt := work_call (b :: data) past next r.2 hpos hle
            exact Nat.le_of_lt_succ (hlt.trans_le hn)
          · exact .inr (by rw [run_stuck false c hs]; exact hs)
        · exact .inr (by rw [run_stuck false c hs]; exact hs)

end Run

/-- Input whose program stream does not bring the parser to a place where the cut
decides gives the same audio however it is cut. -/
theorem chunkIndependent_of_uncut (h : Handle) (hr : Ready h) (h1 : h.state = 1) (bytes : List UInt8)
    (hcut : (run (step false) (searching h) bytes).1.place ≠ .cut) : ChunkIndependent h bytes := by
  have hall (chunks : List Chunk) (hb : bytesOf chunks = bytes) (hf : NeverFull h chunks) :
      Appends h chunks (run (step false) (searching h) bytes).2 := by
    refine ⟨work chunks, fun n hn => ?_⟩
    rw [← hb] at hcut ⊢
    exact run_appends n ⟨h, chunks⟩ (searching h) ⟨hr, rfl, rfl⟩ (.search_one h1 _) hcut hf (.inl hn)
  intro first second _ _ hb1 hb2 hf1 hf2
  exact ⟨_, hall first hb1 hf1, hall second hb2 hf2⟩

/-- A feeder without chunks stays as it is. -/
theorem Feeder.run_settled (f : Feeder) (k m : Nat) (hk : (f.run k).chunks = []) : f.run (k + m) = f.run k := by
  have hfix : (f.run k).step = f.run k := by
    rw [Feeder.step, hk]
  rw [Nat.add_comm, Feeder.run, Function.iterate_add_apply]
  exact Function.iterate_fixed hfix m

theorem ready_init {size : Nat} (hs : 65542 < size / 5) (hz : size < 2147483648) (junk : Nat → UInt8) :
    Ready (demuxInit size junk) := by
  have htail : (demuxInit size junk).audio.tail = size / 5 - 1 := rfl
  exact ⟨⟨by change size / 5 < _; omega, by change 0 < size / 5; omega, by change size / 5 - 1 < size / 5; omega,
    by rw [htail]; change 0 ≠ _; omega⟩, hs, rfl, rfl, rfl⟩

/-- An audio packet that is cut inside its header. -/
theorem chunkIndependent_packet :
    ChunkIndependent (demuxInit 400000 fun _ => 0) [0, 0, 1, 0xC0, 0, 1, 7] :=
  chunkIndependent_of_uncut _ (ready_init (by decide) (by decide) _) rfl _ (by decide)

/-- A pack header with two stuffing bytes. Cut behind the byte that announces them,
one of them goes to the audio ring. -/
theorem stuffing_reaches_audio :
    Ready (demuxInit 400000 fun _ => 0) ∧ (demuxInit 400000 fun _ => 0).state = 1 ∧
      ¬ ChunkIndependent (demuxInit 400000 fun _ => 0)
        [0, 0, 1, 0xBA, 0x44, 0, 4, 0, 4, 1, 0, 0, 3, 0xFA, 0xFF, 0xFF] := by
  obtain ⟨h, hh⟩ : ∃ h, h = demuxInit 400000 fun _ => 0 := ⟨_, rfl⟩
  refine ⟨ready_init (by decide) (by decide) _, rfl, fun hind => ?_⟩
  -- after five steps both feeders are done
  have hnever (chunks : List Chunk) (hdone : ((Feeder.mk h chunks).run 5).chunks = [])
      (hroom : ∀ n < 6, ((Feeder.mk h chunks).run n).h.refusals = h.refusals) : NeverFull h chunks := by
    intro n
    rcases Nat.lt_or_ge n 6 with hlt | hge
    · exact hroom n hlt
    · obtain ⟨m, rfl⟩ := Nat.exists_eq_add_of_le (show 5 ≤ n by omega)
      rw [Feeder.run_settled _ 5 m hdone]
      exact hroom 5 (by decide)
  rw [← hh] at hind
  obtain ⟨w, ⟨n₁, hw₁⟩, ⟨n₂, hw₂⟩⟩ := hind
    [⟨[0, 0, 1, 0xBA, 0x44, 0, 4, 0, 4, 1, 0, 0, 3, 0xFA, 0xFF, 0xFF], fun _ => 0⟩]
    [⟨[0, 0, 1, 0xBA, 0x44, 0, 4, 0, 4, 1, 0, 0, 3, 0xFA], fun _ => 0⟩, ⟨[0xFF, 0xFF], fun _ => 0⟩]
    (by decide) (by decide) (by decide) (by decide) (hnever _ (by subst hh; rfl) (by subst hh; decide))
    (hnever _ (by subst hh; rfl) (by subst hh; decide))
  have hnone := hw₁ (5 + n₁) (by omega)
  have hone := hw₂ (5 + n₂) (by omega)
  rw [Feeder.run_settled _ 5 _ (by subst hh; rfl)] at hnone hone
  rw [← hnone] at hone
  subst hh
  exact absurd hone (by decide)

end Mvpmc.Demux.ProgramStream
