import Mvpmc.Demux.Chunks

/-! MPEG audio under back-pressure: whatever the rings refuse and however they are
drained, the packets of the selected stream come out whole and in order. -/
namespace Mvpmc.Demux.ProgramStream
open Mvpmc.Lib Mvpmc.Lib.Transducer Mvpmc.Lib.Circular

/-- An audio packet. -/
def packet (id : Nat) (payload : List UInt8) : List UInt8 :=
  startCode id ++ [UInt8.ofNat (payload.length / 256), UInt8.ofNat payload.length] ++ payload

/-- A feeder, and what was drained from the audio ring. -/
structure Player where
  feeder : Feeder
  drained : List UInt8

inductive Event where
  | feed
  | drain (max : Int)

/-- One step of the feeder, or one `stream_drain` of the audio ring. -/
def Player.step (p : Player) : Event → Player
  | .feed => ⟨p.feeder.step, p.drained⟩
  | .drain max =>
    let r := p.feeder.h.audio.drain max
    ⟨⟨{ p.feeder.h with audio := r.1 }, p.feeder.chunks⟩, p.drained ++ r.2.2⟩

def Player.run (p : Player) (events : List Event) : Player := events.foldl Player.step p

/-- What has come out of the demuxer: the bytes drained, and those still in the ring. -/
def Player.output (p : Player) : List UInt8 := p.drained ++ p.feeder.h.audio.contents

section Packets
variable (full : Bool) {c : Config} {id : Nat}

private theorem run_startCode (hp : c.place = .search 1) (hid : isAudioStream id = true) :
    run (step full) c (startCode id) = ((c.select .audio id).goto (.av .audio id []), []) := by
  simp only [isAudioStream, Bool.and_eq_true, decide_eq_true_eq] at hid
  have htype : (UInt8.ofNat id).toNat = id := by
    rw [UInt8.toNat_ofNat']
    omega
  have h1 : step full c 0 = (c.goto (.search 2), []) := by
    rw [step, hp]
    rfl
  have h2 : step full (c.goto (.search 2)) 0 = (c.goto (.search 3), []) := rfl
  have h3 : step full (c.goto (.search 3)) 1 = (c.goto (.search 4), []) := rfl
  have h4 : step full (c.goto (.search 4)) (UInt8.ofNat id) = (start c id, []) := by
    rw [← htype]
    simp only [step, Config.goto, UInt8.ofNat_toNat]
    rfl
  have hstart : start c id = (c.select .audio id).goto (.av .audio id []) := by
    have hno : ¬ isOtherStream id = true ∧ ¬ isVideoStream id = true := by
      simp only [isOtherStream, isVideoStream, private_stream_1, private_stream_2, system_header_start_code,
        padding_stream, Bool.or_eq_true, Bool.and_eq_true, beq_iff_eq, decide_eq_true_eq]
      omega
    rw [start, if_neg (by rw [MPEG_program_end_code]; omega), if_neg (by rw [pack_start_code]; omega),
      if_neg hno.1, if_neg hno.2, if_pos (by simp [isAudioStream, hid])]
  rw [startCode, run_cons, h1, run_cons, h2, run_cons, h3, run_singleton, h4, hstart]
  rfl

private theorem lengthOf_bytes (n : Nat) (hn : n ≤ 65535) :
    lengthOf [UInt8.ofNat (n / 256), UInt8.ofNat n] = n := by
  simp only [lengthOf, List.getD_cons_zero, List.getD_cons_succ, UInt8.toNat_ofNat']
  omega

/-- A packet of the selected stream is sent as it is. -/
theorem run_packet (hp : c.place = .search 1) (hid : isAudioStream id = true) (ha : c.audio = id ∨ c.audio = noStream)
    (payload : List UInt8) (hl : payload.length ≤ 65535) :
    run (step full) c (packet id payload) = (c.select .audio id, packet id payload) := by
  obtain ⟨d, hd⟩ : ∃ d, d = c.select .audio id := ⟨_, rfl⟩
  have hcur : id = d.current .audio := by
    rw [hd]
    change id = if c.audio = noStream then id else c.audio
    split
    · rfl
    · exact (ha.resolve_right ‹_›).symm
  have hback : d.goto (.search 1) = d := by
    rw [hd, ← hp]
    rfl
  obtain ⟨len, hlen⟩ : ∃ len, len = [UInt8.ofNat (payload.length / 256), UInt8.ofNat payload.length] := ⟨_, rfl⟩
  have hheader : run (step full) (d.goto (.av .audio id [])) len =
      (d.goto (remaining payload.length (.copy .audio)), startCode id ++ len) := by
    rw [(collects_av full d .audio id).run_eq [] len (by simp [hlen]) (by simp [hlen]), List.nil_append, avDone,
      if_pos hcur, hlen, lengthOf_bytes _ hl, if_pos rfl]
  have hbody : run (step full) (d.goto (remaining payload.length (.copy .audio))) payload = (d, payload) := by
    by_cases h0 : payload.length = 0
    · rw [List.length_eq_zero_iff.mp h0, run_nil, List.length_nil, remaining, if_pos rfl, hback]
    · rw [remaining, if_neg h0, run_copy full d .audio _ h0 payload (le_refl _), Nat.sub_self, if_pos rfl,
        remaining, if_pos rfl, hback]
  rw [packet, ← hlen, run_append, run_append, run_startCode full hp hid, ← hd, hheader, hbody]
  simp

theorem run_packets (hp : c.place = .search 1) (hid : isAudioStream id = true)
    (ha : c.audio = id ∨ c.audio = noStream) (payloads : List (List UInt8))
    (hl : ∀ payload ∈ payloads, payload.length ≤ 65535) :
    (run (step full) c (payloads.flatMap (packet id))).1.place = .search 1 ∧
      (run (step full) c (payloads.flatMap (packet id))).2 = payloads.flatMap (packet id) := by
  induction payloads generalizing c with
  | nil => exact ⟨hp, rfl⟩
  | cons payload payloads ih =>
    have hsel : (c.select .audio id).audio = id ∨ (c.select .audio id).audio = noStream := by
      refine .inl ?_
      change (if c.audio = noStream then id else c.audio) = id
      split
      · rfl
      · exact ha.resolve_right ‹_›
    obtain ⟨hplace, hout⟩ := ih (c := c.select .audio id) hp hsel fun _ hm => hl _ (List.mem_cons_of_mem _ hm)
    rw [List.flatMap_cons, run_append, run_packet full hp hid ha payload (hl _ List.mem_cons_self)]
    exact ⟨hplace, by rw [hout]⟩

end Packets

/-- The player after the bytes `fed`: the machine is where the demuxer is, and what it
sent has come out or is pending. -/
structure Plays (c : Config) (bytes fed pend : List UInt8) (p : Player) : Prop where
  split : fed ++ bytesOf p.feeder.chunks = bytes
  good : Good p.feeder.h (run (step true) c fed).1
  place : At p.feeder.h pend (run (step true) c fed).1.place (current p.feeder.chunks)
  output : p.output ++ pend = (run (step true) c fed).2

section Plays
variable {c : Config} {bytes fed pend : List UInt8} {p : Player}

/-- A step of the feeder goes on in the machine. -/
private theorem Plays.feed (hp : Plays c bytes fed pend p) (hcut : (run (step true) c bytes).1.place ≠ .cut) :
    ∃ fed' pend', Plays c bytes fed' pend' (p.step .feed) := by
  obtain ⟨⟨h, chunks⟩, drained⟩ := p
  obtain ⟨hsplit, hg, hat, hout⟩ := hp
  match chunks with
  | [] => exact ⟨fed, pend, hsplit, hg, hat, hout⟩
  | ⟨[], past⟩ :: next => exact ⟨fed, pend, hsplit, hg, hat.next _, hout⟩
  | ⟨b :: data, past⟩ :: next =>
    obtain ⟨r, hr⟩ : ∃ r, r = parserCall h (b :: data) past := ⟨_, rfl⟩
    have hstep : Player.step ⟨⟨h, ⟨b :: data, past⟩ :: next⟩, drained⟩ .feed =
        ⟨⟨r.1, ⟨(b :: data).drop r.2, past⟩ :: next⟩, drained⟩ := by rw [hr]; rfl
    have hf : Follows true (run (step true) c fed).1 (run (step true) c fed).1.place h pend (b :: data) r :=
      hr ▸ parserCall_follows past (List.cons_ne_nil b data) hg hat (.inl rfl)
    have hsplit' : fed ++ (b :: data).take r.2 ++ bytesOf (⟨(b :: data).drop r.2, past⟩ :: next) = bytes := by
      rw [← hsplit, bytesOf_cons, bytesOf_cons, List.append_assoc, ← List.append_assoc (List.take _ _),
        List.take_append_drop]
    have hrun : run (step true) c (fed ++ (b :: data).take r.2) =
        ((run (step true) (run (step true) c fed).1 ((b :: data).take r.2)).1,
          (run (step true) c fed).2 ++ (run (step true) (run (step true) c fed).1 ((b :: data).take r.2)).2) :=
      run_append ..
    rw [hstep]
    rcases hf with hc | ⟨pend', hg', hat', hcon, -⟩
    · rw [← hsplit', run_append, hrun] at hcut
      rw [goto_place] at hc
      rw [run_cut true _ hc] at hcut
      exact absurd hc hcut
    · rw [goto_place] at hg' hat' hcon
      refine ⟨fed ++ (b :: data).take r.2, pend', hsplit', ?_, ?_, ?_⟩
      · rw [hrun]
        exact hg'
      · rw [hrun]
        exact hat'
      · rw [hrun, ← hout]
        simp only [Player.output, List.append_assoc] at hcon ⊢
        rw [hcon]

private theorem drain_keeps (s : Stream) (max : Int) :
    (s.drain max).1.size = s.size ∧ (s.drain max).1.parserCallback = s.parserCallback ∧
      (s.drain max).1.attr.current = s.attr.current := by
  unfold Stream.drain Stream.peek Stream.countEmpty
  dsimp only
  split
  · exact ⟨rfl, rfl, rfl⟩
  · split <;> exact ⟨rfl, rfl, rfl⟩

/-- Draining moves bytes from the ring to the output. -/
private theorem Plays.drain (hp : Plays c bytes fed pend p) (max : Int) :
    Plays c bytes fed pend (p.step (.drain max)) := by
  obtain ⟨hsplit, hg, hat, hout⟩ := hp
  obtain ⟨hok, hcon, hret⟩ := Stream.drain_eq hg.ready.ok max
  obtain ⟨hsize, hcall, hcur⟩ := drain_keeps p.feeder.h.audio max
  refine ⟨hsplit, ⟨⟨hok, hsize ▸ hg.ready.size, hcall.trans hg.ready.audio, hg.ready.video, hg.ready.allowIframe⟩,
    hg.audio.trans hcur.symm, hg.video⟩, ?_, ?_⟩
  · exact hat.same ⟨rfl, rfl, rfl, rfl, rfl, rfl, rfl, rfl, rfl⟩ hcur rfl
  · rw [← hout]
    simp only [Player.output, Player.step, hcon, hret, List.append_assoc]
    rw [← List.append_assoc (List.take _ _), List.take_append_drop]

private theorem Plays.run (hp : Plays c bytes fed pend p) (hcut : (run (step true) c bytes).1.place ≠ .cut)
    (events : List Event) : ∃ fed' pend', Plays c bytes fed' pend' (p.run events) := by
  induction events generalizing p fed pend with
  | nil => exact ⟨fed, pend, hp⟩
  | cons event events ih =>
    cases event with
    | feed =>
      obtain ⟨fed', pend', hp'⟩ := hp.feed hcut
      exact ih hp'
    | drain max => exact ih (hp.drain max)

end Plays

/-- Audio packets of the selected stream, cut and drained in any way: what has come out is
at every moment a prefix of the packets, and it is all of them once the input is consumed
and the demuxer is searching again. -/
theorem audio_lossless (h : Handle) (hr : Ready h) (h1 : h.state = 1) (hempty : h.audio.contents = []) (id : Nat)
    (hid : isAudioStream id = true) (hcur : h.audio.attr.current = id ∨ h.audio.attr.current = noStream)
    (payloads : List (List UInt8)) (hl : ∀ payload ∈ payloads, payload.length ≤ 65535) (chunks : List Chunk)
    (hbytes : bytesOf chunks = payloads.flatMap (packet id)) (events : List Event) :
    let p := Player.run ⟨⟨h, chunks⟩, []⟩ events
    p.output <+: payloads.flatMap (packet id) ∧
      (bytesOf p.feeder.chunks = [] → p.feeder.h.state = 1 → p.output = payloads.flatMap (packet id)) := by
  intro p
  obtain ⟨hplace, hsent⟩ := run_packets true (c := searching h) rfl hid hcur payloads hl
  have hstart : Plays (searching h) (payloads.flatMap (packet id)) [] [] ⟨⟨h, chunks⟩, []⟩ :=
    ⟨hbytes, ⟨hr, rfl, rfl⟩, .search_one h1 _, by simpa [Player.output] using hempty⟩
  obtain ⟨fed, pend, hp⟩ := hstart.run (by rw [hplace]; decide) events
  refine ⟨?_, fun hdone hone => ?_⟩
  · have hfed := run_prefix (step true) (searching h) fed (bytesOf p.feeder.chunks)
    rw [hp.split, hsent] at hfed
    exact (hp.output ▸ List.prefix_append ..).trans hfed
  · obtain rfl := (hp.place.header (by rw [hone]; rfl)).1
    have hall : fed = payloads.flatMap (packet id) := by
      have := hp.split
      rwa [hdone, List.append_nil] at this
    have hout := hp.output
    rwa [List.append_nil, hall, hsent] at hout

/-- A packet cut inside its length field, with a drain between the pieces. -/
theorem audio_lossless_cut :
    let p := Player.run ⟨⟨demuxInit 400000 fun _ => 0, [⟨[0, 0, 1, 0xC0, 0], fun _ => 0⟩, ⟨[1, 7], fun _ => 0⟩]⟩, []⟩
      [.feed, .feed, .drain 3, .feed, .drain 2]
    p.output <+: [0, 0, 1, 0xC0, 0, 1, 7] ∧
      (bytesOf p.feeder.chunks = [] → p.feeder.h.state = 1 → p.output = [0, 0, 1, 0xC0, 0, 1, 7]) :=
  audio_lossless _ (ready_init (by decide) (by decide) _) rfl (by decide) 0xC0 (by decide) (.inr rfl) [[7]]
    (by decide) _ (by decide) _

end Mvpmc.Demux.ProgramStream
