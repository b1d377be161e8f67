import Mvpmc.TsDemux.RepackData

/-! Runs of the repacker over packets of audio and video. -/
namespace Mvpmc.TsDemux
open Mvpmc.Lib Mvpmc.Lib.Circular

/-- A packet that no write finds cut in half below what has been gathered: it fits the buffer with a piece to
spare, or its first byte makes it two halves, or it ends long before its length. -/
def Pes.Spared (s : Pes) : Prop :=
  s.plength + 6 + pieceSize ≤ PES_SIZE ∨ (PES_SIZE < s.plength + 4 ∧ s.plength + 4 < 3 * PES_SIZE / 2) ∨
    s.bytes.length + 3 * PES_SIZE / 2 ≤ s.plength + 6

instance (s : Pes) : Decidable s.Spared := inferInstanceAs (Decidable (_ ∨ _))

theorem Pes.length_le (s : Pes) (hs : s.Spared) : s.bytes.length ≤ s.plength + 6 := by
  have hlen := s.length_bytes
  have hp : PES_SIZE = 8192 := rfl
  have hm : MMAX_PLENGTH.toNat = 524280 := rfl
  have hd : pieceSize = 184 := rfl
  unfold Spared plength at hs
  unfold plength
  rcases s.length_eq with h0 | h0
  · rw [if_pos h0] at hs ⊢
    omega
  · split_ifs at hs ⊢ <;> omega

/-- Nothing of a packet has been read, and nothing is in the buffer. -/
structure Fresh (m : Nat → UInt8) (out : List (List UInt8)) (j : Job) : Prop where
  fits : Fits m j.p
  found : j.p.found = 0
  done : j.p.done = false
  mpeg : j.p.mpeg = 0
  plength : j.p.plength = 0
  count : j.p.count = 0
  size : j.p.size = PES_SIZE
  out_eq : j.out = out

theorem fresh_init (p : Pack) : Fresh p.buf [] ⟨initPack p PES_SIZE, []⟩ :=
  ⟨⟨rfl, Nat.le_refl _, by dsimp [initPack, resetPack]; omega, Nat.zero_le _, fun h => absurd h (Nat.not_succ_le_zero 5),
      fun _ _ => rfl, Nat.two_pow_pos 32⟩, rfl, rfl, rfl, rfl, rfl, rfl, rfl⟩

/-- `k` bytes of the packet have been read, more than its header has, and written. -/
def Going (m : Nat → UInt8) (s : Pes) (out : List (List UInt8)) (k : Nat) (j : Job) : Prop :=
  Reading s k j.p ∧ j.p.plength = s.plength ∧
    ∃ outs, j.out = out ++ outs ∧ Filling m (s.body.take (k - 6)) outs j.p ∧ j.p.count ≤ k

/-- `k` bytes of the packet have been read. -/
def After (m : Nat → UInt8) (s : Pes) (out : List (List UInt8)) (k : Nat) (j : Job) : Prop :=
  if k ≤ 9 then Reading s k j.p ∧ Fits m j.p ∧ j.p.count = 0 ∧ j.p.size = PES_SIZE ∧ j.out = out
  else Going m s out k j

section
variable {m : Nat → UInt8} {s : Pes} {out : List (List UInt8)} {k : Nat} {j : Job}

theorem Fresh.after (h : Fresh m out j) (s : Pes) : After m s out 0 j := by
  rw [After, if_pos (by decide)]
  exact ⟨.start h.found h.done h.mpeg, h.fits, h.count, h.size, h.out_eq⟩

theorem writeFuel_congr (u : Unset) {p q : Pack} {data : List UInt8} (h : readyPack u p data = readyPack u q data)
    (fuel : Nat) : writeFuel u (fuel + 1) p data = writeFuel u (fuel + 1) q data := by
  rw [writeFuel, writeFuel, h]

/-- The first byte of a packet makes it two halves where it has to. -/
theorem halvePack_calm {p : Pack} (hs : s.Spared) (hl : p.plength = s.plength) (hsize : p.size = PES_SIZE)
    (ho : p.sizeOrig = PES_SIZE) (hf : p.found = 9) (hc : p.count = 6) : Calm (halvePack p 1) := by
  have hlen := s.length_bytes
  have hp : PES_SIZE = 8192 := rfl
  have hd : pieceSize = 184 := rfl
  have hdiff : p.diff 1 = s.plength + 4 := by
    unfold Pack.diff
    omega
  unfold halvePack
  split
  · rename_i hh
    rw [hdiff] at hh ⊢
    refine .inl ?_
    dsimp only
    omega
  · rename_i hh
    rw [hdiff] at hh
    unfold Calm
    rcases hs with hs | hs | hs
    · exact .inr (.inl (by omega))
    · exact absurd ⟨by omega, by omega, by omega, by omega⟩ hh
    · exact .inr (.inr (by omega))

theorem halvePack_header (p : Pack) (n : Nat) : SameHeader p (halvePack p n) := by
  unfold halvePack
  split_ifs
  · exact ⟨rfl, rfl, rfl, rfl, rfl, rfl, rfl, rfl, rfl⟩
  · exact .refl p

theorem startPack_header (p : Pack) : SameHeader p (startPack p) := by
  unfold startPack
  split
  · exact ⟨rfl, rfl, rfl, rfl, rfl, rfl, rfl, rfl, rfl⟩
  · exact .refl p

theorem startPack_size (p : Pack) : (startPack p).size = p.size := by
  unfold startPack
  split <;> rfl

theorem singleton_le (b : UInt8) : [b].length ≤ pieceSize := by
  rw [List.length_singleton]
  decide

/-- The packet as its first byte finds it. -/
theorem filling_start (u : Unset) {p : Pack} (hs : s.Spared) (hr : Reading s 9 p) (hf : Fits m p) (hc : p.count = 0)
    (hsize : p.size = PES_SIZE) (hl : p.plength = s.plength) (b : UInt8) :
    ∃ q, Filling m [] [] q ∧ q.count = 6 ∧ SameHeader p q ∧ ∀ fuel, writeFuel u (fuel + 1) p [b] = writeFuel u (fuel + 1) q [b] := by
  have hfits : Fits m (halvePack (startPack p) 1) := hf.started.halved 1
  have hstart : (startPack p).count = 6 := by
    unfold startPack
    rw [if_pos (by omega)]
  have hheader := startPack_header p
  have hsize' : (startPack p).size = PES_SIZE := (startPack_size p).trans hsize
  have hcalm := halvePack_calm hs (hheader.plength.trans hl) hsize' hf.started.orig (hheader.found.trans hr.found) hstart
  have hsame := hheader.trans (halvePack_header (startPack p) 1)
  have hcount : (halvePack (startPack p) 1).count = 6 := (halvePack_count _ _).trans hstart
  have hcid : (halvePack (startPack p) 1).cid ≠ PRIVATE_STREAM1 := by
    rw [hsame.cid, hr.cid (by decide)]
    exact s.audioVideo.ne_private
  have hfilling : Filling m [] [] (halvePack (startPack p) 1) := by
    refine ⟨hfits, hcid, hsame.mpeg.trans hr.mpeg, ?_, ?_, hcalm, (hsame.found.trans hr.found).ge⟩
    · rw [hcount]
      exact ⟨rfl, Nat.le_refl 6, fun hne => absurd rfl hne, fun _ hm => nomatch hm⟩
    · have hhalf := hfits.half
      have hp : PES_SIZE = 8192 := rfl
      omega
  refine ⟨_, hfilling, hcount, hsame, fun fuel => writeFuel_congr u ?_ fuel⟩
  have h9 := hfilling.found
  rw [hfilling.readyPack u (by omega) (singleton_le b)]
  exact if_neg fun hp => hcid hp.1

/-- A byte that is written. -/
theorem Filling.byte {w : List UInt8} {outs : List (List UInt8)} (u : Unset) (h : Filling m w outs j.p)
    (hc : j.p.count ≤ j.p.found) (ho : j.out = out ++ outs) (b : UInt8) :
    ∃ outs', (j.write u [b]).out = out ++ outs' ∧ Filling m (w ++ [b]) outs' (j.write u [b]).p ∧
      SameHeader j.p (j.write u [b]).p ∧ (j.write u [b]).p.count ≤ j.p.count + 1 := by
  obtain ⟨q, sent, hw, hq, hsame, hle⟩ := h.write u hc (singleton_le b) (Nat.lt_succ_self _)
  refine ⟨outs ++ sent, ?_, ?_, ?_, ?_⟩
  · unfold Job.write writePack
    rw [hw, ho, List.append_assoc]
  all_goals
    unfold Job.write writePack
    rw [hw]
    assumption

/-- The bytes of the header that were kept are written. -/
theorem writeFlags2_going (u : Unset) (hs : s.Spared) (hr : Reading s 9 j.p) (hf : Fits m j.p) (hc : j.p.count = 0)
    (hsize : j.p.size = PES_SIZE) (hl : j.p.plength = s.plength) (ho : j.out = out) :
    Going m s out 9 (writeFlags2 u j) := by
  have hflags : writeFlags2 u j = ((j.write u [j.p.flag1]).write u [j.p.flag2]).write u [j.p.hlength] := if_pos hr.found
  obtain ⟨q, hq, hqc, hqs, hqw⟩ := filling_start u hs hr hf hc hsize hl j.p.flag1
  have hfirst : j.write u [j.p.flag1] = Job.write u ⟨q, j.out⟩ [j.p.flag1] := by
    unfold Job.write writePack
    rw [hqw]
  have hf9 : q.found = 9 := hqs.found.trans hr.found
  obtain ⟨outs₁, ho₁, h₁, hs₁, hc₁⟩ := Filling.byte (j := ⟨q, j.out⟩) u hq (by dsimp only; omega)
    (by rw [ho, List.append_nil]) j.p.flag1
  obtain ⟨outs₂, ho₂, h₂, hs₂, hc₂⟩ := h₁.byte u (by rw [hs₁.found]; dsimp only at *; omega) ho₁ j.p.flag2
  have hs₁₂ := hs₁.trans hs₂
  obtain ⟨outs₃, ho₃, h₃, hs₃, hc₃⟩ := h₂.byte u (by rw [hs₁₂.found]; dsimp only at *; omega) ho₂ j.p.hlength
  have hsame := (hqs.trans hs₁₂).trans hs₃
  rw [hflags, hfirst]
  refine ⟨hr.same hsame, hsame.plength.trans hl, outs₃, ho₃, ?_, by dsimp only at *; omega⟩
  rw [hr.flag1 (by decide), hr.flag2 (by decide), hr.hlength (by decide)] at h₃ ⊢
  exact h₃

theorem Filling.same {w : List UInt8} {outs : List (List UInt8)} {p p' : Pack} (h : Filling m w outs p)
    (hb : SameBuffer p p') (hh : SameHeader p p') : Filling m w outs p' := by
  have hcalm := h.calm
  unfold Calm at hcalm
  rw [← hb.size, ← hb.sizeOrig, ← hh.plength, ← hh.found] at hcalm
  refine ⟨h.fits.same hb, ?_, hh.mpeg.trans h.mpeg, ?_, ?_, hcalm, hh.found.symm ▸ h.found⟩
  · rw [hh.cid]
    exact h.cid
  · rw [hb.buf, hb.count]
    exact h.pieces
  · rw [hb.count, hb.size]
    exact h.room

theorem Going.same {j' : Job} (h : Going m s out k j) (hb : SameBuffer j.p j'.p) (hh : SameHeader j.p j'.p)
    (ho : j'.out = j.out) : Going m s out k j' := by
  obtain ⟨hr, hl, outs, hout, hf, hc⟩ := h
  exact ⟨hr.same hh, hh.plength.trans hl, outs, ho.trans hout, hf.same hb hh, hb.count.trans_le hc⟩

/-- Bytes that are read behind the first are counted. -/
theorem Reading.advance {p : Pack} (h : Reading s k p) (hk : 9 ≤ k) (n : Nat) :
    Reading s (k + n) { p with found := k + n } := by
  obtain ⟨hfound, hdone, hmpeg, hcid, hplen, hplength, hflag1, hflag2, hhlength⟩ := h
  rw [if_neg (by omega)] at hmpeg
  exact ⟨rfl, hdone, hmpeg.trans (if_neg (by omega)).symm, fun _ => hcid (by omega), fun h5 => by omega,
    fun _ => hplength (by omega), fun _ => hflag1 (by omega), fun _ => hflag2 (by omega), fun _ => hhlength hk⟩

/-- A packet stays one that no write cuts in half. -/
theorem Calm.advance {p : Pack} (h : Calm p) (hs : s.Spared) (hl : p.plength = s.plength) (h9 : 9 ≤ p.found) {f : Nat}
    (hf : f ≤ s.bytes.length) : Calm { p with found := f } := by
  have hp : PES_SIZE = 8192 := rfl
  have hd : pieceSize = 184 := rfl
  unfold Pes.Spared at hs
  rw [← hl] at hs
  unfold Calm at h ⊢
  dsimp only
  rcases h with h | h | h
  · exact .inl h
  · exact .inr (.inl h)
  · rcases hs with hs | hs | hs
    · exact .inr (.inl hs)
    · omega
    · exact .inr (.inr (by omega))

/-- The next bytes of a packet are written and counted. -/
theorem Going.write (u : Unset) (h : Going m s out k j) (hs : s.Spared) (hk : 9 ≤ k) (hkl : k ≤ s.bytes.length)
    {data : List UInt8} (hn : data.length ≤ pieceSize) (hd : data <+: s.bytes.drop k) :
    Going m s out (k + data.length) ((j.write u data).set fun p => { p with found := p.found + data.length }) := by
  obtain ⟨hr, hl, outs, ho, hf, hc⟩ := h
  have hfound := hr.found
  obtain ⟨q, sent, hw, hq, hsame, hle⟩ := hf.write u (by omega) hn (Nat.lt_succ_self _)
  have hjob : j.write u data = ⟨q, j.out ++ sent⟩ := by
    unfold Job.write writePack
    rw [hw]
  have hqf : q.found = k := hsame.found.trans hfound
  have hend : k + data.length ≤ s.bytes.length := by
    have := hd.length_le
    rw [List.length_drop] at this
    omega
  have hbytes : s.body.take (k - 6) ++ data = s.body.take (k + data.length - 6) := by
    have hdrop : s.bytes.drop k = s.body.drop (k - 6) := by
      rw [← Nat.add_sub_cancel' (show 6 ≤ k by omega), ← List.drop_drop, Nat.add_sub_cancel_left]
      rfl
    rw [hdrop] at hd
    have hlen : k + data.length - 6 = k - 6 + data.length := by omega
    rw [hlen, List.take_add, ← List.prefix_iff_eq_take.mp hd]
  rw [hjob]
  unfold Job.set
  dsimp only
  rw [hqf]
  refine ⟨(hr.same hsame).advance hk _, hsame.plength.trans hl, outs ++ sent, ?_, ?_, by dsimp only; omega⟩
  · rw [ho, List.append_assoc]
  · rw [hbytes] at hq
    exact ⟨hq.fits.same ⟨rfl, rfl, rfl, rfl, id⟩, hq.cid, hq.mpeg, hq.pieces, hq.room,
      hq.calm.advance hs (hsame.plength.trans hl) hq.found hend, by dsimp only; omega⟩

/-- The loop over the time stamp takes bytes up to its end. -/
theorem Going.copyPts (u : Unset) (h : Going m s out k j) (hs : s.Spared) (hk : 9 ≤ k) {got : List UInt8}
    (hg : got <+: s.bytes.drop k) (hl : k + got.length ≤ 14) (rest : List UInt8) :
    ∃ j', copyWhile u (fun p => p.found < 14) notePts tally2 j (got ++ rest) =
      copyWhile u (fun p => p.found < 14) notePts tally2 j' rest ∧ Going m s out (k + got.length) j' := by
  induction got generalizing k j with
  | nil => exact ⟨j, rfl, h⟩
  | cons b got ih =>
    rw [List.length_cons] at hl ⊢
    obtain ⟨tail, ht⟩ := hg
    have hb : [b] <+: s.bytes.drop k := ⟨got ++ tail, ht⟩
    have hg' : got <+: s.bytes.drop (k + 1) := ⟨tail, by rw [← List.tail_drop, ← ht]; rfl⟩
    have hkl : k ≤ s.bytes.length := by
      by_contra hc
      rw [List.drop_of_length_le (by omega)] at ht
      cases ht
    have hnoted : Going m s out k (j.set (notePts b)) := h.same (notePts_same b j.p) ⟨rfl, rfl, rfl, rfl, rfl, rfl, rfl, rfl, rfl⟩ rfl
    have hnext : Going m s out (k + 1) (j.byte u notePts tally2 b) := hnoted.write u hs hk hkl (singleton_le b) hb
    obtain ⟨j', hcopy, hgoing⟩ := ih hnext (by omega) hg' (by omega)
    refine ⟨j', ?_, ?_⟩
    · rw [List.cons_append, copyWhile, if_pos, hcopy]
      rw [h.1.found]
      exact decide_eq_true (by omega)
    · rw [← Nat.add_assoc, Nat.add_right_comm]
      exact hgoing

/-- Behind the header the bytes of it that were kept are written. -/
theorem After.going (u : Unset) (h : After m s out k j) (hs : s.Spared) (hk : 9 ≤ k) (hl : j.p.plength = s.plength) :
    Going m s out k (writeFlags2 u j) := by
  unfold After at h
  split at h
  · obtain rfl : k = 9 := by omega
    obtain ⟨hr, hf, hc, hsize, ho⟩ := h
    exact writeFlags2_going u hs hr hf hc hsize hl ho
  · have hfound := h.1.found
    rw [writeFlags2, if_neg (by omega)]
    exact h

/-- What a piece has of a packet: `got` of it, and `more` only where that is its end. -/
structure Share (s : Pes) (k : Nat) (got more : List UInt8) : Prop where
  next : got <+: s.bytes.drop k
  ended : more ≠ [] → s.length ≠ 0 ∧ k + got.length = s.bytes.length
  lt : k < s.bytes.length
  small : got.length ≤ pieceSize

theorem Share.le {got more : List UInt8} (h : Share s k got more) : k + got.length ≤ s.bytes.length := by
  have hle := h.next.length_le
  have hlt := h.lt
  rw [List.length_drop] at hle
  omega

/-- The header of a packet takes no byte that is not its own. -/
theorem Going.stamps (u : Unset) (h : Going m s out k j) (hs : s.Spared) (hk : 9 ≤ k) {got more : List UInt8}
    (hg : Share s k got more) :
    ∃ j' n, (if j.p.flag2 &&& PTS_ONLY ≠ 0 ∧ j.p.found < 14 then
        copyWhile u (fun p => p.found < 14) notePts tally2 j (got ++ more) else (j, got ++ more)) =
          (j', got.drop n ++ more) ∧ n ≤ got.length ∧ Going m s out (k + n) j' ∧ k + n < s.bytes.length := by
  have hle := hg.le
  have hlt := hg.lt
  have hlen := s.length_bytes
  have hdata := s.length_lt
  have hfound := h.1.found
  have hflag := h.1.flag2 (by omega)
  split
  · rename_i hflags
    have hstamp := s.stamped (hflag ▸ hflags.1)
    obtain ⟨j', hcopy, hgoing⟩ := h.copyPts u hs hk ((List.take_prefix (14 - k) got).trans hg.next)
      (by rw [List.length_take]; omega) (got.drop (14 - k) ++ more)
    rw [← List.append_assoc, List.take_append_drop] at hcopy
    rw [List.length_take] at hgoing
    refine ⟨j', min (14 - k) got.length, ?_, by omega, hgoing, by omega⟩
    · have hdrop : got.drop (min (14 - k) got.length) = got.drop (14 - k) := by
        rcases Nat.le_total (14 - k) got.length with hc | hc
        · rw [Nat.min_eq_left hc]
        · rw [Nat.min_eq_right hc, List.drop_of_length_le hc, List.drop_length]
      rw [hcopy, hdrop]
      cases hrest : got.drop (14 - k) ++ more with
      | nil => rfl
      | cons b rest =>
        -- there is more only where the time stamp is at its end
        have hend : 14 ≤ k + min (14 - k) got.length := by
          by_contra hc
          have hmore : more = [] := by
            by_contra hm
            have := (hg.ended hm).2
            omega
          rw [hmore, List.append_nil, List.drop_of_length_le (by omega)] at hrest
          cases hrest
        rw [copyWhile, if_neg]
        rw [hgoing.1.found]
        simpa using hend
  · exact ⟨j, 0, rfl, Nat.zero_le _, h, hlt⟩

theorem Going.cid (h : Going m s out k j) (hk : 9 ≤ k) : j.p.cid = s.cid := h.1.cid (by omega)

theorem Going.mpeg (h : Going m s out k j) (hk : 9 ≤ k) : j.p.mpeg = 2 := h.1.mpeg.trans (if_neg (by omega))

theorem After.reading (h : After m s out k j) : Reading s k j.p := by
  unfold After at h
  split at h
  · exact h.1
  · exact h.1

/-- The loop over the data takes what the piece has of the packet. -/
theorem Going.packetData (u : Unset) (h : Going m s out k j) (hs : s.Spared) (hk : 9 ≤ k) {got : List UInt8} (more : List UInt8)
    (hg : got <+: s.bytes.drop k) (hm : more ≠ [] → s.length ≠ 0 ∧ k + got.length = s.bytes.length) (hn : got.length ≤ pieceSize)
    (hne : got ≠ []) :
    ∃ j', TsDemux.packetData u j (got ++ more) = (j', more) ∧ Going m s out (k + got.length) j' := by
  have hlen := s.length_bytes
  have hle := hg.length_le
  rw [List.length_drop] at hle
  have hpos := List.length_pos_of_ne_nil hne
  have hlimit := s.length_le hs
  have hfound := h.1.found
  have hl := h.2.1
  have htake : min (got ++ more).length (j.p.plength + 6 - j.p.found) = got.length := by
    rw [List.length_append, hl, hfound]
    cases more with
    | nil =>
      rw [List.length_nil]
      omega
    | cons b more =>
      obtain ⟨hknown, hend⟩ := hm (List.cons_ne_nil b more)
      have hp : s.plength = s.length := if_neg hknown
      have := s.length_eq.resolve_left hknown
      omega
  unfold TsDemux.packetData
  rw [if_pos (by omega)]
  dsimp only
  rw [htake, List.take_left, List.drop_left]
  exact ⟨_, rfl, h.write u hs hk (by omega) hn hg⟩

/-- The bytes of a packet in a piece are written. -/
theorem After.streamData (u : Unset) (h : After m s out k j) (hs : s.Spared) (hk : 9 ≤ k) (hl : j.p.plength = s.plength)
    {got more : List UInt8} (hg : Share s k got more) :
    ∃ j', Going m s out (k + got.length) j' ∧
      ((k + got.length < s.bytes.length ∧ TsDemux.streamData u j (got ++ more) = (j', none)) ∨
        TsDemux.streamData u j (got ++ more) = (j', some more)) := by
  have hgoing := h.going u hs hk hl
  have hcid : AudioVideo j.p.cid := by
    rw [h.reading.cid (by omega)]
    exact s.audioVideo
  have hmpeg : j.p.mpeg = 2 := h.reading.mpeg.trans (if_neg (by omega))
  obtain ⟨j', n, hheader, hn, hj', hlt⟩ := hgoing.stamps u hs hk hg
  have hparts : (if j.p.mpeg = 2 then header2 u j (got ++ more) else
      if j.p.mpeg = 1 then header1 u j (got ++ more) else (j, got ++ more)) = (j', got.drop n ++ more) := by
    rw [if_pos hmpeg]
    unfold header2
    exact hheader
  cases hrest : got.drop n with
  | nil =>
    have hend : n = got.length := by
      have := List.drop_eq_nil_iff.mp hrest
      omega
    subst hend
    obtain rfl : more = [] := by
      by_contra hm
      have := (hg.ended hm).2
      omega
    rw [hrest] at hparts
    exact ⟨j', hj', .inl ⟨hlt, streamData_nil (.inr hcid) hparts⟩⟩
  | cons b rest =>
    have hle := hg.le
    have hdrop : got.drop n <+: s.bytes.drop (k + n) := by
      rw [← List.drop_drop]
      exact List.IsPrefix.drop hg.next n
    have hlen : (got.drop n).length = got.length - n := List.length_drop
    rw [hrest] at hdrop hlen hparts
    have hsmall := hg.small
    obtain ⟨j'', hdata, hj''⟩ := hj'.packetData u hs (by omega) more hdrop
      (fun hm => ⟨(hg.ended hm).1, by have := (hg.ended hm).2; omega⟩) (by omega) (List.cons_ne_nil b rest)
    have hk' : k + n + (b :: rest).length = k + got.length := by omega
    rw [hk'] at hj''
    refine ⟨j'', hj'', .inr ?_⟩
    rw [List.cons_append] at hdata hparts
    rw [streamData_cons (.inr hcid) hparts, hdata]

theorem Fits.fresh (h : Fits m j.p) (ho : j.out = out) : Fresh m out (j.set resetPack) :=
  ⟨h.reset, rfl, rfl, rfl, rfl, rfl, h.orig, ho⟩

theorem Pes.four_le (s : Pes) : 4 ≤ s.body.length := by
  have := List.length_pos_of_ne_nil s.nonempty
  unfold body
  simp only [List.length_cons, List.length_append]
  omega

/-- What is in the buffer is sent, where it is more than the header of a packet. -/
theorem Pieces.finish {w : List UInt8} {outs : List (List UInt8)} (u : Unset) (hf : Fits m j.p)
    (hcid : j.p.cid ≠ PRIVATE_STREAM1) (hmpeg : j.p.mpeg = 2) (hp : Pieces w (outs ++ [slice j.p.buf 0 j.p.count]))
    (h4 : 4 ≤ w.length) (ho : j.out = out ++ outs) : ∃ outs', Pieces w outs' ∧ Fresh m (out ++ outs') (j.finish u) := by
  by_cases hshort : j.p.count < 10
  · have hsend : j.send u = j := by
      unfold Job.send sendPack
      rw [if_pos hshort, List.append_nil]
    obtain ⟨xs, x, rfl⟩ : ∃ xs x, outs = xs ++ [x] := by
      rcases List.eq_nil_or_concat outs with rfl | ⟨xs, x, rfl⟩
      · have hw := congrArg List.length hp.1
        rw [List.flatMap_nil, List.append_nil, List.length_drop, slice_length] at hw
        omega
      · exact ⟨xs, x, List.concat_eq_append⟩
    refine ⟨xs ++ [x], hp.drop_last (by rw [slice_length]; omega), ?_⟩
    unfold Job.finish
    rw [hsend]
    exact hf.fresh ho
  · have hsend := sendPack_eq u hcid hmpeg (by omega)
    have hfits := (sendPack_fits u hf).1
    refine ⟨outs ++ [slice (sealPack j.p).buf 0 j.p.count],
      hp.sealed (by rw [slice_length, slice_length]) (sealPack_drop _ _), ?_⟩
    unfold Job.finish
    refine Fits.fresh (j := j.send u) hfits ?_
    unfold Job.send
    rw [hsend, ho, List.append_assoc]

/-- The packets that have been sent of a packet that is at its end. -/
theorem Going.finish (u : Unset) (h : Going m s out k j) (hk : s.bytes.length ≤ k) :
    ∃ outs, Pieces s.body outs ∧ Fresh m (out ++ outs) (j.finish u) := by
  obtain ⟨hr, hl, outs, ho, hf, hc⟩ := h
  have hlen : s.bytes.length = s.body.length + 6 := rfl
  have hbody : s.body.take (k - 6) = s.body := List.take_of_length_le (by omega)
  rw [hbody] at hf
  exact hf.pieces.finish u hf.fits hf.cid hf.mpeg s.four_le ho

theorem Pes.plength_ne (s : Pes) : s.plength ≠ 0 := by
  have hm : MMAX_PLENGTH.toNat = 524280 := rfl
  unfold plength
  split_ifs <;> omega

/-- Behind the header the length is known, or taken to be as large as can be. -/
theorem Reading.unbounded {p : Pack} (h : Reading s k p) (hk : 9 ≤ k) :
    Reading s k (unbounded p) ∧ (TsDemux.unbounded p).plength = s.plength := by
  have hne := s.plength_ne
  have hplength := h.plength (by omega)
  unfold TsDemux.unbounded
  split
  · rename_i h0
    have hlen : s.length = 0 := by omega
    have hp : s.plength = MMAX_PLENGTH.toNat - 6 := if_pos hlen
    obtain ⟨hfound, hdone, hmpeg, hcid, hplen, -, hflag1, hflag2, hhlength⟩ := h
    exact ⟨⟨hfound, hdone, hmpeg, hcid, hplen, fun _ => .inr hp.symm, hflag1, hflag2, hhlength⟩, hp.symm⟩
  · rename_i h0
    refine ⟨h, ?_⟩
    rcases hplength with hl | hl
    · have hp : s.plength = s.length := if_neg (hl ▸ h0)
      rw [hl, hp]
    · exact hl

/-- The loop over the header takes what the piece has of the header. -/
theorem After.scan (h : After m s out k j) {got : List UInt8} (hg : got <+: s.bytes.drop k) (rest : List UInt8) :
    ∃ p' n, TsDemux.scan j.p (got ++ rest) = TsDemux.scan p' (got.drop n ++ rest) ∧ n ≤ got.length ∧
      After m s out (k + n) { j with p := p' } ∧ (9 ≤ k + n ∨ n = got.length) ∧ (n = 0 ∨ k + n ≤ 9) := by
  by_cases hk : 9 ≤ k
  · exact ⟨j.p, 0, rfl, Nat.zero_le _, h, .inl hk, .inl rfl⟩
  · unfold After at h
    rw [if_pos (by omega)] at h
    obtain ⟨hr, hf, hc, hsize, ho⟩ := h
    obtain ⟨p', hscan, hr', hsame⟩ := hr.scan_append (got.take (9 - k)) (by rw [List.length_take]; omega)
      ((List.take_prefix _ _).trans hg) (got.drop (9 - k) ++ rest)
    rw [← List.append_assoc, List.take_append_drop] at hscan
    rw [List.length_take] at hr'
    refine ⟨p', min (9 - k) got.length, ?_, by omega, ?_, by omega, by omega⟩
    · have hdrop : got.drop (min (9 - k) got.length) = got.drop (9 - k) := by
        rcases Nat.le_total (9 - k) got.length with hc | hc
        · rw [Nat.min_eq_left hc]
        · rw [Nat.min_eq_right hc, List.drop_of_length_le hc, List.drop_length]
      rw [hscan, hdrop]
    · unfold After
      rw [if_pos (by omega)]
      exact ⟨hr', hf.same hsame, hsame.count.trans hc, hsame.size.trans hsize, ho⟩

theorem After.unbounded (h : After m s out k j) (hk : 9 ≤ k) : After m s out k (j.set TsDemux.unbounded) := by
  have hsame := unbounded_same j.p
  have hread := h.reading.unbounded hk
  unfold After at h ⊢
  split at h
  · rename_i hle
    rw [if_pos hle]
    obtain ⟨hr, hf, hc, hsize, ho⟩ := h
    exact ⟨hread.1, hf.same hsame, hsame.count.trans hc, hsame.size.trans hsize, ho⟩
  · rename_i hle
    rw [if_neg hle]
    have hne := s.plength_ne
    have hp : TsDemux.unbounded j.p = j.p := if_neg (h.2.1 ▸ hne)
    unfold Job.set
    rw [hp]
    exact h

/-- The end of a packet is where its length says. -/
theorem Pes.ended_iff (s : Pes) (hs : s.Spared) {n : Nat} (hn : n ≤ s.bytes.length) :
    n = s.plength + 6 ↔ n = s.bytes.length ∧ s.length ≠ 0 := by
  have hlen := s.length_bytes
  have hp : PES_SIZE = 8192 := rfl
  have hd : pieceSize = 184 := rfl
  have hm : MMAX_PLENGTH.toNat = 524280 := rfl
  unfold Spared at hs
  unfold plength at hs ⊢
  rcases s.length_eq with h0 | h0
  · rw [if_pos h0] at hs ⊢
    omega
  · split_ifs at hs ⊢ <;> omega

/-- What a piece has of a packet is taken in: the rest of the piece is that of a new packet. -/
theorem After.feed (u : Unset) (h : After m s out k j) (hs : s.Spared) {got more : List UInt8} (hg : Share s k got more)
    (hne : got ≠ []) (fuel : Nat) :
    ∃ j', (After m s out (k + got.length) j' ∧ (k + got.length < s.bytes.length ∨ s.length = 0) ∧
        repackFuel u (fuel + 1) j (got ++ more) = j') ∨
      (k + got.length = s.bytes.length ∧ ∃ outs, Pieces s.body outs ∧ Fresh m (out ++ outs) j' ∧
        repackFuel u (fuel + 1) j (got ++ more) = if more = [] then j' else repackFuel u fuel j' more) := by
  have hlen := s.length_bytes
  have hdata := s.length_lt
  have hle := hg.le
  have hpos := List.length_pos_of_ne_nil hne
  obtain ⟨p', n, hscan, hn, hafter, hn9, hn0⟩ := h.scan hg.next more
  rw [repackFuel, hscan]
  cases hrest : got.drop n ++ more with
  | nil =>
    -- the piece ends within the header
    obtain ⟨hgot, rfl⟩ := List.append_eq_nil_iff.mp hrest
    have hend := List.drop_eq_nil_iff.mp hgot
    obtain rfl : n = got.length := by omega
    exact ⟨{ j with p := p' }, .inl ⟨hafter, .inl (by omega), rfl⟩⟩
  | cons b bytes =>
    have hk : 9 ≤ k + n := by
      rcases hn9 with h9 | rfl
      · exact h9
      · rw [List.drop_length, List.nil_append] at hrest
        have := (hg.ended (by rw [hrest]; exact List.cons_ne_nil _ _)).2
        omega
    rw [hafter.reading.scan_eq hk]
    dsimp only
    have hafter' := hafter.unbounded hk
    have hread := hafter'.reading
    have hplength := (hafter.reading.unbounded hk).2
    have hmpeg : (TsDemux.unbounded p').mpeg = 2 := hread.mpeg.trans (if_neg (by omega))
    have hfound : (TsDemux.unbounded p').found = k + n := hread.found
    rw [if_pos (.inr (.inl ⟨hmpeg, by omega⟩))]
    have hshare : Share s (k + n) (got.drop n) more := by
      refine ⟨?_, fun hm => ⟨(hg.ended hm).1, ?_⟩, ?_, ?_⟩
      · rw [← List.drop_drop]
        exact List.IsPrefix.drop hg.next n
      · have := (hg.ended hm).2
        rw [List.length_drop]
        omega
      · have := hg.lt
        omega
      · have := hg.small
        rw [List.length_drop]
        omega
    obtain ⟨j', hj', hstream⟩ : ∃ j', Going m s out (k + n + (got.drop n).length) j' ∧ (_ ∨ _) :=
      hafter'.streamData u hs hk hplength hshare
    change _ ∨ TsDemux.streamData u ⟨TsDemux.unbounded p', j.out⟩ (got.drop n ++ more) = _ at hstream
    have hcount : k + n + (got.drop n).length = k + got.length := by
      rw [List.length_drop]
      omega
    rw [hcount] at hj' hstream
    have hbeyond : 9 < k + got.length := by
      by_contra hc
      have hnil : got.drop n = [] := List.eq_nil_of_length_eq_zero (by omega)
      have hm : more ≠ [] := by
        rintro rfl
        rw [hnil] at hrest
        cases hrest
      have := (hg.ended hm).2
      omega
    have hgoing : After m s out (k + got.length) j' := by
      rw [After, if_neg (by omega)]
      exact hj'
    have hlimit := s.ended_iff hs hle
    rw [← hrest]
    rcases hstream with ⟨hlt, hnone⟩ | hsome
    · -- the piece ends within the time stamp
      change TsDemux.streamData u ⟨TsDemux.unbounded p', j.out⟩ (got.drop n ++ more) = _ at hnone
      exact ⟨j', .inl ⟨hgoing, .inl hlt, by rw [hnone]⟩⟩
    · rw [hsome]
      have hskip : skipDone j' more = (j', more) := if_neg (by rw [hj'.1.done]; decide)
      dsimp only
      rw [hskip]
      dsimp only
      have hfound' := hj'.1.found
      have hplength' := hj'.2.1
      split
      · rename_i hend
        obtain ⟨hT, hknown⟩ := hlimit.mp (by omega)
        obtain ⟨outs, hpieces, hfresh⟩ := hj'.finish u hT.ge
        exact ⟨j'.finish u, .inr ⟨hT, outs, hpieces, hfresh, rfl⟩⟩
      · rename_i hend
        have hne' := s.plength_ne
        refine ⟨j', .inl ⟨hgoing, ?_, rfl⟩⟩
        by_contra hc
        refine hend ⟨by omega, ?_⟩
        have := hlimit.mpr ⟨by omega, by omega⟩
        omega

theorem repackFuel_nil (u : Unset) (fuel : Nat) (j : Job) : repackFuel u fuel j [] = j := by
  cases fuel <;> rfl

end

/-- The data of a packet of MPEG-2: what follows its header. -/
def payload (packet : List UInt8) : List UInt8 := packet.drop (9 + (packet.getD 8 0).toNat)

/-- The packets that a packet has become have its data. -/
theorem Pieces.payload {s : Pes} {outs : List (List UInt8)} (h : Pieces s.body outs) :
    outs.flatMap TsDemux.payload = s.data := by
  cases outs with
  | nil => exact h.elim
  | cons x xs =>
    obtain ⟨hw, -, hfull, hall⟩ := h
    have hhl : (UInt8.ofNat s.header.length).toNat = s.header.length := by
      rw [UInt8.toNat_ofNat']
      exact Nat.mod_eq_of_lt s.short
    have hp : PES_SIZE = 8192 := rfl
    have hshort := s.short
    have hbody : s.body.length = 3 + s.header.length + s.data.length := by
      unfold Pes.body
      simp only [List.length_cons, List.length_append]
      omega
    -- the header is all in the first packet
    have hlong : 9 + s.header.length ≤ x.length := by
      cases xs with
      | nil =>
        have := congrArg List.length hw
        rw [List.flatMap_nil, List.append_nil, List.length_drop] at this
        omega
      | cons y ys =>
        have := hfull (List.cons_ne_nil y ys)
        omega
    have h8 : x[8]? = some (UInt8.ofNat s.header.length) := by
      have hbyte : (x.drop 6 ++ xs.flatMap (·.drop 9))[2]? = s.body[2]? := by rw [← hw]
      rw [List.getElem?_append_left (by rw [List.length_drop]; omega), List.getElem?_drop] at hbyte
      exact hbyte
    have hfirst : TsDemux.payload x = (x.drop 6).drop (3 + s.header.length) := by
      unfold TsDemux.payload
      rw [List.getD_eq_getElem?_getD, h8, Option.getD_some, hhl, List.drop_drop]
      congr 1
      omega
    have hrest : xs.flatMap TsDemux.payload = xs.flatMap (·.drop 9) := by
      apply List.flatMap_congr
      intro y hy
      unfold TsDemux.payload
      rw [List.getD_eq_getElem?_getD, (hall y hy).2]
      rfl
    have hdata : s.body.drop (3 + s.header.length) = s.data := by
      have hb : s.body = [s.flag1, s.flag2, UInt8.ofNat s.header.length] ++ s.header ++ s.data := rfl
      rw [hb]
      exact List.drop_left' (by rw [List.length_append]; rfl)
    rw [List.flatMap_cons, hfirst, hrest, ← hdata, hw, List.drop_append_of_le_length]
    rw [List.length_drop]
    omega

/-- `n` bytes of the packets `ss` have been read. -/
def Between (m : Nat → UInt8) : List Pes → Nat → List (List UInt8) → Job → Prop
  | [], n, out, j => n = 0 ∧ Fresh m out j
  | s :: ss, n, out, j =>
    (n < s.bytes.length ∧ After m s out n j) ∨
      (s.bytes.length ≤ n ∧ ∃ outs, Pieces s.body outs ∧ Between m ss (n - s.bytes.length) (out ++ outs) j)

section
variable {m : Nat → UInt8} {out : List (List UInt8)} {j : Job} {ss : List Pes} {n : Nat}

theorem Pes.length_pos (s : Pes) : 0 < s.bytes.length := Nat.succ_pos _

theorem Fresh.between (h : Fresh m out j) (ss : List Pes) : Between m ss 0 out j := by
  cases ss with
  | nil => exact ⟨rfl, h⟩
  | cons s ss => exact .inl ⟨s.length_pos, h.after s⟩

/-- A piece of packets whose lengths are known. -/
theorem Between.feed (u : Unset) (hs : ∀ s ∈ ss, s.Spared ∧ s.length ≠ 0) (h : Between m ss n out j) {piece : List UInt8}
    (hp : piece <+: (ss.flatMap Pes.bytes).drop n) (hl : piece.length ≤ pieceSize) {fuel : Nat}
    (hf : piece.length < fuel) : Between m ss (n + piece.length) out (repackFuel u fuel j piece) := by
  induction ss generalizing n out j piece fuel with
  | nil =>
    obtain ⟨rfl, hfresh⟩ := h
    obtain rfl : piece = [] := by simpa using hp
    rw [repackFuel_nil]
    exact ⟨rfl, hfresh⟩
  | cons s ss ih =>
    obtain ⟨hspared, hknown⟩ := hs s List.mem_cons_self
    have hs' : ∀ s ∈ ss, s.Spared ∧ s.length ≠ 0 := fun s' hm => hs s' (List.mem_cons_of_mem s hm)
    rw [List.flatMap_cons] at hp
    rcases h with ⟨hlt, hafter⟩ | ⟨hle, outs, hpieces, hrest⟩
    · obtain ⟨fuel, rfl⟩ : ∃ f, fuel = f + 1 := ⟨fuel - 1, by omega⟩
      by_cases hne : piece = []
      · subst hne
        rw [repackFuel_nil]
        exact .inl ⟨hlt, hafter⟩
      · -- what the piece has of this packet, and what it has of those behind it
        rw [List.drop_append_of_le_length hlt.le] at hp
        have hlen : (s.bytes.drop n).length = s.bytes.length - n := List.length_drop
        have hgot : piece.take (s.bytes.length - n) <+: s.bytes.drop n := by
          have := hp.take (s.bytes.length - n)
          rwa [List.take_left' hlen] at this
        have hmore : piece.drop (s.bytes.length - n) <+: ss.flatMap Pes.bytes := by
          have := hp.drop (s.bytes.length - n)
          rwa [List.drop_left' hlen] at this
        have hsplit := List.take_append_drop (s.bytes.length - n) piece
        have hpos := List.length_pos_of_ne_nil hne
        have htake : (piece.take (s.bytes.length - n)).length = min (s.bytes.length - n) piece.length := List.length_take
        have hdrop : (piece.drop (s.bytes.length - n)).length = piece.length - (s.bytes.length - n) := List.length_drop
        generalize piece.take (s.bytes.length - n) = got at *
        generalize piece.drop (s.bytes.length - n) = more at *
        have hshare : Share s n got more := by
          refine ⟨hgot, fun hm => ⟨hknown, ?_⟩, hlt, by omega⟩
          have := List.length_pos_of_ne_nil hm
          omega
        obtain ⟨j', ⟨hafter', hbefore, hrun⟩ | ⟨hend, outs, hpieces, hfresh, hrun⟩⟩ :=
          hafter.feed u hspared hshare (List.ne_nil_of_length_pos (by omega)) fuel
        · have hlt' := hbefore.resolve_right hknown
          have hcount : n + piece.length = n + got.length := by omega
          rw [← hsplit, hrun, hsplit, hcount]
          exact .inl ⟨hlt', hafter'⟩
        · rw [← hsplit, hrun, hsplit]
          refine .inr ⟨by omega, outs, hpieces, ?_⟩
          have hcount : n + piece.length - s.bytes.length = 0 + more.length := by omega
          rw [hcount]
          split
          · rename_i hnil
            rw [hnil]
            exact hfresh.between ss
          · exact ih hs' (hfresh.between ss) hmore (by omega) (by omega)
    · rw [List.drop_append, List.drop_of_length_le hle, List.nil_append] at hp
      have hnext := ih hs' hrest hp hl hf
      refine .inr ⟨by omega, outs, hpieces, ?_⟩
      rw [Nat.sub_add_comm hle]
      exact hnext

/-- Pieces one after the other. -/
theorem Between.feeds (u : Unset) (hs : ∀ s ∈ ss, s.Spared ∧ s.length ≠ 0) (h : Between m ss n out j)
    {pieces : List (List UInt8)} (hp : pieces.flatten <+: (ss.flatMap Pes.bytes).drop n)
    (hl : ∀ piece ∈ pieces, piece.length ≤ pieceSize) :
    Between m ss (n + pieces.flatten.length) out (pieces.foldl (instantRepack u) j) := by
  induction pieces generalizing n j with
  | nil => exact h
  | cons piece pieces ih =>
    rw [List.flatten_cons] at hp ⊢
    have hfirst := h.feed u hs ((List.prefix_append _ _).trans hp) (hl piece List.mem_cons_self) (Nat.lt_succ_self _)
    have hrest : pieces.flatten <+: (ss.flatMap Pes.bytes).drop (n + piece.length) := by
      have := hp.drop piece.length
      rwa [List.drop_left, List.drop_drop] at this
    rw [List.length_append, ← Nat.add_assoc]
    exact ih hfirst hrest fun p hm => hl p (List.mem_cons_of_mem _ hm)

/-- When all has been read, all of the data has been sent. -/
theorem Between.payload (h : Between m ss (ss.flatMap Pes.bytes).length out j) :
    Fresh m j.out j ∧ j.out.flatMap TsDemux.payload = out.flatMap TsDemux.payload ++ ss.flatMap Pes.data := by
  induction ss generalizing out with
  | nil =>
    obtain ⟨-, hfresh⟩ := h
    have ho := hfresh.out_eq
    subst ho
    exact ⟨hfresh, by simp⟩
  | cons s ss ih =>
    rw [List.flatMap_cons, List.length_append] at h
    rcases h with ⟨hlt, -⟩ | ⟨-, outs, hpieces, hrest⟩
    · omega
    · rw [Nat.add_sub_cancel_left] at hrest
      obtain ⟨hfresh, hdata⟩ := ih hrest
      refine ⟨hfresh, ?_⟩
      rw [hdata, List.flatMap_append, hpieces.payload, List.flatMap_cons, List.append_assoc]

end

/-- A packet of video that fills a transport packet. -/
def onePes : Pes where
  cid := 0xE0
  length := 178
  flag1 := 0x80
  flag2 := 0
  header := []
  data := List.replicate 175 7
  audioVideo := by decide
  mpeg2 := by decide
  stamped := by decide
  short := by decide
  nonempty := List.cons_ne_nil _ _
  length_eq := .inr (by rw [List.length_replicate]; rfl)
  word := by decide

def noPack : Pack := ⟨0, 0, 0, 0, 0, (0, 0), 0, 0, 0, fun _ => 0, fun _ => 0, 0, 0, 0, false, 0, fun _ => 0⟩

end Mvpmc.TsDemux
