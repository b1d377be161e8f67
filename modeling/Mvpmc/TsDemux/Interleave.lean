import Mvpmc.TsDemux.Remux

/-! What the repacker does to PES packets that come over transport packets, where one may have no known length, and what
becomes of the streams that come interleaved: each is repacked as if it came alone, and its data can be found again among
the packets of all. -/
namespace Mvpmc.TsDemux
open Mvpmc.Lib Mvpmc.Lib.Circular

/-- A PES packet over transport packets: one starts in the first. -/
structure Carried where
  pes : Pes
  first : List UInt8
  others : List (List UInt8)
  cut : (first :: others).flatten = pes.bytes
  small : ∀ piece ∈ first :: others, piece.length ≤ pieceSize

def Carried.packets (x : Carried) : List (Bool × List UInt8) := (true, x.first) :: x.others.map (false, ·)

/-- All of the packets with the data `d` have been read. One of no known length may still be in the buffer. -/
def Done (m : Nat → UInt8) (d : List UInt8) (j : Job) : Prop :=
  (Fresh m j.out j ∧ j.out.flatMap payload = d) ∨
    ∃ s out, s.length = 0 ∧ After m s out s.bytes.length j ∧ out.flatMap payload ++ s.data = d

/-- `k` bytes of the packet have been read, and it has been sent when it is at its end and its length is known. -/
def Upto (m : Nat → UInt8) (s : Pes) (out : List (List UInt8)) (k : Nat) (j : Job) : Prop :=
  (After m s out k j ∧ (k < s.bytes.length ∨ s.length = 0)) ∨
    (k = s.bytes.length ∧ ∃ outs, Pieces s.body outs ∧ Fresh m (out ++ outs) j)

section
variable {m : Nat → UInt8} {s : Pes} {out : List (List UInt8)} {k : Nat} {j : Job} {u : Unset}

theorem Upto.piece (h : Upto m s out k j) (hs : s.Spared) {piece : List UInt8} (hp : piece <+: s.bytes.drop k)
    (hl : piece.length ≤ pieceSize) : Upto m s out (k + piece.length) (instantRepack u j piece) := by
  by_cases hne : piece = []
  · subst hne
    exact (repackFuel_nil u _ j).symm ▸ h
  · have hk : k < s.bytes.length := by
      by_contra hc
      rw [List.drop_of_length_le (by omega)] at hp
      exact hne (List.prefix_nil.mp hp)
    have hafter : After m s out k j := by
      rcases h with h | h
      · exact h.1
      · omega
    have hshare : Share s k piece [] := ⟨hp, fun hc => absurd rfl hc, hk, hl⟩
    obtain ⟨j', ⟨hafter', hbefore, hrun⟩ | ⟨hend, outs, hpieces, hfresh, hrun⟩⟩ :=
      hafter.feed u hs hshare hne piece.length
    all_goals
      rw [List.append_nil] at hrun
      change instantRepack u j piece = _ at hrun
      rw [hrun]
    · exact .inl ⟨hafter', hbefore⟩
    · rw [if_pos rfl]
      exact .inr ⟨hend, outs, hpieces, hfresh⟩

theorem Upto.pieces (h : Upto m s out k j) (pieces : List (List UInt8)) (hs : s.Spared)
    (hp : pieces.flatten = s.bytes.drop k) (hk : k ≤ s.bytes.length) (hl : ∀ piece ∈ pieces, piece.length ≤ pieceSize) :
    Upto m s out s.bytes.length (pieces.foldl (instantRepack u) j) := by
  induction pieces generalizing k j with
  | nil =>
    have hend : k = s.bytes.length := by
      have := List.drop_eq_nil_iff.mp hp.symm
      omega
    exact hend ▸ h
  | cons piece pieces ih =>
    rw [List.flatten_cons] at hp
    have hpre : piece <+: s.bytes.drop k := ⟨_, hp⟩
    have hlen := hpre.length_le
    rw [List.length_drop] at hlen
    refine ih (h.piece hs hpre (hl piece List.mem_cons_self)) ?_ (by omega) fun p hm => hl p (List.mem_cons_of_mem _ hm)
    rw [← List.drop_drop, ← hp, List.drop_left]

/-- Where a packet starts, the one before has been sent. -/
theorem Done.restart {d : List UInt8} (h : Done m d j) :
    Fresh m (j.restart u).out (j.restart u) ∧ (j.restart u).out.flatMap payload = d := by
  have hm : MMAX_PLENGTH.toNat = 524280 := rfl
  rcases h with ⟨hfresh, hd⟩ | ⟨s, out, hlen, hafter, hd⟩
  · have hsame : j.restart u = j := if_neg (by rw [hfresh.plength]; omega)
    rw [hsame]
    exact ⟨hfresh, hd⟩
  · have hlong := s.length_bytes
    have hpos := s.length_lt
    unfold After at hafter
    rw [if_neg (by omega)] at hafter
    obtain ⟨hr, hl, outs, ho, hf, hc⟩ := hafter
    have hbody : s.body.take (s.bytes.length - 6) = s.body := List.take_of_length_le (Nat.le_refl _)
    rw [hbody] at hf
    have hp : s.plength = MMAX_PLENGTH.toNat - 6 := if_pos hlen
    unfold Job.restart
    rw [if_pos (hl.trans hp)]
    have hfits : Fits m (j.set fun p => { p with plength := (UInt32.ofInt (p.found - 6)).toNat, found := 0 }).p :=
      hf.fits.same ⟨rfl, rfl, rfl, rfl, fun _ => UInt32.toNat_lt _⟩
    obtain ⟨outs', hpieces, hfresh⟩ := Pieces.finish u hfits hf.cid hf.mpeg hf.pieces s.four_le ho
    have hout := hfresh.out_eq
    rw [← hout] at hfresh
    refine ⟨hfresh, ?_⟩
    rw [hout, List.flatMap_append, hpieces.payload, hd]

/-- What has been sent of a packet is its data, as far as it goes. -/
theorem Going.payload (h : Going m s out s.bytes.length j) :
    out.flatMap TsDemux.payload <+: j.out.flatMap TsDemux.payload ∧
      j.out.flatMap TsDemux.payload <+: out.flatMap TsDemux.payload ++ s.data := by
  obtain ⟨-, -, outs, ho, hf, -⟩ := h
  have hbody : s.body.take (s.bytes.length - 6) = s.body := List.take_of_length_le (Nat.le_refl _)
  rw [hbody] at hf
  have hdata := hf.pieces.payload
  rw [List.flatMap_append] at hdata
  rw [ho, List.flatMap_append, ← hdata]
  exact ⟨List.prefix_append _ _, (List.prefix_append_right_inj _).mpr (List.prefix_append _ _)⟩

/-- A packet over transport packets. -/
theorem Done.carried {d : List UInt8} (h : Done m d j) (x : Carried) (hs : x.pes.Spared) :
    Done m (d ++ x.pes.data) (j.packets u x.packets) ∧ d <+: (j.packets u x.packets).out.flatMap payload ∧
      (j.packets u x.packets).out.flatMap payload <+: d ++ x.pes.data := by
  obtain ⟨hfresh, hd⟩ := h.restart (u := u)
  have hrun : j.packets u x.packets = (x.first :: x.others).foldl (instantRepack u) (j.restart u) := by
    unfold Job.packets Carried.packets Job.packet
    rw [List.foldl_cons, List.foldl_cons, List.foldl_map]
    rfl
  have hstart : Upto m x.pes (j.restart u).out 0 (j.restart u) := .inl ⟨hfresh.after _, .inl x.pes.length_pos⟩
  have hend := hstart.pieces (u := u) (x.first :: x.others) hs x.cut (Nat.zero_le _) x.small
  rw [← hrun] at hend
  rcases hend with ⟨hafter, hknown⟩ | ⟨-, outs, hpieces, hfresh'⟩
  · have hlen := hknown.resolve_left (Nat.lt_irrefl _)
    have hlong := x.pes.length_bytes
    have hpos := x.pes.length_lt
    have hgoing := hafter
    unfold After at hgoing
    rw [if_neg (by omega)] at hgoing
    have hpay := hgoing.payload
    rw [hd] at hpay
    exact ⟨.inr ⟨x.pes, _, hlen, hafter, by rw [hd]⟩, hpay⟩
  · have hout := hfresh'.out_eq
    have hpay : (j.packets u x.packets).out.flatMap payload = d ++ x.pes.data := by
      rw [hout, List.flatMap_append, hd, hpieces.payload]
    rw [← hout] at hfresh'
    rw [hpay]
    exact ⟨.inl ⟨hfresh', hpay⟩, List.prefix_append _ _, List.prefix_refl _⟩

theorem packets_append (u : Unset) (j : Job) (xs ys : List (Bool × List UInt8)) :
    j.packets u (xs ++ ys) = (j.packets u xs).packets u ys := List.foldl_append

/-- Packets one after the other: all of their data is sent, but for what may be held of the last. -/
theorem Done.carrieds {d : List UInt8} (h : Done m d j) {xs : List Carried} (hs : ∀ x ∈ xs, x.pes.Spared)
    (hne : xs ≠ []) :
    let es := (j.packets u (xs.flatMap Carried.packets)).out.flatMap payload
    d ++ xs.dropLast.flatMap (·.pes.data) <+: es ∧ es <+: d ++ xs.flatMap (·.pes.data) := by
  induction xs generalizing d j with
  | nil => exact absurd rfl hne
  | cons x xs ih =>
    obtain ⟨hdone, hlow, hhigh⟩ := h.carried (u := u) x (hs x List.mem_cons_self)
    have hrun : j.packets u ((x :: xs).flatMap Carried.packets) =
        (j.packets u x.packets).packets u (xs.flatMap Carried.packets) := by
      rw [List.flatMap_cons, packets_append]
    dsimp only
    rw [hrun]
    cases xs with
    | nil =>
      simp only [List.flatMap_nil, List.dropLast_singleton, List.flatMap_cons, List.append_nil]
      exact ⟨hlow, hhigh⟩
    | cons y ys =>
      have hrest := ih hdone (fun z hz => hs z (List.mem_cons_of_mem _ hz)) (List.cons_ne_nil y ys)
      rw [List.dropLast_cons_cons, List.flatMap_cons, ← List.append_assoc]
      rw [show (x :: y :: ys).flatMap (·.pes.data) = x.pes.data ++ (y :: ys).flatMap (·.pes.data) from List.flatMap_cons,
        ← List.append_assoc]
      exact hrest

end

section
variable {δ π : Type}

/-- A packet that is not one of a table, with an adaptation field that lies in it. -/
structure Plain (h : Streams δ π Pack) (buf : Nat → UInt8) : Prop where
  pat : getPid buf ≠ 0
  pmt : getPid buf ≠ h.pmtpid
  fits : adaptation buf ≤ 184

instance (h : Streams δ π Pack) (buf : Nat → UInt8) : Decidable (Plain h buf) :=
  decidable_of_iff (getPid buf ≠ 0 ∧ getPid buf ≠ h.pmtpid ∧ adaptation buf ≤ 184)
    ⟨fun ⟨h0, h1, h2⟩ => ⟨h0, h1, h2⟩, fun ⟨h0, h1, h2⟩ => ⟨h0, h1, h2⟩⟩

/-- The bytes of a packet. -/
def byteOf (block : List UInt8) (i : Nat) : UInt8 := block.getD i 0

/-- Without an ipack, a plain packet does nothing but count. -/
theorem Plain.idle {h : Streams δ π Pack} {buf : Nat → UInt8} (hb : Plain h buf) (psi : Psi δ π) (rp : Repacker Pack)
    (hr : ¬Repacks h buf) : ∃ cc, (demuxTsPacket psi rp h buf).1 = { h with cc := cc } := by
  unfold demuxTsPacket
  split
  · exact ⟨h.cc, rfl⟩
  · rename_i h1
    dsimp only
    split
    · exact ⟨h.cc, rfl⟩
    · rename_i h2
      rw [if_neg hb.pat, if_neg hb.pmt]
      split
      · exact ⟨_, rfl⟩
      · rename_i h5
        exact absurd ⟨not_not.mp h1, h2, hb.pat, hb.pmt, h5⟩ hr

/-- The packets for one ipack, as its repacker gets them. -/
def share (h : Streams δ π Pack) (n : Nat) (blocks : List (List UInt8)) : List (Bool × List UInt8) :=
  (blocks.filter fun block => Repacks h (byteOf block) ∧ h.pids.ipackIndex (getPid (byteOf block)) = n).map fun block =>
    (byteOf block 1 &&& 0x40 ≠ 0, pieceOf (byteOf block))

/-- The ipack and the repacked packet of it. -/
def written (pids : Pids) (sent : List (Nat × List UInt8)) : List (List UInt8) :=
  sent.map fun x => withId (pids.streamId x.1) x.2

/-- What an ipack has sent. -/
def sentOf (n : Nat) (sent : List (Nat × List UInt8)) : List (List UInt8) := (sent.filter (·.1 = n)).map (·.2)

/-- Where packets have got the handle `h₀`: each ipack is where its own packets alone have got it. What they have
sent, in the order in which they have, is in the buffer if there still is room for one more packet. -/
structure Apart (u : Unset) (h₀ : Streams δ π Pack) (blocks : List (List UInt8)) (sent : List (Nat × List UInt8))
    (h : Streams δ π Pack) : Prop where
  pids : h.pids = h₀.pids
  pmtpid : h.pmtpid = h₀.pmtpid
  length : h.pesBufLen = h₀.pesBufLen
  ipack : ∀ n, ∃ m p, h.ipack n = p.toIpack ∧ Fits m p ∧
    Job.packets u ⟨Pack.ofIpack (h₀.ipack n), []⟩ (share h₀ n blocks) = ⟨p, sentOf n sent⟩
  whole : ∀ x ∈ sent, IsPes x.2 ∧ ∃ pid, h₀.pids.ipackIndex pid = x.1 ∧ x.1 ≠ noIpack
  pes : (h.pesBufPos : Int) + PES_SIZE ≤ h₀.pesBufLen → slice h.pesBuf 0 h.pesBufPos = (written h₀.pids sent).flatten

/-- Packets of an ipack are written one behind the other, if there is room for one more behind the last. -/
theorem writes_room (streamid : Nat) {packets : List (List UInt8)} (hp : ∀ packet ∈ packets, IsPes packet)
    (h : Streams δ π Pack) :
    let h' := packets.foldl (writePes streamid) h
    h'.pmtpid = h.pmtpid ∧ h'.pesBufLen = h.pesBufLen ∧ h.pesBufPos ≤ h'.pesBufPos ∧
      ((h'.pesBufPos : Int) + PES_SIZE ≤ h.pesBufLen →
        slice h'.pesBuf 0 h'.pesBufPos = slice h.pesBuf 0 h.pesBufPos ++ (packets.map (withId streamid)).flatten) := by
  induction packets generalizing h with
  | nil => exact ⟨rfl, rfl, Nat.le_refl _, fun _ => (List.append_nil _).symm⟩
  | cons packet packets ih =>
    have hlen := (hp packet List.mem_cons_self).length
    obtain ⟨hpmt, hl, hle, hpes⟩ := ih (fun q hq => hp q (List.mem_cons_of_mem _ hq)) (writePes streamid h packet)
    rw [List.foldl_cons]
    rcases writePes_cases streamid h packet (by omega) with ⟨hfull, he⟩ | ⟨pesBuf, hroom, he, hslice⟩
    · rw [he] at hpmt hl hle hpes ⊢
      exact ⟨hpmt, hl, hle, fun hroom => by omega⟩
    · rw [he] at hpmt hl hle hpes ⊢
      dsimp only at hpmt hl hle hpes ⊢
      refine ⟨hpmt, hl, by omega, fun hroom => ?_⟩
      rw [hpes hroom, hslice, List.map_cons, List.flatten_cons, List.append_assoc]

variable {u : Unset} {short : (Nat → UInt8) → Int → Ipack Pack → Ipack Pack × List (List UInt8)}
  {h₀ h : Streams δ π Pack} {blocks : List (List UInt8)} {sent : List (Nat × List UInt8)}

theorem share_append (h : Streams δ π Pack) (n : Nat) (blocks more : List (List UInt8)) :
    share h n (blocks ++ more) = share h n blocks ++ share h n more := by
  unfold share
  rw [List.filter_append, List.map_append]

/-- A packet that is read where it stands. -/
theorem share_slice (h : Streams δ π Pack) (n : Nat) {buf : Nat → UInt8} (hf : adaptation buf ≤ 184) :
    share h n [slice buf 0 tsSize] = if Repacks h buf ∧ h.pids.ipackIndex (getPid buf) = n then
      [(decide (buf 1 &&& 0x40 ≠ 0), pieceOf buf)] else [] := by
  have hbyte {i : Nat} (hi : i < tsSize) : byteOf (slice buf 0 tsSize) i = buf i := by
    unfold byteOf slice
    simp [List.getD_eq_getElem?_getD, hi]
  have hpiece : pieceOf (byteOf (slice buf 0 tsSize)) = pieceOf buf :=
    slice_ext fun i _ hi => hbyte (by
      have hadapt : adaptation (byteOf (slice buf 0 tsSize)) = adaptation buf := rfl
      unfold tsSize at *
      omega)
  have hroute : (Repacks h (byteOf (slice buf 0 tsSize)) ∧ h.pids.ipackIndex (getPid (byteOf (slice buf 0 tsSize))) = n) ↔
      Repacks h buf ∧ h.pids.ipackIndex (getPid buf) = n := Iff.rfl
  unfold share
  simp only [List.filter_cons, List.filter_nil, hroute, decide_eq_true_eq]
  split
  · rw [List.map_cons, hpiece]
    rfl
  · rfl

theorem sentOf_append (n k : Nat) (sent : List (Nat × List UInt8)) (out : List (List UInt8)) :
    sentOf n (sent ++ out.map (k, ·)) = sentOf n sent ++ if k = n then out else [] := by
  unfold sentOf
  rw [List.filter_append, List.map_append, List.filter_map, List.map_map]
  congr 1
  by_cases hk : k = n <;> simp [hk, Function.comp_def]

theorem packet_behind (out : List (List UInt8)) (p : Pack) (start : Bool) (piece : List UInt8) :
    Job.packet u ⟨p, out⟩ start piece = (Job.packet u ⟨p, []⟩ start piece).behind out := by
  have hrestart : Job.restart u ⟨p, out⟩ = (Job.restart u ⟨p, []⟩).behind out := by
    unfold Job.restart
    dsimp only
    split
    · rw [← finish_behind, ← set_behind]
      unfold Job.behind
      rw [List.append_nil]
    · unfold Job.behind
      rw [List.append_nil]
  unfold Job.packet
  cases start with
  | false => exact instantRepack_behind out u p piece
  | true =>
    rw [if_pos rfl, if_pos rfl, hrestart, Job.behind, instantRepack_behind,
      instantRepack_behind (Job.restart u ⟨p, []⟩).out]
    unfold Job.behind
    rw [List.append_assoc]

variable (short) in
/-- One packet. -/
theorem Apart.step (psi : Psi δ π) (ha : Apart u h₀ blocks sent h) {buf : Nat → UInt8} (hb : Plain h₀ buf) :
    ∃ sent', Apart u h₀ (blocks ++ [slice buf 0 tsSize]) sent' (demuxTsPacket psi (repacker u short) h buf).1 := by
  have hroute : Repacks h buf ↔ Repacks h₀ buf := by
    unfold Repacks
    rw [ha.pids, ha.pmtpid]
  by_cases hr : Repacks h buf
  · obtain ⟨m, p, hp, hf, hrun⟩ := ha.ipack (h.pids.ipackIndex (getPid buf))
    rw [demuxTsPacket_eq psi hr hb.fits hp hf.plength, repacked_eq]
    have hsound : Sound m ⟨p, []⟩ := ⟨hf, fun _ hm => nomatch hm⟩
    obtain ⟨hfits, hpes⟩ := (sound_kept m u).packet hsound (buf 1 &&& 0x40 ≠ 0) (pieceOf buf)
    generalize hk : h.pids.ipackIndex (getPid buf) = k at *
    generalize hj : Job.packet u ⟨p, []⟩ (buf 1 &&& 0x40 ≠ 0) (pieceOf buf) = j at *
    obtain ⟨hpmt, hlen, hpos, hroom⟩ := writes_room (h.pids.streamId k) hpes
      { h with cc := Function.update h.cc (getPid buf) (continuity h (getPid buf) (buf 3)).1 }
    have hpids := foldl_writePes_pids (h.pids.streamId k) j.out
      { h with cc := Function.update h.cc (getPid buf) (continuity h (getPid buf) (buf 3)).1 }
    refine ⟨sent ++ j.out.map (k, ·), hpids.trans ha.pids, hpmt.trans ha.pmtpid, hlen.trans ha.length, fun n => ?_,
      fun x hx => ?_, fun hfinal => ?_⟩
    · rw [share_append, share_slice h₀ n hb.fits, sentOf_append]
      by_cases hn : k = n
      · subst hn
        refine ⟨m, j.p, Function.update_self .., hfits, ?_⟩
        rw [if_pos ⟨hroute.mp hr, ha.pids ▸ hk⟩, if_pos rfl, packets_append, hrun]
        change Job.packet u _ _ _ = _
        rw [packet_behind, hj]
        rfl
      · obtain ⟨m', q, hq, hfq, hrunq⟩ := ha.ipack n
        refine ⟨m', q, (Function.update_of_ne (Ne.symm hn) _ _).trans hq, hfq, ?_⟩
        rw [if_neg fun hc => hn (hk.symm.trans (ha.pids ▸ hc.2)), if_neg hn, List.append_nil, List.append_nil, hrunq]
    · rcases List.mem_append.mp hx with hx | hx
      · exact ha.whole x hx
      · obtain ⟨packet, hm, rfl⟩ := List.mem_map.mp hx
        exact ⟨hpes packet hm, getPid buf, ha.pids ▸ hk, hk ▸ hr.2.2.2.2⟩
    · have hbefore : (h.pesBufPos : Int) + PES_SIZE ≤ h₀.pesBufLen := by
        have : h.pesBufPos ≤ _ := hpos
        dsimp only at hfinal
        omega
      rw [← ha.length] at hfinal
      refine (hroom hfinal).trans ?_
      dsimp only
      rw [ha.pes hbefore, ha.pids]
      unfold written
      rw [List.map_append, List.flatten_append, List.map_map]
      rfl
  · have hplain : Plain h buf := ⟨hb.pat, ha.pmtpid ▸ hb.pmt, hb.fits⟩
    obtain ⟨cc, he⟩ := hplain.idle psi (repacker u short) hr
    rw [he]
    have hnone (n : Nat) : share h₀ n (blocks ++ [slice buf 0 tsSize]) = share h₀ n blocks := by
      rw [share_append, share_slice h₀ n hb.fits, if_neg fun hc => hr (hroute.mpr hc.1), List.append_nil]
    refine ⟨sent, ha.pids, ha.pmtpid, ha.length, fun n => ?_, ha.whole, ha.pes⟩
    rw [hnone]
    exact ha.ipack n

theorem Apart.completePackets (psi : Psi δ π) (ts : Nat → UInt8) (len : Int) (fuel : Nat) {s : Pass δ π Pack}
    (ha : Apart u h₀ s.packets sent s.streams)
    (hb : ∀ block ∈ (completePackets psi (repacker u short) ts len fuel s).packets, Plain h₀ (byteOf block)) :
    ∃ sent', Apart u h₀ (completePackets psi (repacker u short) ts len fuel s).packets sent'
      (completePackets psi (repacker u short) ts len fuel s).streams := by
  induction fuel generalizing s sent with
  | zero => exact ⟨sent, ha⟩
  | succ fuel ih =>
    rcases completePackets_cases psi (repacker u short) ts len fuel s with ⟨hs, hp⟩ | ⟨offset, next, he, hs, hp⟩
    · rw [hs, hp]
      exact ⟨sent, ha⟩
    · rw [he] at hb ⊢
      have hin : slice ts offset tsSize ∈ next.packets := by
        rw [hp]
        exact List.mem_append_right _ (List.mem_singleton_self _)
      have hblock := hb _ ((completePackets_keeps psi (repacker u short) ts len fuel next).subset hin)
      have hplain : Plain h₀ fun i => ts (offset + i) := ⟨hblock.pat, hblock.pmt, hblock.fits⟩
      obtain ⟨sent', hnext⟩ := ha.step short psi hplain
      rw [slice_shift, Nat.add_zero] at hnext
      exact ih (hs ▸ hp ▸ hnext) hb

variable (short) in
/-- One call. -/
theorem Apart.transform (psi : Psi δ π) {h : TsHandle δ π Pack} (hpacks : ∀ n, ∃ m p, h.streams.ipack n = p.toIpack ∧ Fits m p)
    (c : Call) (hb : ∀ block ∈ (tsDemuxTransform psi (repacker u short) h c.ts c.len c.pesBuf c.pesBufLen).packets,
      Plain h.streams (byteOf block)) :
    let r := tsDemuxTransform psi (repacker u short) h c.ts c.len c.pesBuf c.pesBufLen
    r.result = r.handle.streams.pesBufPos ∧
      ∃ sent, Apart u { h.streams with pesBuf := c.pesBuf, pesBufLen := c.pesBufLen, pesBufPos := 0 } r.packets sent
        r.handle.streams := by
  intro r
  let h₀ : Streams δ π Pack := { h.streams with pesBuf := c.pesBuf, pesBufLen := c.pesBufLen, pesBufPos := 0 }
  have hplain {block : List UInt8} (hp : Plain h.streams (byteOf block)) : Plain h₀ (byteOf block) := ⟨hp.pat, hp.pmt, hp.fits⟩
  have hstart : Apart u h₀ [] [] h₀ := by
    refine ⟨rfl, rfl, rfl, fun n => ?_, fun _ hm => (nomatch hm), fun _ => rfl⟩
    obtain ⟨m, p, hp, hf⟩ := hpacks n
    refine ⟨m, p, hp, hf, ?_⟩
    change Job.packets u ⟨Pack.ofIpack (h.streams.ipack n), []⟩ [] = _
    rw [hp, ofIpack_toIpack hf.plength]
    rfl
  have hfrom {h : TsHandle δ π Pack} (offset : Int) {blocks : List (List UInt8)} {sent : List (Nat × List UInt8)}
      (ha : Apart u h₀ blocks sent h.streams)
      (hb : ∀ block ∈ (transformFrom psi (repacker u short) h c.ts c.len offset blocks).packets, Plain h₀ (byteOf block)) :
      (transformFrom psi (repacker u short) h c.ts c.len offset blocks).result =
          (transformFrom psi (repacker u short) h c.ts c.len offset blocks).handle.streams.pesBufPos ∧
        ∃ sent', Apart u h₀ (transformFrom psi (repacker u short) h c.ts c.len offset blocks).packets sent'
          (transformFrom psi (repacker u short) h c.ts c.len offset blocks).handle.streams :=
    ⟨rfl, ha.completePackets (s := ⟨h.streams, offset, h.resyncs, blocks⟩) psi c.ts c.len _ hb⟩
  replace hb := fun block hm => hplain (hb block hm)
  revert r
  unfold tsDemuxTransform at hb ⊢
  dsimp only at hb ⊢
  split at hb
  · rename_i hfrag
    rw [if_pos hfrag]
    split at hb
    · rename_i hshort
      rw [if_pos hshort]
      exact ⟨rfl, [], hstart⟩
    · rename_i hlong
      rw [if_neg hlong]
      generalize blit h.fragBuf h.fragBufPos.toNat
        (slice c.ts 0 (min (tsSize - h.fragBufPos) c.len).toNat) = fragBuf at hb ⊢
      have hblock := hb _ ((transformFrom_keeps psi _ _ _ _ _ _).subset (List.mem_singleton_self _))
      have hfirst : Plain h₀ fragBuf := ⟨hblock.pat, hblock.pmt, hblock.fits⟩
      obtain ⟨sent, hnext⟩ := hstart.step short psi hfirst
      exact hfrom _ hnext hb
  · rename_i hfrag
    rw [if_neg hfrag]
    exact hfrom _ hstart hb

/-- The stream id of a packet. -/
def streamIdOf (packet : List UInt8) : UInt8 := packet.getD 3 0

/-- The packets of one stream that a call gives. -/
def Transformed.ofStream {ρ : Type} (r : Transformed δ π ρ) (id : UInt8) : List (List UInt8) :=
  (splitPes (r.pes.length + 1) r.pes).filter (streamIdOf · = id)

/-- The stream id that an ipack gives its packets is that of no other. -/
def OwnId (h : Pids) (n : Nat) : Prop :=
  0 < h.streamId n ∧ ∀ pid, h.ipackIndex pid ≠ noIpack → h.ipackIndex pid ≠ n →
    0 < h.streamId (h.ipackIndex pid) ∧ UInt8.ofNat (h.streamId (h.ipackIndex pid)) ≠ UInt8.ofNat (h.streamId n)

theorem IsPes.streamIdOf {packet : List UInt8} (h : IsPes packet) {streamid : Nat} (hs : 0 < streamid) :
    TsDemux.streamIdOf (TsDemux.withId streamid packet) = UInt8.ofNat streamid := by
  have hlen := h.length
  unfold TsDemux.streamIdOf TsDemux.withId
  rw [if_pos hs, List.getD_eq_getElem?_getD, List.getElem?_set_self (by omega)]
  rfl

/-- By its stream id, what an ipack has sent is found again. -/
theorem filter_written {h : Pids} {n : Nat} (hid : OwnId h n) {sent : List (Nat × List UInt8)}
    (hs : ∀ x ∈ sent, IsPes x.2 ∧ ∃ pid, h.ipackIndex pid = x.1 ∧ x.1 ≠ noIpack) :
    (written h sent).filter (streamIdOf · = UInt8.ofNat (h.streamId n)) = (sentOf n sent).map (withId (h.streamId n)) := by
  induction sent with
  | nil => rfl
  | cons x sent ih =>
    obtain ⟨hpes, pid, hpid, hused⟩ := hs x List.mem_cons_self
    have hrest := ih fun y hy => hs y (List.mem_cons_of_mem x hy)
    unfold written sentOf at hrest ⊢
    rw [List.map_cons]
    by_cases hn : x.1 = n
    · have hmine : streamIdOf (withId (h.streamId x.1) x.2) = UInt8.ofNat (h.streamId n) := by
        rw [hn]
        exact hpes.streamIdOf hid.1
      rw [List.filter_cons_of_pos (by exact decide_eq_true hmine), List.filter_cons_of_pos (by exact decide_eq_true hn),
        List.map_cons, List.map_cons, hrest, hn]
    · obtain ⟨hpos, hne⟩ := hid.2 pid (hpid ▸ hused) (hpid ▸ hn)
      rw [hpid] at hpos hne
      have hother : ¬streamIdOf (withId (h.streamId x.1) x.2) = UInt8.ofNat (h.streamId n) := by
        rw [hpes.streamIdOf hpos]
        exact hne
      rw [List.filter_cons_of_neg (by simpa using hother), List.filter_cons_of_neg (by simpa using hn), hrest]

theorem Apart.ofStream (ha : Apart u h₀ blocks sent h) {n : Nat} (hid : OwnId h₀.pids n)
    (hroom : (h.pesBufPos : Int) + PES_SIZE ≤ h₀.pesBufLen) :
    let pes := slice h.pesBuf 0 h.pesBufPos
    (splitPes (pes.length + 1) pes).filter (streamIdOf · = UInt8.ofNat (h₀.pids.streamId n)) =
      (sentOf n sent).map (withId (h₀.pids.streamId n)) := by
  have hwhole : ∀ packet ∈ written h₀.pids sent, IsPes packet := fun packet hm => by
    obtain ⟨x, hx, rfl⟩ := List.mem_map.mp hm
    exact (ha.whole x hx).1.withId _
  dsimp only
  rw [ha.pes hroom, splitPes_flatten hwhole (Nat.lt_succ_of_le (length_le_flatten hwhole)), filter_written hid ha.whole]

theorem packets_behind (out : List (List UInt8)) (p : Pack) (packets : List (Bool × List UInt8)) :
    Job.packets u ⟨p, out⟩ packets = (Job.packets u ⟨p, []⟩ packets).behind out := by
  induction packets generalizing p out with
  | nil =>
    change (⟨p, out⟩ : Job) = ⟨p, out ++ []⟩
    rw [List.append_nil]
  | cons x packets ih =>
    have hfirst := packet_behind (u := u) out p x.1 x.2
    generalize hj : Job.packet u ⟨p, []⟩ x.1 x.2 = j at hfirst
    unfold Job.packets at ih ⊢
    rw [List.foldl_cons, List.foldl_cons, hfirst, hj, Job.behind, ih, ih j.out]
    unfold Job.behind
    rw [List.append_assoc]

/-- Where packets go depends on the tables only. -/
theorem share_congr {h h' : Streams δ π Pack} (hp : h'.pids = h.pids) (hm : h'.pmtpid = h.pmtpid) (n : Nat)
    (blocks : List (List UInt8)) : share h' n blocks = share h n blocks := by
  unfold share
  congr 1
  refine List.filter_congr fun block _ => decide_eq_decide.mpr ?_
  unfold Repacks
  rw [hp, hm]

/-- A run of calls in which no tables come, with room in every buffer. -/
theorem transformCalls_apart (psi : Psi δ π) {h : TsHandle δ π Pack}
    (hpacks : ∀ n, ∃ m p, h.streams.ipack n = p.toIpack ∧ Fits m p) {n : Nat} (hid : OwnId h.streams.pids n)
    (calls : List Call)
    (hb : ∀ r ∈ transformCalls psi (repacker u short) h calls, ∀ block ∈ r.packets, Plain h.streams (byteOf block))
    (hroom : ∀ r ∈ transformCalls psi (repacker u short) h calls, r.result + PES_SIZE ≤ r.handle.streams.pesBufLen) :
    (transformCalls psi (repacker u short) h calls).flatMap (·.ofStream (UInt8.ofNat (h.streams.pids.streamId n))) =
      (Job.packets u ⟨Pack.ofIpack (h.streams.ipack n), []⟩
        (share h.streams n ((transformCalls psi (repacker u short) h calls).flatMap (·.packets)))).out.map
          (withId (h.streams.pids.streamId n)) := by
  induction calls generalizing h with
  | nil => rfl
  | cons c calls ih =>
    rw [transformCalls] at hb hroom ⊢
    obtain ⟨hresult, sent, ha⟩ := Apart.transform (u := u) short psi hpacks c (hb _ List.mem_cons_self)
    have hfit := hroom _ List.mem_cons_self
    generalize tsDemuxTransform psi (repacker u short) h c.ts c.len c.pesBuf c.pesBufLen = r at *
    have hpids : r.handle.streams.pids = h.streams.pids := ha.pids
    have hpmt : r.handle.streams.pmtpid = h.streams.pmtpid := ha.pmtpid
    obtain ⟨m, p, hp, hf, hrun⟩ := ha.ipack n
    have hshare (blocks : List (List UInt8)) :
        share { h.streams with pesBuf := c.pesBuf, pesBufLen := c.pesBufLen, pesBufPos := 0 } n blocks =
          share h.streams n blocks := rfl
    rw [hshare] at hrun
    change Job.packets u ⟨Pack.ofIpack (h.streams.ipack n), []⟩ (share h.streams n r.packets) = _ at hrun
    have hstream := ha.ofStream hid (by rw [← hresult, ← ha.length]; exact hfit)
    have hpes : r.pes = slice r.handle.streams.pesBuf 0 r.handle.streams.pesBufPos := by
      unfold Transformed.pes
      rw [hresult, Int.toNat_natCast]
    have hpacks' : ∀ k, ∃ m p, r.handle.streams.ipack k = p.toIpack ∧ Fits m p := fun k => by
      obtain ⟨m, q, hq, hfq, -⟩ := ha.ipack k
      exact ⟨m, q, hq, hfq⟩
    have hrest := ih hpacks' (hpids ▸ hid)
      (fun r' hr block hm => by
        have hplain := hb r' (List.mem_cons_of_mem _ hr) block hm
        exact ⟨hplain.pat, hpmt ▸ hplain.pmt, hplain.fits⟩)
      fun r' hr => hroom r' (List.mem_cons_of_mem _ hr)
    rw [share_congr hpids hpmt, hpids, hp, ofIpack_toIpack hf.plength] at hrest
    rw [List.flatMap_cons, List.flatMap_cons, hrest, share_append, packets_append, hrun,
      packets_behind (sentOf n sent) p, Job.behind, List.map_append]
    congr 1
    unfold Transformed.ofStream
    rw [hpes]
    exact hstream

end

theorem payload_withId (streamid : Nat) (packet : List UInt8) :
    payload (withId streamid packet) = payload packet := by
  have h8 : (withId streamid packet).getD 8 0 = packet.getD 8 0 := by
    unfold withId
    split_ifs
    · rw [List.getD_eq_getElem?_getD, List.getElem?_set_ne (by decide), List.getD_eq_getElem?_getD]
    · rfl
  have hset {n : Nat} (hn : 9 ≤ n) : (withId streamid packet).drop n = packet.drop n := by
    unfold withId
    split_ifs
    · exact List.drop_set_of_lt (by omega)
    · rfl
  unfold payload
  rw [h8, hset (by omega)]

section
variable {δ π : Type} (u : Unset) (short : (Nat → UInt8) → Int → Ipack Pack → Ipack Pack × List (List UInt8))
  (psi : Psi δ π)

/-- The video has the only id 0xE0. -/
theorem twoStreams_own : OwnId twoStreams.streams.pids 0 := by
  refine ⟨by decide, fun pid hused hother => ?_⟩
  have hindex : twoStreams.streams.pids.ipackIndex =
      Function.update (Function.update (fun _ => noIpack) 256 0) 257 1 := rfl
  have haudio : twoStreams.streams.pids.ipackIndex pid = 1 := by
    rw [hindex] at hused hother ⊢
    by_cases h1 : pid = 257
    · subst h1
      rfl
    · rw [Function.update_of_ne h1] at hused hother ⊢
      by_cases h0 : pid = 256
      · subst h0
        exact absurd rfl hother
      · rw [Function.update_of_ne h0] at hused
        exact absurd rfl hused
  rw [haudio]
  decide

/-- The transport packet of a PES packet that fills it. -/
def oneCarried : Carried where
  pes := onePes
  first := onePes.bytes
  others := []
  cut := List.append_nil _
  small := by decide +kernel

end

end Mvpmc.TsDemux
