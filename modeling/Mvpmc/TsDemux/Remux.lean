import Mvpmc.TsDemux.RepackRuns
import Mvpmc.TsDemux.Lengths

/-! The demultiplexer as a whole: what is in the PES buffer after a call, and what becomes of a stream. -/
namespace Mvpmc.TsDemux
open Mvpmc.Lib Mvpmc.Lib.Circular

/-- A packet with the stream id that its ipack forces. -/
def withId (streamid : Nat) (packet : List UInt8) : List UInt8 :=
  if 0 < streamid then packet.set 3 (UInt8.ofNat streamid) else packet

@[simp] theorem withId_length (streamid : Nat) (packet : List UInt8) : (withId streamid packet).length = packet.length := by
  unfold withId
  split_ifs
  · exact List.length_set
  · rfl

theorem IsPes.withId {packet : List UInt8} (h : IsPes packet) (streamid : Nat) : IsPes (withId streamid packet) := by
  unfold TsDemux.withId
  split_ifs
  · obtain ⟨cid, body, rfl, hl, hs⟩ := h
    exact ⟨_, body, rfl, hl, hs⟩
  · exact h

theorem IsPes.length {packet : List UInt8} (h : IsPes packet) : 10 ≤ packet.length ∧ packet.length ≤ PES_SIZE := by
  obtain ⟨cid, body, rfl, hl, hs⟩ := h
  simp only [List.length_append, List.length_cons, List.length_nil]
  omega

/-- The length of the packet in front, from its own field. -/
def pesLength (bytes : List UInt8) : Nat := (bytes.getD 4 0).toNat * 256 + (bytes.getD 5 0).toNat + 6

/-- The packets in the PES buffer, by their lengths. -/
def splitPes : Nat → List UInt8 → List (List UInt8)
  | 0, _ => []
  | fuel + 1, bytes =>
    if bytes = [] then [] else bytes.take (pesLength bytes) :: splitPes fuel (bytes.drop (pesLength bytes))

theorem IsPes.pesLength {packet : List UInt8} (h : IsPes packet) (rest : List UInt8) :
    pesLength (packet ++ rest) = packet.length := by
  obtain ⟨cid, body, rfl, hl, hs⟩ := h
  have hp : PES_SIZE = 8192 := rfl
  have hhi : (UInt8.ofNat (body.length / 256)).toNat = body.length / 256 := by
    rw [UInt8.toNat_ofNat']
    omega
  have hlo : (UInt8.ofNat body.length).toNat = body.length % 256 := UInt8.toNat_ofNat'
  have hvalue : TsDemux.pesLength ([0, 0, 1, cid, UInt8.ofNat (body.length / 256), UInt8.ofNat body.length] ++ body ++ rest) =
      (UInt8.ofNat (body.length / 256)).toNat * 256 + (UInt8.ofNat body.length).toNat + 6 := rfl
  rw [hvalue, hhi, hlo]
  simp only [List.length_append, List.length_cons, List.length_nil]
  omega

theorem length_le_flatten {packets : List (List UInt8)} (h : ∀ packet ∈ packets, IsPes packet) :
    packets.length ≤ packets.flatten.length := by
  induction packets with
  | nil => exact Nat.le_refl 0
  | cons packet packets ih =>
    have hp := (h packet List.mem_cons_self).length
    have hrest := ih fun p hm => h p (List.mem_cons_of_mem _ hm)
    rw [List.flatten_cons, List.length_append, List.length_cons]
    omega

/-- Packets in a row are found again. -/
theorem splitPes_flatten {packets : List (List UInt8)} (h : ∀ packet ∈ packets, IsPes packet) {fuel : Nat}
    (hf : packets.length < fuel) : splitPes fuel packets.flatten = packets := by
  induction packets generalizing fuel with
  | nil =>
    cases fuel with
    | zero => rfl
    | succ fuel => rfl
  | cons packet packets ih =>
    obtain ⟨fuel, rfl⟩ : ∃ f, fuel = f + 1 := ⟨fuel - 1, by omega⟩
    have hp := h packet List.mem_cons_self
    have hne : packet ++ packets.flatten ≠ [] := by
      have := hp.length.1
      intro hc
      have := congrArg List.length hc
      rw [List.length_append, List.length_nil] at this
      omega
    rw [List.length_cons] at hf
    rw [List.flatten_cons, splitPes, if_neg hne, hp.pesLength, List.take_left, List.drop_left,
      ih (fun p hm => h p (List.mem_cons_of_mem _ hm)) (by omega)]

section
variable {δ π : Type}

/-- `write_pes` appends a packet, with its id, where there is room. -/
theorem writePes_cases {ρ : Type} (streamid : Nat) (h : Streams δ π ρ) (packet : List UInt8) (h4 : 4 ≤ packet.length) :
    (h.pesBufLen < h.pesBufPos + packet.length ∧ writePes streamid h packet = h) ∨
      ∃ pesBuf, ((h.pesBufPos : Int) + packet.length ≤ h.pesBufLen ∧
        writePes streamid h packet = { h with pesBuf := pesBuf, pesBufPos := h.pesBufPos + packet.length } ∧
        slice pesBuf 0 (h.pesBufPos + packet.length) = slice h.pesBuf 0 h.pesBufPos ++ withId streamid packet) := by
  unfold writePes
  split
  · rename_i hfull
    exact .inl ⟨hfull, rfl⟩
  · rename_i hroom
    refine .inr ⟨_, by omega, rfl, ?_⟩
    have happend (packet : List UInt8) : slice (blit h.pesBuf h.pesBufPos packet) 0 (h.pesBufPos + packet.length) =
        slice h.pesBuf 0 h.pesBufPos ++ packet := by
      have := slice_blit_append h.pesBuf 0 h.pesBufPos packet
      rwa [Nat.zero_add] at this
    unfold withId
    split_ifs
    · have hset := happend (packet.set 3 (UInt8.ofNat streamid))
      rw [List.length_set] at hset
      rw [update_blit _ _ (by omega), hset]
    · exact happend packet

end

/-- The repacker behind what it has sent already. -/
def Job.behind (out : List (List UInt8)) (j : Job) : Job := ⟨j.p, out ++ j.out⟩

section Behind
variable (out : List (List UInt8)) (u : Unset)

@[simp] theorem set_behind (f : Pack → Pack) (j : Job) : (j.behind out).set f = (j.set f).behind out := rfl

@[simp] theorem write_behind (j : Job) (data : List UInt8) : (j.behind out).write u data = (j.write u data).behind out := by
  simp [Job.write, Job.behind]

@[simp] theorem finish_behind (j : Job) : (j.behind out).finish u = (j.finish u).behind out := by
  simp [Job.finish, Job.send, Job.behind, Job.set]

@[simp] theorem byte_behind (note : UInt8 → Pack → Pack) (tally : Pack → Pack) (j : Job) (b : UInt8) :
    (j.behind out).byte u note tally b = (j.byte u note tally b).behind out := by
  simp [Job.byte]

@[simp] theorem copyWhile_behind (go : Pack → Bool) (note : UInt8 → Pack → Pack) (tally : Pack → Pack) (j : Job)
    (bytes : List UInt8) :
    copyWhile u go note tally (j.behind out) bytes = (copyWhile u go note tally j bytes).map (Job.behind out) id := by
  induction bytes generalizing j with
  | nil => rfl
  | cons b bytes ih =>
    rw [copyWhile, copyWhile, byte_behind, ih]
    change (if go j.p then _ else _) = _
    split_ifs <;> rfl

@[simp] theorem unlessEnd_behind {f : Job → List UInt8 → Job × List UInt8}
    (hf : ∀ j bytes, f (j.behind out) bytes = (f j bytes).map (Job.behind out) id) (r : Job × List UInt8) :
    unlessEnd (r.map (Job.behind out) id) f = (unlessEnd r f).map (Job.behind out) id := by
  obtain ⟨j, bytes⟩ := r
  cases bytes with
  | nil => rfl
  | cons b bytes => exact hf j (b :: bytes)

theorem ite_behind {c : Prop} [Decidable c] (r r' : Job × List UInt8) :
    (if c then r.map (Job.behind out) id else r'.map (Job.behind out) id) =
      (if c then r else r').map (Job.behind out) id := by
  split_ifs <;> rfl

theorem header2_behind (j : Job) (bytes : List UInt8) :
    header2 u (j.behind out) bytes = (header2 u j bytes).map (Job.behind out) id := by
  have hflags : writeFlags2 u (j.behind out) = (writeFlags2 u j).behind out := by
    unfold writeFlags2
    simp only [write_behind]
    change (if j.p.found = 9 then _ else _) = _
    split_ifs <;> rfl
  unfold header2
  rw [hflags, copyWhile_behind]
  exact ite_behind out _ (writeFlags2 u j, bytes)

theorem stdByte_behind (which : Nat) (j : Job) (bytes : List UInt8) :
    stdByte u which (j.behind out) bytes = (stdByte u which j bytes).map (Job.behind out) id := by
  cases bytes with
  | nil => rfl
  | cons b bytes => simp [stdByte]

theorem stdBytes_behind (j : Job) (bytes : List UInt8) :
    stdBytes u (j.behind out) bytes = (stdBytes u j bytes).map (Job.behind out) id := by
  unfold stdBytes
  rw [stdByte_behind, unlessEnd_behind out (stdByte_behind out u 2)]
  refine Eq.trans (congrArg (unlessEnd · _) (ite_behind out _ (j, bytes))) (unlessEnd_behind out (fun j bytes => ?_) _)
  rw [stdByte_behind]
  exact ite_behind out _ (j, bytes)

theorem stampBytes_behind (j : Job) (bytes : List UInt8) :
    stampBytes u (j.behind out) bytes = (stampBytes u j bytes).map (Job.behind out) id := by
  have hstamps (limit : Nat) : stamps1 u limit (j.behind out) bytes = (stamps1 u limit j bytes).map (Job.behind out) id :=
    copyWhile_behind out u _ _ _ j bytes
  have hend : ∀ (j : Job) (bytes : List UInt8), endStamps (j.behind out) bytes =
      (endStamps j bytes).map (Job.behind out) id := fun _ _ => rfl
  unfold stampBytes
  rw [hstamps, hstamps]
  change (if 2 < j.p.which then unlessEnd (if j.p.flag2 &&& PTS_DTS_FLAGS = PTS_ONLY then _ else
    if j.p.flag2 &&& PTS_DTS_FLAGS = PTS_DTS then _ else (j, bytes).map (Job.behind out) id) endStamps
    else (j, bytes).map (Job.behind out) id) = _
  rw [ite_behind, ite_behind, unlessEnd_behind out hend, ite_behind]

theorem startStamps_behind (j : Job) : startStamps (j.behind out) = (startStamps j).behind out := by
  unfold startStamps
  rw [set_behind]
  change (if j.p.check &&& 0x30 ≠ 0 ∧ j.p.check ≠ 0xFF then _ else j.behind out) = _
  split_ifs <;> rfl

theorem startCheck_behind (j : Job) : startCheck (j.behind out) = (startCheck j).behind out := by
  unfold startCheck
  rw [set_behind]
  change (if j.p.found = 7 then _ else j.behind out) = _
  split_ifs <;> rfl

theorem header1_behind (j : Job) (bytes : List UInt8) :
    header1 u (j.behind out) bytes = (header1 u j bytes).map (Job.behind out) id := by
  have hflags : writeFlags1 u (j.behind out) = (writeFlags1 u j).behind out := by
    unfold writeFlags1
    rw [write_behind]
    change (if j.p.found = 7 then _ else j.behind out) = _
    split_ifs <;> rfl
  unfold header1
  dsimp only
  rw [hflags, startCheck_behind, copyWhile_behind, unlessEnd_behind out (stdBytes_behind out u),
    unlessEnd_behind out fun j bytes => by rw [startStamps_behind, stampBytes_behind]]
  exact ite_behind out (writeFlags1 u j, bytes) _

theorem packetData_behind (j : Job) (bytes : List UInt8) :
    packetData u (j.behind out) bytes = (packetData u j bytes).map (Job.behind out) id := by
  unfold packetData
  simp only [write_behind, set_behind]
  change (if j.p.found < j.p.plength + 6 then _ else _) = _
  split_ifs <;> rfl

theorem skipDone_behind (j : Job) (bytes : List UInt8) :
    skipDone (j.behind out) bytes = (skipDone j bytes).map (Job.behind out) id := by
  unfold skipDone
  simp only [set_behind]
  change (if j.p.done then if j.p.found + bytes.length < j.p.plength + 6 then _ else _ else _) = _
  split_ifs <;> rfl

theorem streamData_behind (j : Job) (bytes : List UInt8) :
    streamData u (j.behind out) bytes = (streamData u j bytes).map (Job.behind out) id := by
  have hheaders : (if j.p.mpeg = 2 then header2 u (j.behind out) bytes else
      if j.p.mpeg = 1 then header1 u (j.behind out) bytes else (j.behind out, bytes)) =
      (if j.p.mpeg = 2 then header2 u j bytes else if j.p.mpeg = 1 then header1 u j bytes else (j, bytes)).map
        (Job.behind out) id := by
    rw [header2_behind, header1_behind]
    split_ifs <;> rfl
  by_cases hcid : j.p.cid = PRIVATE_STREAM1 ∨ AudioVideo j.p.cid
  · cases hr : if j.p.mpeg = 2 then header2 u j bytes else if j.p.mpeg = 1 then header1 u j bytes else (j, bytes) with
    | mk j' left =>
      rw [hr] at hheaders
      cases left with
      | nil => rw [streamData_nil hcid hr, streamData_nil (j := j.behind out) hcid hheaders]; rfl
      | cons b rest =>
        rw [streamData_cons hcid hr, streamData_cons (j := j.behind out) hcid hheaders, packetData_behind]
        rfl
  · rw [streamData, streamData, if_neg hcid]
    exact if_neg hcid

/-- What has been sent does not matter to what is done with a piece. -/
theorem repackFuel_behind (fuel : Nat) (j : Job) (bytes : List UInt8) :
    repackFuel u fuel (j.behind out) bytes = (repackFuel u fuel j bytes).behind out := by
  have hp (j : Job) : (j.behind out).p = j.p := rfl
  have hstream {j : Job} (p : Pack) (bytes : List UInt8) : streamData u ⟨p, (j.behind out).out⟩ bytes =
      (streamData u { j with p := p } bytes).map (Job.behind out) id := streamData_behind out u { j with p := p } bytes
  fun_induction repackFuel u fuel j bytes with
  | case1 => rfl
  | case2 fuel j bytes p hs =>
    rw [repackFuel, hp, hs]
    rfl
  | case3 fuel j bytes p b rest hs p' hc j' hd =>
    rw [repackFuel, hp, hs]
    dsimp only
    rw [if_pos hc, hstream, hd]
    rfl
  | case4 fuel j bytes p b rest hs p' hc j' bytes' hd j'' hend hskip =>
    rw [repackFuel, hp, hs]
    dsimp only
    rw [if_pos hc, hstream, hd]
    dsimp only [Prod.map, id]
    rw [skipDone_behind, hskip]
    dsimp only [Prod.map, id]
    refine (if_pos hend).trans ?_
    rw [if_pos rfl, finish_behind]
  | case5 fuel j bytes p b rest hs p' hc j' bytes' hd j'' bytes'' hskip hend hmore ih =>
    rw [repackFuel, hp, hs]
    dsimp only
    rw [if_pos hc, hstream, hd]
    dsimp only [Prod.map, id]
    rw [skipDone_behind, hskip]
    dsimp only [Prod.map, id]
    refine (if_pos hend).trans ?_
    rw [if_neg hmore, finish_behind, ih]
  | case6 fuel j bytes p b rest hs p' hc j' bytes' hd j'' bytes'' hskip hend =>
    rw [repackFuel, hp, hs]
    dsimp only
    rw [if_pos hc, hstream, hd]
    dsimp only [Prod.map, id]
    rw [skipDone_behind, hskip]
    dsimp only [Prod.map, id]
    exact if_neg hend
  | case7 fuel j bytes p b rest hs p' hc =>
    rw [repackFuel, hp, hs]
    dsimp only
    rw [if_neg hc]
    rfl

theorem instantRepack_behind (p : Pack) (bytes : List UInt8) :
    instantRepack u ⟨p, out⟩ bytes = (instantRepack u ⟨p, []⟩ bytes).behind out := by
  have h := repackFuel_behind out u (bytes.length + 1) ⟨p, []⟩ bytes
  unfold Job.behind at h
  rw [List.append_nil] at h
  exact h

end Behind

theorem ofIpack_toIpack {p : Pack} (h : p.plength < 2 ^ 32) : Pack.ofIpack p.toIpack = p := by
  have hp : (UInt32.ofNat p.plength).toNat = p.plength := by
    rw [UInt32.toNat_ofNat']
    exact Nat.mod_eq_of_lt h
  unfold Pack.ofIpack Pack.toIpack
  dsimp only
  rw [hp, Int.toNat_natCast]

section
variable {δ π : Type} {u : Unset} {short : (Nat → UInt8) → Int → Ipack Pack → Ipack Pack × List (List UInt8)}

/-- A packet of no known length, in the handle and in the repacker. -/
theorem flush_eq {h : Streams δ π Pack} {n : Nat} {p : Pack} (hp : h.ipack n = p.toIpack) (hl : p.plength < 2 ^ 32) :
    flush (repacker u short) h n =
      repacked h n ((Job.restart u ⟨p, []⟩).p.toIpack, (Job.restart u ⟨p, []⟩).out) := by
  have hm : (UInt32.ofNat p.plength = MMAX_PLENGTH - 6) ↔ p.plength = MMAX_PLENGTH.toNat - 6 := by
    rw [← UInt32.toNat_inj, UInt32.toNat_ofNat', Nat.mod_eq_of_lt hl]
    rfl
  unfold flush Job.restart
  rw [hp]
  dsimp only [Pack.toIpack]
  split
  · rename_i he
    rw [if_pos (hm.mp he)]
    have hback : Pack.ofIpack ⟨0, UInt32.ofInt ((p.found : Int) - 6), p⟩ =
        { p with plength := (UInt32.ofInt ((p.found : Int) - 6)).toNat, found := 0 } := rfl
    unfold repacker
    dsimp only
    rw [hback]
    rfl
  · rename_i he
    rw [if_neg fun hc => he (hm.mpr hc)]
    unfold repacked
    dsimp only [List.foldl_nil]
    have hsame : Function.update h.ipack n p.toIpack = h.ipack := by
      rw [← hp]
      exact Function.update_eq_self n _
    unfold Pack.toIpack at hsame
    rw [hsame]

theorem writePes_ipack {ρ : Type} (streamid : Nat) (h : Streams δ π ρ) (packet : List UInt8) (ipack : Nat → Ipack ρ) :
    writePes streamid { h with ipack := ipack } packet = { writePes streamid h packet with ipack := ipack } := by
  unfold writePes
  dsimp only
  split <;> rfl

theorem foldl_writePes_ipack {ρ : Type} (streamid : Nat) (packets : List (List UInt8)) (h : Streams δ π ρ)
    (ipack : Nat → Ipack ρ) :
    packets.foldl (writePes streamid) { h with ipack := ipack } =
      { packets.foldl (writePes streamid) h with ipack := ipack } := by
  induction packets generalizing h with
  | nil => rfl
  | cons packet packets ih => rw [List.foldl_cons, List.foldl_cons, writePes_ipack, ih]

theorem writePes_pids {ρ : Type} (streamid : Nat) (h : Streams δ π ρ) (packet : List UInt8) :
    (writePes streamid h packet).pids = h.pids := by
  unfold writePes
  split <;> rfl

theorem foldl_writePes_pids {ρ : Type} (streamid : Nat) (packets : List (List UInt8)) (h : Streams δ π ρ) :
    (packets.foldl (writePes streamid) h).pids = h.pids := by
  induction packets generalizing h with
  | nil => rfl
  | cons packet packets ih => rw [List.foldl_cons, ih, writePes_pids]

theorem repacked_eq {ρ : Type} (h : Streams δ π ρ) (n : Nat) (p : Ipack ρ) (out : List (List UInt8)) :
    repacked h n (p, out) =
      { out.foldl (writePes (h.pids.streamId n)) h with ipack := Function.update h.ipack n p } :=
  foldl_writePes_ipack _ out h _

/-- Two functions of the repacker in a row. -/
theorem repacked_repacked {ρ : Type} (h : Streams δ π ρ) (n : Nat) (p q : Ipack ρ) (out out' : List (List UInt8)) :
    repacked (repacked h n (p, out)) n (q, out') = repacked h n (q, out ++ out') := by
  have hpids : (repacked h n (p, out)).pids = h.pids := by
    rw [repacked_eq]
    exact foldl_writePes_pids _ out h
  have hipack : (repacked h n (p, out)).ipack = Function.update h.ipack n p := by rw [repacked_eq]
  rw [repacked_eq (repacked h n (p, out)), hpids, hipack, Function.update_idem, repacked_eq, foldl_writePes_ipack,
    repacked_eq, List.foldl_append]

/-- The piece of a packet that goes to the repacker. -/
def pieceOf (buf : Nat → UInt8) : List UInt8 := slice buf (4 + adaptation buf) (tsSize - 4 - adaptation buf)

theorem restart_plength (u : Unset) {p : Pack} (hl : p.plength < 2 ^ 32) : (Job.restart u ⟨p, []⟩).p.plength < 2 ^ 32 := by
  unfold Job.restart
  split
  · exact Nat.two_pow_pos 32
  · exact hl

/-- A packet that goes to the repacker, with an adaptation field that lies in it. -/
theorem demuxTsPacket_eq (psi : Psi δ π) {h : Streams δ π Pack} {buf : Nat → UInt8} (hr : Repacks h buf)
    (ha : adaptation buf ≤ 184) {p : Pack} (hp : h.ipack (h.pids.ipackIndex (getPid buf)) = p.toIpack)
    (hl : p.plength < 2 ^ 32) :
    (demuxTsPacket psi (repacker u short) h buf).1 =
      repacked { h with cc := Function.update h.cc (getPid buf) (continuity h (getPid buf) (buf 3)).1 }
        (h.pids.ipackIndex (getPid buf))
        ((Job.packet u ⟨p, []⟩ (buf 1 &&& 0x40 ≠ 0) (pieceOf buf)).p.toIpack,
          (Job.packet u ⟨p, []⟩ (buf 1 &&& 0x40 ≠ 0) (pieceOf buf)).out) := by
  obtain ⟨h1, h2, h3, h4, h5⟩ := hr
  unfold demuxTsPacket
  rw [if_neg (not_not.mpr h1), if_neg h2]
  dsimp only
  rw [if_neg h3, if_neg h4, if_neg h5, continuity_byte h3 h4, update_byte]
  -- the piece, behind what the start of a packet sends
  have hpiece (q : Pack) (hq : q.plength < 2 ^ 32) :
      (repacker u short).instantRepack (fun i => buf (4 + adaptation buf + i)) ((tsSize : Int) - 4 - adaptation buf) q.toIpack =
        ((instantRepack u ⟨q, []⟩ (pieceOf buf)).p.toIpack, (instantRepack u ⟨q, []⟩ (pieceOf buf)).out) := by
    have hcount : ((tsSize : Int) - 4 - adaptation buf).toNat = tsSize - 4 - adaptation buf := by
      unfold tsSize
      omega
    have hnonneg : ¬(tsSize : Int) - 4 - adaptation buf < 0 := by
      unfold tsSize
      omega
    unfold repacker
    dsimp only
    rw [if_neg hnonneg, hcount, slice_shift, Nat.add_zero, ofIpack_toIpack hq]
    rfl
  unfold Job.packet
  generalize hg : ({ h with cc := Function.update h.cc (getPid buf) (continuity h (getPid buf) (buf 3)).1 } :
    Streams δ π Pack) = g
  have hgp : g.ipack (h.pids.ipackIndex (getPid buf)) = p.toIpack := by
    rw [← hg]
    exact hp
  by_cases hstart : buf 1 &&& 0x40 ≠ 0
  · simp only [if_pos hstart, decide_eq_true hstart, if_true]
    rw [flush_eq hgp hl]
    have hq := restart_plength u hl
    generalize Job.restart u ⟨p, []⟩ = j at hq
    obtain ⟨q, out⟩ := j
    have hipack : (repacked g (h.pids.ipackIndex (getPid buf)) (q.toIpack, out)).ipack (h.pids.ipackIndex (getPid buf)) =
        q.toIpack := by
      rw [repacked_eq]
      exact Function.update_self ..
    rw [hipack, hpiece q hq, repacked_repacked, instantRepack_behind out]
    rfl
  · simp only [if_neg hstart, decide_eq_false hstart, Bool.false_eq_true, if_false]
    rw [hgp, hpiece p hl]

/-- Nothing that has to do with PES packets is changed. -/
structure SamePes (h h' : Streams δ π Pack) : Prop where
  ipack : h'.ipack = h.ipack
  pesBuf : h'.pesBuf = h.pesBuf
  pesBufLen : h'.pesBufLen = h.pesBufLen
  pesBufPos : h'.pesBufPos = h.pesBufPos

theorem SamePes.trans {h h' h'' : Streams δ π Pack} (hs : SamePes h h') (hs' : SamePes h' h'') : SamePes h h'' :=
  ⟨hs'.ipack.trans hs.ipack, hs'.pesBuf.trans hs.pesBuf, hs'.pesBufLen.trans hs.pesBufLen, hs'.pesBufPos.trans hs.pesBufPos⟩

theorem patCallback_same (psi : Psi δ π) (h : Streams δ π Pack) (pat : List Program) :
    SamePes h (patCallback psi h pat) := by
  unfold patCallback
  split <;> exact ⟨rfl, rfl, rfl, rfl⟩

/-- The tables have nothing to do with PES packets. -/
theorem foldl_same {α : Type} (step : Streams δ π Pack → α → Streams δ π Pack) (hs : ∀ h a, SamePes h (step h a))
    (as : List α) (h : Streams δ π Pack) : SamePes h (as.foldl step h) := by
  induction as generalizing h with
  | nil => exact ⟨rfl, rfl, rfl, rfl⟩
  | cons a as ih => exact (hs h a).trans (ih _)

theorem pushPat_same (psi : Psi δ π) (h : Streams δ π Pack) (packet : List UInt8) : SamePes h (pushPat psi h packet) := by
  have hs := foldl_same _ (patCallback_same psi) (psi.pushPat h.patDecoder packet).2
    { h with patDecoder := (psi.pushPat h.patDecoder packet).1 }
  exact ⟨hs.ipack, hs.pesBuf, hs.pesBufLen, hs.pesBufPos⟩

theorem pushPmt_same (psi : Psi δ π) (h : Streams δ π Pack) (packet : List UInt8) : SamePes h (pushPmt psi h packet) := by
  have hs := foldl_same (fun h pmt => { h with pids := TsDemux.pmtCallback h.pids pmt })
    (fun _ _ => ⟨rfl, rfl, rfl, rfl⟩) (psi.pushPmt h.pmtDecoder packet).2
    { h with pmtDecoder := (psi.pushPmt h.pmtDecoder packet).1 }
  exact ⟨hs.ipack, hs.pesBuf, hs.pesBufLen, hs.pesBufPos⟩

/-- A packet that does not go to the repacker. -/
theorem demuxTsPacket_same (psi : Psi δ π) (rp : Repacker Pack) {h : Streams δ π Pack} {buf : Nat → UInt8}
    (hr : ¬Repacks h buf) : SamePes h (demuxTsPacket psi rp h buf).1 := by
  have hcc (cc : Nat → UInt8) : SamePes h { h with cc := cc } := ⟨rfl, rfl, rfl, rfl⟩
  unfold demuxTsPacket
  split
  · exact ⟨rfl, rfl, rfl, rfl⟩
  · rename_i h1
    dsimp only
    split
    · exact ⟨rfl, rfl, rfl, rfl⟩
    · rename_i h2
      split
      · exact (hcc _).trans (pushPat_same psi _ _)
      · rename_i h3
        split
        · exact (hcc _).trans (pushPmt_same psi _ _)
        · rename_i h4
          split
          · exact hcc _
          · rename_i h5
            exact absurd ⟨not_not.mp h1, h2, h3, h4, h5⟩ hr

/-- Every repacker is sound, and what is in the PES buffer is a row of whole packets. -/
structure Whole (h : Streams δ π Pack) : Prop where
  packs : ∀ n, ∃ m p, h.ipack n = p.toIpack ∧ Fits m p
  pes : ∃ packets : List (List UInt8), slice h.pesBuf 0 h.pesBufPos = packets.flatten ∧ ∀ packet ∈ packets, IsPes packet
  room : h.pesBufPos = 0 ∨ (h.pesBufPos : Int) ≤ h.pesBufLen

theorem Whole.same {h h' : Streams δ π Pack} (hw : Whole h) (hs : SamePes h h') : Whole h' := by
  obtain ⟨hpacks, hpes, hroom⟩ := hw
  refine ⟨?_, ?_, ?_⟩
  · rwa [hs.ipack]
  · rwa [hs.pesBuf, hs.pesBufPos]
  · rwa [hs.pesBufPos, hs.pesBufLen]

theorem Whole.writePes {h : Streams δ π Pack} (hw : Whole h) (streamid : Nat) {packet : List UInt8} (hp : IsPes packet) :
    Whole (writePes streamid h packet) := by
  have hlen := hp.length
  rcases writePes_cases streamid h packet (by omega) with ⟨-, he⟩ | ⟨pesBuf, hroom, he, hslice⟩
  · rw [he]
    exact hw
  · rw [he]
    obtain ⟨packets, hpackets, hall⟩ := hw.pes
    refine ⟨hw.packs, ⟨packets ++ [withId streamid packet], ?_, fun q hq => ?_⟩, .inr (by dsimp only; omega)⟩
    · dsimp only
      rw [hslice, hpackets]
      simp
    · rcases List.mem_append.mp hq with hq | hq
      · exact hall q hq
      · obtain rfl := List.mem_singleton.mp hq
        exact hp.withId streamid

theorem Whole.writes {h : Streams δ π Pack} (hw : Whole h) (streamid : Nat) {packets : List (List UInt8)}
    (hp : ∀ packet ∈ packets, IsPes packet) : Whole (packets.foldl (TsDemux.writePes streamid) h) := by
  induction packets generalizing h with
  | nil => exact hw
  | cons packet packets ih =>
    exact ih (hw.writePes streamid (hp packet List.mem_cons_self)) fun q hq => hp q (List.mem_cons_of_mem _ hq)

theorem Whole.repacked {h : Streams δ π Pack} (hw : Whole h) (n : Nat) {m : Nat → UInt8} {p : Pack}
    {packets : List (List UInt8)} (hf : Fits m p) (hp : ∀ packet ∈ packets, IsPes packet) :
    Whole (repacked h n (p.toIpack, packets)) := by
  refine Whole.writes (h := { h with ipack := Function.update h.ipack n p.toIpack }) ⟨fun k => ?_, hw.pes, hw.room⟩ _ hp
  by_cases hk : k = n
  · subst hk
    exact ⟨m, p, Function.update_self .., hf⟩
  · obtain ⟨m', q, hq, hfq⟩ := hw.packs k
    exact ⟨m', q, (Function.update_of_ne hk _ _).trans hq, hfq⟩

/-- One packet. -/
theorem Whole.demuxTsPacket (psi : Psi δ π) {h : Streams δ π Pack} (hw : Whole h) {buf : Nat → UInt8}
    (ha : adaptation buf ≤ 184) : Whole (demuxTsPacket psi (repacker u short) h buf).1 := by
  by_cases hr : Repacks h buf
  · obtain ⟨m, p, hp, hf⟩ := hw.packs (h.pids.ipackIndex (getPid buf))
    rw [demuxTsPacket_eq psi hr ha hp hf.plength]
    have hsound : Sound m ⟨p, []⟩ := ⟨hf, fun _ hm => nomatch hm⟩
    have hnext := (sound_kept m u).packet hsound (buf 1 &&& 0x40 ≠ 0) (pieceOf buf)
    have hcc : Whole { h with cc := Function.update h.cc (getPid buf) (continuity h (getPid buf) (buf 3)).1 } :=
      hw.same ⟨rfl, rfl, rfl, rfl⟩
    exact hcc.repacked _ hnext.1 hnext.2
  · exact hw.same (demuxTsPacket_same psi _ hr)

/-- The adaptation field of a packet lies in it. -/
def AdaptationFits (block : List UInt8) : Prop := adaptation (fun i => block.getD i 0) ≤ 184

instance (block : List UInt8) : Decidable (AdaptationFits block) := inferInstanceAs (Decidable (_ ≤ _))

theorem adaptation_slice (ts : Nat → UInt8) (offset : Nat) :
    adaptation (fun i => (slice ts offset tsSize).getD i 0) = adaptation fun i => ts (offset + i) := rfl

/-- A round of the loop over the complete packets: it ends, or hands over a packet. -/
theorem completePackets_cases {ρ : Type} (psi : Psi δ π) (rp : Repacker ρ) (ts : Nat → UInt8) (len : Int) (fuel : Nat)
    (s : Pass δ π ρ) :
    ((completePackets psi rp ts len (fuel + 1) s).streams = s.streams ∧
        (completePackets psi rp ts len (fuel + 1) s).packets = s.packets) ∨
      ∃ (offset : Nat) (next : Pass δ π ρ),
        completePackets psi rp ts len (fuel + 1) s = completePackets psi rp ts len fuel next ∧
          next.streams = (demuxTsPacket psi rp s.streams fun i => ts (offset + i)).1 ∧
          next.packets = s.packets ++ [slice ts offset tsSize] := by
  rw [completePackets]
  dsimp only
  generalize (if ts s.offset.toNat ≠ tsSyncByte then skipTo ts len (len - s.offset).toNat s.offset else s.offset) = offset
  generalize (if ts s.offset.toNat ≠ tsSyncByte then s.resyncs + 1 else s.resyncs) = resyncs
  split
  · split
    · exact .inl ⟨rfl, rfl⟩
    · exact .inr ⟨_, _, rfl, rfl, rfl⟩
  · exact .inl ⟨rfl, rfl⟩

theorem completePackets_keeps {ρ : Type} (psi : Psi δ π) (rp : Repacker ρ) (ts : Nat → UInt8) (len : Int) (fuel : Nat)
    (s : Pass δ π ρ) : s.packets <+: (completePackets psi rp ts len fuel s).packets := by
  induction fuel generalizing s with
  | zero => exact List.prefix_refl _
  | succ fuel ih =>
    rcases completePackets_cases psi rp ts len fuel s with ⟨-, hp⟩ | ⟨offset, next, he, -, hp⟩
    · rw [hp]
    · have hnext := ih next
      rw [he]
      rw [hp] at hnext
      exact (List.prefix_append _ _).trans hnext

theorem transformFrom_keeps {ρ : Type} (psi : Psi δ π) (rp : Repacker ρ) (h : TsHandle δ π ρ) (ts : Nat → UInt8)
    (len offset : Int) (packets : List (List UInt8)) :
    packets <+: (transformFrom psi rp h ts len offset packets).packets :=
  completePackets_keeps psi rp ts len _ ⟨h.streams, offset, h.resyncs, packets⟩

theorem Whole.completePackets (psi : Psi δ π) (ts : Nat → UInt8) (len : Int) (fuel : Nat) {s : Pass δ π Pack}
    (hw : Whole s.streams)
    (ha : ∀ block ∈ (completePackets psi (repacker u short) ts len fuel s).packets, AdaptationFits block) :
    Whole (completePackets psi (repacker u short) ts len fuel s).streams := by
  induction fuel generalizing s with
  | zero => exact hw
  | succ fuel ih =>
    rcases completePackets_cases psi (repacker u short) ts len fuel s with ⟨hs, -⟩ | ⟨offset, next, he, hs, hp⟩
    · rw [hs]
      exact hw
    · rw [he] at ha ⊢
      have hin : slice ts offset tsSize ∈ next.packets := by
        rw [hp]
        exact List.mem_append_right _ (List.mem_singleton_self _)
      have hfits : AdaptationFits (slice ts offset tsSize) :=
        ha _ ((completePackets_keeps psi (repacker u short) ts len fuel next).subset hin)
      refine ih ?_ ha
      rw [hs]
      exact hw.demuxTsPacket psi hfits

/-- A call of `ts_demux_transform`. -/
structure Call where
  ts : Nat → UInt8
  len : Int
  pesBuf : Nat → UInt8
  pesBufLen : Int

/-- Calls one after the other, with what each gives. -/
def transformCalls {ρ : Type} (psi : Psi δ π) (rp : Repacker ρ) : TsHandle δ π ρ → List Call → List (Transformed δ π ρ)
  | _, [] => []
  | h, c :: calls =>
    let r := tsDemuxTransform psi rp h c.ts c.len c.pesBuf c.pesBufLen
    r :: transformCalls psi rp r.handle calls

/-- The bytes that a call gives. -/
def Transformed.pes {ρ : Type} (r : Transformed δ π ρ) : List UInt8 := slice r.handle.streams.pesBuf 0 r.result.toNat

/-- One call. -/
theorem Whole.transform (psi : Psi δ π) {h : TsHandle δ π Pack} (hw : ∀ n, ∃ m p, h.streams.ipack n = p.toIpack ∧ Fits m p)
    (c : Call) (ha : ∀ block ∈ (tsDemuxTransform psi (repacker u short) h c.ts c.len c.pesBuf c.pesBufLen).packets,
      AdaptationFits block) :
    let r := tsDemuxTransform psi (repacker u short) h c.ts c.len c.pesBuf c.pesBufLen
    Whole r.handle.streams ∧ r.result = r.handle.streams.pesBufPos := by
  intro r
  have hstart : Whole { h.streams with pesBuf := c.pesBuf, pesBufLen := c.pesBufLen, pesBufPos := 0 } :=
    ⟨hw, ⟨[], rfl, fun _ hm => nomatch hm⟩, .inl rfl⟩
  have hfrom {h : TsHandle δ π Pack} (hw : Whole h.streams) (offset : Int) (packets : List (List UInt8))
      (ha : ∀ block ∈ (transformFrom psi (repacker u short) h c.ts c.len offset packets).packets, AdaptationFits block) :
      Whole (transformFrom psi (repacker u short) h c.ts c.len offset packets).handle.streams ∧
        (transformFrom psi (repacker u short) h c.ts c.len offset packets).result =
          (transformFrom psi (repacker u short) h c.ts c.len offset packets).handle.streams.pesBufPos :=
    ⟨Whole.completePackets psi c.ts c.len _ hw ha, rfl⟩
  revert r
  unfold tsDemuxTransform at ha ⊢
  dsimp only at ha ⊢
  split at ha
  · rename_i hfrag
    rw [if_pos hfrag]
    split at ha
    · rename_i hshort
      rw [if_pos hshort]
      exact ⟨hstart, rfl⟩
    · rename_i hlong
      rw [if_neg hlong]
      generalize blit h.fragBuf h.fragBufPos.toNat
        (slice c.ts 0 (min (tsSize - h.fragBufPos) c.len).toNat) = fragBuf at ha ⊢
      have hfits : AdaptationFits (slice fragBuf 0 tsSize) :=
        ha _ ((transformFrom_keeps psi _ _ _ _ _ _).subset (List.mem_singleton_self _))
      rw [AdaptationFits, adaptation_slice] at hfits
      simp only [Nat.zero_add] at hfits
      exact hfrom (hstart.demuxTsPacket psi hfits) _ _ ha
  · rename_i hfrag
    rw [if_neg hfrag]
    exact hfrom hstart _ _ ha

theorem transformCalls_whole (psi : Psi δ π) {h : TsHandle δ π Pack}
    (hw : ∀ n, ∃ m p, h.streams.ipack n = p.toIpack ∧ Fits m p) (calls : List Call)
    (ha : ∀ r ∈ transformCalls psi (repacker u short) h calls, ∀ block ∈ r.packets, AdaptationFits block) :
    ∀ r ∈ transformCalls psi (repacker u short) h calls,
      Whole r.handle.streams ∧ r.result = r.handle.streams.pesBufPos := by
  induction calls generalizing h with
  | nil => exact fun r hr => nomatch hr
  | cons c calls ih =>
    rw [transformCalls] at ha ⊢
    have hfirst := Whole.transform psi hw c (ha _ List.mem_cons_self)
    intro r hr
    rcases List.mem_cons.mp hr with rfl | hr
    · exact hfirst
    · exact ih hfirst.1.packs (fun r hr => ha r (List.mem_cons_of_mem _ hr)) r hr

end

/-- A video and an audio stream, and nothing read of them. -/
def twoStreams : TsHandle Unit Unit Pack :=
  ⟨⟨pmtCallback (Pids.reset ⟨0, fun _ => 0, fun _ => 0⟩) (program 256 [3]), fun _ => 255,
    fun _ => (initPack noPack PES_SIZE).toIpack, fun _ => 0, 0, 0, (), (), 0⟩, fun _ => 0, 0, 0⟩

/-- A transport packet of the video. -/
def oneCall : Call := ⟨fun i => ([0x47, 0x41, 0, 0x10] ++ onePes.bytes).getD i 0, 188, fun _ => 0, 16384⟩

end Mvpmc.TsDemux
