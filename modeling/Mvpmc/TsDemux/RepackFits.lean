import Mvpmc.TsDemux.Repack

/-! The repacker stays within its buffer, and what it sends are whole PES packets. -/
namespace Mvpmc.TsDemux
open Mvpmc.Lib Mvpmc.Lib.Circular

/-- The fields of the buffer are the same, and the length still is one of 32 bits. -/
structure SameBuffer (p p' : Pack) : Prop where
  size : p'.size = p.size
  sizeOrig : p'.sizeOrig = p.sizeOrig
  count : p'.count = p.count
  buf : p'.buf = p.buf
  plength : p.plength < 2 ^ 32 → p'.plength < 2 ^ 32

theorem SameBuffer.refl (p : Pack) : SameBuffer p p := ⟨rfl, rfl, rfl, rfl, id⟩

theorem SameBuffer.trans {p q r : Pack} (h : SameBuffer p q) (h' : SameBuffer q r) : SameBuffer p r :=
  ⟨h'.size.trans h.size, h'.sizeOrig.trans h.sizeOrig, h'.count.trans h.count, h'.buf.trans h.buf,
    h'.plength ∘ h.plength⟩

theorem syncByte_same (p : Pack) (b : UInt8) : SameBuffer p (syncByte p b) := by
  unfold syncByte
  split_ifs <;> exact ⟨rfl, rfl, rfl, rfl, id⟩

theorem setFlags_same (p : Pack) (b : UInt8) : SameBuffer p (setFlags p b) := by
  unfold setFlags
  split_ifs <;> exact ⟨rfl, rfl, rfl, rfl, id⟩

theorem unbounded_same (p : Pack) : SameBuffer p (unbounded p) := by
  unfold unbounded
  split_ifs
  · exact ⟨rfl, rfl, rfl, rfl, fun _ => show MMAX_PLENGTH.toNat - 6 < 2 ^ 32 by decide⟩
  · exact .refl p

theorem setLength_same (p : Pack) (hi lo : UInt8) : SameBuffer p (setLength p hi lo) := by
  refine ⟨rfl, rfl, rfl, rfl, fun _ => ?_⟩
  have hhi := hi.toNat_lt
  have hlo := lo.toNat_lt
  dsimp only [setLength]
  omega

/-- Reading a header does nothing to the buffer. -/
theorem scan_same (p : Pack) (bytes : List UInt8) : SameBuffer p (scan p bytes).1 := by
  fun_induction scan p bytes with
  | case1 p => exact .refl p
  | case2 p b bytes h hf ih => exact (syncByte_same p b).trans ih
  | case3 p b bytes h hf ih => exact (syncByte_same p b).trans ih
  | case4 p b bytes h hf ih => exact (syncByte_same p b).trans ih
  | case5 p b bytes h hf hs ih => exact ⟨ih.size, ih.sizeOrig, ih.count, ih.buf, ih.plength⟩
  | case6 p b bytes h hf hs ha ih => exact ⟨ih.size, ih.sizeOrig, ih.count, ih.buf, ih.plength⟩
  | case7 p b bytes h hf hs ha ih =>
    have hsync := (syncByte_same { p with found := 0, cid := 0 } b).trans ih
    exact ⟨hsync.size, hsync.sizeOrig, hsync.count, hsync.buf, hsync.plength⟩
  | case8 p b h hf => exact ⟨rfl, rfl, rfl, rfl, id⟩
  | case9 p b h hf lo bytes ih => exact (setLength_same p b lo).trans ih
  | case10 p b bytes h hf ih => exact (setLength_same p _ b).trans ih
  | case11 p b bytes h hf ih => exact (setFlags_same p b).trans ih
  | case12 p b bytes h hf ih => exact ⟨ih.size, ih.sizeOrig, ih.count, ih.buf, ih.plength⟩
  | case13 p b bytes h hf ih => exact ⟨ih.size, ih.sizeOrig, ih.count, ih.buf, ih.plength⟩
  | case14 p b bytes h => exact .refl p
  | case15 p b bytes h => exact .refl p

theorem notePts_same (b : UInt8) (p : Pack) : SameBuffer p (notePts b p) := ⟨rfl, rfl, rfl, rfl, id⟩

theorem noteCheck_same (b : UInt8) (p : Pack) : SameBuffer p (noteCheck b p) := ⟨rfl, rfl, rfl, rfl, id⟩

theorem tally1_same (p : Pack) : SameBuffer p (tally1 p) := ⟨rfl, rfl, rfl, rfl, id⟩

theorem tally2_same (p : Pack) : SameBuffer p (tally2 p) := ⟨rfl, rfl, rfl, rfl, id⟩

theorem tallyWhich_same (which : Nat) (p : Pack) : SameBuffer p (tallyWhich which p) := ⟨rfl, rfl, rfl, rfl, id⟩

theorem noteStamp_same (b : UInt8) (p : Pack) : SameBuffer p (noteStamp b p) := by
  unfold noteStamp
  split_ifs <;> exact ⟨rfl, rfl, rfl, rfl, id⟩

theorem startCheck_same (j : Job) : SameBuffer j.p (startCheck j).p := by
  unfold startCheck
  split_ifs <;> exact ⟨rfl, rfl, rfl, rfl, id⟩

theorem startStamps_same (j : Job) : SameBuffer j.p (startStamps j).p := by
  unfold startStamps
  split_ifs <;> exact ⟨rfl, rfl, rfl, rfl, id⟩

theorem startCheck_out (j : Job) : (startCheck j).out = j.out := by
  unfold startCheck
  split_ifs <;> rfl

theorem startStamps_out (j : Job) : (startStamps j).out = j.out := by
  unfold startStamps
  split_ifs <;> rfl

/-- What is true of the buffer and of what was sent, and stays true when something is written or a packet ends. -/
structure Kept (u : Unset) (I : Job → Prop) : Prop where
  same : ∀ {j j' : Job}, I j → SameBuffer j.p j'.p → j'.out = j.out → I j'
  write : ∀ {j} data, I j → I (j.write u data)
  finish : ∀ {j}, I j → I (j.finish u)

namespace Kept
variable {u : Unset} {I : Job → Prop}

theorem unlessEnd {r : Job × List UInt8} {f : Job → List UInt8 → Job × List UInt8} (hr : I r.1)
    (hf : ∀ j bytes, I j → I (f j bytes).1) : I (TsDemux.unlessEnd r f).1 := by
  obtain ⟨j, bytes⟩ := r
  cases bytes with
  | nil => exact hr
  | cons b bytes => exact hf j _ hr

variable (hk : Kept u I)
include hk

theorem byte {note : UInt8 → Pack → Pack} {tally : Pack → Pack} (hn : ∀ b p, SameBuffer p (note b p))
    (ht : ∀ p, SameBuffer p (tally p)) {j : Job} (hj : I j) (b : UInt8) : I (j.byte u note tally b) :=
  have hnoted : I (j.set (note b)) := hk.same hj (hn b j.p) rfl
  hk.same (hk.write [b] hnoted) (ht _) rfl

theorem copyWhile {go : Pack → Bool} {note : UInt8 → Pack → Pack} {tally : Pack → Pack}
    (hn : ∀ b p, SameBuffer p (note b p)) (ht : ∀ p, SameBuffer p (tally p)) {j : Job} (hj : I j)
    (bytes : List UInt8) : I (TsDemux.copyWhile u go note tally j bytes).1 := by
  induction bytes generalizing j with
  | nil => exact hj
  | cons b bytes ih =>
    rw [TsDemux.copyWhile]
    split
    · exact ih (hk.byte hn ht hj b)
    · exact hj

theorem header2 {j : Job} (hj : I j) (bytes : List UInt8) : I (TsDemux.header2 u j bytes).1 := by
  have hflags : I (writeFlags2 u j) := by
    unfold writeFlags2
    split
    · exact hk.write _ (hk.write _ (hk.write _ hj))
    · exact hj
  unfold TsDemux.header2
  split
  · exact hk.copyWhile notePts_same tally2_same hflags bytes
  · exact hflags

theorem stdByte (which : Nat) {j : Job} (hj : I j) (bytes : List UInt8) : I (TsDemux.stdByte u which j bytes).1 := by
  cases bytes with
  | nil => exact hj
  | cons b bytes => exact hk.byte noteCheck_same (tallyWhich_same which) hj b

theorem stdBytes {j : Job} (hj : I j) (bytes : List UInt8) : I (TsDemux.stdBytes u j bytes).1 := by
  unfold TsDemux.stdBytes
  refine unlessEnd ?_ fun j bytes hj => ?_
  · split
    · exact unlessEnd (hk.stdByte 1 hj bytes) fun j bytes hj => hk.stdByte 2 hj bytes
    · exact hj
  · split
    · exact hk.stdByte 2 hj bytes
    · exact hj

theorem stampBytes {j : Job} (hj : I j) (bytes : List UInt8) : I (TsDemux.stampBytes u j bytes).1 := by
  have hstamps (limit : Nat) : I (stamps1 u limit j bytes).1 :=
    hk.copyWhile noteStamp_same (fun _ => tallyWhich_same _ _) hj bytes
  unfold TsDemux.stampBytes
  split
  · refine unlessEnd ?_ fun j bytes hj => hk.same hj ⟨rfl, rfl, rfl, rfl, id⟩ rfl
    split_ifs
    · exact hstamps 7
    · exact hstamps 12
    · exact hj
  · exact hj

theorem header1 {j : Job} (hj : I j) (bytes : List UInt8) : I (TsDemux.header1 u j bytes).1 := by
  have hflag : I (writeFlags1 u j) := by
    unfold writeFlags1
    split
    · exact hk.write _ hj
    · exact hj
  unfold TsDemux.header1
  split
  · exact hflag
  · have hcheck : I (startCheck (writeFlags1 u j)) := hk.same hflag (startCheck_same _) (startCheck_out _)
    refine unlessEnd (unlessEnd (hk.copyWhile noteCheck_same tally1_same hcheck bytes) fun j bytes hj =>
      hk.stdBytes hj bytes) fun j bytes hj => ?_
    exact hk.stampBytes (hk.same hj (startStamps_same j) (startStamps_out j)) bytes

theorem packetData {j : Job} (hj : I j) (bytes : List UInt8) : I (TsDemux.packetData u j bytes).1 := by
  unfold TsDemux.packetData
  split
  · exact hk.same (hk.write (bytes.take (min bytes.length (j.p.plength + 6 - j.p.found))) hj) ⟨rfl, rfl, rfl, rfl, id⟩ rfl
  · exact hj

theorem skipDone {j : Job} (hj : I j) (bytes : List UInt8) : I (TsDemux.skipDone j bytes).1 := by
  unfold TsDemux.skipDone
  split_ifs
  · exact hk.same hj ⟨rfl, rfl, rfl, rfl, id⟩ rfl
  · exact hk.same hj ⟨rfl, rfl, rfl, rfl, id⟩ rfl
  · exact hj

theorem streamData {j : Job} (hj : I j) (bytes : List UInt8) : I (TsDemux.streamData u j bytes).1 := by
  have hheader : I (if j.p.mpeg = 2 then TsDemux.header2 u j bytes
      else if j.p.mpeg = 1 then TsDemux.header1 u j bytes else (j, bytes)).1 := by
    split_ifs
    · exact hk.header2 hj bytes
    · exact hk.header1 hj bytes
    · exact hj
  unfold TsDemux.streamData
  split
  · generalize (if j.p.mpeg = 2 then TsDemux.header2 u j bytes
      else if j.p.mpeg = 1 then TsDemux.header1 u j bytes else (j, bytes)) = r at hheader
    obtain ⟨j, bytes⟩ := r
    cases bytes with
    | nil => exact hheader
    | cons b bytes => exact hk.packetData hheader _
  · exact hj

/-- It is true after a piece. -/
theorem repackFuel (fuel : Nat) {j : Job} (hj : I j) (bytes : List UInt8) : I (TsDemux.repackFuel u fuel j bytes) := by
  have hscan {j : Job} (hj : I j) {bytes rest : List UInt8} {p : Pack} (hs : scan j.p bytes = (p, rest)) :
      I { j with p := unbounded p } := by
    have hsame := scan_same j.p bytes
    rw [hs] at hsame
    exact hk.same hj (hsame.trans (unbounded_same p)) rfl
  fun_induction TsDemux.repackFuel u fuel j bytes with
  | case1 => exact hj
  | case2 fuel j bytes p hs =>
    have hsame := scan_same j.p bytes
    rw [hs] at hsame
    exact hk.same hj hsame rfl
  | case3 fuel j bytes p b rest hs p' hp j' hstream =>
    have hkept := hk.streamData (hscan hj hs) (b :: rest)
    rw [hstream] at hkept
    exact hkept
  | case4 fuel j bytes p b rest hs p' hp j' bytes' hstream j'' hend hskip =>
    have hkept := hk.streamData (hscan hj hs) (b :: rest)
    rw [hstream] at hkept
    have hskipped := hk.skipDone hkept bytes'
    rw [hskip] at hskipped
    exact hk.finish hskipped
  | case5 fuel j bytes p b rest hs p' hp j' bytes' hstream j'' bytes'' hskip hend hmore ih =>
    have hkept := hk.streamData (hscan hj hs) (b :: rest)
    rw [hstream] at hkept
    have hskipped := hk.skipDone hkept bytes'
    rw [hskip] at hskipped
    exact ih (hk.finish hskipped)
  | case6 fuel j bytes p b rest hs p' hp j' bytes' hstream j'' bytes'' hskip hend =>
    have hkept := hk.streamData (hscan hj hs) (b :: rest)
    rw [hstream] at hkept
    have hskipped := hk.skipDone hkept bytes'
    rw [hskip] at hskipped
    exact hskipped
  | case7 fuel j bytes p b rest hs p' hp => exact hscan hj hs

end Kept

/-- A whole PES packet: its start code, a stream id, and the length of what follows. -/
def IsPes (packet : List UInt8) : Prop :=
  ∃ cid body, packet = [0, 0, 1, cid, UInt8.ofNat (body.length / 256), UInt8.ofNat body.length] ++ body ∧
    4 ≤ body.length ∧ body.length + 6 ≤ PES_SIZE

/-- What is in the buffer fits it, and starts with the start code. The rest of the memory is that of `m`. -/
structure Fits (m : Nat → UInt8) (p : Pack) : Prop where
  orig : p.sizeOrig = PES_SIZE
  size : p.size ≤ PES_SIZE
  half : PES_SIZE ≤ 2 * p.size + 1
  count : p.count ≤ PES_SIZE
  start : 6 ≤ p.count → slice p.buf 0 3 = [0, 0, 1]
  outside : ∀ i, PES_SIZE ≤ i → p.buf i = m i
  plength : p.plength < 2 ^ 32

namespace Fits
variable {m : Nat → UInt8} {p : Pack} (h : Fits m p)
include h

theorem blit {pos count : Nat} {xs : List UInt8} (hp : 3 ≤ pos) (hx : pos + xs.length ≤ PES_SIZE)
    (hc : count ≤ PES_SIZE) (hs : 6 ≤ count → 6 ≤ p.count) :
    Fits m { p with buf := Circular.blit p.buf pos xs, count := count } where
  orig := h.orig
  size := h.size
  half := h.half
  count := hc
  start h6 := (slice_blit_below p.buf xs hp).trans (h.start (hs h6))
  outside i hi := (blit_of_ge p.buf pos i xs (by omega)).trans (h.outside i hi)
  plength := h.plength

theorem same {p' : Pack} (hs : SameBuffer p p') : Fits m p' := by
  refine ⟨hs.sizeOrig.trans h.orig, hs.size ▸ h.size, hs.size ▸ h.half, hs.count ▸ h.count, ?_, ?_, hs.plength h.plength⟩
  · rw [hs.count, hs.buf]
    exact h.start
  · rw [hs.buf]
    exact h.outside

theorem reset : Fits m (resetPack p) where
  orig := h.orig
  size := h.orig.le
  half := by
    have := h.orig
    dsimp only [resetPack]
    omega
  count := Nat.zero_le _
  start h6 := absurd h6 (by dsimp only [resetPack]; decide)
  outside := h.outside
  plength := Nat.two_pow_pos 32

theorem sealed (h6 : 6 ≤ p.count) : Fits m (sealPack p) :=
  h.blit (Nat.le_refl 3) (by dsimp; decide) h.count fun _ => h6

theorem append (data : List UInt8) (h6 : 6 ≤ p.count) (hd : p.count + data.length ≤ PES_SIZE) :
    Fits m (appendPack p data) :=
  h.blit (Nat.le_trans (by decide) h6) hd hd fun _ => h6

theorem started : Fits m (startPack p) := by
  unfold startPack
  split
  · refine ⟨h.orig, h.size, h.half, by dsimp; decide, fun _ => slice_blit p.buf 0 [0, 0, 1], fun i hi => ?_,
      h.plength⟩
    have hlen : 0 + [(0 : UInt8), 0, 1].length ≤ PES_SIZE := by decide
    exact (blit_of_ge p.buf 0 i _ (by omega)).trans (h.outside i hi)
  · exact h

theorem halved (count : Nat) : Fits m (halvePack p count) := by
  unfold halvePack
  split
  · rename_i hh
    obtain ⟨hs, -, hlt, hgt⟩ := hh
    have horig := h.orig
    have hsize : PES_SIZE = 8192 := rfl
    refine ⟨h.orig, ?_, ?_, h.count, h.start, h.outside, h.plength⟩
    · dsimp only
      omega
    · dsimp only
      omega
  · exact h

theorem nextHeader (h6 : 6 ≤ p.count) (streamid : UInt8) (ac3Off : UInt32) :
    Fits m (TsDemux.nextHeader p streamid ac3Off) := by
  unfold TsDemux.nextHeader
  split
  · split_ifs
    · exact h.blit (by decide) (by dsimp; decide) (by decide) fun _ => h6
    · exact h.blit (by decide) (by dsimp; decide) (by decide) fun _ => h6
    · exact h.blit (by decide) (by dsimp; decide) (by decide) fun _ => h6
  · exact h.blit (by decide) (by dsimp; decide) (by decide) fun _ => h6
  · exact h

end Fits

@[simp] theorem sealPack_count (p : Pack) : (sealPack p).count = p.count := rfl

/-- The AC3 header lies behind the PES header. -/
theorem ac3Header_fits {m : Nat → UInt8} {p : Pack} (u : Unset) (h : Fits m p) (h6 : 6 ≤ p.count) :
    Fits m (ac3Header u p).1 ∧ (ac3Header u p).1.count = p.count ∧
      slice (ac3Header u p).1.buf 3 3 = slice p.buf 3 3 := by
  have hoff := (p.buf 8).toNat_lt
  have hsize : PES_SIZE = 8192 := rfl
  unfold ac3Header
  dsimp only
  split
  · split
    · exact ⟨h.blit (by omega) (by dsimp; omega) h.count fun _ => h6, rfl, slice_blit_below _ _ (by omega)⟩
    · exact ⟨h, rfl, rfl⟩
  · exact ⟨h, rfl, rfl⟩

theorem sentPack_fits {m : Nat → UInt8} {p : Pack} (u : Unset) (h : Fits m p) (h6 : 6 ≤ p.count) :
    Fits m (sentPack u p).1 ∧ (sentPack u p).1.count = p.count ∧
      slice (sentPack u p).1.buf 3 3 = [p.cid, UInt8.ofNat ((p.count - 6) / 256), UInt8.ofNat (p.count - 6)] := by
  have hseal : slice (sealPack p).buf 3 3 = [p.cid, UInt8.ofNat ((p.count - 6) / 256), UInt8.ofNat (p.count - 6)] :=
    slice_blit p.buf 3 [_, _, _]
  unfold sentPack
  split
  · obtain ⟨hfits, hcount, hhead⟩ := ac3Header_fits u (h.sealed h6) h6
    exact ⟨hfits, hcount, hhead.trans hseal⟩
  · exact ⟨h.sealed h6, rfl, hseal⟩

/-- What lies behind the start code, the id and the length makes a packet. -/
theorem isPes_slice {m : Nat → UInt8} {p : Pack} {cid : UInt8} (h : Fits m p) (h10 : 10 ≤ p.count)
    (hhead : slice p.buf 3 3 = [cid, UInt8.ofNat ((p.count - 6) / 256), UInt8.ofNat (p.count - 6)]) :
    IsPes (slice p.buf 0 p.count) := by
  obtain ⟨n, hn⟩ : ∃ n, p.count = 3 + 3 + n := ⟨p.count - 6, by omega⟩
  have hlen : p.count - 6 = n := by omega
  have hcount := h.count
  have hsplit : slice p.buf 0 (3 + 3 + n) = slice p.buf 0 3 ++ slice p.buf 3 3 ++ slice p.buf 6 n := by
    rw [slice_add, slice_add]
  refine ⟨cid, slice p.buf 6 n, ?_, by rw [slice_length]; omega, by rw [slice_length]; omega⟩
  rw [hlen] at hhead
  rw [slice_length, hn, hsplit, h.start (by omega), hhead]
  rfl

theorem sendPack_fits {m : Nat → UInt8} {p : Pack} (u : Unset) (h : Fits m p) :
    Fits m (sendPack u p).1 ∧ ∀ packet ∈ (sendPack u p).2, IsPes packet := by
  unfold sendPack
  split
  · exact ⟨h, fun _ hm => nomatch hm⟩
  · rename_i h10
    obtain ⟨hfits, hcount, hhead⟩ := sentPack_fits u h (by omega)
    refine ⟨hfits.nextHeader (by omega) _ _, fun packet hm => ?_⟩
    obtain rfl := List.mem_singleton.mp hm
    exact isPes_slice hfits (by omega) (by rw [hhead, hcount])

theorem startPack_count (p : Pack) : 6 ≤ (startPack p).count := by
  unfold startPack
  split
  · exact Nat.le_refl 6
  · omega

@[simp] theorem halvePack_count (p : Pack) (count : Nat) : (halvePack p count).count = p.count := by
  unfold halvePack
  split_ifs <;> rfl

/-- Before data is copied there is a start of a packet, and it still fits. -/
theorem readyPack_fits {m : Nat → UInt8} {p : Pack} (u : Unset) (data : List UInt8) (h : Fits m p) :
    Fits m (readyPack u p data) ∧ 6 ≤ (readyPack u p data).count := by
  have hstart : 6 ≤ (halvePack (startPack p) data.length).count := by
    rw [halvePack_count]
    exact startPack_count p
  have hfits : Fits m (halvePack (startPack p) data.length) := h.started.halved data.length
  unfold readyPack
  generalize halvePack (startPack p) data.length = q at hstart hfits
  have hlength := q.hlength.toNat_lt
  have hsize : PES_SIZE = 8192 := rfl
  unfold ac3Start
  split
  · rename_i hac3
    split_ifs
    · exact ⟨hfits, hstart⟩
    · split
      · exact ⟨hfits, hstart⟩
      · split_ifs
        · exact ⟨hfits, hstart⟩
        · exact ⟨hfits.blit (by omega) (by dsimp; omega) (by omega) fun _ => hstart, by dsimp; omega⟩
  · exact ⟨hfits, hstart⟩

theorem writeFuel_fits {m : Nat → UInt8} (u : Unset) (fuel : Nat) {p : Pack} (h : Fits m p) (data : List UInt8) :
    Fits m (writeFuel u fuel p data).1 ∧ ∀ packet ∈ (writeFuel u fuel p data).2, IsPes packet := by
  induction fuel generalizing p data with
  | zero => exact ⟨h, fun _ hm => nomatch hm⟩
  | succ fuel ih =>
    obtain ⟨hready, h6⟩ := readyPack_fits u data h
    have hsize := hready.size
    have hcount := hready.count
    rw [writeFuel]
    generalize readyPack u p data = q at *
    dsimp only
    split
    · exact ⟨hready.append data h6 (by omega), fun _ hm => nomatch hm⟩
    · -- the buffer is filled up and sent
      obtain ⟨hsent, hpes⟩ := sendPack_fits u (hready.append (data.take (q.size - q.count)) h6
        (by rw [List.length_take]; omega))
      split
      · obtain ⟨hmore, hpes'⟩ := ih hsent (data.drop (q.size - q.count))
        refine ⟨hmore, fun packet hm => ?_⟩
        exact (List.mem_append.mp hm).elim (hpes packet) (hpes' packet)
      · exact ⟨hsent, hpes⟩

/-- The buffer of a repacker fits, and what it has sent are whole packets. -/
def Sound (m : Nat → UInt8) (j : Job) : Prop := Fits m j.p ∧ ∀ packet ∈ j.out, IsPes packet

theorem Sound.emit {m : Nat → UInt8} {j : Job} {r : Pack × List (List UInt8)} (h : Sound m j)
    (hr : Fits m r.1 ∧ ∀ packet ∈ r.2, IsPes packet) : Sound m ⟨r.1, j.out ++ r.2⟩ :=
  ⟨hr.1, fun packet hm => (List.mem_append.mp hm).elim (h.2 packet) (hr.2 packet)⟩

theorem sound_kept (m : Nat → UInt8) (u : Unset) : Kept u (Sound m) where
  same h hs ho := ⟨h.1.same hs, ho ▸ h.2⟩
  write data h := h.emit (writeFuel_fits u _ h.1 data)
  finish h := ⟨(sendPack_fits u h.1).1.reset, (h.emit (sendPack_fits u h.1)).2⟩

theorem Kept.restart {u : Unset} {I : Job → Prop} (hk : Kept u I) {j : Job} (hj : I j) : I (j.restart u) := by
  unfold Job.restart
  split
  · exact hk.finish (hk.same hj ⟨rfl, rfl, rfl, rfl, fun _ => UInt32.toNat_lt _⟩ rfl)
  · exact hj

theorem Kept.packet {u : Unset} {I : Job → Prop} (hk : Kept u I) {j : Job} (hj : I j) (start : Bool)
    (piece : List UInt8) : I (j.packet u start piece) := by
  refine hk.repackFuel _ ?_ piece
  split
  · exact hk.restart hj
  · exact hj

theorem sound_init (p : Pack) : Sound p.buf ⟨initPack p PES_SIZE, []⟩ :=
  ⟨⟨rfl, Nat.le_refl _, by dsimp [initPack, resetPack]; omega, Nat.zero_le _, fun h => absurd h (Nat.not_succ_le_zero 5),
    fun _ _ => rfl, Nat.two_pow_pos 32⟩, fun _ hm => nomatch hm⟩

theorem Sound.packets {m : Nat → UInt8} {j : Job} (u : Unset) (h : Sound m j) (packets : List (Bool × List UInt8)) :
    Sound m (j.packets u packets) := by
  induction packets generalizing j with
  | nil => exact h
  | cons x packets ih => exact ih ((sound_kept m u).packet h x.1 x.2)

/-- Whatever comes, in whatever pieces, and whatever C leaves open: what is sent are whole PES packets, and no byte
behind the buffer is written. -/
theorem repack_whole (u : Unset) (p : Pack) (packets : List (Bool × List UInt8)) :
    let j := Job.packets u ⟨initPack p PES_SIZE, []⟩ packets
    (∀ packet ∈ j.out, IsPes packet) ∧ j.p.count ≤ PES_SIZE ∧ ∀ i, PES_SIZE ≤ i → j.p.buf i = p.buf i := by
  intro j
  have h : Sound p.buf j := (sound_init p).packets u packets
  exact ⟨h.2, h.1.count, h.1.outside⟩

end Mvpmc.TsDemux
