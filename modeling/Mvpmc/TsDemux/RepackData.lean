import Mvpmc.TsDemux.RepackFits

/-! What the repacker does to the packets of audio and video of MPEG-2: their data goes on as it is, whatever the
pieces are in which it comes. -/
namespace Mvpmc.TsDemux
open Mvpmc.Lib Mvpmc.Lib.Circular

/-- A PES packet of MPEG-2 with audio or video. A length of 0 is one that is not known. -/
structure Pes where
  cid : UInt8
  length : Nat
  flag1 : UInt8
  flag2 : UInt8
  header : List UInt8
  data : List UInt8
  audioVideo : AudioVideo cid
  mpeg2 : flag1 &&& 0xC0 = 0x80
  stamped : flag2 &&& PTS_ONLY ≠ 0 → 5 ≤ header.length
  short : header.length < 256
  nonempty : data ≠ []
  length_eq : length = 0 ∨ length = 3 + header.length + data.length
  word : length < 65536

namespace Pes

/-- What follows the length. -/
def body (s : Pes) : List UInt8 := s.flag1 :: s.flag2 :: UInt8.ofNat s.header.length :: (s.header ++ s.data)

def bytes (s : Pes) : List UInt8 :=
  0 :: 0 :: 1 :: s.cid :: UInt8.ofNat (s.length / 256) :: UInt8.ofNat s.length :: s.body

/-- `plength`. -/
def plength (s : Pes) : Nat := if s.length = 0 then MMAX_PLENGTH.toNat - 6 else s.length

theorem length_bytes (s : Pes) : s.bytes.length = 9 + s.header.length + s.data.length := by
  unfold bytes body
  simp only [List.length_cons, List.length_append]
  omega

theorem length_lt (s : Pes) : s.header.length < s.header.length + s.data.length := by
  have := List.length_pos_of_ne_nil s.nonempty
  omega

end Pes

theorem AudioVideo.not_skipped {b : UInt8} (h : AudioVideo b) : ¬Skipped b := by
  unfold Skipped
  rintro (rfl | rfl | rfl | rfl | rfl | rfl | rfl | rfl) <;> exact absurd h (by decide)

theorem AudioVideo.ne_private {b : UInt8} (h : AudioVideo b) : b ≠ PRIVATE_STREAM1 := by
  rintro rfl
  exact absurd h (by decide)

/-- What one byte of a header does. -/
def headerByte (p : Pack) (b : UInt8) : Pack :=
  match p.found with
  | 0 | 1 | 2 => syncByte p b
  | 3 =>
    if Skipped b then { p with found := 4, cid := b, done := true }
    else if b = PRIVATE_STREAM1 ∨ AudioVideo b then { p with found := 4, cid := b }
    else syncByte { p with found := 0, cid := 0 } b
  | 4 => { p with found := 5, plen := (b, p.plen.2) }
  | 5 => setLength p p.plen.1 b
  | 6 => setFlags p b
  | 7 => { p with flag2 := b, found := 8 }
  | _ => { p with hlength := b, found := 9 }

/-- The header of a packet that is not skipped is read byte by byte. -/
theorem scan_cons {p : Pack} (hin : InHeader p) (hd : p.done = false) (hf : p.found < 9) (b : UInt8)
    (bytes : List UInt8) : scan p (b :: bytes) = scan (headerByte p b) bytes := by
  have hf' : p.found = 0 ∨ p.found = 1 ∨ p.found = 2 ∨ p.found = 3 ∨ p.found = 4 ∨ p.found = 5 ∨ p.found = 6 ∨
      p.found = 7 ∨ p.found = 8 := by omega
  rw [scan.eq_def]
  unfold headerByte
  rcases hf' with h | h | h | h | h | h | h | h | h <;> simp only [if_pos hin, h]
  · -- the stream id
    split_ifs <;> rfl
  · -- the length, which may be cut in two
    cases bytes with
    | nil => simp [scan]
    | cons lo bytes =>
      have hin' : InHeader { p with found := 5, plen := (b, p.plen.2) } := by
        refine ⟨hin.1.imp id (Or.imp ?_ ?_), .inr (by simp [hd])⟩
        · exact fun hm => ⟨hm.1, (by decide : 5 < 7)⟩
        · exact fun hm => ⟨hm.1, (by decide : 5 < 9)⟩
      rw [scan.eq_def _ (lo :: bytes)]
      simp only [if_pos hin']
      rfl

theorem headerByte_same (p : Pack) (b : UInt8) : SameBuffer p (headerByte p b) := by
  unfold headerByte
  split
  · exact syncByte_same p b
  · exact syncByte_same p b
  · exact syncByte_same p b
  · split_ifs
    · exact ⟨rfl, rfl, rfl, rfl, id⟩
    · exact ⟨rfl, rfl, rfl, rfl, id⟩
    · have hsync := syncByte_same { p with found := 0, cid := 0 } b
      exact ⟨hsync.size, hsync.sizeOrig, hsync.count, hsync.buf, hsync.plength⟩
  · exact ⟨rfl, rfl, rfl, rfl, id⟩
  · exact setLength_same p _ b
  · exact setFlags_same p b
  · exact ⟨rfl, rfl, rfl, rfl, id⟩
  · exact ⟨rfl, rfl, rfl, rfl, id⟩

/-- `k` bytes of the packet have been read. -/
structure Reading (s : Pes) (k : Nat) (p : Pack) : Prop where
  found : p.found = k
  done : p.done = false
  mpeg : p.mpeg = if k < 7 then 0 else 2
  cid : 4 ≤ k → p.cid = s.cid
  plen : k = 5 → p.plen.1 = UInt8.ofNat (s.length / 256)
  plength : 6 ≤ k → p.plength = s.length ∨ p.plength = s.plength
  flag1 : 7 ≤ k → p.flag1 = s.flag1
  flag2 : 8 ≤ k → p.flag2 = s.flag2
  hlength : 9 ≤ k → p.hlength = UInt8.ofNat s.header.length

namespace Reading
variable {s : Pes} {k : Nat} {p : Pack}

theorem start (hf : p.found = 0) (hd : p.done = false) (hm : p.mpeg = 0) : Reading s 0 p :=
  ⟨hf, hd, by rw [if_pos (by decide)]; exact hm, by omega, by omega, by omega, by omega, by omega, by omega⟩

theorem inHeader (h : Reading s k p) (hk : k < 9) : InHeader p := by
  refine ⟨?_, .inr (by simp [h.done])⟩
  rw [h.mpeg, h.found]
  split_ifs
  · exact .inl rfl
  · exact .inr (.inr ⟨rfl, hk⟩)

/-- One more byte of the header. -/
theorem step (h : Reading s k p) (hk : k < 9) {b : UInt8} (hb : s.bytes[k]? = some b) :
    Reading s (k + 1) (headerByte p b) := by
  obtain ⟨hfound, hdone, hmpeg, hcid, hplen, hplength, hflag1, hflag2, hhlength⟩ := h
  unfold headerByte
  interval_cases k <;> simp only [hfound]
  all_goals obtain rfl := Option.some.inj hb
  · constructor <;> simp_all [syncByte]
  · constructor <;> simp_all [syncByte]
  · constructor <;> simp_all [syncByte]
  · -- the stream id
    rw [if_neg s.audioVideo.not_skipped, if_pos (.inr s.audioVideo)]
    constructor <;> simp_all
  · constructor <;> simp_all
  · -- the length
    have hword := s.word
    have hvalue : (UInt8.ofNat (s.length / 256)).toNat * 256 + (UInt8.ofNat s.length).toNat = s.length := by
      rw [UInt8.toNat_ofNat', UInt8.toNat_ofNat']
      omega
    rw [hplen rfl]
    constructor <;> simp_all [setLength]
  · -- the flags tell MPEG-2
    have hflags : setFlags p s.flag1 = { p with flag1 := s.flag1, found := 7, mpeg := 2 } := if_pos s.mpeg2
    rw [hflags]
    constructor <;> simp_all
  · constructor <;> simp_all
  · constructor <;> simp_all

/-- Some more bytes of the header. -/
theorem scan_append (h : Reading s k p) (got : List UInt8) (hk : k + got.length ≤ 9) (hg : got <+: s.bytes.drop k)
    (rest : List UInt8) : ∃ p', scan p (got ++ rest) = scan p' rest ∧ Reading s (k + got.length) p' ∧ SameBuffer p p' := by
  induction got generalizing k p with
  | nil => exact ⟨p, rfl, h, .refl p⟩
  | cons b got ih =>
    rw [List.length_cons] at hk
    obtain ⟨tail, ht⟩ := hg
    have hb : s.bytes[k]? = some b := by
      rw [← List.head?_drop, ← ht]
      rfl
    have hrest : got <+: s.bytes.drop (k + 1) := ⟨tail, by rw [← List.tail_drop, ← ht]; rfl⟩
    obtain ⟨p', hscan, hread, hsame⟩ := ih (h.step (by omega) hb) (by omega) hrest
    have hfound := h.found
    refine ⟨p', ?_, ?_, (headerByte_same p b).trans hsame⟩
    · rw [List.cons_append, scan_cons (h.inHeader (by omega)) h.done (by omega), hscan]
    · rw [List.length_cons, ← Nat.add_assoc, Nat.add_right_comm]
      exact hread

/-- The loop over the header ends behind the length of the header. -/
theorem scan_eq (h : Reading s k p) (hk : 9 ≤ k) (bytes : List UInt8) : scan p bytes = (p, bytes) := by
  have hout : ¬InHeader p := by
    rintro ⟨hm, -⟩
    rw [h.mpeg, h.found, if_neg (by omega)] at hm
    omega
  cases bytes with
  | nil => rfl
  | cons b bytes => rw [scan.eq_def]; exact if_neg hout

end Reading

/-- The packets that a packet has become, up to where `w` of it is in them. The last may still be in the buffer. -/
def Pieces (w : List UInt8) : List (List UInt8) → Prop
  | [] => False
  | x :: xs =>
    w = x.drop 6 ++ xs.flatMap (·.drop 9) ∧ 6 ≤ x.length ∧ (xs ≠ [] → PES_SIZE ≤ 2 * x.length + 1) ∧
      ∀ y ∈ xs, 9 ≤ y.length ∧ y[8]? = some 0

namespace Pieces
variable {w data x y : List UInt8} {xs : List (List UInt8)}

theorem append (h : Pieces w (xs ++ [x])) (data : List UInt8) : Pieces (w ++ data) (xs ++ [x ++ data]) := by
  cases xs with
  | nil =>
    obtain ⟨hw, hl, -, -⟩ := h
    refine ⟨?_, ?_, fun hne => absurd rfl hne, fun _ hm => nomatch hm⟩
    · rw [hw, List.drop_append_of_le_length hl]
      simp
    · rw [List.length_append]
      omega
  | cons x₀ xs =>
    obtain ⟨hw, hl, hfull, hall⟩ := h
    obtain ⟨h9, h8⟩ := hall x (by simp)
    refine ⟨?_, hl, fun _ => hfull (by simp), fun y hy => ?_⟩
    · rw [hw]
      simp [List.flatMap_append, List.drop_append_of_le_length h9]
    · rcases List.mem_append.mp hy with hy | hy
      · exact hall y (List.mem_append_left _ hy)
      · obtain rfl := List.mem_singleton.mp hy
        rw [List.length_append, List.getElem?_append_left (by omega)]
        exact ⟨by omega, h8⟩

/-- The last packet may get its id and its length. -/
theorem sealed (h : Pieces w (xs ++ [x])) (hl : y.length = x.length) (hy : y.drop 6 = x.drop 6) :
    Pieces w (xs ++ [y]) := by
  have h9 : y.drop 9 = x.drop 9 := by
    have := congrArg (List.drop 3) hy
    rwa [List.drop_drop, List.drop_drop] at this
  have h8 : y[8]? = x[8]? := by
    have := congrArg (·[2]?) hy
    simpa only [List.getElem?_drop] using this
  cases xs with
  | nil =>
    obtain ⟨hw, hlen, hfull, -⟩ := h
    exact ⟨by rw [hw, hy], hl ▸ hlen, fun hne => absurd rfl hne, fun _ hm => nomatch hm⟩
  | cons x₀ xs =>
    obtain ⟨hw, hlen, hfull, hall⟩ := h
    refine ⟨?_, hlen, fun _ => hfull (by simp), fun z hz => ?_⟩
    · rw [hw]
      simp [List.flatMap_append, h9]
    · rcases List.mem_append.mp hz with hz | hz
      · exact hall z (List.mem_append_left _ hz)
      · obtain rfl := List.mem_singleton.mp hz
        rw [hl, h8]
        exact hall x (by simp)

/-- A new packet behind a full one has nothing but its header. -/
theorem next (h : Pieces w (xs ++ [x])) (hfull : PES_SIZE ≤ 2 * x.length + 1) (hl : y.length = 9) (h8 : y[8]? = some 0) :
    Pieces w (xs ++ [x] ++ [y]) := by
  have h9 : y.drop 9 = [] := List.drop_of_length_le hl.le
  have hnew (z : List UInt8) (hz : z ∈ [y]) : 9 ≤ z.length ∧ z[8]? = some 0 := by
    obtain rfl := List.mem_singleton.mp hz
    exact ⟨hl.ge, h8⟩
  cases xs with
  | nil =>
    obtain ⟨hw, hlen, -, -⟩ := h
    exact ⟨by rw [hw]; simp [h9], hlen, fun _ => hfull, hnew⟩
  | cons x₀ xs =>
    obtain ⟨hw, hlen, hfull₀, hall⟩ := h
    refine ⟨?_, hlen, fun _ => hfull₀ (by simp), fun z hz => (List.mem_append.mp hz).elim (hall z) (hnew z)⟩
    rw [hw]
    simp [List.flatMap_append, h9]

/-- A packet that has nothing but its header is none. -/
theorem drop_last (h : Pieces w (xs ++ [x] ++ [y])) (hl : y.length ≤ 9) : Pieces w (xs ++ [x]) := by
  have h9 : y.drop 9 = [] := List.drop_of_length_le hl
  cases xs with
  | nil =>
    obtain ⟨hw, hlen, -, -⟩ := h
    exact ⟨by rw [hw]; simp [h9], hlen, fun hne => absurd rfl hne, fun _ hm => nomatch hm⟩
  | cons x₀ xs =>
    obtain ⟨hw, hlen, hfull, hall⟩ := h
    refine ⟨?_, hlen, fun _ => hfull (by simp), fun z hz => hall z (List.mem_append_left _ hz)⟩
    rw [hw]
    simp [List.flatMap_append, h9]

end Pieces

/-- The fields of the header are the same. -/
structure SameHeader (p p' : Pack) : Prop where
  found : p'.found = p.found
  done : p'.done = p.done
  mpeg : p'.mpeg = p.mpeg
  cid : p'.cid = p.cid
  plen : p'.plen = p.plen
  plength : p'.plength = p.plength
  flag1 : p'.flag1 = p.flag1
  flag2 : p'.flag2 = p.flag2
  hlength : p'.hlength = p.hlength

theorem SameHeader.refl (p : Pack) : SameHeader p p := ⟨rfl, rfl, rfl, rfl, rfl, rfl, rfl, rfl, rfl⟩

theorem SameHeader.trans {p q r : Pack} (h : SameHeader p q) (h' : SameHeader q r) : SameHeader p r :=
  ⟨h'.found.trans h.found, h'.done.trans h.done, h'.mpeg.trans h.mpeg, h'.cid.trans h.cid, h'.plen.trans h.plen,
    h'.plength.trans h.plength, h'.flag1.trans h.flag1, h'.flag2.trans h.flag2, h'.hlength.trans h.hlength⟩

theorem Reading.same {s : Pes} {k : Nat} {p p' : Pack} (h : Reading s k p) (hs : SameHeader p p') : Reading s k p' := by
  obtain ⟨hfound, hdone, hmpeg, hcid, hplen, hplength, hflag1, hflag2, hhlength⟩ := h
  constructor
  · rw [hs.found, hfound]
  · rw [hs.done, hdone]
  · rw [hs.mpeg, hmpeg]
  · rwa [hs.cid]
  · rwa [hs.plen]
  · rwa [hs.plength]
  · rwa [hs.flag1]
  · rwa [hs.flag2]
  · rwa [hs.hlength]

/-- The longest piece that a transport packet brings. -/
def pieceSize : Nat := 184

/-- No write will cut the packet in half: that has been done, or it is too short, or too much of it is to come. -/
def Calm (p : Pack) : Prop :=
  p.size ≠ p.sizeOrig ∨ p.plength + 6 + pieceSize ≤ PES_SIZE ∨ p.found + 3 * PES_SIZE / 2 ≤ p.plength + 6

theorem Calm.halvePack {p : Pack} (h : Calm p) (ho : p.sizeOrig = PES_SIZE) (hc : p.count ≤ p.found) {n : Nat}
    (hn : n ≤ pieceSize) : halvePack p n = p := by
  refine if_neg ?_
  rintro ⟨hsize, -, hlt, hgt⟩
  unfold Pack.diff at hlt hgt
  have hp : PES_SIZE = 8192 := rfl
  rcases h with h | h | h <;> omega

/-- A packet of audio or video that is sent, and the header of the next. -/
theorem sendPack_eq (u : Unset) {p : Pack} (hcid : p.cid ≠ PRIVATE_STREAM1) (hmpeg : p.mpeg = 2) (h10 : 10 ≤ p.count) :
    sendPack u p = ({ p with buf := blit (sealPack p).buf 6 [0x80, 0, 0], count := 9 },
      [slice (sealPack p).buf 0 p.count]) := by
  have hsent : sentPack u p = (sealPack p, 0, 0) := if_neg hcid
  have hnext : nextHeader (sealPack p) 0 0 = { sealPack p with buf := blit (sealPack p).buf 6 [0x80, 0, 0], count := 9 } := by
    unfold nextHeader
    split
    · rw [if_neg fun hc => hcid hc.1, if_neg fun hc => hcid hc.1]
    · rename_i h1
      exact absurd (hmpeg.symm.trans h1) (by decide)
    · rename_i h2 _
      exact absurd hmpeg h2
  unfold sendPack
  rw [if_neg (by omega), hsent]
  dsimp only
  rw [hnext]
  rfl

/-- The id and the length do not touch what follows them. -/
theorem sealPack_drop (p : Pack) (n : Nat) : (slice (sealPack p).buf 0 n).drop 6 = (slice p.buf 0 n).drop 6 := by
  have hlen : 3 + [p.cid, UInt8.ofNat ((p.count - 6) / 256), UInt8.ofNat (p.count - 6)].length ≤ 0 + 6 := Nat.le_refl 6
  rw [slice_drop, slice_drop]
  exact slice_blit_above p.buf _ hlen

/-- `w` of a packet has been written, and `outs` has been sent of it. -/
structure Filling (m : Nat → UInt8) (w : List UInt8) (outs : List (List UInt8)) (p : Pack) : Prop where
  fits : Fits m p
  cid : p.cid ≠ PRIVATE_STREAM1
  mpeg : p.mpeg = 2
  pieces : Pieces w (outs ++ [slice p.buf 0 p.count])
  room : p.count < p.size
  calm : Calm p
  found : 9 ≤ p.found

namespace Filling
variable {m : Nat → UInt8} {w : List UInt8} {outs : List (List UInt8)} {p : Pack}

theorem six_le (h : Filling m w outs p) : 6 ≤ p.count := by
  have hp := h.pieces
  cases outs with
  | nil =>
    obtain ⟨-, hl, -, -⟩ := hp
    rwa [slice_length] at hl
  | cons x xs =>
    obtain ⟨-, -, -, hall⟩ := hp
    have := (hall (slice p.buf 0 p.count) (by simp)).1
    rw [slice_length] at this
    omega

theorem readyPack (u : Unset) (h : Filling m w outs p) (hc : p.count ≤ p.found) {data : List UInt8}
    (hn : data.length ≤ pieceSize) : TsDemux.readyPack u p data = p := by
  have h6 := h.six_le
  have hstart : startPack p = p := if_neg (by omega)
  unfold TsDemux.readyPack
  rw [hstart, h.calm.halvePack h.fits.orig hc hn]
  exact if_neg fun hp => h.cid hp.1

/-- Data is put behind what there is. -/
theorem pieces_append (h : Filling m w outs p) (data : List UInt8) :
    Pieces (w ++ data) (outs ++ [slice (appendPack p data).buf 0 (appendPack p data).count]) := by
  have hslice : slice (appendPack p data).buf 0 (appendPack p data).count = slice p.buf 0 p.count ++ data := by
    have := slice_blit_append p.buf 0 p.count data
    rwa [Nat.zero_add] at this
  rw [hslice]
  exact h.pieces.append data

theorem append (h : Filling m w outs p) {data : List UInt8} (hroom : p.count + data.length < p.size) :
    Filling m (w ++ data) outs (appendPack p data) :=
  have hsize := h.fits.size
  ⟨h.fits.append data h.six_le (by omega), h.cid, h.mpeg, h.pieces_append data, hroom, h.calm, h.found⟩

/-- The buffer is filled up and sent. -/
theorem flush (u : Unset) (h : Filling m w outs p) (data : List UInt8) (hfull : p.count + data.length = p.size) :
    ∃ packet q, TsDemux.sendPack u (appendPack p data) = (q, [packet]) ∧
      Filling m (w ++ data) (outs ++ [packet]) q ∧ SameHeader p q ∧ q.count = 9 := by
  have hsize := h.fits.size
  have hhalf := h.fits.half
  have hp : PES_SIZE = 8192 := rfl
  have hcount : (appendPack p data).count = p.size := hfull
  have hfits : Fits m (appendPack p data) := h.fits.append data h.six_le (by omega)
  have hsent := sendPack_eq u (p := appendPack p data) h.cid h.mpeg (by omega)
  have hpieces := (h.pieces_append data).sealed (y := slice (sealPack (appendPack p data)).buf 0 (appendPack p data).count)
    (by rw [slice_length, slice_length]) (sealPack_drop _ _)
  have hnew := (sendPack_fits u hfits).1
  rw [hsent] at hnew
  refine ⟨_, _, hsent, ⟨hnew, h.cid, h.mpeg, ?_, show 9 < p.size by omega, h.calm, h.found⟩,
    ⟨rfl, rfl, rfl, rfl, rfl, rfl, rfl, rfl, rfl⟩, rfl⟩
  refine hpieces.next (by rw [slice_length]; omega) (slice_length _ _ _) ?_
  have hflag := blit_of_mem (sealPack (appendPack p data)).buf 6 2 [0x80, 0, 0] (by decide)
  simp [slice, hflag]

/-- Data that is written goes on behind what there is, and nothing of it is lost. -/
theorem write (u : Unset) (h : Filling m w outs p) (hc : p.count ≤ p.found) {data : List UInt8}
    (hn : data.length ≤ pieceSize) {fuel : Nat} (hf : data.length < fuel) :
    ∃ q sent, writeFuel u fuel p data = (q, sent) ∧ Filling m (w ++ data) (outs ++ sent) q ∧ SameHeader p q ∧
      q.count ≤ p.count + data.length := by
  induction fuel generalizing p w outs data with
  | zero => omega
  | succ fuel ih =>
    have hroom := h.room
    rw [writeFuel, h.readyPack u hc hn]
    dsimp only
    split
    · rename_i hfit
      refine ⟨_, _, rfl, ?_, ⟨rfl, rfl, rfl, rfl, rfl, rfl, rfl, rfl, rfl⟩, Nat.le_refl _⟩
      rw [List.append_nil]
      exact h.append hfit
    · rename_i hfull
      have hsplit := List.take_append_drop (p.size - p.count) data
      have htake : (data.take (p.size - p.count)).length = p.size - p.count := by
        rw [List.length_take]
        omega
      have hdrop : (data.drop (p.size - p.count)).length = data.length - (p.size - p.count) := List.length_drop
      obtain ⟨packet, q, hsent, hq, hsame, hcount⟩ := h.flush u (data.take (p.size - p.count)) (by omega)
      have h9 := h.found
      have hfound := hsame.found
      -- what is full was more than the header of the next
      have hhalf := h.fits.half
      have hp : PES_SIZE = 8192 := rfl
      have hd : pieceSize = 184 := rfl
      rw [hsent]
      split
      · have hrest : (data.drop (p.size - p.count)).length ≤ pieceSize := by omega
        obtain ⟨r, sent, hwrite, hr, hsame', hle⟩ := ih hq (by omega) hrest (by omega)
        dsimp only
        rw [hwrite]
        refine ⟨_, _, rfl, ?_, hsame.trans hsame', by dsimp only; omega⟩
        rw [List.append_assoc, hsplit, List.append_assoc] at hr
        exact hr
      · have hnil : data.drop (p.size - p.count) = [] := List.eq_nil_of_length_eq_zero (by omega)
        rw [hnil, List.append_nil] at hsplit
        rw [hsplit] at hq
        exact ⟨_, _, rfl, hq, hsame, by omega⟩

end Filling

end Mvpmc.TsDemux
