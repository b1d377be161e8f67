import Mvpmc.TsDemux.Packet

/-! `ts_demux_transform` in `ts_demux.c` with its lengths and positions as the ints that they are. `video.c` passes
on what a read returned, so a length can be negative. -/
namespace Mvpmc.TsDemux
open Mvpmc.Lib.Circular

/-- `ts_demux_handle_t`. -/
structure TsHandle (δ π ρ : Type) where
  streams : Streams δ π ρ
  fragBuf : Nat → UInt8
  fragBufPos : Int
  resyncs : Nat

/-- The locals of `ts_demux_transform` in the loop over the complete packets, with the packets so far. -/
structure Pass (δ π ρ : Type) where
  streams : Streams δ π ρ
  offset : Int
  resyncs : Nat
  packets : List (List UInt8)

/-- What a call leaves, hands to `demux_ts_packet` and returns. -/
structure Transformed (δ π ρ : Type) where
  handle : TsHandle δ π ρ
  packets : List (List UInt8)
  result : Int

section
variable {δ π ρ : Type}

/-- The loop up to the next sync byte. -/
def skipTo (ts : Nat → UInt8) (len : Int) : Nat → Int → Int
  | 0, offset => offset
  | fuel + 1, offset =>
    if ts offset.toNat ≠ tsSyncByte ∧ offset < len then skipTo ts len fuel (offset + 1) else offset

/-- The loop over the complete packets. Every round takes a packet off, so the number of bytes is fuel enough. -/
def completePackets (psi : Psi δ π) (rp : Repacker ρ) (ts : Nat → UInt8) (len : Int) :
    Nat → Pass δ π ρ → Pass δ π ρ
  | 0, s => s
  | fuel + 1, s =>
    if s.offset + tsSize ≤ len then
      let lost := ts s.offset.toNat ≠ tsSyncByte
      let offset := if lost then skipTo ts len (len - s.offset).toNat s.offset else s.offset
      let resyncs := if lost then s.resyncs + 1 else s.resyncs
      if lost ∧ len < offset + tsSize then { s with offset := offset, resyncs := resyncs }
      else
        completePackets psi rp ts len fuel {
          streams := (demuxTsPacket psi rp s.streams fun i => ts (offset.toNat + i)).1
          offset := offset + tsSize
          resyncs := resyncs
          packets := s.packets ++ [slice ts offset.toNat tsSize] }
    else s

/-- The packets of the buffer from `offset` on, and the fragment behind them. -/
def transformFrom (psi : Psi δ π) (rp : Repacker ρ) (h : TsHandle δ π ρ) (ts : Nat → UInt8) (len offset : Int)
    (packets : List (List UInt8)) : Transformed δ π ρ :=
  let s := completePackets psi rp ts len (len - offset).toNat ⟨h.streams, offset, h.resyncs, packets⟩
  let fraglen := len - s.offset
  ⟨{ streams := s.streams
     fragBuf := if 0 < fraglen then blit h.fragBuf 0 (slice ts s.offset.toNat fraglen.toNat) else h.fragBuf
     fragBufPos := fraglen
     resyncs := s.resyncs }, s.packets, s.streams.pesBufPos⟩

/-- `ts_demux_transform` on `len` bytes of the memory `ts`. -/
def tsDemuxTransform (psi : Psi δ π) (rp : Repacker ρ) (h : TsHandle δ π ρ) (ts : Nat → UInt8) (len : Int)
    (pesBuf : Nat → UInt8) (pesBufLen : Int) : Transformed δ π ρ :=
  let h : TsHandle δ π ρ := { h with
    streams := { h.streams with pesBuf := pesBuf, pesBufLen := pesBufLen, pesBufPos := 0 }
    resyncs := 0 }
  if 0 < h.fragBufPos then
    let fraglen := min ((tsSize : Int) - h.fragBufPos) len
    let h : TsHandle δ π ρ := { h with
      fragBuf := blit h.fragBuf h.fragBufPos.toNat (slice ts 0 fraglen.toNat)
      fragBufPos := h.fragBufPos + fraglen }
    if h.fragBufPos < tsSize then ⟨h, [], 0⟩
    else
      transformFrom psi rp { h with streams := (demuxTsPacket psi rp h.streams h.fragBuf).1 } ts len fraglen
        [slice h.fragBuf 0 tsSize]
  else transformFrom psi rp h ts len 0 []

/-- The call has handed over no packet and gives no bytes, and the fragment is as it was. -/
def Transformed.Undisturbed (r : Transformed δ π ρ) (h : TsHandle δ π ρ) : Prop :=
  r.packets = [] ∧ (∀ i : Nat, i < h.fragBufPos → r.handle.fragBuf i = h.fragBuf i) ∧
    r.handle.fragBufPos = h.fragBufPos ∧ r.result ≤ 0

/-- No packet is complete in an empty or negative number of bytes. -/
theorem transformFrom_nonpos (psi : Psi δ π) (rp : Repacker ρ) (h : TsHandle δ π ρ) (ts : Nat → UInt8) {len : Int}
    (hl : len ≤ 0) (packets : List (List UInt8)) :
    transformFrom psi rp h ts len 0 packets = ⟨{ h with fragBufPos := len }, packets, h.streams.pesBufPos⟩ := by
  have hfuel : (len - 0).toNat = 0 := by omega
  unfold transformFrom
  rw [hfuel]
  unfold completePackets
  dsimp only
  rw [if_neg (by omega), Int.sub_zero]

/-- What a call with nothing read, or with the error of a read, does: the position of the fragment takes the
length along. -/
theorem tsDemuxTransform_nonpos (psi : Psi δ π) (rp : Repacker ρ) (h : TsHandle δ π ρ) (ts : Nat → UInt8) {len : Int}
    (hl : len ≤ 0) (h0 : 0 ≤ h.fragBufPos) (h1 : h.fragBufPos < tsSize) (pesBuf : Nat → UInt8) (pesBufLen : Int) :
    let r := tsDemuxTransform psi rp h ts len pesBuf pesBufLen
    r.packets = [] ∧ r.handle.fragBuf = h.fragBuf ∧ r.handle.fragBufPos = h.fragBufPos + len ∧ r.result = 0 := by
  unfold tsDemuxTransform
  dsimp only
  split
  · have hmin : min ((tsSize : Int) - h.fragBufPos) len = len := by omega
    have hcopy : slice ts 0 len.toNat = [] := by
      rw [show len.toNat = 0 by omega, slice_zero]
    rw [hmin, if_pos (by omega), hcopy, blit_nil]
    exact ⟨rfl, rfl, rfl, rfl⟩
  · have hpos : h.fragBufPos = 0 := by omega
    rw [transformFrom_nonpos psi rp _ ts hl]
    exact ⟨rfl, rfl, by rw [hpos, Int.zero_add], rfl⟩

/-- A call without bytes leaves the fragment as it is when the length is 0, and only then: the error of a read
moves the position of the fragment back. -/
theorem tsDemuxTransform_undisturbed_iff (psi : Psi δ π) (rp : Repacker ρ) (h : TsHandle δ π ρ) (ts : Nat → UInt8)
    (len : Int) (hl : len ≤ 0) (h0 : 0 ≤ h.fragBufPos) (h1 : h.fragBufPos < 188) (pesBuf : Nat → UInt8)
    (pesBufLen : Int) :
    (tsDemuxTransform psi rp h ts len pesBuf pesBufLen).Undisturbed h ↔ len = 0 := by
  obtain ⟨hp, hb, hpos, hr⟩ := tsDemuxTransform_nonpos psi rp h ts hl h0 h1 pesBuf pesBufLen
  constructor
  · rintro ⟨-, -, hkeep, -⟩
    have : h.fragBufPos + len = h.fragBufPos := hpos.symm.trans hkeep
    omega
  · rintro rfl
    refine ⟨hp, fun i _ => congrFun hb i, ?_, hr.le⟩
    rw [← Int.add_zero h.fragBufPos]
    exact hpos

/-- The bytes of the buffer from `offset` on. -/
structure Rests (ts : Nat → UInt8) (len offset : Int) (rest : List UInt8) : Prop where
  nonneg : 0 ≤ offset
  length : len = offset + rest.length
  bytes : slice ts offset.toNat rest.length = rest

theorem Rests.drop {ts : Nat → UInt8} {len offset : Int} {rest : List UInt8} (h : Rests ts len offset rest) {j : Nat}
    (hj : j ≤ rest.length) : Rests ts len (offset + j) (rest.drop j) := by
  obtain ⟨h0, hl, hb⟩ := h
  have hpos : (offset + j).toNat = offset.toNat + j := by omega
  refine ⟨by omega, ?_, ?_⟩
  · rw [List.length_drop]
    omega
  · rw [hpos, List.length_drop, ← slice_drop, hb]

theorem Rests.take {ts : Nat → UInt8} {len offset : Int} {rest : List UInt8} (h : Rests ts len offset rest) {j : Nat}
    (hj : j ≤ rest.length) : slice ts offset.toNat j = rest.take j := by
  obtain ⟨d, hd⟩ := Nat.exists_eq_add_of_le hj
  have hb := h.bytes
  rw [hd, slice_add] at hb
  rw [← hb, List.take_left' (slice_length _ _ _)]

theorem Rests.head {ts : Nat → UInt8} {len offset : Int} {b : UInt8} {rest : List UInt8}
    (h : Rests ts len offset (b :: rest)) : ts offset.toNat = b := by
  have ht := h.take (j := 1) (Nat.succ_le_succ (Nat.zero_le _))
  exact List.head_eq_of_cons_eq ht

/-- The loop up to the next sync byte leaves the bytes from there on. -/
theorem Rests.skipTo {ts : Nat → UInt8} {len offset : Int} {rest : List UInt8} (h : Rests ts len offset rest)
    {fuel : Nat} (hf : rest.length ≤ fuel) : Rests ts len (skipTo ts len fuel offset) (resync rest) := by
  induction fuel generalizing offset rest with
  | zero =>
    obtain rfl : rest = [] := List.eq_nil_of_length_eq_zero (by omega)
    exact h
  | succ fuel ih =>
    unfold TsDemux.skipTo
    cases rest with
    | nil =>
      have hl := h.length
      rw [if_neg (by rintro ⟨-, hlt⟩; rw [List.length_nil] at hl; omega)]
      exact h
    | cons b rest =>
      have hl := h.length
      have hlen : (b :: rest).length = rest.length + 1 := List.length_cons
      rw [h.head]
      unfold resync
      by_cases hb : b = tsSyncByte
      · rw [if_neg fun hc => hc.1 hb, List.dropWhile_cons_of_neg (by simp [hb])]
        exact h
      · rw [if_pos ⟨hb, by omega⟩, List.dropWhile_cons_of_pos (by simp [hb])]
        exact ih (h.drop (Nat.succ_le_succ (Nat.zero_le _))) (by omega)

/-- The loop over the complete packets finds those that `packets` takes off the list of the bytes. -/
theorem Rests.completePackets {ts : Nat → UInt8} {len : Int} (psi : Psi δ π) (rp : Repacker ρ) {rest : List UInt8}
    {s : Pass δ π ρ} (h : Rests ts len s.offset rest) (fuel : Nat) :
    let s' := completePackets psi rp ts len fuel s
    let t := TsDemux.packets fuel rest
    s'.packets = s.packets ++ t.blocks ∧ s'.resyncs = s.resyncs + t.resyncs ∧ Rests ts len s'.offset t.rest := by
  induction fuel generalizing s rest with
  | zero => exact ⟨(List.append_nil _).symm, rfl, h⟩
  | succ fuel ih =>
    have hl := h.length
    unfold TsDemux.completePackets TsDemux.packets
    dsimp only
    by_cases hlong : tsSize ≤ rest.length
    · rw [if_pos (by omega), if_pos hlong]
      -- both loops test the same byte
      have hsync : ts s.offset.toNat ≠ tsSyncByte ↔ rest.head? ≠ some tsSyncByte := by
        cases rest with
        | nil => exact absurd hlong (by decide)
        | cons b rest => rw [h.head, List.head?_cons, ne_eq, ne_eq, Option.some.injEq]
      have hsynced : Rests ts len
          (if ts s.offset.toNat ≠ tsSyncByte then TsDemux.skipTo ts len (len - s.offset).toNat s.offset else s.offset)
          (if rest.head? ≠ some tsSyncByte then resync rest else rest) := by
        by_cases hlost : ts s.offset.toNat ≠ tsSyncByte
        · rw [if_pos hlost, if_pos (hsync.mp hlost)]
          exact h.skipTo (by omega)
        · rw [if_neg hlost, if_neg (mt hsync.mpr hlost)]
          exact h
      have hcount : (if ts s.offset.toNat ≠ tsSyncByte then s.resyncs + 1 else s.resyncs) =
          s.resyncs + if rest.head? ≠ some tsSyncByte then 1 else 0 := by
        simp only [hsync]
        split <;> rfl
      rw [hcount]
      generalize hoffset : (if ts s.offset.toNat ≠ tsSyncByte then
        TsDemux.skipTo ts len (len - s.offset).toNat s.offset else s.offset) = offset at hsynced ⊢
      generalize hrest : (if rest.head? ≠ some tsSyncByte then resync rest else rest) = synced at hsynced ⊢
      have hl' := hsynced.length
      by_cases hshort : synced.length < tsSize
      · have hlost : ts s.offset.toNat ≠ tsSyncByte := by
          intro hin
          rw [if_neg (not_not.mpr hin)] at hoffset
          omega
        rw [if_pos ⟨hlost, by omega⟩, if_pos hshort]
        exact ⟨(List.append_nil _).symm, rfl, hsynced⟩
      · have hfits : tsSize ≤ synced.length := Nat.le_of_not_lt hshort
        rw [if_neg fun hc => hshort (by omega), if_neg hshort, hsynced.take hfits]
        obtain ⟨hp, hr, hrest'⟩ := ih (s := ⟨_, offset + tsSize, _, s.packets ++ [synced.take tsSize]⟩)
          (hsynced.drop hfits)
        refine ⟨?_, ?_, hrest'⟩
        · rw [hp, List.append_assoc, List.singleton_append]
        · rw [hr, Nat.add_assoc]
    · rw [if_neg (by omega), if_neg hlong]
      exact ⟨(List.append_nil _).symm, rfl, h⟩

/-- What `transform` keeps of a handle. -/
def TsHandle.frag (h : TsHandle δ π ρ) : Handle := ⟨h.fragBuf, h.fragBufPos.toNat, h.resyncs⟩

theorem Rests.transformFrom {ts : Nat → UInt8} {len offset : Int} {rest : List UInt8} (hr : Rests ts len offset rest)
    (psi : Psi δ π) (rp : Repacker ρ) (h : TsHandle δ π ρ) (first : List (List UInt8)) :
    let r := transformFrom psi rp h ts len offset first
    let t := TsDemux.packets rest.length rest
    r.packets = first ++ t.blocks ∧ r.handle.fragBufPos = t.rest.length ∧
      r.handle.frag = ⟨blit h.fragBuf 0 t.rest, t.rest.length, h.resyncs + t.resyncs⟩ := by
  have hfuel : (len - offset).toNat = rest.length := by
    have := hr.length
    omega
  obtain ⟨hp, hc, hrest⟩ := hr.completePackets psi rp (s := ⟨h.streams, offset, h.resyncs, first⟩) rest.length
  unfold TsDemux.transformFrom TsHandle.frag
  rw [hfuel]
  dsimp only
  generalize TsDemux.completePackets psi rp ts len rest.length ⟨h.streams, offset, h.resyncs, first⟩ = s at hp hc hrest ⊢
  generalize TsDemux.packets rest.length rest = t at hp hc hrest ⊢
  have hlen : len - s.offset = t.rest.length := by
    have := hrest.length
    omega
  rw [hlen, Int.toNat_natCast, hrest.bytes]
  refine ⟨hp, rfl, ?_⟩
  rw [hc]
  split
  · rfl
  · have he : t.rest = [] := List.eq_nil_of_length_eq_zero (by omega)
    rw [he, blit_nil]

/-- On bytes that have been read, `tsDemuxTransform` reassembles the packets as `transform` does. -/
theorem tsDemuxTransform_transform (psi : Psi δ π) (rp : Repacker ρ) (h : TsHandle δ π ρ) (ts : Nat → UInt8)
    (bytes : List UInt8) (hts : slice ts 0 bytes.length = bytes) (h0 : 0 ≤ h.fragBufPos) (h1 : h.fragBufPos < tsSize)
    (pesBuf : Nat → UInt8) (pesBufLen : Int) :
    let r := tsDemuxTransform psi rp h ts bytes.length pesBuf pesBufLen
    r.packets = (transform h.frag bytes).2 ∧ r.handle.frag = (transform h.frag bytes).1 ∧ 0 ≤ r.handle.fragBufPos := by
  have hr : Rests ts bytes.length 0 bytes := ⟨le_refl _, (Int.zero_add _).symm, hts⟩
  obtain ⟨pos, hpos⟩ := Int.eq_ofNat_of_zero_le h0
  unfold tsDemuxTransform transform
  dsimp only
  have hfrag : h.frag.fragBufPos = pos := by
    change h.fragBufPos.toNat = pos
    omega
  rw [hfrag]
  by_cases hp : 0 < pos
  · have hmin : min ((tsSize : Int) - h.fragBufPos) bytes.length = (min (tsSize - pos) bytes.length : Nat) := by omega
    rw [if_pos (by omega), if_pos hp, hmin]
    generalize hn : min (tsSize - pos) bytes.length = n
    have htake := hr.take (j := n) (by omega)
    rw [Int.toNat_zero] at htake
    have hbuf : h.frag.fragBuf = h.fragBuf := rfl
    rw [Int.toNat_natCast, htake, hbuf, hpos, Int.toNat_natCast]
    by_cases hshort : pos + n < tsSize
    · rw [if_pos (by omega), if_pos hshort]
      exact ⟨rfl, rfl, by dsimp only; omega⟩
    · have hdrop := hr.drop (j := n) (by omega)
      rw [Int.zero_add] at hdrop
      rw [if_neg (by omega), if_neg hshort]
      obtain ⟨hpk, hfp, hfr⟩ := hdrop.transformFrom psi rp _ _
      refine ⟨hpk, ?_, ?_⟩
      · rw [hfr, Nat.zero_add]
      · rw [hfp]
        exact Int.natCast_nonneg _
  · rw [if_neg (by omega), if_neg hp]
    obtain ⟨hpk, hfp, hfr⟩ := hr.transformFrom psi rp _ []
    refine ⟨hpk, ?_, ?_⟩
    · rw [hfr, Nat.zero_add]
      rfl
    · rw [hfp]
      exact Int.natCast_nonneg _

end

/-- A handle with the first five bytes of a packet. -/
def fiveBytes : TsHandle Unit Unit Unit := ⟨oneIpack, longAdaptation, 5, 0⟩

/-- Nothing read, and five bytes kept. -/
theorem tsDemuxTransform_undisturbed_iff_five :
    (tsDemuxTransform noTables noRepacker fiveBytes (fun _ => 0) 0 (fun _ => 0) 8192).handle.fragBufPos = 5 :=
  ((tsDemuxTransform_undisturbed_iff noTables noRepacker fiveBytes (fun _ => 0) 0 (by decide) (by decide) (by decide)
    (fun _ => 0) 8192).mpr rfl).2.2.1

/-- A read that fails with -1 takes the last of the five bytes away. -/
theorem fiveBytes_disturbed :
    ¬(tsDemuxTransform noTables noRepacker fiveBytes (fun _ => 0) (-1) (fun _ => 0) 8192).Undisturbed fiveBytes := by
  rintro ⟨-, -, hpos, -⟩
  have hfour : (tsDemuxTransform noTables noRepacker fiveBytes (fun _ => 0) (-1) (fun _ => 0) 8192).handle.fragBufPos
    = 4 := rfl
  exact absurd (hfour.symm.trans hpos) (by decide)

end Mvpmc.TsDemux
