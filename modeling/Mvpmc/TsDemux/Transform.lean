import Mvpmc.Lib.Circular

/-! Transport packets from buffers of any size (`ts_demux_transform` in `ts_demux.c`). What
`demux_ts_packet` does with a packet is left out: of what is modelled here it only writes to
the packet it has been given, which is not read again. -/
namespace Mvpmc.TsDemux
open Mvpmc.Lib.Circular

def tsSize : Nat := 188
def tsSyncByte : UInt8 := 0x47

/-- The part of `ts_demux_handle_t` that keeps a packet that is not yet complete. -/
structure Handle where
  fragBuf : Nat → UInt8
  fragBufPos : Nat
  resyncs : Nat

/-- What the loop over the complete packets makes of the bytes from `offset` on. -/
structure Packets where
  blocks : List (List UInt8)
  rest : List UInt8
  resyncs : Nat

/-- The bytes from the next sync byte on. -/
def resync (bytes : List UInt8) : List UInt8 := bytes.dropWhile (· != tsSyncByte)

/-- The loop over the complete packets. Every round takes a packet off, so the number of
bytes is fuel enough. -/
def packets : Nat → List UInt8 → Packets
  | 0, bytes => ⟨[], bytes, 0⟩
  | fuel + 1, bytes =>
    if tsSize ≤ bytes.length then
      let lost := bytes.head? ≠ some tsSyncByte
      let synced := if lost then resync bytes else bytes
      let r := if lost then 1 else 0
      if synced.length < tsSize then ⟨[], synced, r⟩
      else
        let t := packets fuel (synced.drop tsSize)
        ⟨synced.take tsSize :: t.blocks, t.rest, r + t.resyncs⟩
    else ⟨[], bytes, 0⟩

/-- `ts_demux_transform`: the handle after the call and the blocks that were handed to
`demux_ts_packet`. -/
def transform (h : Handle) (buf : List UInt8) : Handle × List (List UInt8) :=
  let finish (h : Handle) (first : List (List UInt8)) (bytes : List UInt8) : Handle × List (List UInt8) :=
    let t := packets bytes.length bytes
    (⟨blit h.fragBuf 0 t.rest, t.rest.length, t.resyncs⟩, first ++ t.blocks)
  if 0 < h.fragBufPos then
    let fraglen := min (tsSize - h.fragBufPos) buf.length
    let h := { h with
      fragBuf := blit h.fragBuf h.fragBufPos (buf.take fraglen)
      fragBufPos := h.fragBufPos + fraglen
      resyncs := 0 }
    if h.fragBufPos < tsSize then (h, [])
    else finish h [slice h.fragBuf 0 tsSize] (buf.drop fraglen)
  else finish h [] buf

/-- Calls one after the other. -/
def transforms (h : Handle) : List (List UInt8) → Handle × List (List UInt8)
  | [] => (h, [])
  | buf :: bufs =>
    let t := transform h buf
    let t' := transforms t.1 bufs
    (t'.1, t.2 ++ t'.2)

/-- A transport packet. -/
def IsPacket (p : List UInt8) : Prop := p.length = tsSize ∧ p.head? = some tsSyncByte

/-- As many bytes as a packet has, in front of some packets, are the first of them. -/
theorem block_eq {block rest p : List UInt8} {ps : List (List UInt8)} (hb : block ++ rest <+: (p :: ps).flatten)
    (hl : block.length = p.length) : block = p ∧ rest <+: ps.flatten := by
  rw [List.flatten_cons] at hb
  have hpre : block <+: p ++ ps.flatten := (List.prefix_append block rest).trans hb
  have hblock : block <+: p := List.prefix_of_prefix_length_le hpre (List.prefix_append p _) (Nat.le_of_eq hl)
  obtain rfl := hblock.eq_of_length hl
  exact ⟨rfl, (List.prefix_append_right_inj block).mp hb⟩

/-- A packet in front is found. -/
theorem packets_cons {p rest : List UInt8} (hp : IsPacket p) (fuel : Nat) :
    packets (fuel + 1) (p ++ rest) =
      ⟨p :: (packets fuel rest).blocks, (packets fuel rest).rest, 0 + (packets fuel rest).resyncs⟩ := by
  obtain ⟨hlen, hhead⟩ := hp
  have hne : p ≠ [] := by
    rintro rfl
    simp at hhead
  have hin : (p ++ rest).head? = some tsSyncByte := by
    rw [List.head?_append_of_ne_nil _ hne, hhead]
  have hlong : tsSize ≤ (p ++ rest).length := by
    rw [List.length_append]
    omega
  rw [packets, if_pos hlong]
  simp only [hin, ne_eq, not_true_eq_false, if_false]
  rw [if_neg (by omega), ← hlen, List.take_left, List.drop_left]

/-- The bytes of some packets, as far as they have come: the complete packets are found, in
step, and the rest is left over. -/
theorem packets_prefix {ps : List (List UInt8)} (hp : ∀ p ∈ ps, IsPacket p) {bytes : List UInt8}
    (hb : bytes <+: ps.flatten) {fuel : Nat} (hf : bytes.length ≤ fuel) :
    ∃ k, (packets fuel bytes).blocks = ps.take k ∧ (packets fuel bytes).rest.length < tsSize ∧
      bytes = (ps.take k).flatten ++ (packets fuel bytes).rest := by
  induction ps generalizing bytes fuel with
  | nil =>
    obtain rfl : bytes = [] := by simpa using hb
    refine ⟨0, ?_⟩
    cases fuel <;> simp [packets, tsSize]
  | cons p ps ih =>
    have hpacket := hp p List.mem_cons_self
    rcases Nat.lt_or_ge bytes.length tsSize with hshort | hlong
    · have he : packets fuel bytes = ⟨[], bytes, 0⟩ := by
        cases fuel with
        | zero => rfl
        | succ fuel => rw [packets, if_neg (by omega)]
      exact ⟨0, by simp [he, hshort]⟩
    · -- the first packet is complete
      have hsplit := List.take_append_drop tsSize bytes
      have hlen : (bytes.take tsSize).length = p.length := by
        rw [List.length_take, hpacket.1]
        omega
      obtain ⟨hblock, hrest⟩ := block_eq (hsplit.symm ▸ hb) hlen
      rw [hblock] at hsplit
      generalize bytes.drop tsSize = rest at hsplit hrest
      subst hsplit
      have hsize : p.length = 188 := hpacket.1
      rw [List.length_append] at hf
      obtain ⟨n, rfl⟩ : ∃ n, fuel = n + 1 := ⟨fuel - 1, by omega⟩
      obtain ⟨k, hk, hl, hb'⟩ := ih (fun p hp' => hp p (List.mem_cons_of_mem _ hp')) hrest
        (show rest.length ≤ n by omega)
      refine ⟨k + 1, ?_⟩
      rw [packets_cons hpacket]
      refine ⟨by simp [hk], hl, ?_⟩
      rw [List.take_succ_cons, List.flatten_cons, List.append_assoc, ← hb']

/-- `frag_buf` keeps the bytes of a packet that is not complete. -/
structure Handle.Keeps (h : Handle) (tail : List UInt8) : Prop where
  pos : h.fragBufPos = tail.length
  lt : tail.length < tsSize
  bytes : slice h.fragBuf 0 tail.length = tail

theorem Handle.Keeps.append {h : Handle} {tail : List UInt8} (hk : h.Keeps tail) (bytes : List UInt8) :
    slice (blit h.fragBuf tail.length bytes) 0 (tail.length + bytes.length) = tail ++ bytes := by
  have hb := slice_blit_append h.fragBuf 0 tail.length bytes
  rw [Nat.zero_add, hk.bytes] at hb
  exact hb

theorem keeps_blit (m : Nat → UInt8) (tail : List UInt8) (resyncs : Nat) (hl : tail.length < tsSize) :
    (⟨blit m 0 tail, tail.length, resyncs⟩ : Handle).Keeps tail :=
  ⟨rfl, hl, slice_blit m 0 tail⟩

/-- A call hands over the packets that are now complete and keeps the rest. -/
theorem transform_prefix {ps : List (List UInt8)} (hp : ∀ p ∈ ps, IsPacket p) {h : Handle} {tail buf : List UInt8}
    (hk : h.Keeps tail) (hb : tail ++ buf <+: ps.flatten) :
    ∃ k tail', (transform h buf).2 = ps.take k ∧ (transform h buf).1.Keeps tail' ∧
      tail ++ buf = (ps.take k).flatten ++ tail' := by
  have hpos := hk.pos
  have hlt := hk.lt
  unfold transform
  dsimp only
  split
  · rw [hpos]
    split
    · -- the packet is still not complete
      rename_i hshort
      have htake : buf.take (min (tsSize - tail.length) buf.length) = buf := List.take_of_length_le (by omega)
      have hlen : min (tsSize - tail.length) buf.length = buf.length := by omega
      refine ⟨0, tail ++ buf, rfl, ⟨?_, ?_, ?_⟩, rfl⟩
      · rw [List.length_append, hlen]
      · rw [List.length_append]
        omega
      · rw [htake, List.length_append, hk.append]
    · rename_i hlong
      -- the packet is completed and the rest of the buffer follows
      have hlen : min (tsSize - tail.length) buf.length = tsSize - tail.length := by omega
      rw [hlen]
      have hsplit : tail ++ buf = (tail ++ buf.take (tsSize - tail.length)) ++ buf.drop (tsSize - tail.length) := by
        rw [List.append_assoc, List.take_append_drop]
      have hfull : (tail ++ buf.take (tsSize - tail.length)).length = tsSize := by
        rw [List.length_append, List.length_take]
        omega
      have hblock : slice (blit h.fragBuf tail.length (buf.take (tsSize - tail.length))) 0 tsSize =
          tail ++ buf.take (tsSize - tail.length) := by
        rw [← hk.append, ← List.length_append, hfull]
      rw [hsplit] at hb ⊢
      generalize tail ++ buf.take (tsSize - tail.length) = block at hb hfull hblock ⊢
      generalize buf.drop (tsSize - tail.length) = rest at hb ⊢
      rw [hblock]
      cases ps with
      | nil =>
        rw [List.prefix_nil.mp hb |> List.append_eq_nil_iff.mp |>.1] at hfull
        exact absurd hfull (by decide)
      | cons p ps =>
        obtain ⟨rfl, hrest⟩ := block_eq hb (hfull.trans (hp p List.mem_cons_self).1.symm)
        obtain ⟨k, hblocks, hl, he⟩ :=
          packets_prefix (fun p hp' => hp p (List.mem_cons_of_mem _ hp')) hrest (le_refl rest.length)
        refine ⟨k + 1, _, ?_, keeps_blit _ _ _ hl, ?_⟩
        · rw [hblocks]
          rfl
        · rw [List.take_succ_cons, List.flatten_cons, List.append_assoc, ← he]
  · rename_i hzero
    obtain rfl : tail = [] := List.eq_nil_of_length_eq_zero (by omega)
    rw [List.nil_append] at hb ⊢
    obtain ⟨k, hblocks, hl, he⟩ := packets_prefix hp hb (le_refl buf.length)
    exact ⟨k, _, hblocks, keeps_blit _ _ _ hl, he⟩

/-- Buffers that together hold the beginning of a sequence of packets, cut anywhere: the
blocks handed over are the packets that are complete, and the rest is kept. -/
theorem transforms_prefix {ps : List (List UInt8)} (hp : ∀ p ∈ ps, IsPacket p) {bufs : List (List UInt8)}
    {h : Handle} {tail : List UInt8} (hk : h.Keeps tail) (hb : tail ++ bufs.flatten <+: ps.flatten) :
    ∃ k tail', (transforms h bufs).2 = ps.take k ∧ (transforms h bufs).1.Keeps tail' ∧
      tail ++ bufs.flatten = (ps.take k).flatten ++ tail' := by
  induction bufs generalizing ps h tail with
  | nil => exact ⟨0, tail, by simp [transforms], hk, by simp⟩
  | cons buf bufs ih =>
    rw [List.flatten_cons, ← List.append_assoc] at hb ⊢
    obtain ⟨k, tail', hblocks, hk', he⟩ := transform_prefix hp hk ((List.prefix_append _ _).trans hb)
    have hrest : tail' ++ bufs.flatten <+: (ps.drop k).flatten := by
      rw [he, List.append_assoc] at hb
      nth_rewrite 2 [← List.take_append_drop k ps] at hb
      rw [List.flatten_append] at hb
      exact (List.prefix_append_right_inj _).mp hb
    obtain ⟨k', tail'', hblocks', hk'', he'⟩ := ih (fun p hp' => hp p (List.mem_of_mem_drop hp')) hk' hrest
    refine ⟨k + k', tail'', ?_, hk'', ?_⟩
    · rw [transforms, hblocks, hblocks', List.take_add]
    · rw [he, List.append_assoc, he', ← List.append_assoc, ← List.flatten_append, List.take_add]

theorem length_flatten_packets {ps : List (List UInt8)} (hp : ∀ p ∈ ps, IsPacket p) :
    ps.flatten.length = tsSize * ps.length := by
  induction ps with
  | nil => rfl
  | cons p ps ih =>
    rw [List.flatten_cons, List.length_append, ih fun p hp' => hp p (List.mem_cons_of_mem _ hp'),
      (hp p List.mem_cons_self).1, List.length_cons, Nat.mul_succ, Nat.add_comm]

/-- A handle after `ts_demux_init` or `ts_demux_reset`. -/
def Handle.reset (fragBuf : Nat → UInt8) : Handle := ⟨fragBuf, 0, 0⟩

/-- Reassembly does not depend on how the packets were cut into buffers. -/
theorem reassembly_independent (ps : List (List UInt8)) (hp : ∀ p ∈ ps, IsPacket p) (bufs : List (List UInt8))
    (hb : bufs.flatten <+: ps.flatten) (fragBuf : Nat → UInt8) :
    let t := transforms (Handle.reset fragBuf) bufs
    t.2 = ps.take (bufs.flatten.length / tsSize) ∧ t.1.fragBufPos < tsSize ∧
      slice t.1.fragBuf 0 t.1.fragBufPos = bufs.flatten.drop (tsSize * (bufs.flatten.length / tsSize)) := by
  intro t
  have hk : (Handle.reset fragBuf).Keeps [] := ⟨rfl, by decide, rfl⟩
  have hb' : [] ++ bufs.flatten <+: ps.flatten := hb
  obtain ⟨k, tail, hblocks, hkeeps, he⟩ := transforms_prefix hp hk hb'
  rw [List.nil_append] at he
  have hlen : bufs.flatten.length = tsSize * (ps.take k).length + tail.length := by
    rw [he, List.length_append, length_flatten_packets fun p hp' => hp p (List.mem_of_mem_take hp')]
  have hcount : bufs.flatten.length / tsSize = (ps.take k).length := by
    rw [hlen, Nat.mul_add_div (by decide), Nat.div_eq_of_lt hkeeps.lt, Nat.add_zero]
  have hbytes : tsSize * (ps.take k).length = (ps.take k).flatten.length :=
    (length_flatten_packets fun p hp' => hp p (List.mem_of_mem_take hp')).symm
  refine ⟨?_, ?_, ?_⟩
  · rw [hcount, List.length_take]
    change (transforms _ bufs).2 = _
    rw [hblocks, ← List.take_take, List.take_length]
  · exact hkeeps.pos ▸ hkeeps.lt
  · rw [hcount, hbytes, he, List.drop_left]
    change slice _ 0 (transforms _ bufs).1.fragBufPos = tail
    rw [hkeeps.pos, hkeeps.bytes]

/-- A packet of stuffing. -/
def stuffing : List UInt8 := tsSyncByte :: List.replicate 187 0xFF

theorem isPacket_stuffing : IsPacket stuffing := by
  refine ⟨?_, rfl⟩
  rw [stuffing, List.length_cons, List.length_replicate]
  rfl

/-- One packet in two buffers. -/
theorem reassembly_independent_cut :
    let t := transforms (Handle.reset fun _ => 0) [stuffing.take 5, stuffing.drop 5]
    t.2 = [stuffing] ∧ t.1.fragBufPos < tsSize := by
  have he : [stuffing.take 5, stuffing.drop 5].flatten = stuffing := by
    rw [List.flatten_cons, List.flatten_cons, List.flatten_nil, List.append_nil, List.take_append_drop]
  have hb : [stuffing.take 5, stuffing.drop 5].flatten <+: [stuffing].flatten := by
    rw [he, List.flatten_singleton]
  have hp : ∀ p ∈ [stuffing], IsPacket p := by
    intro p hp
    exact List.mem_singleton.mp hp ▸ isPacket_stuffing
  obtain ⟨hblocks, hpos, -⟩ := reassembly_independent [stuffing] hp _ hb fun _ => 0
  rw [he, isPacket_stuffing.1, Nat.div_self (by decide)] at hblocks
  exact ⟨hblocks, hpos⟩

end Mvpmc.TsDemux
