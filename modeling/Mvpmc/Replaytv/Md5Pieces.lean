import Mvpmc.Replaytv.Crypt
import Mvpmc.Replaytv.Md5Words

/-! A message given to `MD5_Update` in pieces, and the digest that `MD5_Final` makes of it. -/
namespace Mvpmc.Replaytv.Md5
open Mvpmc.Lib

section
variable {p : Nat → BitVec 32} {u v m : List UInt8} {c : Ctx}

/-- The counters hold the number of the bits. -/
theorem count_add (Nl Nh : BitVec 32) (n : Nat) :
    ((if Nl + BitVec.ofNat 32 (n * 8) < Nl then Nh + 1 else Nh) + BitVec.ofNat 32 (n / 2 ^ 29)).toNat * 2 ^ 32 +
        (Nl + BitVec.ofNat 32 (n * 8)).toNat =
      (Nh.toNat * 2 ^ 32 + Nl.toNat + 8 * n) % 2 ^ 64 := by
  have hl := Nl.isLt
  have hh := Nh.isLt
  have hone : (1 : BitVec 32).toNat = 1 := rfl
  split
  · rename_i hover
    rw [BitVec.lt_def, BitVec.toNat_add, BitVec.toNat_ofNat] at hover
    simp only [BitVec.toNat_add, BitVec.toNat_ofNat, hone]
    omega
  · rename_i hover
    rw [BitVec.lt_def, BitVec.toNat_add, BitVec.toNat_ofNat] at hover
    simp only [BitVec.toNat_add, BitVec.toNat_ofNat]
    omega

/-- The first word and the whole words behind it. -/
theorem fill_words (h : Packed p u) (hv : v ≠ []) {l : BitVec 32} (hl : u.length % 4 ≠ 0 → l = p (u.length / 4)) (k : Nat)
    {i : Nat} (hlo : u.length / 4 ≤ i) (hhi : i < u.length / 4 + 1 + k) :
    copyWords k (Function.update p (u.length / 4) (hostPC2l v l (u.length % 4))) (u.length / 4 + 1)
      (v.drop (4 - u.length % 4)) i = word ((u ++ v).drop (4 * i)) := by
  rw [copyWords_apply]
  rcases Nat.eq_or_lt_of_le hlo with rfl | hlt
  · have hlen : (u.drop (4 * (u.length / 4))).length = u.length % 4 := by
      rw [List.length_drop]
      omega
    have hword : u.drop (4 * (u.length / 4)) = [] ∨ l = word (u.drop (4 * (u.length / 4))) := by
      by_cases h0 : u.length % 4 = 0
      · exact .inl (List.drop_eq_nil_of_le (by omega))
      · exact h.partial_word.imp_right fun hp => (hl h0).trans hp
    rw [if_neg (by omega), Function.update_self, ← hlen, hostPC2l_eq (by omega) hword hv,
      List.drop_append_of_le_length (by omega)]
  · have hold : u.drop (4 * i) = [] := List.drop_eq_nil_of_le (by omega)
    rw [if_pos (by omega), List.drop_drop, List.drop_append, hold, List.nil_append]
    congr 2
    omega

theorem copyWords_keep {k j n : Nat} (hk : k < j) (p : Nat → BitVec 32) (x : BitVec 32) (v : List UInt8) :
    copyWords n (Function.update p j x) (j + 1) v k = p k := by
  rw [copyWords_apply, if_neg (by omega), Function.update_of_ne (by omega)]

/-- The rest of the block. -/
theorem fill_block (h : Packed p u) (hu : u.length < CBLOCK) (hv : CBLOCK ≤ u.length + v.length) :
    Packed (copyWords (15 - u.length / 4) (Function.update p (u.length / 4) (hostPC2l v (p (u.length / 4)) (u.length % 4)))
      (u.length / 4 + 1) (v.drop (4 - u.length % 4))) (u ++ v.take (CBLOCK - u.length)) := by
  unfold CBLOCK at *
  have hne : v ≠ [] := fun hnil => by rw [hnil, List.length_nil] at hv; omega
  refine h.append (fun k hk => copyWords_keep hk _ _ _) fun k hlo hk => ?_
  rw [List.length_append, List.length_take] at hk
  rw [fill_words h hne (fun _ => rfl) _ hlo (by omega)]
  refine word_congr ?_
  have hold : u.take 64 = u := List.take_of_length_le hu.le
  have htake : u ++ v.take (64 - u.length) = (u ++ v).take 64 := by
    rw [List.take_append, hold]
  rw [htake, List.drop_take, List.take_take, Nat.min_eq_left (by omega)]

/-- Bytes that are added to a word. -/
theorem fill_word (h : Packed p u) (hv : v ≠ []) (hs : u.length % 4 + v.length < 4) :
    Packed (Function.update p (u.length / 4) (hostPC2lP v (p (u.length / 4)) (u.length % 4) v.length)) (u ++ v) := by
  have hlen : (u.drop (4 * (u.length / 4))).length = u.length % 4 := by
    rw [List.length_drop]
    omega
  refine h.append (fun k hk => Function.update_of_ne (by omega) _ _) fun k hlo hk => ?_
  rw [List.length_append] at hk
  obtain rfl : k = u.length / 4 := by omega
  rw [Function.update_self, ← hlen, hostPC2lP_eq (by omega) h.partial_word hv, List.drop_append_of_le_length (by omega)]

/-- More bytes, which end within the block. -/
theorem fill_some (h : Packed p u) (hs : 4 ≤ u.length % 4 + v.length) {l : BitVec 32}
    (hl : u.length % 4 ≠ 0 → l = p (u.length / 4)) :
    let ew := (u.length + v.length) / 4
    let ec := (u.length + v.length) % 4
    let q := copyWords (ew - (u.length / 4 + 1)) (Function.update p (u.length / 4) (hostPC2l v l (u.length % 4)))
      (u.length / 4 + 1) (v.drop (4 - u.length % 4))
    Packed (if ec ≠ 0 then
      Function.update q ew (hostC2lP (v.drop (4 - u.length % 4 + 4 * (ew - (u.length / 4 + 1)))) ec) else q) (u ++ v) := by
  have hne : v ≠ [] := fun hnil => by rw [hnil, List.length_nil] at hs; omega
  intro ew ec q
  have hkeep : ∀ k < u.length / 4, q k = p k := fun k hk => copyWords_keep hk _ _ _
  have hwhole {k : Nat} (hlo : u.length / 4 ≤ k) (hk : k < ew) : q k = word ((u ++ v).drop (4 * k)) :=
    fill_words h hne hl _ hlo (by omega)
  split
  · refine h.append (fun k hk => ?_) fun k hlo hk => ?_
    · rw [Function.update_of_ne (by omega), hkeep k hk]
    · rw [List.length_append] at hk
      by_cases hlast : k = ew
      · subst hlast
        have hold : u.drop (4 * ew) = [] := List.drop_eq_nil_of_le (by omega)
        have hdrop : 4 - u.length % 4 + 4 * (ew - (u.length / 4 + 1)) = 4 * ew - u.length := by omega
        have hrest : (v.drop (4 * ew - u.length)).length = ec := by
          rw [List.length_drop]
          omega
        rw [Function.update_self, hostC2lP, hdrop, ← hrest, List.take_length, orBytes_word (by omega), List.drop_append, hold,
          List.nil_append]
      · rw [Function.update_of_ne hlast]
        exact hwhole hlo (by omega)
  · refine h.append hkeep fun k hlo hk => ?_
    rw [List.length_append] at hk
    exact hwhole hlo (by omega)

/-- A context that has been given the bytes of `m`. -/
structure Holds (c : Ctx) (m : List UInt8) : Prop where
  state : c.state = (Absorb.run CBLOCK compress initState m).1
  num : c.num = m.length % CBLOCK
  packed : Packed c.data (Absorb.run CBLOCK compress initState m).2
  count : c.Nh.toNat * 2 ^ 32 + c.Nl.toNat = 8 * m.length % 2 ^ 64

theorem Holds.length_rest (h : Holds c m) : (Absorb.run CBLOCK compress initState m).2.length = c.num := by
  rw [Absorb.length_rest, h.num]

/-- The bytes of a call that do not fill the block. -/
theorem Holds.short (h : Holds c m) {l Nh : BitVec 32} {data : Nat → BitVec 32} {n : Nat} (hn : n = c.num + v.length)
    (hshort : n < CBLOCK)
    (hcount : Nh.toNat * 2 ^ 32 + l.toNat = 8 * (m ++ v).length % 2 ^ 64)
    (hdata : Packed data ((Absorb.run CBLOCK compress initState m).2 ++ v)) :
    Holds { c with Nl := l, Nh := Nh, num := n, data := data } (m ++ v) := by
  have hrun := Absorb.run_append (f := compress) (show 0 < CBLOCK by decide) initState m v
  have hlen : ((Absorb.run CBLOCK compress initState m).2 ++ v).length < CBLOCK := by
    rw [List.length_append, h.length_rest, ← hn]
    exact hshort
  rw [Absorb.run_of_lt _ hlen] at hrun
  refine ⟨?_, ?_, ?_, hcount⟩
  · rw [hrun]
    exact h.state
  · have hm := h.num
    rw [List.length_append]
    unfold CBLOCK at hm hshort ⊢
    dsimp only
    omega
  · rw [hrun]
    exact hdata

end

section
variable {w : Nat} (hw : 32 ≤ w) {p : Nat → BitVec 32} {u v m : List UInt8} {c : Ctx}
include hw

theorem Packed.block (h : Packed p u) (hu : u.length = CBLOCK) (s : Regs 32) : md5BlockHostOrder w s p = compress s u :=
  md5BlockHostOrder_eq hw s fun k hk => h k (by rw [hu, CBLOCK]; omega)

theorem md5BlockDataOrder_eq (num : Nat) (s : Regs 32) (hv : num * CBLOCK ≤ v.length) :
    md5BlockDataOrder w num s v = (Absorb.blocks CBLOCK compress num s v).1 := by
  induction num generalizing s v with
  | zero => rfl
  | succ num ih =>
    have hblock : md5BlockHostOrder w s (fun i => hostC2l (v.drop (4 * i))) = compress s (v.take CBLOCK) := by
      refine md5BlockHostOrder_eq hw s fun k hk => ?_
      rw [hostC2l_eq]
      refine word_congr ?_
      rw [List.drop_take, List.take_take, CBLOCK, Nat.min_eq_left (by omega)]
    rw [Nat.succ_mul] at hv
    unfold md5BlockDataOrder Absorb.blocks
    rw [hblock]
    exact ih _ (by rw [List.length_drop]; omega)

/-- What a call does that begins with nothing in `data`. -/
theorem updateBlocks_eq (h0 : c.num = 0) (hv : v.length < 2 ^ 31) :
    ∃ data, updateBlocks w c v = some { c with
        state := (Absorb.run CBLOCK compress c.state v).1, num := v.length % CBLOCK, data := data } ∧
      Packed data (Absorb.run CBLOCK compress c.state v).2 := by
  have hle := Nat.div_mul_le_self v.length CBLOCK
  have hrest : (Absorb.run CBLOCK compress c.state v).2 = v.drop (v.length / CBLOCK * CBLOCK) := Absorb.run_rest _ v
  have hlen : (v.drop (v.length / CBLOCK * CBLOCK)).length = v.length % CBLOCK := by
    rw [← hrest]
    exact Absorb.length_rest _ v
  have hstate : md5BlockDataOrder w (v.length / CBLOCK) c.state v = (Absorb.run CBLOCK compress c.state v).1 :=
    md5BlockDataOrder_eq hw _ _ hle
  unfold updateBlocks
  dsimp only
  rw [if_neg (by omega), hrest, hstate, hlen]
  generalize v.drop (v.length / CBLOCK * CBLOCK) = t at hlen
  split
  · refine ⟨_, rfl, fun k hk => ?_⟩
    rw [hlen] at hk
    by_cases hlast : k = v.length % CBLOCK / 4
    · subst hlast
      rw [Function.update_self, hostC2lP, orBytes_word (by rw [List.length_take]; omega), Nat.mul_comm]
      refine word_congr ?_
      rw [List.take_of_length_le (by rw [List.length_take]; omega), List.take_of_length_le (by rw [List.length_drop]; omega),
        List.take_of_length_le (by rw [List.length_drop]; omega)]
    · rw [Function.update_of_ne hlast, copyWords_apply, if_pos (by omega), Nat.sub_zero]
  · rename_i hzero
    have ht : t = [] := List.length_eq_zero_iff.mp (by omega)
    refine ⟨c.data, ?_, ht ▸ packed_nil _⟩
    rw [not_not.mp hzero, ← h0]

/-- The same for a message of which `v` is the end. -/
theorem holds_of_run (h0 : c.num = 0) (hv : v.length < 2 ^ 31)
    (hrun : Absorb.run CBLOCK compress initState m = Absorb.run CBLOCK compress c.state v)
    (hlen : m.length % CBLOCK = v.length % CBLOCK) (hcount : c.Nh.toNat * 2 ^ 32 + c.Nl.toNat = 8 * m.length % 2 ^ 64) :
    ∃ c', updateBlocks w c v = some c' ∧ Holds c' m := by
  obtain ⟨data, hc, hpacked⟩ := updateBlocks_eq hw h0 hv
  exact ⟨_, hc, by rw [hrun], hlen.symm, by rw [hrun]; exact hpacked, hcount⟩

/-- One call of `MD5_Update`. -/
theorem Holds.update (h : Holds c m) (hv : v.length < 2 ^ 31) : ∃ c', md5Update w c v = some c' ∧ Holds c' (m ++ v) := by
  by_cases hlen : v.length = 0
  · obtain rfl := List.length_eq_zero_iff.mp hlen
    rw [List.append_nil]
    exact ⟨c, rfl, h⟩
  have hne : v ≠ [] := fun hnil => hlen (by rw [hnil, List.length_nil])
  have hcount := count_add c.Nl c.Nh v.length
  have hu := h.length_rest
  have hm := h.num
  have hrun := Absorb.run_append (f := compress) (show 0 < CBLOCK by decide) initState m v
  rw [h.count, Nat.mod_add_mod, ← Nat.mul_add, ← List.length_append] at hcount
  rw [← h.state] at hrun
  have hpacked := h.packed
  unfold md5Update
  dsimp only
  rw [if_neg hlen]
  generalize c.Nl + BitVec.ofNat 32 (v.length * 8) = l at hcount ⊢
  generalize (if l < c.Nl then c.Nh + 1 else c.Nh) + BitVec.ofNat 32 (v.length / 2 ^ 29) = Nh at hcount ⊢
  by_cases h0 : c.num = 0
  · rw [if_neg (not_not.mpr h0)]
    rw [h0] at hu
    rw [List.length_eq_zero_iff.mp hu, List.nil_append] at hrun
    refine holds_of_run hw h0 hv hrun ?_ hcount
    rw [h0] at hm
    rw [List.length_append, Nat.add_mod, ← hm, Nat.zero_add, Nat.mod_mod]
  · rw [if_pos h0, ← hu]
    rw [← hu] at hm
    generalize hpending : (Absorb.run CBLOCK compress initState m).2 = u at hu hrun hpacked hm ⊢
    have hlt : u.length < CBLOCK := hm ▸ Nat.mod_lt _ (by decide)
    by_cases hfull : CBLOCK ≤ u.length + v.length
    · rw [if_pos hfull]
      have hfill := fill_block hpacked hlt hfull
      have hlen : (u ++ v.take (CBLOCK - u.length)).length = CBLOCK := by
        rw [List.length_append, List.length_take]
        omega
      have hsplit : u ++ v = u ++ v.take (CBLOCK - u.length) ++ v.drop (CBLOCK - u.length) := by
        rw [List.append_assoc, List.take_append_drop]
      rw [hsplit, Absorb.run_block (by decide) _ hlen, ← hfill.block hw hlen] at hrun
      refine holds_of_run hw rfl (by rw [List.length_drop]; omega) hrun ?_ hcount
      rw [List.length_append, List.length_drop]
      unfold CBLOCK at *
      omega
    · rw [if_neg hfull]
      by_cases hword : u.length % 4 + v.length < 4
      · rw [if_pos hword]
        refine ⟨_, rfl, h.short (by omega) (by omega) hcount ?_⟩
        rw [hpending]
        exact fill_word hpacked hne hword
      · rw [if_neg hword]
        refine ⟨_, rfl, h.short (by omega) (by omega) hcount ?_⟩
        rw [hpending]
        exact fill_some hpacked (by omega) fun h0 => if_pos h0

end

section
variable {p q : Nat → BitVec 32} {u : List UInt8}

theorem hostL2c_eq (l : BitVec 32) : hostL2c l = lowBytes 4 l.toNat := by
  have hbyte (k : Nat) : (⟨(l >>> k).setWidth 8⟩ : UInt8) = UInt8.ofNat (l.toNat / 2 ^ k) := by
    rw [← UInt8.toNat_inj, UInt8.toNat_ofNat']
    exact (BitVec.toNat_setWidth 8 (l >>> k)).trans (by rw [BitVec.toNat_ushiftRight, Nat.shiftRight_eq_div_pow])
  have h0 := hbyte 0
  rw [BitVec.ushiftRight_zero] at h0
  unfold hostL2c
  rw [h0, hbyte, hbyte, hbyte]
  rfl

theorem word_zeros (n : Nat) : word (List.replicate n 0) = 0 := by
  unfold word
  rw [List.take_replicate, List.map_replicate]
  have hzero (k : Nat) : Nat.ofDigits 256 (List.replicate k (0 : UInt8).toNat) = 0 := by
    induction k with
    | zero => rfl
    | succ k ih => rw [List.replicate_succ, Nat.ofDigits_cons, ih]; rfl
  exact congrArg (BitVec.ofNat 32) (hzero _)

/-- The bit behind the message, and zeros up to the end of a word. -/
theorem fill_end (h : Packed p u) {n : Nat} (hn : 4 ∣ u.length + 1 + n) (hkeep : ∀ k < u.length / 4, q k = p k)
    (hend : q (u.length / 4) = hostPC2l endBytes (if u.length % 4 = 0 then 0 else p (u.length / 4)) (u.length % 4))
    (hzero : ∀ k, u.length / 4 < k → 4 * k < u.length + 1 + n → q k = 0) : Packed q (u ++ 0x80 :: List.replicate n 0) := by
  refine h.append hkeep fun k hlo hk => ?_
  rw [List.length_append, List.length_cons, List.length_replicate] at hk
  rcases Nat.eq_or_lt_of_le hlo with rfl | hlt
  · have hlen : (u.drop (4 * (u.length / 4))).length = u.length % 4 := by
      rw [List.length_drop]
      omega
    have hword : u.drop (4 * (u.length / 4)) = [] ∨
        (if u.length % 4 = 0 then 0 else p (u.length / 4)) = word (u.drop (4 * (u.length / 4))) := by
      by_cases h0 : u.length % 4 = 0
      · exact .inl (List.drop_eq_nil_of_le (by omega))
      · rw [if_neg h0]
        exact h.partial_word
    have hpc2l := hostPC2l_eq (by omega) hword (v := endBytes) (List.cons_ne_nil _ _)
    rw [hlen] at hpc2l
    rw [hend, hpc2l, List.drop_append_of_le_length (by omega)]
    refine word_congr ?_
    have hfour : endBytes = 0x80 :: List.replicate 3 0 := rfl
    rw [List.take_append, List.take_append, hlen, hfour]
    congr 1
    obtain ⟨j, hj⟩ : ∃ j, 4 - u.length % 4 = j + 1 := ⟨3 - u.length % 4, by omega⟩
    rw [hj, List.take_succ_cons, List.take_succ_cons, List.take_replicate, List.take_replicate, Nat.min_eq_left (by omega),
      Nat.min_eq_left (by omega)]
  · have hold : u.drop (4 * k) = [] := List.drop_eq_nil_of_le (by omega)
    obtain ⟨j, hj⟩ : ∃ j, 4 * k - u.length = j + 1 := ⟨4 * k - u.length - 1, by omega⟩
    rw [hzero k hlt (by omega), List.drop_append, hold, List.nil_append, hj, List.drop_succ_cons, List.drop_replicate, word_zeros]

/-- The lowest four bytes as a word. -/
theorem word_lowBytes (y : Nat) (rest : List UInt8) : word (lowBytes 4 y ++ rest) = BitVec.ofNat 32 y := by
  have hbytes : lowBytes 4 y = [UInt8.ofNat y, UInt8.ofNat (y / 256), UInt8.ofNat (y / 65536), UInt8.ofNat (y / 16777216)] := by
    unfold lowBytes
    simp [List.range_succ]
  apply BitVec.eq_of_toNat_eq
  unfold word
  rw [List.take_append_of_le_length (by rw [length_lowBytes]), List.take_of_length_le (by rw [length_lowBytes]), hbytes,
    BitVec.toNat_ofNat, BitVec.toNat_ofNat]
  simp only [List.map_cons, List.map_nil, UInt8.toNat_ofNat', Nat.ofDigits_cons, Nat.ofDigits_nil]
  omega

/-- The counters are the last two words. -/
theorem fill_count (h : Packed q u) (hu : u.length = 56) (x : Nat) (hl : q 14 = BitVec.ofNat 32 x)
    (hh : q 15 = BitVec.ofNat 32 (x / 2 ^ 32)) : Packed q (u ++ lowBytes 8 x) := by
  have hsplit : lowBytes 8 x = lowBytes 4 x ++ lowBytes 4 (x / 2 ^ 32) := by
    unfold lowBytes
    simp [List.range_succ, Nat.div_div_eq_div_mul]
  refine h.append (fun _ _ => rfl) fun k hlo hk => ?_
  rw [List.length_append, length_lowBytes, hu] at hk
  rw [hu] at hlo
  rcases Nat.eq_or_lt_of_le hlo with rfl | hlt
  · rw [hsplit, List.drop_append, List.drop_of_length_le (by omega), List.nil_append, hu, Nat.sub_self, List.drop_zero,
      word_lowBytes]
    exact hl
  · obtain rfl : k = 15 := by omega
    rw [hsplit, List.drop_append, List.drop_of_length_le (by omega), List.nil_append, hu, List.drop_append,
      List.drop_of_length_le (by rw [length_lowBytes]), List.nil_append, length_lowBytes, List.drop_zero, hh]
    exact (word_lowBytes _ []).symm.trans (by rw [List.append_nil])

end

section
variable {w : Nat} (hw : 32 ≤ w) {m : List UInt8} {c : Ctx}
include hw

/-- The last block, with the counters behind the zeros. -/
theorem last_block {p : Nat → BitVec 32} {u : List UInt8} {Nl Nh : BitVec 32} {x : Nat} (hu : u.length = 56)
    (hNl : Nl = BitVec.ofNat 32 x) (hNh : Nh = BitVec.ofNat 32 (x / 2 ^ 32)) (h : Packed p u) (s : Regs 32) :
    md5BlockHostOrder w s (Function.update (Function.update p 14 Nl) 15 Nh) = compress s (u ++ lowBytes 8 x) := by
  have hsame : Packed (Function.update (Function.update p 14 Nl) 15 Nh) u := fun k hk => by
    rw [Function.update_of_ne (by omega), Function.update_of_ne (by omega)]
    exact h k hk
  refine (fill_count hsame hu x ?_ ?_).block hw ?_ s
  · rw [Function.update_of_ne (by decide), Function.update_self, hNl]
  · rw [Function.update_self, hNh]
  · rw [List.length_append, hu, length_lowBytes]
    rfl

/-- `MD5_Final` gives the digest of all bytes that the context has been given. -/
theorem Holds.final (h : Holds c m) : md5Final w c = (digest m).toList := by
  have hu := h.length_rest
  have hnum := h.num
  have hpacked := h.packed
  have hl := c.Nl.isLt
  have hcount := h.count
  have hrun := Absorb.run_append (f := compress) (show 0 < CBLOCK by decide) initState m (padding m.length)
  rw [← h.state] at hrun
  generalize (Absorb.run CBLOCK compress initState m).2 = u at hu hrun hpacked
  have hNl : c.Nl = BitVec.ofNat 32 (8 * m.length) := BitVec.eq_of_toNat_eq (by rw [BitVec.toNat_ofNat]; omega)
  have hNh : c.Nh = BitVec.ofNat 32 (8 * m.length / 2 ^ 32) := BitVec.eq_of_toNat_eq (by rw [BitVec.toNat_ofNat]; omega)
  have hdigest : (digest m).toList = output (Absorb.run CBLOCK compress initState (m ++ padding m.length)).1 := rfl
  unfold CBLOCK at hnum
  rw [hdigest, hrun]
  unfold md5Final
  dsimp only
  simp only [hostL2c_eq]
  refine congrArg output (?_ : _ = (Absorb.run CBLOCK compress c.state (u ++ padding m.length)).1)
  rw [← hu, padding]
  by_cases hfull : 14 < u.length / 4 + 1
  · have hz : (119 - m.length % 64) % 64 = 63 - u.length + 56 := by omega
    have hsplit : u ++ (0x80 :: List.replicate (63 - u.length + 56) 0 ++ lowBytes 8 (8 * m.length)) =
        u ++ 0x80 :: List.replicate (63 - u.length) 0 ++ (List.replicate 56 0 ++ lowBytes 8 (8 * m.length) ++ []) := by
      rw [List.replicate_add, List.append_nil]
      simp only [List.cons_append, List.append_assoc]
    have hfirst : (u ++ 0x80 :: List.replicate (63 - u.length) 0).length = CBLOCK := by
      rw [List.length_append, List.length_cons, List.length_replicate, CBLOCK]
      omega
    have hlast : (List.replicate 56 0 ++ lowBytes 8 (8 * m.length)).length = CBLOCK := by
      rw [List.length_append, List.length_replicate, length_lowBytes]
      rfl
    rw [hz, hsplit, Absorb.run_block (by decide) _ hfirst, Absorb.run_block (by decide) _ hlast, Absorb.run_nil (by decide)]
    simp only [hfull, if_true, true_and]
    rw [last_block hw (List.length_replicate ..) hNl hNh, Packed.block hw _ hfirst]
    · refine fill_end hpacked (by omega) (fun k hk => ?_) ?_ fun k hlo hk => ?_
      · split
        · rw [Function.update_of_ne (by omega), Function.update_of_ne (by omega)]
        · rw [Function.update_of_ne (by omega)]
      · split
        · rw [Function.update_of_ne (by omega), Function.update_self]
        · rw [Function.update_self]
      · obtain rfl : k = u.length / 4 + 1 := by omega
        rw [if_pos (by omega), Function.update_self]
    · intro k hk
      rw [List.length_replicate] at hk
      rw [List.drop_replicate, word_zeros]
      exact if_pos ⟨Nat.zero_le k, by omega⟩
  · have hz : (119 - m.length % 64) % 64 = 55 - u.length := by omega
    have hsplit : u ++ (0x80 :: List.replicate (55 - u.length) 0 ++ lowBytes 8 (8 * m.length)) =
        u ++ 0x80 :: List.replicate (55 - u.length) 0 ++ lowBytes 8 (8 * m.length) ++ [] := by
      rw [List.append_nil, List.append_assoc]
    have hzeros : (u ++ 0x80 :: List.replicate (55 - u.length) 0).length = 56 := by
      rw [List.length_append, List.length_cons, List.length_replicate]
      omega
    have hlast : (u ++ 0x80 :: List.replicate (55 - u.length) 0 ++ lowBytes 8 (8 * m.length)).length = CBLOCK := by
      rw [List.length_append, hzeros, length_lowBytes]
      rfl
    rw [hz, hsplit, Absorb.run_block (by decide) _ hlast, Absorb.run_nil (by decide)]
    simp only [hfull, if_false, false_and]
    refine last_block hw hzeros hNl hNh (fill_end hpacked (by omega) (fun k hk => ?_) ?_ fun k hlo hk => ?_) _
    · rw [if_neg (by omega), Function.update_of_ne (by omega)]
    · rw [if_neg (by omega), Function.update_self]
    · rw [if_pos (by omega)]

/-- Calls of `MD5_Update` one after the other. -/
theorem Holds.updates (h : Holds c m) {pieces : List (List UInt8)} (hp : ∀ piece ∈ pieces, piece.length < 2 ^ 31) :
    ∃ c', pieces.foldlM (md5Update w) c = some c' ∧ Holds c' (m ++ pieces.flatten) := by
  induction pieces generalizing c m with
  | nil =>
    rw [List.flatten_nil, List.append_nil]
    exact ⟨c, rfl, h⟩
  | cons piece pieces ih =>
    obtain ⟨c₁, hc₁, h₁⟩ := h.update hw (hp piece List.mem_cons_self)
    obtain ⟨c₂, hc₂, h₂⟩ := ih h₁ fun q hq => hp q (List.mem_cons_of_mem piece hq)
    rw [List.append_assoc, ← List.flatten_cons] at h₂
    exact ⟨c₂, by rw [List.foldlM_cons, hc₁]; exact hc₂, h₂⟩

omit hw in
theorem holds_init (c : Ctx) : Holds (md5Init c) [] := by
  have hnil : Absorb.run CBLOCK compress initState [] = (initState, []) := Absorb.run_nil (by decide) _
  refine ⟨?_, rfl, ?_, ?_⟩
  · rw [hnil]
    rfl
  · rw [hnil]
    exact packed_nil _
  · dsimp only [md5Init, List.length_nil]
    decide

/-- A message that is given in pieces has the digest of the whole message, on machines with longs of any width. -/
theorem md5_pieces (c : Ctx) (pieces : List (List UInt8)) (hp : ∀ piece ∈ pieces, piece.length < 2 ^ 31) :
    (pieces.foldlM (md5Update w) (md5Init c)).map (md5Final w) = some (digest pieces.flatten).toList := by
  obtain ⟨c', hc', h⟩ := (holds_init c).updates hw hp
  rw [hc', Option.map_some, h.final hw, List.nil_append]

end

/-- A message that is cut in the middle of a word, with a long that is wider than a word. -/
theorem md5_pieces_cut :
    ([[0x61], [0x62, 0x63]].foldlM (md5Update 64) (md5Init ⟨initState, 1, 2, fun _ => 3, 4⟩)).map (md5Final 64) =
      some (digest [[0x61], [0x62, 0x63]].flatten).toList :=
  md5_pieces (by decide) ⟨initState, 1, 2, fun _ => 3, 4⟩ [[0x61], [0x62, 0x63]] (by decide)

/-- The digest of `abc`. -/
example : (digest [0x61, 0x62, 0x63]).toList =
    [0x90, 0x01, 0x50, 0x98, 0x3c, 0xd2, 0x4f, 0xb0, 0xd6, 0x96, 0x3f, 0x7d, 0x28, 0xe1, 0x7f, 0x72] := by decide +kernel

/-- `checksum` as `crypt.c` has it, with a context on the stack. -/
def checksumOf (w : Nat) (c : Ctx) (src : List UInt8) (checksumNum : Fin 2) : Option (List UInt8) :=
  ((md5Update w (md5Init c) src).bind fun c => md5Update w c (extradata checksumNum)).map (md5Final w)

/-- The checksums of the cypher are those of its model, with the digest in it. -/
theorem checksumOf_eq {w : Nat} (hw : 32 ≤ w) (c : Ctx) {src : List UInt8} (hs : src.length < 2 ^ 31) (checksumNum : Fin 2) :
    checksumOf w c src checksumNum = some (checksum digest src checksumNum) := by
  have hextra : (extradata checksumNum).length < 2 ^ 31 := by
    revert checksumNum
    decide
  obtain ⟨c₁, hc₁, h₁⟩ := (holds_init c).update hw hs
  obtain ⟨c₂, hc₂, h₂⟩ := h₁.update hw hextra
  unfold checksumOf checksum
  rw [hc₁, Option.bind_some, hc₂, Option.map_some, h₂.final hw, List.nil_append]

end Mvpmc.Replaytv.Md5
