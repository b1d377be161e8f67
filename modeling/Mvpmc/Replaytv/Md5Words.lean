import Mvpmc.Replaytv.Md5

/-! The rounds of `md5_block_host_order`, on registers of any width, are those of the digest, and the words in `data`, which
`MD5_Update` and `MD5_Final` fill byte by byte, are those of the message. -/
namespace Mvpmc.Replaytv.Md5
open Mvpmc.Lib

section
variable {w : Nat}

/-- The lower 32 bits of the registers. -/
def Regs.low (r : Regs w) : Regs 32 := ⟨r.a.setWidth 32, r.b.setWidth 32, r.c.setWidth 32, r.d.setWidth 32⟩

theorem getLsbD_mask (i : Nat) : (0xffffffff : BitVec w).getLsbD i = (decide (i < w) && decide (i < 32)) := by
  rw [BitVec.ofNat_eq_ofNat, BitVec.getLsbD_ofNat]
  exact congrArg (decide (i < w) && ·) (Nat.testBit_two_pow_sub_one 32 i)

theorem low_G (b c d : BitVec w) :
    (G b c d).setWidth 32 = (b.setWidth 32 &&& d.setWidth 32) ||| (c.setWidth 32 &&& ~~~d.setWidth 32) := by
  unfold G
  ext i hi
  simp only [BitVec.getElem_setWidth, BitVec.getLsbD_xor, BitVec.getLsbD_and, BitVec.getElem_or, BitVec.getElem_and,
    BitVec.getElem_not]
  grind

theorem low_H (b c d : BitVec w) : (H b c d).setWidth 32 = b.setWidth 32 ^^^ c.setWidth 32 ^^^ d.setWidth 32 := by
  unfold H
  rw [BitVec.setWidth_xor, BitVec.setWidth_xor]

variable (hw : 32 ≤ w)
include hw

/-- What a register holds above its lower 32 bits does not come down. -/
theorem low_rotate (a : BitVec w) {n : Nat} (hn : n < 32) : (rotate a n).setWidth 32 = (a.setWidth 32).rotateLeft n := by
  ext i hi
  unfold rotate
  rw [BitVec.getElem_rotateLeft hi]
  simp only [BitVec.getElem_setWidth, BitVec.getLsbD_or, BitVec.getLsbD_shiftLeft, BitVec.getLsbD_ushiftRight,
    BitVec.getLsbD_and, getLsbD_mask]
  grind

theorem low_F (b c d : BitVec w) :
    (F b c d).setWidth 32 = (b.setWidth 32 &&& c.setWidth 32) ||| (~~~b.setWidth 32 &&& d.setWidth 32) := by
  unfold F
  ext i hi
  simp only [BitVec.getElem_setWidth, BitVec.getLsbD_xor, BitVec.getLsbD_and, BitVec.getElem_or, BitVec.getElem_and,
    BitVec.getElem_not]
  grind

theorem low_I (b c d : BitVec w) : (I b c d).setWidth 32 = c.setWidth 32 ^^^ (b.setWidth 32 ||| ~~~d.setWidth 32) := by
  unfold I
  ext i hi
  simp only [BitVec.getElem_setWidth, BitVec.getLsbD_xor, BitVec.getLsbD_or, BitVec.getLsbD_not, BitVec.getElem_xor,
    BitVec.getElem_or, BitVec.getElem_not]
  grind

/-- A step of the source is a step of the digest, if its function is the one that the digest has there. -/
theorem low_round {fn : BitVec w → BitVec w → BitVec w → BitVec w} {i : Nat} (hs : shift i < 32)
    (hfn : ∀ b c d : BitVec w, (fn b c d).setWidth 32 = select i (b.setWidth 32) (c.setWidth 32) (d.setWidth 32))
    {X : Nat → BitVec w} {Y : Nat → BitVec 32} (hX : (X (wordIndex i)).setWidth 32 = Y (wordIndex i)) (r : Regs w) :
    (round fn X r (wordIndex i, shift i, sines.getD i 0)).low = step Y r.low i := by
  have hsine : (BitVec.ofNat w (sines.getD i 0)).setWidth 32 = BitVec.ofNat 32 (sines.getD i 0) :=
    BitVec.setWidth_ofNat_of_le hw _
  unfold round step Regs.low
  dsimp only
  rw [BitVec.setWidth_add _ _ hw, low_rotate hw _ hs, BitVec.setWidth_add _ _ hw, BitVec.setWidth_add _ _ hw,
    BitVec.setWidth_add _ _ hw, hfn, hX, hsine]
  congr 1
  rw [BitVec.add_comm]
  congr 2
  ac_rfl

/-- The steps that share a function. -/
theorem low_rounds {fn : BitVec w → BitVec w → BitVec w → BitVec w} {X : Nat → BitVec w} {Y : Nat → BitVec 32}
    (hX : ∀ k < 16, (X k).setWidth 32 = Y k) {is : List Nat} (his : ∀ i ∈ is, i < 64)
    (hfn : ∀ i ∈ is, ∀ b c d : BitVec w, (fn b c d).setWidth 32 = select i (b.setWidth 32) (c.setWidth 32) (d.setWidth 32))
    (r : Regs w) :
    ((is.map fun i => (wordIndex i, shift i, sines.getD i 0)).foldl (round fn X) r).low = is.foldl (step Y) r.low := by
  have hsmall : ∀ i < 64, wordIndex i < 16 ∧ shift i < 32 := by decide
  induction is generalizing r with
  | nil => rfl
  | cons i is ih =>
    obtain ⟨hword, hshift⟩ := hsmall i (his i List.mem_cons_self)
    rw [List.map_cons, List.foldl_cons, List.foldl_cons,
      ih (fun j hj => his j (List.mem_cons_of_mem i hj)) (fun j hj => hfn j (List.mem_cons_of_mem i hj)),
      low_round hw hshift (hfn i List.mem_cons_self) (hX _ hword)]

/-- The sixteen steps of a round. -/
theorem low_table (fn : BitVec w → BitVec w → BitVec w → BitVec w) {X : Nat → BitVec w} {Y : Nat → BitVec 32}
    (hX : ∀ k < 16, (X k).setWidth 32 = Y k) {j : Nat} (hj : j < 4)
    (hfn : ∀ i, i / 16 = j → ∀ b c d : BitVec w,
      (fn b c d).setWidth 32 = select i (b.setWidth 32) (c.setWidth 32) (d.setWidth 32))
    {table : List (Nat × Nat × Nat)}
    (ht : table = (List.range' (16 * j) 16).map fun i => (wordIndex i, shift i, sines.getD i 0)) (r : Regs w) :
    (table.foldl (round fn X) r).low = (List.range' (16 * j) 16).foldl (step Y) r.low := by
  have hround {i : Nat} (hi : i ∈ List.range' (16 * j) 16) : i / 16 = j ∧ i < 64 := by
    obtain ⟨hlo, hhi⟩ := List.mem_range'_1.mp hi
    omega
  rw [ht]
  exact low_rounds hw hX (fun i hi => (hround hi).2) (fun i hi => hfn i (hround hi).1) r

/-- A block of sixteen words, whatever the width of the registers. -/
theorem md5BlockHostOrder_eq (s : Regs 32) {X : Nat → BitVec 32} {block : List UInt8}
    (hX : ∀ k < 16, X k = word (block.drop (4 * k))) : md5BlockHostOrder w s X = compress s block := by
  have hback (x : BitVec 32) : (x.setWidth w).setWidth 32 = x := by
    rw [BitVec.setWidth_setWidth_of_le x hw, BitVec.setWidth_eq]
  have hY : ∀ k < 16, ((X k).setWidth w).setWidth 32 = word (block.drop (4 * k)) := fun k hk => by rw [hback, hX k hk]
  have h0 (r : Regs w) := low_table hw F (j := 0) hY (by decide)
    (fun i hi b c d => by unfold select; rw [hi]; exact low_F hw b c d) (show ROUND0 = _ by decide) r
  have h1 (r : Regs w) := low_table hw G (j := 1) hY (by decide)
    (fun i hi b c d => by unfold select; rw [hi]; exact low_G b c d) (show ROUND1 = _ by decide) r
  have h2 (r : Regs w) := low_table hw H (j := 2) hY (by decide)
    (fun i hi b c d => by unfold select; rw [hi]; exact low_H b c d) (show ROUND2 = _ by decide) r
  have h3 (r : Regs w) := low_table hw I (j := 3) hY (by decide)
    (fun i hi b c d => by unfold select; rw [hi]; exact low_I hw b c d) (show ROUND3 = _ by decide) r
  have hrange : List.range 64 = List.range' (16 * 0) 16 ++ List.range' (16 * 1) 16 ++ List.range' (16 * 2) 16 ++
    List.range' (16 * 3) 16 := by decide
  have hstart : Regs.low (⟨s.a.setWidth w, s.b.setWidth w, s.c.setWidth w, s.d.setWidth w⟩ : Regs w) = s := by
    unfold Regs.low
    rw [hback, hback, hback, hback]
  unfold md5BlockHostOrder compress R0 R1 R2 R3
  rw [hrange, List.foldl_append, List.foldl_append, List.foldl_append, ← hstart, ← h0, ← h1, ← h2, ← h3, hstart]
  rfl

end

section
variable {u v : List UInt8} {l : BitVec 32} {p : Nat → BitVec 32}

theorem orBytes_append (l : BitVec 32) (n : Nat) (u v : List UInt8) :
    orBytes l n (u ++ v) = orBytes (orBytes l n u) (n + u.length) v := by
  induction u generalizing l n with
  | nil => rfl
  | cons b u ih =>
    rw [List.cons_append, List.length_cons, ← Nat.add_assoc, Nat.add_right_comm]
    exact ih _ _

/-- Each byte comes above those that are there. -/
theorem toNat_orBytes {n : Nat} (hl : l.toNat < 256 ^ n) (hn : n + u.length ≤ 4) :
    (orBytes l n u).toNat = l.toNat + 256 ^ n * Nat.ofDigits 256 (u.map UInt8.toNat) := by
  induction u generalizing l n with
  | nil => rfl
  | cons b u ih =>
    rw [List.length_cons] at hn
    have hb := b.toNat_lt
    have hold : (if n = 0 then 0 else l) = l := by
      split
      · rename_i h0
        rw [h0, pow_zero, Nat.lt_one_iff] at hl
        exact (BitVec.eq_of_toNat_eq hl).symm
      · rfl
    have hpow : 256 ^ n = 2 ^ (8 * n) := by rw [Nat.pow_mul]
    have hroom : 2 ^ (8 * n) * b.toNat < 2 ^ 32 := by
      calc 2 ^ (8 * n) * b.toNat < 2 ^ (8 * n) * 2 ^ 8 := Nat.mul_lt_mul_of_pos_left hb (Nat.two_pow_pos _)
        _ = 2 ^ (8 * n + 8) := (Nat.pow_add 2 _ _).symm
        _ ≤ 2 ^ 32 := Nat.pow_le_pow_right (by decide) (by omega)
    have hstep : (l ||| (b.toBitVec.setWidth 32 <<< (8 * n))).toNat = l.toNat + 256 ^ n * b.toNat := by
      rw [BitVec.toNat_or, BitVec.toNat_shiftLeft, BitVec.toNat_setWidth, UInt8.toNat_toBitVec, Nat.shiftLeft_eq,
        Nat.mod_eq_of_lt (hb.trans (by decide)), Nat.mul_comm, Nat.mod_eq_of_lt hroom, Nat.or_comm,
        ← Nat.two_pow_add_eq_or_of_lt (hpow ▸ hl), hpow, Nat.add_comm]
    unfold orBytes
    rw [hold, ih _ (by omega), hstep, List.map_cons, Nat.ofDigits_cons, pow_succ]
    · ring
    · rw [hstep, pow_succ]
      nlinarith

/-- A word is what the four bytes of it make it, whatever comes behind them. -/
theorem word_congr (h : u.take 4 = v.take 4) : word u = word v := by
  unfold word
  rw [h]

theorem orBytes_word (h : u.length ≤ 4) : orBytes 0 0 u = word u := by
  apply BitVec.eq_of_toNat_eq
  have hdigits : Nat.ofDigits 256 (u.map UInt8.toNat) < 2 ^ 32 := by
    have hlt := Nat.ofDigits_lt_base_pow_length (b := 256) (l := u.map UInt8.toNat) (by decide) fun x hx => by
      obtain ⟨b, -, rfl⟩ := List.mem_map.mp hx
      exact b.toNat_lt
    rw [List.length_map] at hlt
    exact hlt.trans_le (Nat.pow_le_pow_right (by decide) h)
  unfold word
  rw [List.take_of_length_le h, BitVec.toNat_ofNat, Nat.mod_eq_of_lt hdigits, toNat_orBytes (by decide) (by omega)]
  simp

theorem hostC2l_eq (u : List UInt8) : hostC2l u = word u := by
  unfold hostC2l
  rw [orBytes_word (List.length_take_le 4 u)]
  exact word_congr (by rw [List.take_take, Nat.min_self])

/-- A word of which a part is there is filled up. -/
theorem hostPC2l_eq (hu : u.length < 4) (hl : u = [] ∨ l = word u) (hv : v ≠ []) :
    hostPC2l v l u.length = word (u ++ v) := by
  have hwhole : word (u ++ v) = orBytes 0 0 (u ++ v.take (4 - u.length)) := by
    rw [orBytes_word (by rw [List.length_append, List.length_take]; omega)]
    exact word_congr (by rw [List.take_append, List.take_append, List.take_take, Nat.min_self])
  have hl' : orBytes l u.length (v.take (4 - u.length)) = orBytes (orBytes 0 0 u) u.length (v.take (4 - u.length)) := by
    rcases hl with rfl | rfl
    · obtain ⟨b, v, rfl⟩ := List.exists_cons_of_ne_nil hv
      rfl
    · rw [orBytes_word (by omega)]
  unfold hostPC2l
  rw [hl', hwhole, orBytes_append, Nat.zero_add]

theorem hostPC2lP_eq (hu : u.length + v.length < 4) (hl : u = [] ∨ l = word u) (hv : v ≠ []) :
    hostPC2lP v l u.length v.length = word (u ++ v) := by
  rw [← hostPC2l_eq (by omega) hl hv]
  unfold hostPC2lP hostPC2l
  rw [List.take_of_length_le (by omega), List.take_of_length_le (by omega)]

theorem copyWords_apply (k : Nat) (p : Nat → BitVec 32) (sw : Nat) (v : List UInt8) (i : Nat) :
    copyWords k p sw v i = if sw ≤ i ∧ i < sw + k then word (v.drop (4 * (i - sw))) else p i := by
  induction k generalizing p sw v with
  | zero => exact (if_neg (by omega)).symm
  | succ k ih =>
    unfold copyWords
    rw [ih]
    by_cases hi : i = sw
    · subst hi
      rw [if_neg (by omega), if_pos (by omega), Function.update_self, hostC2l_eq, Nat.sub_self, Nat.mul_zero, List.drop_zero]
    · rw [Function.update_of_ne hi, List.drop_drop]
      by_cases hin : sw + 1 ≤ i ∧ i < sw + 1 + k
      · rw [if_pos hin, if_pos (by omega)]
        congr 2
        omega
      · rw [if_neg hin, if_neg (by omega)]

/-- The words of `p` that have bytes of `u` in them; the others are of no account. -/
def Packed (p : Nat → BitVec 32) (u : List UInt8) : Prop := ∀ k, 4 * k < u.length → p k = word (u.drop (4 * k))

theorem packed_nil (p : Nat → BitVec 32) : Packed p [] := fun _ hk => absurd hk (Nat.not_lt_zero _)

/-- What is in the word that is filled next. -/
theorem Packed.partial_word (h : Packed p u) :
    u.drop (4 * (u.length / 4)) = [] ∨ p (u.length / 4) = word (u.drop (4 * (u.length / 4))) := by
  rcases Nat.lt_or_ge (4 * (u.length / 4)) u.length with hlt | hge
  · exact .inr (h _ hlt)
  · exact .inl (List.drop_eq_nil_of_le hge)

/-- Bytes come behind those that are there: the words in front are kept. -/
theorem Packed.append (h : Packed p u) {q : Nat → BitVec 32} (hkeep : ∀ k < u.length / 4, q k = p k)
    (hnew : ∀ k, u.length / 4 ≤ k → 4 * k < (u ++ v).length → q k = word ((u ++ v).drop (4 * k))) : Packed q (u ++ v) := by
  intro k hk
  rcases Nat.lt_or_ge k (u.length / 4) with hlt | hge
  · rw [hkeep k hlt, h k (by omega)]
    refine word_congr ?_
    rw [List.drop_append_of_le_length (by omega), List.take_append_of_le_length (by rw [List.length_drop]; omega)]
  · exact hnew k hge hk

/-- The words of a part. -/
theorem Packed.take (h : Packed p u) {n : Nat} (hn : 4 ∣ n) : Packed p (u.take n) := by
  intro k hk
  rw [List.length_take] at hk
  rw [h k (by omega)]
  refine word_congr ?_
  rw [List.drop_take, List.take_take, Nat.min_eq_left (by omega)]

end
end Mvpmc.Replaytv.Md5
