import Mvpmc.Vnc.Inverse

/-! The cipher does the same where a long has more than 32 bits (`d3des.c`): what is shifted out to the left is not
used. -/
namespace Mvpmc.Vnc
open Mvpmc.Lib

section
variable {w : Nat}

/-- A word in a long. -/
def long (x : BitVec 32) : BitVec w := x.setWidth w

/-- The low bits of a long. -/
def low (x : BitVec w) : BitVec 32 := x.setWidth 32

theorem long_xor (x y : BitVec 32) : (long (x ^^^ y) : BitVec w) = long x ^^^ long y := BitVec.setWidth_xor

theorem long_or (x y : BitVec 32) : (long (x ||| y) : BitVec w) = long x ||| long y := BitVec.setWidth_or

theorem long_and (x y : BitVec 32) : (long (x &&& y) : BitVec w) = long x &&& long y := BitVec.setWidth_and

theorem low_xor (x y : BitVec w) : low (x ^^^ y) = low x ^^^ low y := BitVec.setWidth_xor

theorem low_or (x y : BitVec w) : low (x ||| y) = low x ||| low y := BitVec.setWidth_or

theorem long_ofNat {n : Nat} (hn : n < 2 ^ 32) : BitVec.ofNat w n = long (BitVec.ofNat 32 n) := by
  apply BitVec.eq_of_toNat_eq
  unfold long
  rw [BitVec.toNat_setWidth, BitVec.toNat_ofNat, BitVec.toNat_ofNat, Nat.mod_eq_of_lt hn]

/-- Bits that are not lost in a word are not lost in a long. -/
theorem long_shiftLeft {n : Nat} {x : BitVec 32} (hx : (x <<< n) >>> n = x) :
    (long (x <<< n) : BitVec w) = long x <<< n := by
  unfold long
  ext i hi
  have hbit : x.getLsbD (i - n) = ((x <<< n) >>> n).getLsbD (i - n) := by rw [hx]
  simp only [BitVec.getLsbD_ushiftRight, BitVec.getLsbD_shiftLeft] at hbit
  simp only [BitVec.getElem_setWidth, BitVec.getLsbD_shiftLeft, BitVec.getElem_shiftLeft]
  grind

theorem long_masked {n : Nat} {m : BitVec 32} (hm : (m <<< n) >>> n = m) (x : BitVec 32) :
    (long ((x &&& m) <<< n) : BitVec w) = (long x &&& long m) <<< n := by
  rw [long_shiftLeft (shift_back hm x), long_and]

/-- A masked word does not depend on what is above the words. -/
theorem masked_low {n : Nat} {m : BitVec 32} (hm : (m <<< n) >>> n = m) (a b : BitVec w) :
    (a >>> n ^^^ b) &&& long m = long ((low a >>> n ^^^ low b) &&& m) := by
  unfold low long
  ext i hi
  have hbit : m.getLsbD i = ((m <<< n) >>> n).getLsbD i := by rw [hm]
  simp only [BitVec.getLsbD_ushiftRight, BitVec.getLsbD_shiftLeft] at hbit
  simp only [BitVec.getElem_setWidth, BitVec.getElem_and, BitVec.getElem_xor, BitVec.getElem_ushiftRight,
    BitVec.getLsbD_and, BitVec.getLsbD_xor, BitVec.getLsbD_ushiftRight, BitVec.getLsbD_setWidth]
  grind

/-- An exchange of the low bits of two longs. -/
theorem exchange_low {n : Nat} {m : BitVec 32} (hm : (m <<< n) >>> n = m) (a b : BitVec w) :
    exchange n m a b = (a ^^^ long (((low a >>> n ^^^ low b) &&& m) <<< n), b ^^^ long ((low a >>> n ^^^ low b) &&& m)) := by
  have hwork := masked_low hm a b
  unfold exchange
  dsimp only
  change (a ^^^ ((a >>> n ^^^ b) &&& long m) <<< n, b ^^^ (a >>> n ^^^ b) &&& long m) = _
  rw [hwork, ← long_shiftLeft (shift_back hm _)]

variable (hw : 32 ≤ w)
include hw

theorem low_long (x : BitVec 32) : low (long x : BitVec w) = x := by
  unfold low long
  rw [BitVec.setWidth_setWidth_of_le x hw, BitVec.setWidth_eq]

theorem long_shiftRight (x : BitVec 32) (n : Nat) : (long (x >>> n) : BitVec w) = long x >>> n :=
  BitVec.setWidth_ushiftRight hw

theorem low_shiftLeft (x : BitVec w) (n : Nat) : low (x <<< n) = low x <<< n := by
  unfold low
  ext i hi
  simp only [BitVec.getElem_setWidth, BitVec.getLsbD_shiftLeft, BitVec.getElem_shiftLeft]
  grind

theorem low_exchange {n : Nat} {m : BitVec 32} (hm : (m <<< n) >>> n = m) (a b : BitVec w) :
    low (exchange n m a b).1 = (exchange n m (low a) (low b)).1 ∧ low (exchange n m a b).2 = (exchange n m (low a) (low b)).2 := by
  rw [exchange_low hm]
  dsimp only
  rw [low_xor, low_xor, low_long hw, low_long hw]
  unfold exchange
  rw [BitVec.setWidth_eq]
  exact ⟨rfl, rfl⟩

theorem exchange_long {n : Nat} {m : BitVec 32} (hm : (m <<< n) >>> n = m) (a b : BitVec 32) :
    exchange n m (long a : BitVec w) (long b) = (long (exchange n m a b).1, long (exchange n m a b).2) := by
  rw [exchange_low hm, low_long hw, low_long hw, ← long_xor, ← long_xor]
  unfold exchange
  rw [BitVec.setWidth_eq]

theorem sp_low (table : List (BitVec 32)) {n : Nat} (hn : n ≤ 24) (x : BitVec w) :
    sp table (x >>> n) = long (sp table (low x >>> n)) := by
  have hbits : x >>> n &&& (0x3f : BitVec w) = long (low x >>> n &&& 0x3f) := by
    have hmask : (0x3f : BitVec w) = long 0x3f := long_ofNat (by decide)
    have hmasked := masked_low (n := n) (m := 0x3f) (by interval_cases n <;> decide) x 0#w
    rw [BitVec.xor_zero] at hmasked
    rw [hmask, hmasked]
    unfold low
    rw [BitVec.setWidth_zero, BitVec.xor_zero]
  have hindex : (x >>> n &&& (0x3f : BitVec w)).toNat = (low x >>> n &&& 0x3f).toNat := by
    rw [hbits]
    unfold long
    exact BitVec.toNat_setWidth_of_le hw
  unfold sp
  rw [hindex, BitVec.setWidth_eq]
  rfl

theorem fval_long (right key0 key1 : BitVec 32) :
    fval (long right : BitVec w) (long key0) (long key1) = long (fval right key0 key1) := by
  have hwork : low ((long right <<< 28 ||| long right >>> 4) ^^^ long key0 : BitVec w) =
      (right <<< 28 ||| right >>> 4) ^^^ key0 := by
    rw [low_xor, low_or, low_shiftLeft hw, ← long_shiftRight hw, low_long hw, low_long hw, low_long hw]
  have hzero (table : List (BitVec 32)) (x : BitVec w) : sp table x = long (sp table (low x)) := by
    have := sp_low hw table (Nat.zero_le 24) x
    rwa [BitVec.ushiftRight_zero, BitVec.ushiftRight_zero] at this
  unfold fval
  dsimp only
  rw [hzero SP7, hzero SP8, sp_low hw SP5 (by decide), sp_low hw SP3 (by decide), sp_low hw SP1 (by decide),
    sp_low hw SP6 (by decide), sp_low hw SP4 (by decide), sp_low hw SP2 (by decide), hwork, ← long_xor, low_long hw]
  simp only [← long_or]

/-- The permutation in front of the rounds. -/
theorem initial_long (block : BitVec 32 × BitVec 32) :
    initial (block.map long long : BitVec w × BitVec w) = (initial block).map long long := by
  have hrot (x : BitVec 32) : (long x <<< 1 ||| (long x >>> 31 &&& (1 : BitVec w))) &&& (0xffffffff : BitVec w) =
      long ((x <<< 1 ||| (x >>> 31 &&& (1 : BitVec 32))) &&& 0xffffffff) := by
    have hones : (0xffffffff : BitVec w) = long 0xffffffff := long_ofNat (by decide)
    have hone : (1 : BitVec w) = long 1 := long_ofNat (by decide)
    have hlow := masked_low (n := 0) (m := 0xffffffff) (by decide) (long x <<< 1 ||| (long x >>> 31 &&& (1 : BitVec w))) 0#w
    rw [BitVec.ushiftRight_zero, BitVec.ushiftRight_zero, BitVec.xor_zero] at hlow
    rw [hones, hlow, hone, ← long_shiftRight hw, ← long_and, low_or, low_shiftLeft hw, low_long hw, low_long hw]
    unfold low
    rw [BitVec.setWidth_zero, BitVec.xor_zero]
  have h4 := exchange_long hw (n := 4) (m := 0x0f0f0f0f) (by decide)
  have h16 := exchange_long hw (n := 16) (m := 0x0000ffff) (by decide)
  have h2 := exchange_long hw (n := 2) (m := 0x33333333) (by decide)
  have h8 := exchange_long hw (n := 8) (m := 0x00ff00ff) (by decide)
  have h0 := exchange_long hw (n := 0) (m := 0xaaaaaaaa) (by decide)
  unfold initial
  simp only [Prod.map, h4, h16, h2, h8, hrot, h0]

/-- The permutation behind the rounds: the last words have more bits, but they are not used. -/
theorem low_final (s : BitVec 32 × BitVec 32) : (final (s.map long long : BitVec w × BitVec w)).map low low = final s := by
  have hrot (x : BitVec 32) : low (long x <<< 31 ||| long x >>> 1 : BitVec w) = x <<< 31 ||| x >>> 1 := by
    rw [low_or, low_shiftLeft hw, ← long_shiftRight hw, low_long hw, low_long hw]
  have hfinal {v : Nat} (s : BitVec v × BitVec v) : final s =
      let p := exchange 0 0xaaaaaaaa s.1 (s.2 <<< 31 ||| s.2 >>> 1)
      let q := exchange 8 0x00ff00ff (p.1 <<< 31 ||| p.1 >>> 1) p.2
      let q := exchange 2 0x33333333 q.1 q.2
      let q := exchange 16 0x0000ffff q.2 q.1
      exchange 4 0x0f0f0f0f q.1 q.2 := rfl
  -- the word that is turned last has no more bits yet
  have hzero (a : BitVec 32) (b : BitVec w) :
      (exchange 0 0xaaaaaaaa (long a) b).1 = long (exchange 0 0xaaaaaaaa a (low b)).1 := by
    rw [exchange_low (by decide), low_long hw, ← long_xor]
    unfold exchange
    rw [BitVec.setWidth_eq]
  have h4 := low_exchange hw (n := 4) (m := 0x0f0f0f0f) (by decide)
  have h16 := low_exchange hw (n := 16) (m := 0x0000ffff) (by decide)
  have h2 := low_exchange hw (n := 2) (m := 0x33333333) (by decide)
  have h8 := low_exchange hw (n := 8) (m := 0x00ff00ff) (by decide)
  have h0 := low_exchange hw (n := 0) (m := 0xaaaaaaaa) (by decide)
  rw [hfinal, hfinal]
  simp only [Prod.map, h4, h16, h2, h8, h0, hzero, hrot, low_long hw]

section
omit hw

/-- The key of a round. -/
theorem cook_long (raw0 raw1 : BitVec 32) (hw : 32 ≤ w) :
    cook (long raw0 : BitVec w) (long raw1) = (cook raw0 raw1).map long long := by
  have hmask {n : Nat} (hn : n < 2 ^ 32) : BitVec.ofNat w n = long (BitVec.ofNat 32 n) := long_ofNat hn
  have h1 : (0x00fc0000 : BitVec w) = long 0x00fc0000 := hmask (by decide)
  have h2 : (0x00000fc0 : BitVec w) = long 0x00000fc0 := hmask (by decide)
  have h3 : (0x0003f000 : BitVec w) = long 0x0003f000 := hmask (by decide)
  have h4 : (0x0000003f : BitVec w) = long 0x0000003f := hmask (by decide)
  unfold cook
  rw [h1, h2, h3, h4, ← long_masked (n := 6) (by decide), ← long_masked (n := 10) (by decide),
    ← long_masked (n := 12) (by decide), ← long_masked (n := 16) (by decide)]
  simp only [← long_and, ← long_shiftRight hw, ← long_or]
  rfl

theorem halfKey_long (pcr : Nat → Bool) (places : List Nat) :
    (halfKey pcr places : BitVec w) = long (halfKey pcr places) := by
  have hstep (js : List Nat) (kn : BitVec 32) :
      js.foldl (fun kn j => if pcr (places.getD j 0) then kn ||| (bigbyte.getD j 0).setWidth w else kn) (long kn) =
        long (js.foldl (fun kn j => if pcr (places.getD j 0) then kn ||| (bigbyte.getD j 0).setWidth 32 else kn) kn) := by
    induction js generalizing kn with
    | nil => rfl
    | cons j js ih =>
      rw [List.foldl_cons, List.foldl_cons, ← ih]
      congr 1
      split
      · rw [long_or, BitVec.setWidth_eq]
        rfl
      · rfl
  have hzero : (0 : BitVec w) = long 0 := long_ofNat (by decide)
  unfold halfKey
  rw [hzero]
  exact hstep (List.range 24) 0

theorem scrunch_long (outof : Nat → UInt8) : scrunch (w := w) outof = (scrunch outof).map long long := by
  have hbyte (b : BitVec 8) : b.setWidth w = long (b.setWidth 32) :=
    (BitVec.setWidth_setWidth (by omega)).symm
  have hshift {n : Nat} (hn : n ≤ 24) (b : BitVec 8) : b.setWidth w <<< n = long (b.setWidth 32 <<< n) := by
    have hback : ((b.setWidth 32 <<< n) >>> n : BitVec 32) = b.setWidth 32 := by
      ext i hi
      simp only [BitVec.getElem_ushiftRight, BitVec.getLsbD_shiftLeft, BitVec.getLsbD_setWidth, BitVec.getElem_setWidth]
      grind
    rw [hbyte, long_shiftLeft hback]
  unfold scrunch
  dsimp only [Prod.map]
  simp only [hshift (n := 24) (by decide), hshift (n := 16) (by decide), hshift (n := 8) (by decide)]
  simp only [hbyte, ← long_or]

end

/-- The bytes of the words are those of their low bits. -/
theorem unscrun_low (s : BitVec w × BitVec w) : unscrun s = unscrun (s.map low low) := by
  have hbyte {n : Nat} (hn : n ≤ 24) (x : BitVec w) : (x >>> n &&& (0xff : BitVec w)).setWidth 8 =
      (low x >>> n &&& (0xff : BitVec 32)).setWidth 8 := by
    have hmask : (0xff : BitVec w) = long 0xff := long_ofNat (by decide)
    have hlow := masked_low (n := n) (m := 0xff) (by interval_cases n <;> decide) x 0#w
    rw [BitVec.xor_zero] at hlow
    rw [hmask, hlow]
    unfold low long
    rw [BitVec.setWidth_setWidth_of_le _ (by omega), BitVec.setWidth_zero, BitVec.xor_zero]
  have hzero (x : BitVec w) := hbyte (Nat.zero_le 24) x
  simp only [BitVec.ushiftRight_zero] at hzero
  unfold unscrun
  dsimp only [Prod.map]
  simp only [hbyte (n := 24) (by decide), hbyte (n := 16) (by decide), hbyte (n := 8) (by decide), hzero]

/-- The loop over the rounds. -/
theorem rounds_long {knl : Nat → BitVec w} {knl' : Nat → BitVec 32}
    (hk : roundKeys knl = (roundKeys knl').map fun key => (long key.1, long key.2)) (s : BitVec 32 × BitVec 32) :
    rounds knl (s.map long long) = (rounds knl' s).map long long := by
  have hkeys : List.Forall₂ (fun (key : BitVec w × BitVec w) (key' : BitVec 32 × BitVec 32) => key = (long key'.1, long key'.2))
      (roundKeys knl) (roundKeys knl') := by
    rw [hk, List.forall₂_map_left_iff]
    exact List.forall₂_same.mpr fun _ _ => rfl
  have hxor (a : BitVec w) (b : BitVec 32) (c : BitVec w) (d : BitVec 32) (hab : a = long b) (hcd : c = long d) :
      a ^^^ c = long (b ^^^ d) := by rw [hab, hcd, long_xor]
  have hfval (key : BitVec w × BitVec w) (key' : BitVec 32 × BitVec 32) (a : BitVec w) (b : BitVec 32)
      (hkey : key = (long key'.1, long key'.2)) (hab : a = long b) : fval a key.1 key.2 = long (fval b key'.1 key'.2) := by
    rw [hkey, hab]
    exact fval_long hw b key'.1 key'.2
  obtain ⟨h1, h2⟩ := @Feistel.network_related _ _ _ _ _ _ _ _ (fun (x : BitVec w) (y : BitVec 32) => x = long y) _ hxor hfval
    _ _ hkeys (s.map long long) s rfl rfl
  rw [rounds_eq, rounds_eq]
  exact Prod.ext h1 h2

/-- With a key register of its own width, `des` gives the same. -/
theorem des_long (key : Nat → UInt8) (edf : Int) (inblock : Nat → UInt8) :
    des (deskey (w := w) key edf) inblock = des (deskey (w := 32) key edf) inblock := by
  have hkeys : roundKeys (deskey (w := w) key edf) =
      (roundKeys (deskey (w := 32) key edf)).map fun k => (long k.1, long k.2) := by
    rw [roundKeys_deskey, roundKeys_deskey, List.map_map]
    refine List.map_congr_left fun i _ => ?_
    unfold rawKey
    dsimp only
    rw [halfKey_long (w := w), halfKey_long (w := w), cook_long _ _ hw]
    rfl
  unfold des desfunc
  rw [scrunch_long, initial_long hw, rounds_long hw hkeys, unscrun_low hw, low_final hw]

end

end Mvpmc.Vnc
