import Mathlib.Tactic
import Mathlib.Data.UInt
import Mvpmc.Lib.Absorb

/-! The digest behind the checksums of `libreplaytv` (`md32_common.h`, `md5_locl.h`, `md5_dgst.c`). The registers are
unsigned longs of `w` bits. -/
namespace Mvpmc.Replaytv.Md5
open Mvpmc.Lib

/-- `A`, `B`, `C` and `D`. -/
structure Regs (w : Nat) where
  a : BitVec w
  b : BitVec w
  c : BitVec w
  d : BitVec w
  deriving DecidableEq, Repr

/-- `MD5_CTX`. -/
structure Ctx where
  state : Regs 32
  Nl : BitVec 32
  Nh : BitVec 32
  data : Nat → BitVec 32
  num : Nat

/-- `MD5_CBLOCK`, in bytes. -/
def CBLOCK : Nat := 64

def initState : Regs 32 := ⟨0x67452301, 0xefcdab89, 0x98badcfe, 0x10325476⟩

/-- `MD5_Init`, which leaves `data` as it is. -/
def md5Init (c : Ctx) : Ctx := { c with state := initState, Nl := 0, Nh := 0, num := 0 }

section
variable {w : Nat}

/-- `ROTATE`. The upper bits of a register that is wider than 32 bits are not cleared. -/
def rotate (a : BitVec w) (n : Nat) : BitVec w := (a <<< n) ||| ((a &&& 0xffffffff) >>> (32 - n))

def F (b c d : BitVec w) : BitVec w := ((c ^^^ d) &&& b) ^^^ d
def G (b c d : BitVec w) : BitVec w := ((b ^^^ c) &&& d) ^^^ c
def H (b c d : BitVec w) : BitVec w := b ^^^ c ^^^ d
def I (b c d : BitVec w) : BitVec w := (~~~d ||| b) ^^^ c

/-- What `R0` to `R3` have in common, for the word `k`, the shift `s` and the constant `t`. Their arguments turn from one
step to the next: the register that is set becomes the second one. -/
def round (fn : BitVec w → BitVec w → BitVec w → BitVec w) (X : Nat → BitVec w) (r : Regs w) (op : Nat × Nat × Nat) : Regs w :=
  ⟨r.d, rotate (r.a + (X op.1 + BitVec.ofNat w op.2.2 + fn r.b r.c r.d)) op.2.1 + r.b, r.b, r.c⟩

def R0 : (Nat → BitVec w) → Regs w → Nat × Nat × Nat → Regs w := round F
def R1 : (Nat → BitVec w) → Regs w → Nat × Nat × Nat → Regs w := round G
def R2 : (Nat → BitVec w) → Regs w → Nat × Nat × Nat → Regs w := round H
def R3 : (Nat → BitVec w) → Regs w → Nat × Nat × Nat → Regs w := round I

end

/-- The steps of round 0: the word, the shift and the constant of each. -/
def ROUND0 : List (Nat × Nat × Nat) :=
  [(0, 7, 0xd76aa478), (1, 12, 0xe8c7b756), (2, 17, 0x242070db), (3, 22, 0xc1bdceee),
    (4, 7, 0xf57c0faf), (5, 12, 0x4787c62a), (6, 17, 0xa8304613), (7, 22, 0xfd469501),
    (8, 7, 0x698098d8), (9, 12, 0x8b44f7af), (10, 17, 0xffff5bb1), (11, 22, 0x895cd7be),
    (12, 7, 0x6b901122), (13, 12, 0xfd987193), (14, 17, 0xa679438e), (15, 22, 0x49b40821)]

def ROUND1 : List (Nat × Nat × Nat) :=
  [(1, 5, 0xf61e2562), (6, 9, 0xc040b340), (11, 14, 0x265e5a51), (0, 20, 0xe9b6c7aa),
    (5, 5, 0xd62f105d), (10, 9, 0x02441453), (15, 14, 0xd8a1e681), (4, 20, 0xe7d3fbc8),
    (9, 5, 0x21e1cde6), (14, 9, 0xc33707d6), (3, 14, 0xf4d50d87), (8, 20, 0x455a14ed),
    (13, 5, 0xa9e3e905), (2, 9, 0xfcefa3f8), (7, 14, 0x676f02d9), (12, 20, 0x8d2a4c8a)]

def ROUND2 : List (Nat × Nat × Nat) :=
  [(5, 4, 0xfffa3942), (8, 11, 0x8771f681), (11, 16, 0x6d9d6122), (14, 23, 0xfde5380c),
    (1, 4, 0xa4beea44), (4, 11, 0x4bdecfa9), (7, 16, 0xf6bb4b60), (10, 23, 0xbebfbc70),
    (13, 4, 0x289b7ec6), (0, 11, 0xeaa127fa), (3, 16, 0xd4ef3085), (6, 23, 0x04881d05),
    (9, 4, 0xd9d4d039), (12, 11, 0xe6db99e5), (15, 16, 0x1fa27cf8), (2, 23, 0xc4ac5665)]

def ROUND3 : List (Nat × Nat × Nat) :=
  [(0, 6, 0xf4292244), (7, 10, 0x432aff97), (14, 15, 0xab9423a7), (5, 21, 0xfc93a039),
    (12, 6, 0x655b59c3), (3, 10, 0x8f0ccc92), (10, 15, 0xffeff47d), (1, 21, 0x85845dd1),
    (8, 6, 0x6fa87e4f), (15, 10, 0xfe2ce6e0), (6, 15, 0xa3014314), (13, 21, 0x4e0811a1),
    (4, 6, 0xf7537e82), (11, 10, 0xbd3af235), (2, 15, 0x2ad7d2bb), (9, 21, 0xeb86d391)]

/-- `md5_block_host_order` for one block of sixteen words. -/
def md5BlockHostOrder (w : Nat) (s : Regs 32) (X : Nat → BitVec 32) : Regs 32 :=
  let Y : Nat → BitVec w := fun i => (X i).setWidth w
  let r : Regs w := ⟨s.a.setWidth w, s.b.setWidth w, s.c.setWidth w, s.d.setWidth w⟩
  let r := ROUND3.foldl (R3 Y) (ROUND2.foldl (R2 Y) (ROUND1.foldl (R1 Y) (ROUND0.foldl (R0 Y) r)))
  ⟨s.a + r.a.setWidth 32, s.b + r.b.setWidth 32, s.c + r.c.setWidth 32, s.d + r.d.setWidth 32⟩

/-- The cases of a switch, one behind the other, each of which ors a byte to `l`. The first of them begins anew. -/
def orBytes : BitVec 32 → Nat → List UInt8 → BitVec 32
  | l, _, [] => l
  | l, n, b :: bytes => orBytes ((if n = 0 then 0 else l) ||| (b.toBitVec.setWidth 32 <<< (8 * n))) (n + 1) bytes

/-- `HOST_c2l`. -/
def hostC2l (data : List UInt8) : BitVec 32 := orBytes 0 0 (data.take 4)

/-- `HOST_p_c2l`. -/
def hostPC2l (data : List UInt8) (l : BitVec 32) (n : Nat) : BitVec 32 := orBytes l n (data.take (4 - n))

/-- `HOST_p_c2l_p`, which ends with the data. -/
def hostPC2lP (data : List UInt8) (l : BitVec 32) (sc len : Nat) : BitVec 32 := orBytes l sc (data.take (min len (3 - sc)))

/-- `HOST_c2l_p`. It ors the bytes from the last to the first. -/
def hostC2lP (data : List UInt8) (n : Nat) : BitVec 32 := orBytes 0 0 (data.take n)

/-- `HOST_l2c`. -/
def hostL2c (l : BitVec 32) : List UInt8 :=
  [⟨l.setWidth 8⟩, ⟨(l >>> 8).setWidth 8⟩, ⟨(l >>> 16).setWidth 8⟩, ⟨(l >>> 24).setWidth 8⟩]

/-- `md5_block_data_order`. -/
def md5BlockDataOrder (w : Nat) : Nat → Regs 32 → List UInt8 → Regs 32
  | 0, s, _ => s
  | num + 1, s, data =>
    md5BlockDataOrder w num (md5BlockHostOrder w s fun i => hostC2l (data.drop (4 * i))) (data.drop CBLOCK)

/-- The loops that set `k` words from `p[sw]` on. -/
def copyWords : Nat → (Nat → BitVec 32) → Nat → List UInt8 → Nat → BitVec 32
  | 0, p, _, _ => p
  | k + 1, p, sw, data => copyWords k (Function.update p sw (hostC2l data)) (sw + 1) (data.drop 4)

/-- `MD5_Update` from the computation of `sw` on. From 2 ^ 31 bytes on an `int` overflows; there is no result then. -/
def updateBlocks (w : Nat) (c : Ctx) (data : List UInt8) : Option Ctx :=
  let sw := data.length / CBLOCK
  if 2 ^ 31 ≤ sw * CBLOCK then none
  else
    let c := { c with state := md5BlockDataOrder w sw c.state data }
    let data := data.drop (sw * CBLOCK)
    let len := data.length
    if len ≠ 0 then
      some { c with
        num := len
        data := Function.update (copyWords (len / 4) c.data 0 data) (len / 4) (hostC2lP (data.drop (len / 4 * 4)) (len % 4)) }
    else some c

/-- `MD5_Update`. -/
def md5Update (w : Nat) (c : Ctx) (data : List UInt8) : Option Ctx :=
  let len := data.length
  if len = 0 then some c
  else
    let l := c.Nl + BitVec.ofNat 32 (len * 8)
    let c := { c with Nl := l, Nh := (if l < c.Nl then c.Nh + 1 else c.Nh) + BitVec.ofNat 32 (len / 2 ^ 29) }
    if c.num ≠ 0 then
      let sw := c.num / 4
      let sc := c.num % 4
      if CBLOCK ≤ c.num + len then
        let p := Function.update c.data sw (hostPC2l data (c.data sw) sc)
        let p := copyWords (15 - sw) p (sw + 1) (data.drop (4 - sc))
        updateBlocks w { c with state := md5BlockHostOrder w c.state p, data := p, num := 0 } (data.drop (CBLOCK - c.num))
      else if sc + len < 4 then
        some { c with num := c.num + len, data := Function.update c.data sw (hostPC2lP data (c.data sw) sc len) }
      else
        let ew := (c.num + len) / 4
        let ec := (c.num + len) % 4
        let p := Function.update c.data sw (hostPC2l data (if sc ≠ 0 then c.data sw else l) sc)
        let p := copyWords (ew - (sw + 1)) p (sw + 1) (data.drop (4 - sc))
        let p := if ec ≠ 0 then Function.update p ew (hostC2lP (data.drop (4 - sc + 4 * (ew - (sw + 1)))) ec) else p
        some { c with num := c.num + len, data := p }
    else updateBlocks w c data

/-- `end`. -/
def endBytes : List UInt8 := [0x80, 0x00, 0x00, 0x00]

/-- `MD5_Final`: the bytes in `md`. -/
def md5Final (w : Nat) (c : Ctx) : List UInt8 :=
  let i := c.num / 4
  let j := c.num % 4
  let p := Function.update c.data i (hostPC2l endBytes (if j = 0 then 0 else c.data i) j)
  -- room is saved for `Nl` and `Nh`
  let full := 14 < i + 1
  let p := if full ∧ i + 1 < 16 then Function.update p (i + 1) 0 else p
  let s := if full then md5BlockHostOrder w c.state p else c.state
  let i := if full then 0 else i + 1
  let p := fun k => if i ≤ k ∧ k < 14 then 0 else p k
  let s := md5BlockHostOrder w s (Function.update (Function.update p 14 c.Nl) 15 c.Nh)
  hostL2c s.a ++ hostL2c s.b ++ hostL2c s.c ++ hostL2c s.d

/-! The digest itself, of a whole message. -/

/-- The first four bytes as a number, the lowest first. -/
def word (bytes : List UInt8) : BitVec 32 := BitVec.ofNat 32 (Nat.ofDigits 256 ((bytes.take 4).map UInt8.toNat))

/-- The functions of the four rounds. -/
def select (i : Nat) (x y z : BitVec 32) : BitVec 32 :=
  match i / 16 with
  | 0 => (x &&& y) ||| (~~~x &&& z)
  | 1 => (x &&& z) ||| (y &&& ~~~z)
  | 2 => x ^^^ y ^^^ z
  | _ => y ^^^ (x ||| ~~~z)

def wordIndex (i : Nat) : Nat :=
  match i / 16 with
  | 0 => i
  | 1 => (5 * i + 1) % 16
  | 2 => (3 * i + 5) % 16
  | _ => 7 * i % 16

def shift (i : Nat) : Nat :=
  (([[7, 12, 17, 22], [5, 9, 14, 20], [4, 11, 16, 23], [6, 10, 15, 21]] : List (List Nat)).getD (i / 16) []).getD (i % 4) 0

/-- The digits of the sines of 1 to 64. -/
def sines : List Nat :=
  [0xd76aa478, 0xe8c7b756, 0x242070db, 0xc1bdceee, 0xf57c0faf, 0x4787c62a, 0xa8304613, 0xfd469501,
    0x698098d8, 0x8b44f7af, 0xffff5bb1, 0x895cd7be, 0x6b901122, 0xfd987193, 0xa679438e, 0x49b40821,
    0xf61e2562, 0xc040b340, 0x265e5a51, 0xe9b6c7aa, 0xd62f105d, 0x02441453, 0xd8a1e681, 0xe7d3fbc8,
    0x21e1cde6, 0xc33707d6, 0xf4d50d87, 0x455a14ed, 0xa9e3e905, 0xfcefa3f8, 0x676f02d9, 0x8d2a4c8a,
    0xfffa3942, 0x8771f681, 0x6d9d6122, 0xfde5380c, 0xa4beea44, 0x4bdecfa9, 0xf6bb4b60, 0xbebfbc70,
    0x289b7ec6, 0xeaa127fa, 0xd4ef3085, 0x04881d05, 0xd9d4d039, 0xe6db99e5, 0x1fa27cf8, 0xc4ac5665,
    0xf4292244, 0x432aff97, 0xab9423a7, 0xfc93a039, 0x655b59c3, 0x8f0ccc92, 0xffeff47d, 0x85845dd1,
    0x6fa87e4f, 0xfe2ce6e0, 0xa3014314, 0x4e0811a1, 0xf7537e82, 0xbd3af235, 0x2ad7d2bb, 0xeb86d391]

/-- One of the 64 steps. -/
def step (X : Nat → BitVec 32) (r : Regs 32) (i : Nat) : Regs 32 :=
  ⟨r.d, r.b + (r.a + select i r.b r.c r.d + X (wordIndex i) + BitVec.ofNat 32 (sines.getD i 0)).rotateLeft (shift i), r.b, r.c⟩

/-- One block of 64 bytes. -/
def compress (s : Regs 32) (block : List UInt8) : Regs 32 :=
  let r := (List.range 64).foldl (step fun i => word (block.drop (4 * i))) s
  ⟨s.a + r.a, s.b + r.b, s.c + r.c, s.d + r.d⟩

/-- The lowest `k` bytes of a number. -/
def lowBytes (k x : Nat) : List UInt8 := (List.range k).map fun i => UInt8.ofNat (x / 256 ^ i)

/-- What is put behind a message: a single bit, zeros, and the number of its bits. -/
def padding (len : Nat) : List UInt8 := 0x80 :: List.replicate ((119 - len % 64) % 64) 0 ++ lowBytes 8 (8 * len)

theorem length_lowBytes (k x : Nat) : (lowBytes k x).length = k := by
  unfold lowBytes
  rw [List.length_map, List.length_range]

/-- The bytes of the four registers. -/
def output (r : Regs 32) : List UInt8 :=
  lowBytes 4 r.a.toNat ++ lowBytes 4 r.b.toNat ++ lowBytes 4 r.c.toNat ++ lowBytes 4 r.d.toNat

theorem length_output (r : Regs 32) : (output r).toArray.size = 16 := by
  unfold output
  simp only [List.size_toArray, List.length_append, length_lowBytes]

/-- The digest of a message. -/
def digest (m : List UInt8) : Vector UInt8 16 :=
  ⟨(output (Absorb.run CBLOCK compress initState (m ++ padding m.length)).1).toArray, length_output _⟩

end Mvpmc.Replaytv.Md5
