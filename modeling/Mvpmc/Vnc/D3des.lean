import Mathlib.Tactic

/-! The cipher of VNC (`d3des.c`). The width `w` of a long is 32 or more; a pointer to bytes is the memory from
there on. -/
namespace Mvpmc.Vnc

def EN0 : Int := 0

def DE1 : Int := 1

def bytebit : List UInt8 := [0x01, 0x02, 0x04, 0x08, 0x10, 0x20, 0x40, 0x80]

def bigbyte : List (BitVec 32) := [
  0x00800000, 0x00400000, 0x00200000, 0x00100000, 0x00080000, 0x00040000, 0x00020000, 0x00010000,
  0x00008000, 0x00004000, 0x00002000, 0x00001000, 0x00000800, 0x00000400, 0x00000200, 0x00000100,
  0x00000080, 0x00000040, 0x00000020, 0x00000010, 0x00000008, 0x00000004, 0x00000002, 0x00000001]

def pc1 : List Nat := [
  56, 48, 40, 32, 24, 16, 8, 0, 57, 49, 41, 33, 25, 17,
  9, 1, 58, 50, 42, 34, 26, 18, 10, 2, 59, 51, 43, 35,
  62, 54, 46, 38, 30, 22, 14, 6, 61, 53, 45, 37, 29, 21,
  13, 5, 60, 52, 44, 36, 28, 20, 12, 4, 27, 19, 11, 3]

def totrot : List Nat := [1, 2, 4, 6, 8, 10, 12, 14, 15, 17, 19, 21, 23, 25, 27, 28]

def pc2 : List Nat := [
  13, 16, 10, 23, 0, 4, 2, 27, 14, 5, 20, 9,
  22, 18, 11, 3, 25, 7, 15, 6, 26, 19, 12, 1,
  40, 51, 30, 36, 46, 54, 29, 39, 50, 44, 32, 47,
  43, 48, 38, 55, 33, 52, 45, 41, 49, 35, 28, 31]

def SP1 : List (BitVec 32) := [
  0x01010400, 0x00000000, 0x00010000, 0x01010404, 0x01010004, 0x00010404, 0x00000004, 0x00010000,
  0x00000400, 0x01010400, 0x01010404, 0x00000400, 0x01000404, 0x01010004, 0x01000000, 0x00000004,
  0x00000404, 0x01000400, 0x01000400, 0x00010400, 0x00010400, 0x01010000, 0x01010000, 0x01000404,
  0x00010004, 0x01000004, 0x01000004, 0x00010004, 0x00000000, 0x00000404, 0x00010404, 0x01000000,
  0x00010000, 0x01010404, 0x00000004, 0x01010000, 0x01010400, 0x01000000, 0x01000000, 0x00000400,
  0x01010004, 0x00010000, 0x00010400, 0x01000004, 0x00000400, 0x00000004, 0x01000404, 0x00010404,
  0x01010404, 0x00010004, 0x01010000, 0x01000404, 0x01000004, 0x00000404, 0x00010404, 0x01010400,
  0x00000404, 0x01000400, 0x01000400, 0x00000000, 0x00010004, 0x00010400, 0x00000000, 0x01010004]

def SP2 : List (BitVec 32) := [
  0x80108020, 0x80008000, 0x00008000, 0x00108020, 0x00100000, 0x00000020, 0x80100020, 0x80008020,
  0x80000020, 0x80108020, 0x80108000, 0x80000000, 0x80008000, 0x00100000, 0x00000020, 0x80100020,
  0x00108000, 0x00100020, 0x80008020, 0x00000000, 0x80000000, 0x00008000, 0x00108020, 0x80100000,
  0x00100020, 0x80000020, 0x00000000, 0x00108000, 0x00008020, 0x80108000, 0x80100000, 0x00008020,
  0x00000000, 0x00108020, 0x80100020, 0x00100000, 0x80008020, 0x80100000, 0x80108000, 0x00008000,
  0x80100000, 0x80008000, 0x00000020, 0x80108020, 0x00108020, 0x00000020, 0x00008000, 0x80000000,
  0x00008020, 0x80108000, 0x00100000, 0x80000020, 0x00100020, 0x80008020, 0x80000020, 0x00100020,
  0x00108000, 0x00000000, 0x80008000, 0x00008020, 0x80000000, 0x80100020, 0x80108020, 0x00108000]

def SP3 : List (BitVec 32) := [
  0x00000208, 0x08020200, 0x00000000, 0x08020008, 0x08000200, 0x00000000, 0x00020208, 0x08000200,
  0x00020008, 0x08000008, 0x08000008, 0x00020000, 0x08020208, 0x00020008, 0x08020000, 0x00000208,
  0x08000000, 0x00000008, 0x08020200, 0x00000200, 0x00020200, 0x08020000, 0x08020008, 0x00020208,
  0x08000208, 0x00020200, 0x00020000, 0x08000208, 0x00000008, 0x08020208, 0x00000200, 0x08000000,
  0x08020200, 0x08000000, 0x00020008, 0x00000208, 0x00020000, 0x08020200, 0x08000200, 0x00000000,
  0x00000200, 0x00020008, 0x08020208, 0x08000200, 0x08000008, 0x00000200, 0x00000000, 0x08020008,
  0x08000208, 0x00020000, 0x08000000, 0x08020208, 0x00000008, 0x00020208, 0x00020200, 0x08000008,
  0x08020000, 0x08000208, 0x00000208, 0x08020000, 0x00020208, 0x00000008, 0x08020008, 0x00020200]

def SP4 : List (BitVec 32) := [
  0x00802001, 0x00002081, 0x00002081, 0x00000080, 0x00802080, 0x00800081, 0x00800001, 0x00002001,
  0x00000000, 0x00802000, 0x00802000, 0x00802081, 0x00000081, 0x00000000, 0x00800080, 0x00800001,
  0x00000001, 0x00002000, 0x00800000, 0x00802001, 0x00000080, 0x00800000, 0x00002001, 0x00002080,
  0x00800081, 0x00000001, 0x00002080, 0x00800080, 0x00002000, 0x00802080, 0x00802081, 0x00000081,
  0x00800080, 0x00800001, 0x00802000, 0x00802081, 0x00000081, 0x00000000, 0x00000000, 0x00802000,
  0x00002080, 0x00800080, 0x00800081, 0x00000001, 0x00802001, 0x00002081, 0x00002081, 0x00000080,
  0x00802081, 0x00000081, 0x00000001, 0x00002000, 0x00800001, 0x00002001, 0x00802080, 0x00800081,
  0x00002001, 0x00002080, 0x00800000, 0x00802001, 0x00000080, 0x00800000, 0x00002000, 0x00802080]

def SP5 : List (BitVec 32) := [
  0x00000100, 0x02080100, 0x02080000, 0x42000100, 0x00080000, 0x00000100, 0x40000000, 0x02080000,
  0x40080100, 0x00080000, 0x02000100, 0x40080100, 0x42000100, 0x42080000, 0x00080100, 0x40000000,
  0x02000000, 0x40080000, 0x40080000, 0x00000000, 0x40000100, 0x42080100, 0x42080100, 0x02000100,
  0x42080000, 0x40000100, 0x00000000, 0x42000000, 0x02080100, 0x02000000, 0x42000000, 0x00080100,
  0x00080000, 0x42000100, 0x00000100, 0x02000000, 0x40000000, 0x02080000, 0x42000100, 0x40080100,
  0x02000100, 0x40000000, 0x42080000, 0x02080100, 0x40080100, 0x00000100, 0x02000000, 0x42080000,
  0x42080100, 0x00080100, 0x42000000, 0x42080100, 0x02080000, 0x00000000, 0x40080000, 0x42000000,
  0x00080100, 0x02000100, 0x40000100, 0x00080000, 0x00000000, 0x40080000, 0x02080100, 0x40000100]

def SP6 : List (BitVec 32) := [
  0x20000010, 0x20400000, 0x00004000, 0x20404010, 0x20400000, 0x00000010, 0x20404010, 0x00400000,
  0x20004000, 0x00404010, 0x00400000, 0x20000010, 0x00400010, 0x20004000, 0x20000000, 0x00004010,
  0x00000000, 0x00400010, 0x20004010, 0x00004000, 0x00404000, 0x20004010, 0x00000010, 0x20400010,
  0x20400010, 0x00000000, 0x00404010, 0x20404000, 0x00004010, 0x00404000, 0x20404000, 0x20000000,
  0x20004000, 0x00000010, 0x20400010, 0x00404000, 0x20404010, 0x00400000, 0x00004010, 0x20000010,
  0x00400000, 0x20004000, 0x20000000, 0x00004010, 0x20000010, 0x20404010, 0x00404000, 0x20400000,
  0x00404010, 0x20404000, 0x00000000, 0x20400010, 0x00000010, 0x00004000, 0x20400000, 0x00404010,
  0x00004000, 0x00400010, 0x20004010, 0x00000000, 0x20404000, 0x20000000, 0x00400010, 0x20004010]

def SP7 : List (BitVec 32) := [
  0x00200000, 0x04200002, 0x04000802, 0x00000000, 0x00000800, 0x04000802, 0x00200802, 0x04200800,
  0x04200802, 0x00200000, 0x00000000, 0x04000002, 0x00000002, 0x04000000, 0x04200002, 0x00000802,
  0x04000800, 0x00200802, 0x00200002, 0x04000800, 0x04000002, 0x04200000, 0x04200800, 0x00200002,
  0x04200000, 0x00000800, 0x00000802, 0x04200802, 0x00200800, 0x00000002, 0x04000000, 0x00200800,
  0x04000000, 0x00200800, 0x00200000, 0x04000802, 0x04000802, 0x04200002, 0x04200002, 0x00000002,
  0x00200002, 0x04000000, 0x04000800, 0x00200000, 0x04200800, 0x00000802, 0x00200802, 0x04200800,
  0x00000802, 0x04000002, 0x04200802, 0x04200000, 0x00200800, 0x00000000, 0x00000002, 0x04200802,
  0x00000000, 0x00200802, 0x04200000, 0x00000800, 0x04000002, 0x04000800, 0x00000800, 0x00200002]

def SP8 : List (BitVec 32) := [
  0x10001040, 0x00001000, 0x00040000, 0x10041040, 0x10000000, 0x10001040, 0x00000040, 0x10000000,
  0x00040040, 0x10040000, 0x10041040, 0x00041000, 0x10041000, 0x00041040, 0x00001000, 0x00000040,
  0x10040000, 0x10000040, 0x10001000, 0x00001040, 0x00041000, 0x00040040, 0x10040040, 0x10041000,
  0x00001040, 0x00000000, 0x00000000, 0x10040040, 0x10000040, 0x10001000, 0x00041040, 0x00040000,
  0x00041040, 0x00040000, 0x10041000, 0x00001000, 0x00000040, 0x10040040, 0x00001000, 0x00041040,
  0x10001000, 0x00000040, 0x10000040, 0x10040000, 0x10040040, 0x10000000, 0x00040000, 0x10001040,
  0x00000000, 0x10041040, 0x00040040, 0x10000040, 0x10040000, 0x10001000, 0x10001040, 0x00000000,
  0x10041040, 0x00041000, 0x00041000, 0x00001040, 0x00001040, 0x00040040, 0x10000000, 0x10041000]

section
variable {w : Nat}

/-- The bits `bigbyte[j]` of the places of the key that have a one. -/
def halfKey (pcr : Nat → Bool) (places : List Nat) : BitVec w :=
  (List.range 24).foldl (fun kn j => if pcr (places.getD j 0) then kn ||| (bigbyte.getD j 0).setWidth w else kn) 0

/-- A bit of the key, behind the first permutation. -/
def pc1m (key : Nat → UInt8) (j : Nat) : Bool :=
  let l := pc1.getD j 0
  let m := l &&& 7
  key (l >>> 3) &&& bytebit.getD m 0 ≠ 0

/-- The halves of the key, turned for round `i`. -/
def pcr (key : Nat → UInt8) (i j : Nat) : Bool :=
  let l := j + totrot.getD i 0
  if j < 28 then if l < 28 then pc1m key l else pc1m key (l - 28)
  else if l < 56 then pc1m key l else pc1m key (l - 28)

/-- `kn`. -/
def rawKeys (key : Nat → UInt8) (edf : Int) : Nat → BitVec w :=
  (List.range 16).foldl (fun kn i =>
    let m := if edf = DE1 then (15 - i) <<< 1 else i <<< 1
    let n := m + 1
    Function.update (Function.update kn m (halfKey (pcr key i) pc2)) n (halfKey (pcr key i) (pc2.drop 24))) fun _ => 0

/-- The two words of a round in `cookey`. -/
def cook (raw0 raw1 : BitVec w) : BitVec w × BitVec w :=
  ((raw0 &&& 0x00fc0000) <<< 6 ||| (raw0 &&& 0x00000fc0) <<< 10 |||
      (raw1 &&& 0x00fc0000) >>> 10 ||| (raw1 &&& 0x00000fc0) >>> 6,
    (raw0 &&& 0x0003f000) <<< 12 ||| (raw0 &&& 0x0000003f) <<< 16 |||
      (raw1 &&& 0x0003f000) >>> 4 ||| (raw1 &&& 0x0000003f))

/-- `cookey`: what it gives to `usekey`. -/
def cookey (raw : Nat → BitVec w) : Nat → BitVec w :=
  (List.range 16).foldl (fun dough i =>
    let c := cook (raw (2 * i)) (raw (2 * i + 1))
    Function.update (Function.update dough (2 * i) c.1) (2 * i + 1) c.2) fun _ => 0

/-- `deskey`: the key register `KnL`. -/
def deskey (key : Nat → UInt8) (edf : Int) : Nat → BitVec w := cookey (rawKeys key edf)

/-- `scrunch`. -/
def scrunch (outof : Nat → UInt8) : BitVec w × BitVec w :=
  let byte (i : Nat) : BitVec w := (outof i).toBitVec.setWidth w
  (byte 0 <<< 24 ||| byte 1 <<< 16 ||| byte 2 <<< 8 ||| byte 3, byte 4 <<< 24 ||| byte 5 <<< 16 ||| byte 6 <<< 8 ||| byte 7)

/-- `unscrun`. -/
def unscrun (outof : BitVec w × BitVec w) : List UInt8 :=
  let byte (x : BitVec w) : UInt8 := ⟨(x &&& 0xff).setWidth 8⟩
  [byte (outof.1 >>> 24), byte (outof.1 >>> 16), byte (outof.1 >>> 8), byte outof.1,
    byte (outof.2 >>> 24), byte (outof.2 >>> 16), byte (outof.2 >>> 8), byte outof.2]

/-- An entry of a substitution table. -/
def sp (table : List (BitVec 32)) (work : BitVec w) : BitVec w := (table.getD (work &&& 0x3f).toNat 0).setWidth w

/-- The bits of `m` change places: those of `b`, and those of `a` that are `k` further up. -/
def exchange (k : Nat) (m : BitVec 32) (a b : BitVec w) : BitVec w × BitVec w :=
  let work := (a >>> k ^^^ b) &&& m.setWidth w
  (a ^^^ work <<< k, b ^^^ work)

/-- `fval` of one half under the two keys of a round. -/
def fval (right key0 key1 : BitVec w) : BitVec w :=
  let work := (right <<< 28 ||| right >>> 4) ^^^ key0
  let fval := sp SP7 work ||| sp SP5 (work >>> 8) ||| sp SP3 (work >>> 16) ||| sp SP1 (work >>> 24)
  let work := right ^^^ key1
  fval ||| sp SP8 work ||| sp SP6 (work >>> 8) ||| sp SP4 (work >>> 16) ||| sp SP2 (work >>> 24)

/-- `desfunc` up to its loop: `leftt` and `right`. -/
def initial (block : BitVec w × BitVec w) : BitVec w × BitVec w :=
  let (leftt, right) := exchange 4 0x0f0f0f0f block.1 block.2
  let (leftt, right) := exchange 16 0x0000ffff leftt right
  let (right, leftt) := exchange 2 0x33333333 right leftt
  let (right, leftt) := exchange 8 0x00ff00ff right leftt
  let right := (right <<< 1 ||| (right >>> 31 &&& 1)) &&& 0xffffffff
  let (leftt, right) := exchange 0 0xaaaaaaaa leftt right
  let leftt := (leftt <<< 1 ||| (leftt >>> 31 &&& 1)) &&& 0xffffffff
  (leftt, right)

/-- The loop of `desfunc`. -/
def rounds (keys : Nat → BitVec w) (s : BitVec w × BitVec w) : BitVec w × BitVec w :=
  (List.range 8).foldl (fun (leftt, right) round =>
    let leftt := leftt ^^^ fval right (keys (4 * round)) (keys (4 * round + 1))
    let right := right ^^^ fval leftt (keys (4 * round + 2)) (keys (4 * round + 3))
    (leftt, right)) s

/-- `desfunc` behind its loop. -/
def final (s : BitVec w × BitVec w) : BitVec w × BitVec w :=
  let (leftt, right) := s
  let right := right <<< 31 ||| right >>> 1
  let (leftt, right) := exchange 0 0xaaaaaaaa leftt right
  let leftt := leftt <<< 31 ||| leftt >>> 1
  let (leftt, right) := exchange 8 0x00ff00ff leftt right
  let (leftt, right) := exchange 2 0x33333333 leftt right
  let (right, leftt) := exchange 16 0x0000ffff right leftt
  let (right, leftt) := exchange 4 0x0f0f0f0f right leftt
  (right, leftt)

/-- `desfunc`. -/
def desfunc (block : BitVec w × BitVec w) (keys : Nat → BitVec w) : BitVec w × BitVec w :=
  final (rounds keys (initial block))

/-- `des`, with the key register `knl`: the eight bytes of `outblock`. -/
def des (knl : Nat → BitVec w) (inblock : Nat → UInt8) : List UInt8 := unscrun (desfunc (scrunch inblock) knl)

end

end Mvpmc.Vnc
