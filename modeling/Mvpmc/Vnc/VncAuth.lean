import Mvpmc.Vnc.Wide
import Mvpmc.Lib.CString

/-! The passwords of VNC, and the answer to a challenge (`vncauth.c`). -/
namespace Mvpmc.Vnc
open Mvpmc.Lib Mvpmc.Lib.Circular Mvpmc.Lib.CString

def CHALLENGESIZE : Nat := 16

def fixedkey : List UInt8 := [23, 82, 107, 6, 35, 78, 88, 7]

/-- The eight bytes of a password, padded with nulls. -/
def padded (passwd : List UInt8) (i : Nat) : UInt8 := if i < passwd.length then passwd.getD i 0 else 0

/-- The files that are there, and the names for which `fopen` makes one. -/
structure Files where
  contents : List UInt8 → Option (List UInt8)
  writable : List UInt8 → Bool

section
variable (w : Nat)

/-- `vncEncryptAndStorePasswd`. -/
def vncEncryptAndStorePasswd (h : Files) (passwd fname : List UInt8) : Files × Int :=
  if ¬h.writable fname then (h, 1)
  else
    let encryptedPasswd := des (deskey (w := w) (fixedkey.getD · 0) EN0) (padded passwd)
    ({ h with contents := Function.update h.contents fname (some encryptedPasswd) }, 0)

/-- `vncDecryptPasswdFromFile`. -/
def vncDecryptPasswdFromFile (h : Files) (fname : List UInt8) : Option (List UInt8) :=
  match h.contents fname with
  | none => none
  | some bytes =>
    if bytes.length < 8 then none
    else some (des (deskey (w := w) (fixedkey.getD · 0) DE1) (bytes.getD · 0) ++ [0])

/-- `vncEncryptBytes`, in place. -/
def vncEncryptBytes (bytes : Nat → UInt8) (passwd : List UInt8) : Nat → UInt8 :=
  let knl := deskey (w := w) (padded passwd) EN0
  (List.range (CHALLENGESIZE / 8)).foldl (fun bytes i => blit bytes (8 * i) (des knl fun k => bytes (8 * i + k))) bytes

end

section
variable {w : Nat}

@[simp] theorem des_length (knl : Nat → BitVec w) (inblock : Nat → UInt8) : (des knl inblock).length = 8 := rfl

/-- The block is read in its eight bytes. -/
theorem des_congr (knl : Nat → BitVec w) {inblock inblock' : Nat → UInt8} (h : ∀ i < 8, inblock i = inblock' i) :
    des knl inblock = des knl inblock' := by
  unfold des scrunch
  simp only [h 0 (by decide), h 1 (by decide), h 2 (by decide), h 3 (by decide), h 4 (by decide), h 5 (by decide),
    h 6 (by decide), h 7 (by decide)]

/-- Of a key, the highest bit of each byte does not count. -/
theorem pc1m_congr {key key' : Nat → UInt8} (h : ∀ i < 8, key i &&& 0x7f = key' i &&& 0x7f) (j : Nat) :
    pc1m key j = pc1m key' j := by
  have hplace : pc1.getD j 0 >>> 3 < 8 ∧ pc1.getD j 0 &&& 7 < 7 := by
    by_cases hj : j < 56
    · revert j
      decide
    · have hnone : pc1[j]? = none := List.getElem?_eq_none (Nat.le_of_not_lt hj)
      rw [List.getD_eq_getElem?_getD, hnone]
      decide
  have hbit : ∀ m < 7, 0x7f &&& bytebit.getD m 0 = bytebit.getD m 0 := by decide
  unfold pc1m
  dsimp only
  rw [← hbit _ hplace.2, ← UInt8.and_assoc, ← UInt8.and_assoc, h _ hplace.1]

theorem deskey_congr {key key' : Nat → UInt8} (h : ∀ i < 8, key i &&& 0x7f = key' i &&& 0x7f) (edf : Int) :
    deskey (w := w) key edf = deskey key' edf := by
  have hpc1 : pc1m key = pc1m key' := funext (pc1m_congr h)
  unfold deskey rawKeys pcr
  rw [hpc1]

/-- With longs of any width, what one key register encrypts the other decrypts. -/
theorem des_back {w' : Nat} (hw : 32 ≤ w) (hw' : 32 ≤ w') (key : Nat → UInt8) (inblock : Nat → UInt8) :
    des (deskey (w := w') key DE1) (fun i => (des (deskey (w := w) key EN0) inblock).getD i 0) = (List.range 8).map inblock ∧
      des (deskey (w := w') key EN0) (fun i => (des (deskey (w := w) key DE1) inblock).getD i 0) =
        (List.range 8).map inblock := by
  simp only [des_long hw, des_long hw']
  refine ⟨des_des (roundKeys_reverse key) inblock, des_des ?_ inblock⟩
  rw [roundKeys_reverse, List.reverse_reverse]

end

/-- Under every key, `des` decrypts what it has encrypted, and encrypts what it has decrypted, also where the longs
of the two machines are not of the same width. -/
theorem des_decrypts {w w' : Nat} (hw : 32 ≤ w) (hw' : 32 ≤ w') (key inblock : Nat → UInt8) :
    des (deskey (w := w') key DE1) (fun i => (des (deskey (w := w) key EN0) inblock).getD i 0) = (List.range 8).map inblock ∧
      des (deskey (w := w') key EN0) (fun i => (des (deskey (w := w) key DE1) inblock).getD i 0) =
        (List.range 8).map inblock :=
  des_back hw hw' key inblock

theorem des_decrypts_fixedkey :
    des (deskey (w := 64) (fixedkey.getD · 0) DE1)
        (fun i => (des (deskey (w := 32) (fixedkey.getD · 0) EN0) UInt8.ofNat).getD i 0) = (List.range 8).map UInt8.ofNat ∧
      des (deskey (w := 64) (fixedkey.getD · 0) EN0)
        (fun i => (des (deskey (w := 32) (fixedkey.getD · 0) DE1) UInt8.ofNat).getD i 0) = (List.range 8).map UInt8.ofNat :=
  des_decrypts (by decide) (by decide) (fixedkey.getD · 0) UInt8.ofNat

/-- The validation set of `d3des.c`, with the bits of the key bytes the other way round. -/
example : des (deskey (w := 32) ([0x80, 0xc4, 0xa2, 0xe6, 0x91, 0xd5, 0xb3, 0xf7].getD · 0) EN0)
    ([0x01, 0x23, 0x45, 0x67, 0x89, 0xab, 0xcd, 0xe7].getD · 0) = [0xc9, 0x57, 0x44, 0x25, 0x6a, 0x5e, 0xd3, 0x1d] := by
  decide +kernel

/-- The eight bytes of a password, as a string. -/
theorem padded_string {passwd : List UInt8} (hz : 0 ∉ passwd) :
    ((List.range 8).map (padded passwd) ++ [0]).takeWhile (· ≠ 0) = passwd.take 8 := by
  have hpadded : (List.range 8).map (padded passwd) = passwd.take 8 ++ List.replicate (8 - passwd.length) 0 := by
    refine List.ext_getElem (by simp; omega) fun i hi _ => ?_
    have h8 : i < 8 := by simpa using hi
    rw [List.getElem_map, List.getElem_range, List.getElem_append]
    unfold padded
    by_cases hlen : i < passwd.length
    · rw [if_pos hlen, dif_pos (by rw [List.length_take]; omega), List.getElem_take,
        List.getD_eq_getElem?_getD, List.getElem?_eq_getElem hlen, Option.getD_some]
    · rw [if_neg hlen, dif_neg (by rw [List.length_take]; omega), List.getElem_replicate]
  have hzero : List.replicate (8 - passwd.length) (0 : UInt8) ++ [0] = 0 :: List.replicate (8 - passwd.length) 0 :=
    (List.replicate_succ' ..).symm
  have htake : 0 ∉ passwd.take 8 := fun hm => hz (List.mem_of_mem_take hm)
  rw [hpadded, List.append_assoc, hzero, List.takeWhile_append, if_pos (by rw [takeWhile_of_zero_not_mem htake]),
    List.takeWhile_cons_of_neg (by decide), List.append_nil]

/-- A password that has been stored is read back, cut to eight characters, and no other file is changed. -/
theorem stored_password {w w' : Nat} (hw : 32 ≤ w) (hw' : 32 ≤ w') (h : Files) (passwd fname : List UInt8)
    (hz : 0 ∉ passwd) (hopen : h.writable fname) :
    let r := vncEncryptAndStorePasswd w h passwd fname
    r.2 = 0 ∧ (∃ bytes, vncDecryptPasswdFromFile w' r.1 fname = some bytes ∧ bytes.length = 9 ∧
        bytes.takeWhile (· ≠ 0) = passwd.take 8) ∧
      ∀ other, other ≠ fname → r.1.contents other = h.contents other := by
  intro r
  have hr : r = (⟨Function.update h.contents fname
      (some (des (deskey (w := w) (fixedkey.getD · 0) EN0) (padded passwd))), h.writable⟩, 0) := if_neg (not_not.mpr hopen)
  have hdecrypt : vncDecryptPasswdFromFile w' r.1 fname = some ((List.range 8).map (padded passwd) ++ [0]) := by
    unfold vncDecryptPasswdFromFile
    rw [hr]
    dsimp only
    rw [Function.update_self]
    dsimp only
    rw [if_neg (by rw [des_length]; decide), (des_back hw hw' (fixedkey.getD · 0) (padded passwd)).1]
  refine ⟨by rw [hr], ⟨_, hdecrypt, rfl, padded_string hz⟩, fun other ho => ?_⟩
  rw [hr]
  exact Function.update_of_ne ho _ _

/-- The word "secret", stored where a long has 64 bits. -/
theorem stored_password_secret :
    let r := vncEncryptAndStorePasswd 64 ⟨fun _ => none, fun _ => true⟩ [115, 101, 99, 114, 101, 116] [112]
    r.2 = 0 ∧ (∃ bytes, vncDecryptPasswdFromFile 32 r.1 [112] = some bytes ∧ bytes.length = 9 ∧
        bytes.takeWhile (· ≠ 0) = [115, 101, 99, 114, 101, 116].take 8) ∧
      ∀ other, other ≠ [112] → r.1.contents other = none :=
  stored_password (by decide) (by decide) ⟨fun _ => none, fun _ => true⟩ [115, 101, 99, 114, 101, 116] [112] (by decide) rfl

/-- Blocks one after the other, in place. -/
theorem blocks_encrypted {w : Nat} (knl : Nat → BitVec w) (bytes : Nat → UInt8) (n : Nat) :
    let r := (List.range n).foldl (fun bytes i => blit bytes (8 * i) (des knl fun k => bytes (8 * i + k))) bytes
    (∀ b < n, slice r (8 * b) 8 = des knl fun k => bytes (8 * b + k)) ∧ ∀ i, 8 * n ≤ i → r i = bytes i := by
  induction n with
  | zero => exact ⟨fun _ hb => absurd hb (Nat.not_lt_zero _), fun _ _ => rfl⟩
  | succ n ih =>
    obtain ⟨hdone, hrest⟩ := ih
    dsimp only
    rw [List.range_succ, List.foldl_append, List.foldl_cons, List.foldl_nil]
    generalize (List.range n).foldl (fun bytes i => blit bytes (8 * i) (des knl fun k => bytes (8 * i + k))) bytes = r at *
    have hblock : (des knl fun k => r (8 * n + k)) = des knl fun k => bytes (8 * n + k) :=
      des_congr knl fun k _ => hrest _ (by omega)
    rw [hblock]
    refine ⟨fun b hb => ?_, fun i hi => ?_⟩
    · rcases Nat.lt_or_ge b n with hlt | hge
      · rw [slice_blit_below _ _ (by omega)]
        exact hdone b hlt
      · obtain rfl : b = n := by omega
        exact slice_blit r (8 * b) _
    · rw [blit_of_ge _ _ _ _ (by rw [des_length]; omega)]
      exact hrest i (by omega)

/-- A server that knows the password finds its challenge in the answer again. It is enough that it knows the lower seven
bits of the first eight characters. -/
theorem answer_decrypts {w w' : Nat} (hw : 32 ≤ w) (hw' : 32 ≤ w') (bytes : Nat → UInt8) (passwd passwd' : List UInt8)
    (hsame : ∀ i < 8, padded passwd i &&& 0x7f = padded passwd' i &&& 0x7f) :
    (∀ b < CHALLENGESIZE / 8, des (deskey (w := w') (padded passwd') DE1)
        (fun i => vncEncryptBytes w bytes passwd (8 * b + i)) = slice bytes (8 * b) 8) ∧
      ∀ i, CHALLENGESIZE ≤ i → vncEncryptBytes w bytes passwd i = bytes i := by
  obtain ⟨hblocks, hrest⟩ := blocks_encrypted (deskey (w := w) (padded passwd) EN0) bytes (CHALLENGESIZE / 8)
  refine ⟨fun b hb => ?_, hrest⟩
  have hblock : ∀ i < 8, vncEncryptBytes w bytes passwd (8 * b + i) =
      (des (deskey (w := w) (padded passwd) EN0) fun k => bytes (8 * b + k)).getD i 0 := fun i hi => by
    rw [← hblocks b hb, List.getD_eq_getElem?_getD, List.getElem?_eq_getElem (by rw [slice_length]; exact hi)]
    unfold slice
    rw [List.getElem_map, List.getElem_range]
    rfl
  rw [des_congr _ hblock, ← deskey_congr hsame, (des_back hw hw' _ _).1]
  rfl

/-- A server that takes the first eight characters of a longer password. -/
theorem answer_decrypts_long :
    (∀ b < CHALLENGESIZE / 8, des (deskey (w := 64) (padded [112, 97, 115, 115, 119, 111, 114, 100]) DE1)
        (fun i => vncEncryptBytes 32 UInt8.ofNat [112, 97, 115, 115, 119, 111, 114, 100, 49] (8 * b + i)) =
          slice UInt8.ofNat (8 * b) 8) ∧
      ∀ i, CHALLENGESIZE ≤ i →
        vncEncryptBytes 32 UInt8.ofNat [112, 97, 115, 115, 119, 111, 114, 100, 49] i = UInt8.ofNat i :=
  answer_decrypts (by decide) (by decide) UInt8.ofNat [112, 97, 115, 115, 119, 111, 114, 100, 49]
    [112, 97, 115, 115, 119, 111, 114, 100] (by decide)

end Mvpmc.Vnc
