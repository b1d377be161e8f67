import Mvpmc.Lib.ByteOrder
import Mvpmc.Lib.Transducer

/-! The cypher of the ReplayTV protocol (`crypt.c`). `md5` is the digest of the bytes fed to a context. -/
namespace Mvpmc.Replaytv
open Mvpmc.Lib

/-- The bytes fed to the digest behind the message. -/
def extradata : Fin 2 → List UInt8
  | 0 => [
      0x41, 0x47, 0xc8, 0x09, 0xba, 0x3c, 0x99, 0x6a, 0xda, 0x09, 0x9a, 0x0f, 0xc0, 0xd3, 0x47, 0xca,
      0xd1, 0x95, 0x81, 0x19, 0xab, 0x17, 0xc6, 0x5f, 0xad, 0xea, 0xe5, 0x75, 0x9c, 0x49, 0x18, 0xa5,
      0xdf, 0x35, 0x46, 0x5b, 0x78, 0x0e, 0xcb, 0xc7, 0x8c, 0x3e, 0xf4, 0x90, 0xa2, 0xb7, 0x8e, 0x00,
      0x53, 0x8d, 0x4c, 0xab, 0x13, 0xa5, 0x16, 0x00, 0xff, 0xb8, 0x4b, 0x20, 0x29, 0x22, 0x9d, 0xee]
  | 1 => [
      0xda, 0x76, 0x5c, 0xd4, 0x34, 0xc3, 0xd7, 0x2c, 0xac, 0x40, 0xb8, 0xd8, 0x59, 0xbc, 0x59, 0x34,
      0xaa, 0xbf, 0x89, 0xbd, 0x85, 0xe8, 0x40, 0x27, 0x78, 0x2b, 0x18, 0x6e, 0xa6, 0x6e, 0x5a, 0xc6,
      0xda, 0xe3, 0x86, 0x84, 0x40, 0x14, 0x2a, 0x23, 0x4f, 0x5d, 0x38, 0x5e, 0x7f, 0xd9, 0x73, 0x7d,
      0xe4, 0x80, 0x3d, 0x21, 0x28, 0x41, 0xf1, 0xb2, 0x96, 0x43, 0x2b, 0xcc, 0x0c, 0x9d, 0x26, 0xb9]

/-- The word that a cyphertext begins with. -/
def SANITY : UInt32 := 0x42ffdfa9

/-- One turn of the loop of `cryptblock`. -/
def cryptbyte (k : UInt32) (b : UInt8) : UInt32 × List UInt8 :=
  let k := k * 0xb8f7 + 0x15bb9
  (k, [b ^^^ k.toUInt8])

/-- `cryptblock`: the key behind the block, and the block. -/
def cryptblock (k : UInt32) (buf : List UInt8) : UInt32 × List UInt8 := Transducer.run cryptbyte k buf

/-- The time that is sent, moved by `TIMEOFF` where that is set. -/
def stamp (clock : UInt32) : Option Int → UInt32
  | none => clock
  | some off => clock + UInt32.ofInt off

/-- The key material scrambled with the obfuscatory material. -/
def scramble (keyBuf obfuscBuf : List UInt8) : List UInt8 :=
  [obfuscBuf.getD 3 0, keyBuf.getD 2 0, keyBuf.getD 0 0, obfuscBuf.getD 2 0, keyBuf.getD 1 0, obfuscBuf.getD 1 0,
    obfuscBuf.getD 0 0, keyBuf.getD 3 0]

/-- The key material of a cyphertext. -/
def unshuffle (cyphertext : List UInt8) : List UInt8 :=
  [cyphertext.getD 2 0, cyphertext.getD 4 0, cyphertext.getD 1 0, cyphertext.getD 7 0]

/-- What `rtv_decrypt` returns and stores. -/
structure Decrypted where
  ret : Int
  plainbuf : List UInt8 := []
  time : Option UInt32 := none
  plainLen : Option UInt32 := none
  deriving DecidableEq, Repr

section
variable (md5 : List UInt8 → Vector UInt8 16) (order : ByteOrder)

def checksum (src : List UInt8) (checksumNum : Fin 2) : List UInt8 := (md5 (src ++ extradata checksumNum)).toList

/-- `rtv_decrypt`. -/
def rtvDecrypt (cyphertext : List UInt8) (plainbufLen : UInt32) (checksumNum : Fin 2) : Decrypted :=
  let cyphertextLen := UInt32.ofNat cyphertext.length
  if plainbufLen < cyphertextLen - 32 then { ret := -1 }
  else
    let key := order.ntohl (order.load (unshuffle cyphertext)) ^^^ 0xcb0baf47
    let sanityBuf := cryptblock key ((cyphertext.drop 24).take 4)
    if order.ntohl (order.load sanityBuf.2) ≠ SANITY then { ret := -1 }
    else
      let timeBuf := cryptblock sanityBuf.1 ((cyphertext.drop 28).take 4)
      let plainbuf := (cryptblock timeBuf.1 ((cyphertext.drop 32).take (cyphertextLen - 32).toNat)).2
      if checksum md5 (cyphertext.drop 24) checksumNum ≠ (cyphertext.drop 8).take 16 then
        { ret := -2, plainbuf := plainbuf }
      else
        { ret := 0, plainbuf := plainbuf, time := some (order.ntohl (order.load timeBuf.2))
          plainLen := some (cyphertextLen - 32) }

/-- `rtv_encrypt`: the cyphertext and its length, unless the buffer is too small. -/
def rtvEncrypt (key obfusc clock : UInt32) (timeoff : Option Int) (plaintext : List UInt8) (bufferLen : UInt32)
    (checksumNum : Fin 2) : Option (List UInt8 × UInt32) :=
  let plaintextLen := UInt32.ofNat plaintext.length
  if bufferLen < plaintextLen + 32 then none
  else
    let t := stamp clock timeoff
    let keyBuf := order.store (order.ntohl (key ^^^ 0xcb0baf47))
    let obfuscBuf := order.store (order.ntohl obfusc)
    let body := (cryptblock key (order.store (order.ntohl SANITY) ++ order.store (order.ntohl t) ++ plaintext)).2
    some (scramble keyBuf obfuscBuf ++ checksum md5 body checksumNum ++ body, plaintextLen + 32)

end

/-- The key in the first bytes of a cyphertext. -/
def keyOf (cyphertext : List UInt8) : UInt32 := ofNetwork (unshuffle cyphertext) ^^^ 0xcb0baf47

/-- All of a cyphertext behind the checksum decrypted at once. -/
def decrypted (cyphertext : List UInt8) : List UInt8 := (cryptblock (keyOf cyphertext) (cyphertext.drop 24)).2

section
variable {md5 : List UInt8 → Vector UInt8 16} {order : ByteOrder} {cyphertext plaintext : List UInt8} {checksumNum : Fin 2}

theorem length_cryptbyte (k : UInt32) (b : UInt8) : (cryptbyte k b).2.length = 1 := rfl

theorem length_cryptblock (k : UInt32) (buf : List UInt8) : (cryptblock k buf).2.length = buf.length :=
  Transducer.length_run length_cryptbyte k buf

/-- The same key gives the block back. -/
theorem cryptblock_cryptblock (k : UInt32) (buf : List UInt8) : (cryptblock k (cryptblock k buf).2).2 = buf := by
  have hback (k : UInt32) (b : UInt8) : Transducer.run cryptbyte k (cryptbyte k b).2 = ((cryptbyte k b).1, [b]) := by
    unfold cryptbyte
    dsimp only
    rw [Transducer.run_singleton, UInt8.xor_assoc, UInt8.xor_self, UInt8.xor_zero]
  unfold cryptblock
  rw [Transducer.run_undo hback]

theorem length_checksum (src : List UInt8) : (checksum md5 src checksumNum).length = 16 := by
  unfold checksum
  rw [Vector.length_toList]

/-- Decrypting word, time and text one after the other comes to decrypting them at once. -/
theorem rtvDecrypt_eq {plainbufLen : UInt32} (hn : 32 ≤ cyphertext.length) (hlt : cyphertext.length < 2 ^ 32)
    (hfits : cyphertext.length - 32 ≤ plainbufLen.toNat) :
    rtvDecrypt md5 order cyphertext plainbufLen checksumNum =
      if ofNetwork ((decrypted cyphertext).take 4) ≠ SANITY then { ret := -1 }
      else if checksum md5 (cyphertext.drop 24) checksumNum ≠ (cyphertext.drop 8).take 16 then
        { ret := -2, plainbuf := (decrypted cyphertext).drop 8 }
      else
        { ret := 0, plainbuf := (decrypted cyphertext).drop 8
          time := some (ofNetwork (((decrypted cyphertext).drop 4).take 4))
          plainLen := some (UInt32.ofNat (cyphertext.length - 32)) } := by
  have hlen : UInt32.ofNat cyphertext.length - 32 = UInt32.ofNat (cyphertext.length - 32) := by
    rw [UInt32.ofNat_sub hn]
    rfl
  have hvalue : (UInt32.ofNat (cyphertext.length - 32)).toNat = cyphertext.length - 32 :=
    UInt32.toNat_ofNat_of_lt' (by unfold UInt32.size; omega)
  have hroom : ¬ plainbufLen < UInt32.ofNat (cyphertext.length - 32) := by
    rw [UInt32.lt_iff_toNat_lt, hvalue]
    omega
  have hkey : order.ntohl (order.load (unshuffle cyphertext)) ^^^ 0xcb0baf47 = keyOf cyphertext :=
    congrArg (· ^^^ 0xcb0baf47) (ByteOrder.ntohl_load order rfl)
  have htext : (cyphertext.drop 32).take (cyphertext.length - 32) = cyphertext.drop 32 :=
    List.take_of_length_le (Nat.le_of_eq List.length_drop)
  -- the three pieces of the key stream
  have hword : (decrypted cyphertext).take 4 = (cryptblock (keyOf cyphertext) ((cyphertext.drop 24).take 4)).2 :=
    Transducer.run_take length_cryptbyte _ _ _
  have hrest : (decrypted cyphertext).drop 4 =
      (cryptblock (cryptblock (keyOf cyphertext) ((cyphertext.drop 24).take 4)).1 (cyphertext.drop 28)).2 := by
    have h := Transducer.run_drop length_cryptbyte (keyOf cyphertext) (cyphertext.drop 24) 4
    rw [List.drop_drop] at h
    exact h
  have htime : ((decrypted cyphertext).drop 4).take 4 =
      (cryptblock (cryptblock (keyOf cyphertext) ((cyphertext.drop 24).take 4)).1 ((cyphertext.drop 28).take 4)).2 := by
    rw [hrest]
    exact Transducer.run_take length_cryptbyte _ _ _
  have hplain : (decrypted cyphertext).drop 8 = (cryptblock (cryptblock (cryptblock (keyOf cyphertext)
      ((cyphertext.drop 24).take 4)).1 ((cyphertext.drop 28).take 4)).1 (cyphertext.drop 32)).2 := by
    have h := Transducer.run_drop length_cryptbyte (cryptblock (keyOf cyphertext) ((cyphertext.drop 24).take 4)).1
      (cyphertext.drop 28) 4
    rw [List.drop_drop] at h
    have height : (decrypted cyphertext).drop 8 = ((decrypted cyphertext).drop 4).drop 4 := by rw [List.drop_drop]
    rw [height, hrest]
    exact h
  have hfour : (cryptblock (keyOf cyphertext) ((cyphertext.drop 24).take 4)).2.length = 4 := by
    rw [length_cryptblock, List.length_take, List.length_drop]
    omega
  have hfour' : (cryptblock (cryptblock (keyOf cyphertext) ((cyphertext.drop 24).take 4)).1
      ((cyphertext.drop 28).take 4)).2.length = 4 := by
    rw [length_cryptblock, List.length_take, List.length_drop]
    omega
  unfold rtvDecrypt
  dsimp only
  rw [hlen, if_neg hroom, hkey, hvalue, htext, ByteOrder.ntohl_load order hfour, ByteOrder.ntohl_load order hfour',
    hword, htime, hplain]

/-- A cyphertext is taken exactly when it begins with the right word and has the right checksum. -/
theorem ret_rtvDecrypt_iff {plainbufLen : UInt32} (hn : 32 ≤ cyphertext.length) (hlt : cyphertext.length < 2 ^ 32)
    (hfits : cyphertext.length - 32 ≤ plainbufLen.toNat) :
    (rtvDecrypt md5 order cyphertext plainbufLen checksumNum).ret = 0 ↔
      ofNetwork ((decrypted cyphertext).take 4) = SANITY ∧
        (cyphertext.drop 8).take 16 = checksum md5 (cyphertext.drop 24) checksumNum := by
  rw [rtvDecrypt_eq hn hlt hfits]
  split
  · rename_i hsane
    simp [hsane]
  · rename_i hsane
    split
    · rename_i hsum
      simp [Ne.symm hsum]
    · rename_i hsum
      exact iff_of_true rfl ⟨not_not.mp hsane, (not_not.mp hsum).symm⟩

/-- What is encrypted under the key: the word, the time and the text. -/
def message (t : UInt32) (plaintext : List UInt8) : List UInt8 := toNetwork SANITY ++ toNetwork t ++ plaintext

theorem length_message (t : UInt32) : (message t plaintext).length = plaintext.length + 8 := by
  have hword (x : UInt32) : (toNetwork x).length = 4 := rfl
  unfold message
  rw [List.length_append, List.length_append, hword, hword]
  omega

theorem keyOf_scramble (key obfusc : UInt32) (tail : List UInt8) :
    keyOf (scramble (toNetwork (key ^^^ 0xcb0baf47)) (toNetwork obfusc) ++ tail) = key := by
  have hkey : unshuffle (scramble (toNetwork (key ^^^ 0xcb0baf47)) (toNetwork obfusc) ++ tail) =
      toNetwork (key ^^^ 0xcb0baf47) := rfl
  unfold keyOf
  rw [hkey, ofNetwork_toNetwork, UInt32.xor_assoc, UInt32.xor_self, UInt32.xor_zero]

/-- A cyphertext: the scrambled key, the checksum, and the message encrypted. -/
def envelope (md5 : List UInt8 → Vector UInt8 16) (key obfusc t : UInt32) (plaintext : List UInt8)
    (checksumNum : Fin 2) : List UInt8 :=
  scramble (toNetwork (key ^^^ 0xcb0baf47)) (toNetwork obfusc) ++
    checksum md5 (cryptblock key (message t plaintext)).2 checksumNum ++ (cryptblock key (message t plaintext)).2

theorem length_scramble (keyBuf obfuscBuf : List UInt8) : (scramble keyBuf obfuscBuf).length = 8 := rfl

section
variable {key obfusc t : UInt32}

theorem length_envelope : (envelope md5 key obfusc t plaintext checksumNum).length = plaintext.length + 32 := by
  unfold envelope
  rw [List.length_append, List.length_append, length_scramble, length_checksum, length_cryptblock, length_message]
  omega

theorem drop_envelope :
    (envelope md5 key obfusc t plaintext checksumNum).drop 24 = (cryptblock key (message t plaintext)).2 := by
  unfold envelope
  exact List.drop_left' (by rw [List.length_append, length_scramble, length_checksum])

theorem checksum_envelope : ((envelope md5 key obfusc t plaintext checksumNum).drop 8).take 16 =
    checksum md5 ((envelope md5 key obfusc t plaintext checksumNum).drop 24) checksumNum := by
  rw [drop_envelope]
  unfold envelope
  rw [List.append_assoc, List.drop_left' (length_scramble _ _)]
  exact List.take_left' (length_checksum _)

theorem decrypted_envelope : decrypted (envelope md5 key obfusc t plaintext checksumNum) = message t plaintext := by
  unfold decrypted
  rw [drop_envelope]
  unfold envelope
  rw [List.append_assoc, keyOf_scramble, cryptblock_cryptblock]

theorem rtvEncrypt_eq {clock bufferLen : UInt32} {timeoff : Option Int} (hlt : plaintext.length + 32 < 2 ^ 32)
    (hfits : plaintext.length + 32 ≤ bufferLen.toNat) :
    rtvEncrypt md5 order key obfusc clock timeoff plaintext bufferLen checksumNum =
      some (envelope md5 key obfusc (stamp clock timeoff) plaintext checksumNum,
        UInt32.ofNat (plaintext.length + 32)) := by
  have hlen : UInt32.ofNat plaintext.length + 32 = UInt32.ofNat (plaintext.length + 32) := by
    rw [UInt32.ofNat_add]
    rfl
  have hvalue : (UInt32.ofNat (plaintext.length + 32)).toNat = plaintext.length + 32 :=
    UInt32.toNat_ofNat_of_lt' (by unfold UInt32.size; omega)
  have hroom : ¬ bufferLen < UInt32.ofNat (plaintext.length + 32) := by
    rw [UInt32.lt_iff_toNat_lt, hvalue]
    omega
  unfold rtvEncrypt
  dsimp only
  rw [hlen, if_neg hroom, ByteOrder.store_ntohl, ByteOrder.store_ntohl, ByteOrder.store_ntohl, ByteOrder.store_ntohl]
  rfl

/-- What `rtv_encrypt` writes is taken, and gives back the time and the text. -/
theorem rtvDecrypt_envelope {plainbufLen : UInt32} (hlt : plaintext.length + 32 < 2 ^ 32)
    (hplain : plaintext.length ≤ plainbufLen.toNat) :
    rtvDecrypt md5 order (envelope md5 key obfusc t plaintext checksumNum) plainbufLen checksumNum =
      { ret := 0, plainbuf := plaintext, time := some t, plainLen := some (UInt32.ofNat plaintext.length) } := by
  have hlen : (envelope md5 key obfusc t plaintext checksumNum).length = plaintext.length + 32 := length_envelope
  have hword : ofNetwork ((message t plaintext).take 4) = SANITY := ofNetwork_toNetwork SANITY
  have htime : ofNetwork (((message t plaintext).drop 4).take 4) = t := ofNetwork_toNetwork t
  have htext : (message t plaintext).drop 8 = plaintext := rfl
  rw [rtvDecrypt_eq (by omega) (by omega) (by omega), decrypted_envelope, hword, if_neg (not_not.mpr rfl),
    checksum_envelope, if_neg (not_not.mpr rfl), htext, htime, hlen, Nat.add_sub_cancel]

end
end

/-- Decryption takes exactly the cyphertexts with the right word and the right checksum, and undoes encryption. -/
theorem decrypt_encrypt (md5 : List UInt8 → Vector UInt8 16) (order : ByteOrder) (checksumNum : Fin 2) :
    (∀ (key obfusc clock : UInt32) (timeoff : Option Int) (plaintext : List UInt8) (bufferLen plainbufLen : UInt32),
      plaintext.length + 32 < 2 ^ 32 → plaintext.length + 32 ≤ bufferLen.toNat → plaintext.length ≤ plainbufLen.toNat →
      ∃ cyphertext : List UInt8,
        rtvEncrypt md5 order key obfusc clock timeoff plaintext bufferLen checksumNum =
          some (cyphertext, UInt32.ofNat cyphertext.length) ∧
        rtvDecrypt md5 order cyphertext plainbufLen checksumNum =
          { ret := 0, plainbuf := plaintext, time := some (stamp clock timeoff)
            plainLen := some (UInt32.ofNat plaintext.length) }) ∧
    (∀ (cyphertext : List UInt8) (plainbufLen : UInt32), 32 ≤ cyphertext.length → cyphertext.length < 2 ^ 32 →
      cyphertext.length - 32 ≤ plainbufLen.toNat →
      ((rtvDecrypt md5 order cyphertext plainbufLen checksumNum).ret = 0 ↔
        ofNetwork ((decrypted cyphertext).take 4) = SANITY ∧
          (cyphertext.drop 8).take 16 = checksum md5 (cyphertext.drop 24) checksumNum)) := by
  constructor
  · intro key obfusc clock timeoff plaintext bufferLen plainbufLen hlt hfits hplain
    refine ⟨envelope md5 key obfusc (stamp clock timeoff) plaintext checksumNum, ?_, rtvDecrypt_envelope hlt hplain⟩
    rw [rtvEncrypt_eq hlt hfits, length_envelope]
  · intro cyphertext plainbufLen hn hlt hfits
    exact ret_rtvDecrypt_iff hn hlt hfits

/-- A short text, with the digest of its cyphertext. -/
theorem decrypt_encrypt_get :
    ∃ cyphertext : List UInt8,
      rtvEncrypt (fun _ => #v[0x6c, 0xd7, 0xfd, 0xb3, 0xe7, 0xfc, 0xc4, 0xe5, 0xb0, 0xef, 0xb7, 0x41, 0x9b, 0x8f, 0x2d, 0xcf])
        .big 1 2 1000000000 none [71, 69, 84] 1024 1 = some (cyphertext, UInt32.ofNat cyphertext.length) ∧
      rtvDecrypt (fun _ => #v[0x6c, 0xd7, 0xfd, 0xb3, 0xe7, 0xfc, 0xc4, 0xe5, 0xb0, 0xef, 0xb7, 0x41, 0x9b, 0x8f, 0x2d, 0xcf])
        .big cyphertext 3 1 = ⟨0, [71, 69, 84], some 1000000000, some 3⟩ :=
  (decrypt_encrypt _ .big 1).1 1 2 1000000000 none [71, 69, 84] 1024 3 (by decide) (by decide) (by decide)

end Mvpmc.Replaytv
