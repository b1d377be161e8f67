import Mvpmc.Vnc.D3des
import Mvpmc.Lib.Feistel

/-! What one key register encrypts, the other decrypts (`d3des.c`), where a long has 32 bits. -/
namespace Mvpmc.Vnc
open Mvpmc.Lib

section
variable {w : Nat}

/-- Bits that are not lost in a shift come back. -/
theorem shift_back {k : Nat} {m : BitVec w} (hm : (m <<< k) >>> k = m) (x : BitVec w) :
    ((x &&& m) <<< k) >>> k = x &&& m := by
  ext i hi
  have hbit : m[i] = ((m <<< k) >>> k)[i] := by rw [hm]
  have hge : ¬k + i < k := by omega
  simp only [BitVec.getElem_ushiftRight, BitVec.getLsbD_shiftLeft, BitVec.getElem_and, Nat.add_sub_cancel_left,
    BitVec.getLsbD_eq_getElem hi, hge, decide_false, Bool.not_false, Bool.and_true] at hbit ⊢
  rw [hbit, Bool.and_left_comm, ← Bool.and_assoc (decide _), Bool.and_self]

theorem xor_xor_cancel (a b : BitVec w) : a ^^^ b ^^^ b = a := by
  rw [BitVec.xor_assoc, BitVec.xor_self, BitVec.xor_zero]

/-- Bits that have changed places twice are where they were. -/
theorem exchange_exchange {k : Nat} {m : BitVec 32} (hm : (m.setWidth w <<< k) >>> k = m.setWidth w) (a b : BitVec w) :
    exchange k m (exchange k m a b).1 (exchange k m a b).2 = (a, b) := by
  unfold exchange
  dsimp only
  generalize hwork : (a >>> k ^^^ b) &&& m.setWidth w = work
  have hsame : ((a ^^^ work <<< k) >>> k ^^^ (b ^^^ work)) &&& m.setWidth w = work := by
    have hshift : (work <<< k) >>> k = work := by rw [← hwork, shift_back hm]
    have hcancel (x : BitVec w) : x ^^^ work ^^^ (b ^^^ work) = x ^^^ b := by
      rw [BitVec.xor_comm b, ← BitVec.xor_assoc, xor_xor_cancel]
    rw [BitVec.ushiftRight_xor_distrib, hshift, hcancel, hwork]
  rw [hsame, xor_xor_cancel, xor_xor_cancel]

end

/-- The rotations of `desfunc`. -/
theorem rotate_left (x : BitVec 32) : (x <<< 1 ||| (x >>> 31 &&& (1 : BitVec 32))) &&& 0xffffffff = x.rotateLeft 1 := by
  have hones : (0xffffffff : BitVec 32) = BitVec.allOnes 32 := by decide
  have hone : x >>> 31 &&& (1 : BitVec 32) = x >>> 31 := by
    ext i hi
    rw [BitVec.getElem_and, BitVec.getElem_ushiftRight]
    cases i with
    | zero => simp
    | succ i => rw [BitVec.getLsbD_of_ge x _ (by omega), Bool.false_and]
  rw [hones, BitVec.and_allOnes, hone]
  rfl

theorem rotate_right (x : BitVec 32) : x <<< 31 ||| x >>> 1 = x.rotateRight 1 := BitVec.or_comm ..

theorem rotate_right_left (x : BitVec 32) : (x.rotateRight 1).rotateLeft 1 = x := by
  ext i hi
  simp only [BitVec.getElem_rotateLeft, BitVec.getElem_rotateRight]
  grind

theorem rotate_left_right (x : BitVec 32) : (x.rotateLeft 1).rotateRight 1 = x := by
  ext i hi
  simp only [BitVec.getElem_rotateLeft, BitVec.getElem_rotateRight]
  grind

section
variable (k : Nat) (m : BitVec 32)

/-- An exchange, as a function of both words. -/
def exchanged (s : BitVec 32 × BitVec 32) : BitVec 32 × BitVec 32 := exchange k m s.1 s.2

theorem exchanged_twice (hm : (m.setWidth 32 <<< k) >>> k = m.setWidth 32) (s : BitVec 32 × BitVec 32) :
    exchanged k m (exchanged k m s) = s := exchange_exchange hm s.1 s.2

/-- Without a shift it does not matter which word is which. -/
theorem exchanged_swap (s : BitVec 32 × BitVec 32) : exchanged 0 m s.swap = (exchanged 0 m s).swap := by
  unfold exchanged exchange
  dsimp only
  rw [Prod.fst_swap, Prod.snd_swap, BitVec.ushiftRight_zero, BitVec.ushiftRight_zero, BitVec.xor_comm s.2 s.1,
    BitVec.shiftLeft_zero]
  rfl

end

/-- The permutation in front of the rounds. -/
theorem initial_eq (block : BitVec 32 × BitVec 32) : initial block =
    (exchanged 0 0xaaaaaaaa ((exchanged 8 0x00ff00ff (exchanged 2 0x33333333 (exchanged 16 0x0000ffff
      (exchanged 4 0x0f0f0f0f block)).swap)).swap.map id (·.rotateLeft 1))).map (·.rotateLeft 1) id := by
  unfold initial
  dsimp only
  rw [rotate_left, rotate_left]
  rfl

/-- The permutation behind the rounds is the other one backwards. -/
theorem final_eq (s : BitVec 32 × BitVec 32) : final s.swap =
    exchanged 4 0x0f0f0f0f (exchanged 16 0x0000ffff (exchanged 2 0x33333333 (exchanged 8 0x00ff00ff
      ((exchanged 0 0xaaaaaaaa (s.map (·.rotateRight 1) id)).map id (·.rotateRight 1)).swap)).swap) := by
  have hzero := exchanged_swap 0xaaaaaaaa (s.map (·.rotateRight 1) id)
  unfold final
  dsimp only
  rw [rotate_right, rotate_right]
  change exchanged 4 _ (exchanged 16 _ (exchanged 2 _ (exchanged 8 _
    ((exchanged 0 _ (s.map (·.rotateRight 1) id).swap).map (·.rotateRight 1) id))).swap) = _
  rw [hzero]
  rfl

theorem final_initial (block : BitVec 32 × BitVec 32) : final (initial block).swap = block := by
  have hrot (s : BitVec 32 × BitVec 32) : (s.map (·.rotateLeft 1) id).map (·.rotateRight 1) id = s :=
    Prod.ext (rotate_left_right s.1) rfl
  have hrot' (s : BitVec 32 × BitVec 32) : (s.map id (·.rotateLeft 1)).map id (·.rotateRight 1) = s :=
    Prod.ext rfl (rotate_left_right s.2)
  rw [final_eq, initial_eq, hrot, exchanged_twice 0 _ (by decide), hrot', Prod.swap_swap, exchanged_twice 8 _ (by decide),
    exchanged_twice 2 _ (by decide), Prod.swap_swap, exchanged_twice 16 _ (by decide), exchanged_twice 4 _ (by decide)]

theorem initial_final (s : BitVec 32 × BitVec 32) : initial (final s) = s.swap := by
  have hrot (s : BitVec 32 × BitVec 32) : (s.map (·.rotateRight 1) id).map (·.rotateLeft 1) id = s :=
    Prod.ext (rotate_right_left s.1) rfl
  have hrot' (s : BitVec 32 × BitVec 32) : (s.map id (·.rotateRight 1)).map id (·.rotateLeft 1) = s :=
    Prod.ext rfl (rotate_right_left s.2)
  have hfinal := final_eq s.swap
  rw [Prod.swap_swap] at hfinal
  rw [hfinal, initial_eq, exchanged_twice 4 _ (by decide), exchanged_twice 16 _ (by decide), Prod.swap_swap,
    exchanged_twice 2 _ (by decide), exchanged_twice 8 _ (by decide), Prod.swap_swap, hrot',
    exchanged_twice 0 _ (by decide), hrot]

section
variable {w : Nat}

/-- The keys of the rounds. -/
def roundKeys (knl : Nat → BitVec w) : List (BitVec w × BitVec w) :=
  (List.range 16).map fun i => (knl (2 * i), knl (2 * i + 1))

/-- The loop of `desfunc` is a network: two of its rounds are one of the loop. -/
theorem rounds_eq (knl : Nat → BitVec w) (s : BitVec w × BitVec w) :
    rounds knl s = Feistel.network (· ^^^ ·) (fun key right => fval right key.1 key.2) (roundKeys knl) s := rfl

/-- A loop that sets the pairs at `pos 0`, `pos 1` and so on. -/
theorem foldl_pairs {α : Type} (pos : Nat → Nat) (a b : Nat → α) (kn : Nat → α) {n : Nat}
    (hpos : ∀ i j, i < n → j < n → pos i = pos j → i = j) {i : Nat} (hi : i < n) :
    let kn' := (List.range n).foldl (fun kn i =>
      Function.update (Function.update kn (2 * pos i) (a i)) (2 * pos i + 1) (b i)) kn
    kn' (2 * pos i) = a i ∧ kn' (2 * pos i + 1) = b i := by
  induction n with
  | zero => exact absurd hi (Nat.not_lt_zero i)
  | succ n ih =>
    dsimp only
    rw [List.range_succ, List.foldl_append, List.foldl_cons, List.foldl_nil]
    by_cases hn : i = n
    · subst hn
      refine ⟨?_, Function.update_self ..⟩
      rw [Function.update_of_ne (by omega), Function.update_self]
    · have hne : pos i ≠ pos n := fun he => hn (hpos i n hi (Nat.lt_succ_self n) he)
      have hold := ih (fun i j hi hj => hpos i j (Nat.lt_succ_of_lt hi) (Nat.lt_succ_of_lt hj)) (by omega)
      rw [Function.update_of_ne (by omega), Function.update_of_ne (by omega), Function.update_of_ne (by omega),
        Function.update_of_ne (by omega)]
      exact hold

/-- The two words of the key of round `i`. -/
def rawKey (key : Nat → UInt8) (i : Nat) : BitVec w × BitVec w :=
  (halfKey (pcr key i) pc2, halfKey (pcr key i) (pc2.drop 24))

/-- The round that a key is for. -/
def place (edf : Int) (i : Nat) : Nat := if edf = DE1 then 15 - i else i

theorem rawKeys_eq (key : Nat → UInt8) (edf : Int) {i : Nat} (hi : i < 16) :
    (rawKeys key edf (2 * i), rawKeys key edf (2 * i + 1)) = (rawKey (w := w) key (place edf i)) := by
  have hpos : ∀ i j, i < 16 → j < 16 → place edf i = place edf j → i = j := by
    intro i j hi hj
    unfold place
    split <;> omega
  have hplace : place edf (place edf i) = i ∧ place edf i < 16 := by
    unfold place
    split <;> omega
  have hm (i : Nat) : (if edf = DE1 then (15 - i) <<< 1 else i <<< 1) = 2 * place edf i := by
    unfold place
    rw [Nat.shiftLeft_eq, Nat.shiftLeft_eq]
    split <;> omega
  obtain ⟨h0, h1⟩ := foldl_pairs (place edf) (fun i => halfKey (w := w) (pcr key i) pc2)
    (fun i => halfKey (pcr key i) (pc2.drop 24)) (fun _ => 0) hpos hplace.2
  rw [hplace.1] at h0 h1
  unfold rawKeys
  simp only [hm]
  exact Prod.ext h0 h1

/-- The key register of `deskey`. -/
theorem roundKeys_deskey (key : Nat → UInt8) (edf : Int) : roundKeys (deskey (w := w) key edf) =
    (List.range 16).map fun i => cook (rawKey key (place edf i)).1 (rawKey key (place edf i)).2 := by
  refine List.map_congr_left fun i hi => ?_
  have hi' := List.mem_range.mp hi
  obtain ⟨h0, h1⟩ := foldl_pairs id
    (fun i => (cook (rawKeys (w := w) key edf (2 * i)) (rawKeys key edf (2 * i + 1))).1)
    (fun i => (cook (rawKeys (w := w) key edf (2 * i)) (rawKeys key edf (2 * i + 1))).2) (fun _ => 0)
    (fun _ _ _ _ h => h) hi'
  rw [← rawKeys_eq key edf hi']
  exact Prod.ext h0 h1

/-- The keys to decrypt are those to encrypt, backwards. -/
theorem roundKeys_reverse (key : Nat → UInt8) : roundKeys (deskey (w := w) key DE1) =
    (roundKeys (deskey key EN0)).reverse := by
  have hrange : (List.range 16).reverse = (List.range 16).map (15 - ·) := by decide
  rw [roundKeys_deskey, roundKeys_deskey, ← List.map_reverse, hrange, List.map_map]
  exact List.map_congr_left fun i _ => rfl

end

/-- `desfunc` undoes itself with the keys backwards. -/
theorem desfunc_desfunc {knl knl' : Nat → BitVec 32} (hk : roundKeys knl' = (roundKeys knl).reverse)
    (block : BitVec 32 × BitVec 32) : desfunc (desfunc block knl) knl' = block := by
  have hback (s : BitVec 32 × BitVec 32) : rounds knl' (rounds knl s).swap = s.swap := by
    rw [rounds_eq, rounds_eq, hk]
    exact Feistel.network_reverse _ xor_xor_cancel _ s
  unfold desfunc
  rw [initial_final, hback, final_initial]

section
variable (a b c d : BitVec 8)

/-- Four bytes as a word. -/
def word {w : Nat} (a b c d : BitVec 8) : BitVec w :=
  a.setWidth w <<< 24 ||| b.setWidth w <<< 16 ||| c.setWidth w <<< 8 ||| d.setWidth w

theorem byte_eq (x : BitVec 32) (n : Nat) : (x >>> n &&& (0xff : BitVec 32)).setWidth 8 = x.extractLsb' n 8 := by
  have hones : (0xff : BitVec 32) = (BitVec.allOnes 8).setWidth 32 := by decide
  ext i hi
  simp only [hones, BitVec.getElem_setWidth, BitVec.getLsbD_and, BitVec.getLsbD_ushiftRight, BitVec.getLsbD_setWidth,
    BitVec.getLsbD_allOnes, BitVec.getElem_extractLsb']
  grind

theorem word_bytes : (word a b c d : BitVec 32).extractLsb' 24 8 = a ∧ (word a b c d : BitVec 32).extractLsb' 16 8 = b ∧
    (word a b c d : BitVec 32).extractLsb' 8 8 = c ∧ (word a b c d : BitVec 32).extractLsb' 0 8 = d := by
  unfold word
  refine ⟨?_, ?_, ?_, ?_⟩
  all_goals
    ext i hi
    simp only [BitVec.getElem_extractLsb', BitVec.getLsbD_or, BitVec.getLsbD_shiftLeft, BitVec.getLsbD_setWidth]
    grind

theorem bytes_word (x : BitVec 32) :
    word (x.extractLsb' 24 8) (x.extractLsb' 16 8) (x.extractLsb' 8 8) (x.extractLsb' 0 8) = x := by
  unfold word
  ext i hi
  simp only [BitVec.getElem_or, BitVec.getElem_shiftLeft, BitVec.getElem_setWidth, BitVec.getLsbD_extractLsb']
  grind

end

theorem unscrun_eq (s : BitVec 32 × BitVec 32) : unscrun s =
    [⟨s.1.extractLsb' 24 8⟩, ⟨s.1.extractLsb' 16 8⟩, ⟨s.1.extractLsb' 8 8⟩, ⟨s.1.extractLsb' 0 8⟩,
      ⟨s.2.extractLsb' 24 8⟩, ⟨s.2.extractLsb' 16 8⟩, ⟨s.2.extractLsb' 8 8⟩, ⟨s.2.extractLsb' 0 8⟩] := by
  have h0 (x : BitVec 32) := byte_eq x 0
  simp only [BitVec.ushiftRight_zero] at h0
  unfold unscrun
  dsimp only
  rw [byte_eq s.1 24, byte_eq s.1 16, byte_eq s.1 8, h0 s.1, byte_eq s.2 24, byte_eq s.2 16, byte_eq s.2 8, h0 s.2]

theorem unscrun_scrunch (outof : Nat → UInt8) : unscrun (scrunch (w := 32) outof) = (List.range 8).map outof := by
  have hscrunch : scrunch (w := 32) outof = (word (outof 0).toBitVec (outof 1).toBitVec (outof 2).toBitVec (outof 3).toBitVec,
    word (outof 4).toBitVec (outof 5).toBitVec (outof 6).toBitVec (outof 7).toBitVec) := rfl
  obtain ⟨h0, h1, h2, h3⟩ := word_bytes (outof 0).toBitVec (outof 1).toBitVec (outof 2).toBitVec (outof 3).toBitVec
  obtain ⟨h4, h5, h6, h7⟩ := word_bytes (outof 4).toBitVec (outof 5).toBitVec (outof 6).toBitVec (outof 7).toBitVec
  rw [unscrun_eq, hscrunch]
  dsimp only
  rw [h0, h1, h2, h3, h4, h5, h6, h7]
  rfl

theorem scrunch_unscrun (s : BitVec 32 × BitVec 32) : scrunch (fun i => (unscrun s).getD i 0) = s := by
  rw [unscrun_eq]
  exact Prod.ext (bytes_word s.1) (bytes_word s.2)

/-- `des` undoes itself with the keys backwards. -/
theorem des_des {knl knl' : Nat → BitVec 32} (hk : roundKeys knl' = (roundKeys knl).reverse) (inblock : Nat → UInt8) :
    des knl' (fun i => (des knl inblock).getD i 0) = (List.range 8).map inblock := by
  unfold des
  rw [scrunch_unscrun, desfunc_desfunc hk, unscrun_scrunch]

end Mvpmc.Vnc
