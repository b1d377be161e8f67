import Mvpmc.Cmyth.Number

/-! Numbers of 64 bits on the wire: two numbers of 32 bits up to some version, one number from then on. -/
namespace Mvpmc.Cmyth
open Mvpmc.Lib

/-- The conversion to `int32_t`. -/
def int32 (x : Int) : Int := x.bmod (2 ^ 32)

/-- The two numbers that `cmyth_file_seek` and `delete_command` print for one of 64 bits. -/
def hiHalf (x : Int) : Int := int32 (x >>> (32 : Nat))
def loHalf (x : Int) : Int := int32 (x % 2 ^ 32)

/-- They are printed with `%d`. -/
def halvesText (x : Int) : List UInt8 := longText (hiHalf x) ++ (separator ++ longText (loHalf x))

section Halves
variable {x : Int} (hlo : -2 ^ 63 ≤ x) (hhi : x < 2 ^ 63)
include hlo hhi

theorem hiHalf_eq : hiHalf x = x / 2 ^ 32 := by
  have hshift : x >>> (32 : Nat) = x / 2 ^ 32 := Int.shiftRight_eq_div_pow x 32
  rw [hiHalf, int32, hshift]
  exact Int.bmod_eq_of_le_mul_two (by omega) (by omega)

/-- Of the numbers an `int32_t` holds, the least one is not read back. -/
theorem hiHalf_small_iff : (hiHalf x).natAbs ≤ 0x7FFFFFFF ↔ -2 ^ 63 + 2 ^ 32 ≤ x := by
  rw [hiHalf_eq hlo hhi]
  omega

omit hlo hhi in
theorem loHalf_small_iff : (loHalf x).natAbs ≤ 0x7FFFFFFF ↔ x % 2 ^ 32 ≠ 2 ^ 31 := by
  rw [loHalf, int32, Int.bmod_def]
  split
  · omega
  · omega

theorem halves_eq : hiHalf x * 2 ^ 32 + loHalf x % 2 ^ 32 = x := by
  have hlow : loHalf x % 2 ^ 32 = x % 2 ^ 32 := by
    rw [loHalf, int32, Int.bmod_def]
    split
    · omega
    · omega
  rw [hiHalf_eq hlo hhi, hlow]
  omega

omit hlo hhi in
theorem length_longText_int32 (x : Int) : (longText (int32 x)).length < 32 := by
  have habs : (int32 x).natAbs < 10 ^ 10 := by
    have h1 : -(2 ^ 32 / 2) ≤ int32 x := Int.le_bmod (by decide)
    have h2 : int32 x < (2 ^ 32 + 1) / 2 := Int.bmod_lt (by decide)
    omega
  have hle := length_longText_le (by decide) habs
  omega

omit hlo hhi in
theorem longOf_longText {tail : List UInt8} {y : Int} (hl : (longText y).length < 32) (ht : Tail tail) :
    longOf (longText y ++ tail) = if y.natAbs ≤ 0x7FFFFFFF then some y else none := by
  have hne : longText y ++ tail ≠ [] := by
    rcases longText_cases y with ⟨-, htext⟩ | ⟨-, htext⟩
    · rw [htext]
      exact List.cons_ne_nil _ _
    · rw [htext]
      exact List.append_ne_nil_of_left_ne_nil (Decimal.text_ne_nil _) tail
  unfold longOf
  rw [if_neg hne]
  exact numberIn_longText (receive_plain (plain_longText y) hl ht).1

/-- The two numbers read back: what `cmyth_rcv_old_int64` returns without an error is the number that was sent, and the
error comes from the least number of 32 bits in one of the halves. -/
theorem rcvOldInt64_halves_iff {conn : Conn} {tail next : List UInt8} (old : Int) (ht : Tail tail)
    (hat : At conn (halvesText x ++ tail) next) :
    ((rcvOldInt64 conn old (halvesText x ++ tail).length).1.err = 0 ∧
        (rcvOldInt64 conn old (halvesText x ++ tail).length).1.value = x) ↔
      -2 ^ 63 + 2 ^ 32 ≤ x ∧ x % 2 ^ 32 ≠ 2 ^ 31 := by
  obtain ⟨hval, herr⟩ := hat.rcvOldInt64_number old
  have hsplit : halvesText x ++ tail = longText (hiHalf x) ++ (separator ++ (longText (loHalf x) ++ tail)) := by
    simp only [halvesText, List.append_assoc]
  have htail : Tail (separator ++ (longText (loHalf x) ++ tail)) := .inr ⟨_, rfl⟩
  have hfirst : longOf (halvesText x ++ tail) = if (hiHalf x).natAbs ≤ 0x7FFFFFFF then some (hiHalf x) else none := by
    rw [hsplit]
    exact longOf_longText (length_longText_int32 _) htail
  have hdrop : (halvesText x ++ tail).drop (receive 32 (halvesText x ++ tail)).2 = longText (loHalf x) ++ tail := by
    have hlen : (longText (hiHalf x)).length < 32 := length_longText_int32 _
    rw [hsplit, (receive_plain (plain_longText _) hlen htail).2]
    rfl
  have hsecond : longOf (longText (loHalf x) ++ tail) =
      if (loHalf x).natAbs ≤ 0x7FFFFFFF then some (loHalf x) else none :=
    longOf_longText (length_longText_int32 _) ht
  rw [hval, herr, hdrop, hfirst, hsecond, ← hiHalf_small_iff hlo hhi, ← loHalf_small_iff]
  by_cases h1 : (hiHalf x).natAbs ≤ 0x7FFFFFFF
  · by_cases h2 : (loHalf x).natAbs ≤ 0x7FFFFFFF
    · rw [if_pos h1, if_pos h2]
      exact iff_of_true ⟨⟨Option.some_ne_none _, Option.some_ne_none _⟩, halves_eq hlo hhi⟩ ⟨h1, h2⟩
    · rw [if_neg h2]
      exact iff_of_false (fun h => h.1.2 rfl) fun h => h2 h.2
  · rw [if_neg h1]
    exact iff_of_false (fun h => h.1.1 rfl) fun h => h1 h.1

end Halves

/-- A negative number, with a separator behind it and the first byte of the next message. -/
theorem rcvOldInt64_halves_negative :
    let conn : Conn := ⟨3, some fun _ => 0, 16, 0, 0, [halvesText (-5) ++ separator, [0x33]], 104⟩
    (rcvOldInt64 conn 0 (halvesText (-5) ++ separator).length).1.err = 0 ∧
      (rcvOldInt64 conn 0 (halvesText (-5) ++ separator).length).1.value = -5 := by
  intro conn
  have hpieces : Pieces conn.pieces := by simp [conn, Pieces, separator]
  have hat : At conn (halvesText (-5) ++ separator) [0x33] := by
    refine ⟨⟨by decide, by simp [conn], by decide, hpieces⟩, ?_, Nat.zero_le _⟩
    simp [conn, Conn.stream, Conn.buffered, Circular.slice_zero]
  have htail : Tail separator := .inr ⟨[], rfl⟩
  exact (rcvOldInt64_halves_iff (by decide) (by decide) 0 htail hat).mpr ⟨by decide, by decide⟩

/-- The low half of `2 ^ 31` is printed as `-2147483648`. -/
theorem low_half_out_of_range :
    let conn : Conn := ⟨3, some fun _ => 0, 16, 0, 0, [halvesText (2 ^ 31)], 104⟩
    let r := rcvOldInt64 conn 0 (halvesText (2 ^ 31)).length
    At conn (halvesText (2 ^ 31)) [] ∧ r.1.err = ERANGE ∧ ¬ (r.1.err = 0 ∧ r.1.value = 2 ^ 31) := by
  intro conn r
  have hpieces : Pieces conn.pieces := by decide
  refine ⟨⟨⟨by decide, by simp [conn], by decide, hpieces⟩, ?_, Nat.zero_le _⟩, by decide, by decide⟩
  simp [conn, Conn.stream, Conn.buffered, Circular.slice_zero]

namespace At
variable {conn : Conn} {payload next : List UInt8}

/-- Both calls leave nothing of a payload with one token. -/
theorem rcvNewInt64_emptied (h : At conn payload next) (hone : payload.drop (receive 32 payload).2 = []) (version : Nat)
    (old : Int) (forced : Bool) : At (rcvNewInt64 version conn old payload.length forced).2 [] next := by
  by_cases hnil : payload = []
  · subst hnil
    unfold rcvNewInt64 rcvOldInt64
    simpa using h
  · have hpos := List.length_pos_of_ne_nil hnil
    obtain ⟨hs, hat⟩ := h.rcvString 0 32
    have hlong := h.rcvLong 0
    rw [hone] at hat hlong
    unfold rcvNewInt64
    split
    · -- the call for the second number finds no byte left
      obtain ⟨-, -, hcons⟩ := h.rcvLong_number 0
      have hle := List.drop_eq_nil_iff.mp hone
      unfold rcvOldInt64
      rw [if_neg (by omega)]
      dsimp only
      rw [hcons hnil]
      split
      · exact hlong
      · have hnone (old : Int) : Cmyth.rcvLong (Cmyth.rcvLong conn 0 payload.length).2 old
            (payload.length - (receive 32 payload).2) = (⟨0, EINVAL, old⟩, (Cmyth.rcvLong conn 0 payload.length).2) := by
          unfold Cmyth.rcvLong
          exact if_pos (by omega)
        rw [hnone]
        split
        · exact hlong
        · exact hlong
    · rw [if_neg (by omega)]
      dsimp only
      split
      · exact hat
      · split
        · exact hat
        · exact hat

end At

namespace Transfer

/-- `cmyth_file_request_block` from its reply on: the counters, unless it returns before them, and the control
connection. The error of `cmyth_rcv_long` goes unnoticed. -/
def File.requestBlockReply (f : File) (old : Int) (conn : Conn) : Option File × Conn :=
  let l := rcvLength conn
  if l.1 < 0 then (none, l.2)
  else
    let c := rcvLong l.2 old l.1
    (some { f with req := wrap64 (f.req + c.1.value) }, c.2)

/-- The same reply as `cmyth_file_read` reads it, where `old` is in `len64`. -/
def File.readReply (f : File) (old : Int) (conn : Conn) : Option File × Conn :=
  let l := rcvLength conn
  if l.1 < 0 then (none, l.2)
  else
    let len64 := rcvNewInt64 f.version l.2 old l.1 true
    (some (Reading.grant f len64.1.value), len64.2)

theorem File.requestBlock_reply (f : File) (old : Int) (conn : Conn) :
    (f.requestBlock old conn) = match (f.requestBlockReply old conn).1 with
      | none => .returns (rcvLength conn).1 f
      | some g => .returns ((rcvLong (rcvLength conn).2 old (rcvLength conn).1).1.value.bmod (2 ^ 32)) g := by
  unfold requestBlock requestBlockReply
  dsimp only
  split
  · rfl
  · rfl

theorem Reading.reply_grant (f : File) (r : Reading) (old : Int) (conn : Conn) (poll : Poll) (data : List Sent) :
    match (f.readReply old conn).1 with
      | none => r.reply f old conn poll data = (.returns (rcvLength conn).1 f, data)
      | some g => ∃ len64, g = grant f len64 ∧ r.reply f old conn poll data = r.answered f len64 poll data := by
  unfold reply File.readReply
  dsimp only
  by_cases hneg : (rcvLength conn).1 < 0
  · rw [if_pos hneg, if_pos hneg]
  · rw [if_neg hneg, if_neg hneg]
    exact ⟨_, rfl, rfl⟩

/-- The counter of the bytes requested has advanced by `g` and nothing is left of the reply. -/
def Advances (f : File) (g : Nat) (next : List UInt8) (r : Option File × Conn) : Prop :=
  r.1 = some { f with req := (f.req + g) % 2 ^ 64 } ∧ Emptied r.2 next

section Readers
variable {f : File} {conn : Conn} {field next : List UInt8} {g : Nat} (hg : g ≤ 0x7FFFFFFF) (hr : conn.Ready)
  (hempty : conn.len ≤ conn.pos) (hw : WellFormed field (Decimal.text g))
  (hbytes : conn.pieces.flatten = field ++ (Decimal.text g ++ next))
include hg

theorem longText_grant : longText (g : Int) = Decimal.text g := if_neg (by omega)

theorem length_text_grant : (Decimal.text g).length < 32 := by
  have hle := Decimal.length_text_le (show 0 < 10 by decide) (show g < 10 ^ 10 by omega)
  omega

theorem receive_text_grant :
    (receive 32 (Decimal.text g)).1 = longText g ∧ (Decimal.text g).drop (receive 32 (Decimal.text g)).2 = [] := by
  have h := receive_plain (plain_longText g) (longText_grant hg ▸ length_text_grant hg) (.inl rfl)
  rw [List.append_nil, longText_grant hg] at h
  rw [longText_grant hg]
  exact h

include hr hempty hw hbytes

theorem requestBlockReply_advances (old : Int) : Advances f g next (f.requestBlockReply old conn) := by
  obtain ⟨hlen, hat, -⟩ := rcvLength_at hr hempty hw hbytes
  obtain ⟨htoken, hdrop⟩ := receive_text_grant hg
  obtain ⟨hval, -⟩ := hat.rcvLong_number old
  have hlong := hat.rcvLong old
  rw [hdrop] at hlong
  have hnumber : longOf (Decimal.text g) = some (g : Int) := by
    unfold longOf
    rw [if_neg (Decimal.text_ne_nil g), numberIn_longText htoken]
    exact if_pos (by omega)
  unfold File.requestBlockReply
  dsimp only
  rw [hlen, if_neg (by omega)]
  refine ⟨?_, hlong.emptied_iff.mpr rfl⟩
  dsimp only
  have hwrap : wrap64 (f.req + (g : Int)) = (f.req + g) % 2 ^ 64 := by
    unfold wrap64
    omega
  rw [hval, hnumber, Option.getD_some, hwrap]

/-- The reply is read as two numbers up to version 56, and nothing is then put into `len64`. -/
theorem readReply_advances_iff (old : Int) :
    Advances f g next (f.readReply old conn) ↔ 57 ≤ f.version ∨ Reading.bounded old = g := by
  obtain ⟨hlen, hat, -⟩ := rcvLength_at hr hempty hw hbytes
  obtain ⟨htoken, hdrop⟩ := receive_text_grant hg
  have hval := hat.rcvNewInt64_number f.version old true
  have hemptied := (hat.rcvNewInt64_emptied hdrop f.version old true).emptied_iff.mpr rfl
  have hone : int64Of f.version true (Decimal.text g) = if 57 ≤ f.version then some (g : Int) else none := by
    unfold int64Of
    by_cases hv : 57 ≤ f.version
    · have htwo : twoNumbers f.version true = false := by simp [twoNumbers, hv]
      rw [if_pos hv, htwo, if_neg (by decide), if_neg (Decimal.text_ne_nil g)]
      exact numberIn_longText_int64 htoken (by omega)
    · have htwo : twoNumbers f.version true = true := by simp [twoNumbers, not_le.mp hv]
      have hnone : longOf [] = none := if_pos rfl
      rw [if_neg hv, if_pos htwo, hdrop, hnone]
      exact Option.bind_fun_none _
  have hreply : (f.readReply old conn).1 = some (Reading.grant f ((int64Of f.version true (Decimal.text g)).getD old)) := by
    unfold File.readReply
    dsimp only
    rw [hlen, if_neg (by omega), hval]
  have hconn : Emptied (f.readReply old conn).2 next := by
    unfold File.readReply
    dsimp only
    rw [hlen, if_neg (by omega)]
    exact hemptied
  unfold Advances
  rw [and_iff_left hconn, hreply, hone]
  by_cases hv : 57 ≤ f.version
  · rw [if_pos hv, Option.getD_some]
    have hgrant : Reading.bounded g = g := (if_neg (by omega)).trans (Int.toNat_natCast g)
    exact iff_of_true (by rw [Reading.grant, hgrant]) (.inl hv)
  · rw [if_neg hv, Option.getD_none, or_iff_right hv]
    have hlt : Reading.bounded old < 2 ^ 32 := by
      unfold Reading.bounded
      split
      · decide
      · omega
    constructor
    · intro h
      have hreq := congrArg File.req (Option.some.inj h)
      change (f.req + Reading.bounded old) % 2 ^ 64 = (f.req + g) % 2 ^ 64 at hreq
      omega
    · intro h
      rw [Reading.grant, h]

/-- Both calls take the number from the reply exactly when it is not read as two. Before version 57 the call
for reads adds what its uninitialised variable holds, if that is a number of 32 bits. -/
theorem readers_agree_iff (old len64 : Int) :
    (Advances f g next (f.requestBlockReply old conn) ∧ Advances f g next (f.readReply len64 conn)) ↔
      57 ≤ f.version ∨ Reading.bounded len64 = g := by
  rw [readReply_advances_iff hg hr hempty hw hbytes len64]
  exact and_iff_right (requestBlockReply_advances hg hr hempty hw hbytes old)

end Readers

/-- A reply of two digits in two pieces, with the next message behind it. -/
theorem readers_agree_fifteen :
    let conn : Conn := ⟨3, some fun _ => 0, 16, 0, 0, [[0x32, 0x20, 0x20, 0x20, 0x20], [0x20, 0x20, 0x20, 0x31, 0x35, 0x33]], 104⟩
    let f : File := ⟨57, 100, 10, 20⟩
    Advances f 15 [0x33] (f.requestBlockReply 0 conn) ∧ Advances f 15 [0x33] (f.readReply 0 conn) := by
  intro conn f
  have hready : conn.Ready := ⟨by decide, by simp [conn], by decide, by decide⟩
  have hw : WellFormed [0x32, 0x20, 0x20, 0x20, 0x20, 0x20, 0x20, 0x20] (Decimal.text 15) := ⟨rfl, by decide⟩
  exact (readers_agree_iff (by decide) hready (by decide) hw (by decide) 0 0).mpr (.inl (by decide))

/-- On a connection of version 56 the same reply counts for the one call and not for the other. -/
theorem readers_differ :
    let conn : Conn := ⟨3, some fun _ => 0, 16, 0, 0, [[0x32, 0x20, 0x20, 0x20, 0x20, 0x20, 0x20, 0x20, 0x31, 0x35]], 104⟩
    let f : File := ⟨56, 100, 10, 20⟩
    WellFormed [0x32, 0x20, 0x20, 0x20, 0x20, 0x20, 0x20, 0x20] (Decimal.text 15) ∧
      (f.requestBlockReply 0 conn).1 = some { f with req := 35 } ∧ (f.readReply 0 conn).1 = some f ∧
      ¬ Advances f 15 [] (f.readReply 0 conn) := by
  intro conn f
  have hread : (f.readReply 0 conn).1 = some f := by decide
  refine ⟨⟨rfl, by decide⟩, by decide, hread, ?_⟩
  rintro ⟨h, -⟩
  rw [hread] at h
  exact absurd (congrArg File.req (Option.some.inj h)) (by decide)

end Transfer
end Mvpmc.Cmyth
