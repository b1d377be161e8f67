import Mvpmc.Cmyth.NumBuffer
import Mvpmc.Cmyth.ProginfoRcv

/-! Timestamps as text: what `cmyth_timestamp_from_string` accepts, and that the functions that print a timestamp
undo it (`timestamp.c`). -/
namespace Mvpmc.Cmyth
open Mvpmc.Lib
open Mvpmc.Lib.Decimal (eval pad)

namespace Timestamp

/-- `%4.4ld` and `%2.2ld`. -/
def fixed (w : Nat) (x : Int) : List UInt8 := if x < 0 then 0x2D :: pad w x.natAbs else pad w x.natAbs

def dateText (ts : Timestamp) : List UInt8 :=
  fixed 4 ts.year ++ 0x2D :: (fixed 2 ts.month ++ 0x2D :: fixed 2 ts.day)

/-- `cmyth_timestamp_to_string`: the error returned, or the text. -/
def toString : Option Timestamp → Except Int (List UInt8)
  | none => .error (-EINVAL)
  | some ts =>
    .ok (dateText ts ++ 0x54 :: (fixed 2 ts.hour ++ 0x3A :: (fixed 2 ts.minute ++ 0x3A :: fixed 2 ts.second)))

/-- `cmyth_timestamp_to_isostring`. -/
def toIsostring : Option Timestamp → Except Int (List UInt8)
  | none => .error (-EINVAL)
  | some ts => .ok (dateText ts)

/-- The string with its separators overwritten, from which the code reads the numbers. -/
def split (datetime : Bool) (s : List UInt8) : List UInt8 := (marks datetime).foldl (fun s m => s.set m.1 0) s

/-- Some digits of a timestamp: how many, and the limit of their number. -/
structure Field (w limit : Nat) (u : List UInt8) : Prop where
  length : u.length = w
  digits : Digits u
  le : eval u ≤ limit

/-- The texts of the form `dddd-dd-dd` and `dddd-dd-ddTdd:dd:dd` with fields in their limits, and what they say. -/
inductive Form : List UInt8 → Timestamp → Prop where
  | date {y m d : List UInt8} : Field 4 9999 y → Field 2 12 m → Field 2 31 d →
      Form (y ++ 0x2D :: (m ++ 0x2D :: d)) ⟨eval y, eval m, eval d, 0, 0, 0, 0⟩
  | stamp {y m d h n s : List UInt8} : Field 4 9999 y → Field 2 12 m → Field 2 31 d → Field 2 23 h → Field 2 59 n →
      Field 2 59 s →
      Form (y ++ 0x2D :: (m ++ 0x2D :: (d ++ 0x54 :: (h ++ 0x3A :: (n ++ 0x3A :: s)))))
        ⟨eval y, eval m, eval d, eval h, eval n, eval s, 0⟩

/-- The fields are in their limits. -/
structure InRange (ts : Timestamp) : Prop where
  year : 0 ≤ ts.year ∧ ts.year ≤ 9999
  month : 0 ≤ ts.month ∧ ts.month ≤ 12
  day : 0 ≤ ts.day ∧ ts.day ≤ 31
  hour : 0 ≤ ts.hour ∧ ts.hour ≤ 23
  minute : 0 ≤ ts.minute ∧ ts.minute ≤ 59
  second : 0 ≤ ts.second ∧ ts.second ≤ 59

theorem atoi_digits {u : List UInt8} (h : Digits u) : atoi u = eval u := by
  unfold atoi
  rw [cstring_digits h]
  cases u with
  | nil => rfl
  | cons b u =>
    have hb := h b List.mem_cons_self
    have hspace : isSpace b = false := by
      have := Decimal.toNat_of_isDigit hb
      simp only [isSpace, Bool.or_eq_false_iff, Bool.and_eq_false_iff, decide_eq_false_iff_not, UInt8.le_iff_toNat_le]
      refine ⟨?_, .inr ?_⟩
      · rintro rfl
        exact absurd this.1 (by decide)
      · change ¬b.toNat ≤ 13
        omega
    have hminus : b ≠ 0x2D := ne_of_isDigit hb rfl
    have hplus : b ≠ 0x2B := ne_of_isDigit hb rfl
    rw [List.dropWhile_cons_of_neg (by simp [hspace])]
    have hval := digits_eq_eval h
    split
    · rename_i heq
      exact absurd (List.cons.inj heq).1 hminus
    · rename_i heq
      exact absurd (List.cons.inj heq).1 hplus
    · rw [hval]

theorem digits_cons {b : UInt8} {u : List UInt8} : Digits (b :: u) ↔ isDigit b = true ∧ Digits u :=
  List.forall_mem_cons

theorem digits_nil : Digits [] := nofun

theorem eval_four_le {u : List UInt8} (hd : Digits u) (hl : u.length = 4) : eval u ≤ 9999 := by
  have := Decimal.eval_lt_pow hd
  rw [hl] at this
  omega

/-- The texts of ten bytes. -/
theorem fromString_ten (y0 y1 y2 y3 p m0 m1 q d0 d1 : UInt8) (ts : Timestamp) :
    fromString [y0, y1, y2, y3, p, m0, m1, q, d0, d1] = some ts ↔
      (p = 0x2D ∧ q = 0x2D) ∧ (Digits [y0, y1, y2, y3] ∧ Digits [m0, m1] ∧ Digits [d0, d1]) ∧
        eval [m0, m1] ≤ 12 ∧ eval [d0, d1] ≤ 31 ∧
        ts = ⟨eval [y0, y1, y2, y3], eval [m0, m1], eval [d0, d1], 0, 0, 0, 0⟩ := by
  have hmarks : ((marks false).any fun m => [y0, y1, y2, y3, p, m0, m1, q, d0, d1][m.1]? ≠ some m.2) =
      decide ¬(p = 0x2D ∧ q = 0x2D) := by
    simp [marks]
  have hnumerals : (numerals false [y0, y1, y2, y3, p, m0, m1, q, d0, d1] = true) ↔
      Digits [y0, y1, y2, y3] ∧ Digits [m0, m1] ∧ Digits [d0, d1] := by
    change (isDigit y0 && (isDigit y1 && (isDigit y2 && (isDigit y3 && (isDigit m0 && (isDigit m1 &&
      (isDigit d0 && (isDigit d1 && true)))))))) = true ↔ _
    simp only [digits_cons, digits_nil, Bool.and_eq_true, and_true, and_assoc]
  have hform : fromString [y0, y1, y2, y3, p, m0, m1, q, d0, d1] =
      if (marks false).any (fun m => [y0, y1, y2, y3, p, m0, m1, q, d0, d1][m.1]? ≠ some m.2) = true then none
      else if numerals false [y0, y1, y2, y3, p, m0, m1, q, d0, d1] = false then none
      else if 12 < atoi [m0, m1] then none
      else if 31 < atoi [d0, d1] then none
      else some ⟨atoi [y0, y1, y2, y3], atoi [m0, m1], atoi [d0, d1], 0, 0, 0, 0⟩ := rfl
  simp only [hform, Option.ite_none_left_eq_some, hmarks, Bool.not_eq_false, hnumerals, decide_eq_true_eq, not_not,
    Option.some.injEq]
  refine and_congr_right fun _ => and_congr_right fun ⟨hy, hm, hd⟩ => ?_
  rw [atoi_digits hy, atoi_digits hm, atoi_digits hd]
  refine and_congr (by omega) (and_congr (by omega) eq_comm)

/-- The texts of nineteen bytes. -/
theorem fromString_nineteen (y0 y1 y2 y3 p m0 m1 q d0 d1 t h0 h1 v n0 n1 w s0 s1 : UInt8) (ts : Timestamp) :
    fromString [y0, y1, y2, y3, p, m0, m1, q, d0, d1, t, h0, h1, v, n0, n1, w, s0, s1] = some ts ↔
      (p = 0x2D ∧ q = 0x2D ∧ t = 0x54 ∧ v = 0x3A ∧ w = 0x3A) ∧
        (Digits [y0, y1, y2, y3] ∧ Digits [m0, m1] ∧ Digits [d0, d1] ∧ Digits [h0, h1] ∧ Digits [n0, n1] ∧ Digits [s0, s1]) ∧
        eval [m0, m1] ≤ 12 ∧ eval [d0, d1] ≤ 31 ∧ eval [h0, h1] ≤ 23 ∧ eval [n0, n1] ≤ 59 ∧ eval [s0, s1] ≤ 59 ∧
        ts = ⟨eval [y0, y1, y2, y3], eval [m0, m1], eval [d0, d1], eval [h0, h1], eval [n0, n1], eval [s0, s1], 0⟩ := by
  have hmarks : ((marks true).any fun m =>
      [y0, y1, y2, y3, p, m0, m1, q, d0, d1, t, h0, h1, v, n0, n1, w, s0, s1][m.1]? ≠ some m.2) =
        decide ¬(p = 0x2D ∧ q = 0x2D ∧ t = 0x54 ∧ v = 0x3A ∧ w = 0x3A) := by
    simp [marks]
  have hnumerals : (numerals true [y0, y1, y2, y3, p, m0, m1, q, d0, d1, t, h0, h1, v, n0, n1, w, s0, s1] = true) ↔
      Digits [y0, y1, y2, y3] ∧ Digits [m0, m1] ∧ Digits [d0, d1] ∧ Digits [h0, h1] ∧ Digits [n0, n1] ∧
        Digits [s0, s1] := by
    change (isDigit y0 && (isDigit y1 && (isDigit y2 && (isDigit y3 && (isDigit m0 && (isDigit m1 &&
      (isDigit d0 && (isDigit d1 && (isDigit h0 && (isDigit h1 && (isDigit n0 && (isDigit n1 &&
      (isDigit s0 && (isDigit s1 && true)))))))))))))) = true ↔ _
    simp only [digits_cons, digits_nil, Bool.and_eq_true, and_true, and_assoc]
  have hform : fromString [y0, y1, y2, y3, p, m0, m1, q, d0, d1, t, h0, h1, v, n0, n1, w, s0, s1] =
      if (marks true).any (fun m =>
        [y0, y1, y2, y3, p, m0, m1, q, d0, d1, t, h0, h1, v, n0, n1, w, s0, s1][m.1]? ≠ some m.2) = true then none
      else if numerals true [y0, y1, y2, y3, p, m0, m1, q, d0, d1, t, h0, h1, v, n0, n1, w, s0, s1] = false then none
      else if 12 < atoi [m0, m1] then none
      else if 31 < atoi [d0, d1] then none
      else if 23 < atoi [h0, h1] then none
      else if 59 < atoi [n0, n1] then none
      else if 59 < atoi [s0, s1] then none
      else some ⟨atoi [y0, y1, y2, y3], atoi [m0, m1], atoi [d0, d1], atoi [h0, h1], atoi [n0, n1], atoi [s0, s1], 0⟩ :=
    rfl
  simp only [hform, Option.ite_none_left_eq_some, hmarks, Bool.not_eq_false, hnumerals, decide_eq_true_eq, not_not,
    Option.some.injEq]
  refine and_congr_right fun _ => and_congr_right fun ⟨hy, hm, hd, hh, hn, hs⟩ => ?_
  rw [atoi_digits hy, atoi_digits hm, atoi_digits hd, atoi_digits hh, atoi_digits hn, atoi_digits hs]
  refine and_congr (by omega) (and_congr (by omega) (and_congr (by omega) (and_congr (by omega)
    (and_congr (by omega) eq_comm))))

theorem exists_two {u : List UInt8} (h : u.length = 2) : ∃ a b, u = [a, b] :=
  match u, h with
  | [a, b], _ => ⟨a, b, rfl⟩

theorem exists_four {u : List UInt8} (h : u.length = 4) : ∃ a b c d, u = [a, b, c, d] :=
  match u, h with
  | [a, b, c, d], _ => ⟨a, b, c, d, rfl⟩

theorem length_of_fromString {s : List UInt8} {ts : Timestamp} (h : fromString s = some ts) :
    s.length = 10 ∨ s.length = 19 := by
  unfold fromString at h
  have hlen := (Option.ite_none_left_eq_some.mp h).1
  omega

/-- What is accepted, and what it means. -/
theorem fromString_iff {s : List UInt8} {ts : Timestamp} : fromString s = some ts ↔ Form s ts := by
  constructor
  · intro h
    obtain hlen | hlen := length_of_fromString h
    · match s, hlen with
      | [y0, y1, y2, y3, p, m0, m1, q, d0, d1], _ =>
        obtain ⟨⟨rfl, rfl⟩, ⟨hy, hm, hd⟩, hm12, hd31, rfl⟩ := (fromString_ten ..).mp h
        exact .date ⟨rfl, hy, eval_four_le hy rfl⟩ ⟨rfl, hm, hm12⟩ ⟨rfl, hd, hd31⟩
    · match s, hlen with
      | [y0, y1, y2, y3, p, m0, m1, q, d0, d1, t, h0, h1, v, n0, n1, w, s0, s1], _ =>
        obtain ⟨⟨rfl, rfl, rfl, rfl, rfl⟩, ⟨hy, hm, hd, hh, hn, hs⟩, hm12, hd31, hh23, hn59, hs59, rfl⟩ :=
          (fromString_nineteen ..).mp h
        exact .stamp ⟨rfl, hy, eval_four_le hy rfl⟩ ⟨rfl, hm, hm12⟩ ⟨rfl, hd, hd31⟩ ⟨rfl, hh, hh23⟩ ⟨rfl, hn, hn59⟩
          ⟨rfl, hs, hs59⟩
  · rintro (⟨⟨hy, hyd, -⟩, ⟨hm, hmd, hm12⟩, ⟨hd, hdd, hd31⟩⟩ |
      ⟨⟨hy, hyd, -⟩, ⟨hm, hmd, hm12⟩, ⟨hd, hdd, hd31⟩, ⟨hh, hhd, hh23⟩, ⟨hn, hnd, hn59⟩, ⟨hs, hsd, hs59⟩⟩)
    · obtain ⟨y0, y1, y2, y3, rfl⟩ := exists_four hy
      obtain ⟨m0, m1, rfl⟩ := exists_two hm
      obtain ⟨d0, d1, rfl⟩ := exists_two hd
      exact (fromString_ten ..).mpr ⟨⟨rfl, rfl⟩, ⟨hyd, hmd, hdd⟩, hm12, hd31, rfl⟩
    · obtain ⟨y0, y1, y2, y3, rfl⟩ := exists_four hy
      obtain ⟨m0, m1, rfl⟩ := exists_two hm
      obtain ⟨d0, d1, rfl⟩ := exists_two hd
      obtain ⟨h0, h1, rfl⟩ := exists_two hh
      obtain ⟨n0, n1, rfl⟩ := exists_two hn
      obtain ⟨s0, s1, rfl⟩ := exists_two hs
      exact (fromString_nineteen ..).mpr ⟨⟨rfl, rfl, rfl, rfl, rfl⟩, ⟨hyd, hmd, hdd, hhd, hnd, hsd⟩, hm12, hd31, hh23,
        hn59, hs59, rfl⟩

theorem atoi_digits_zero {u : List UInt8} (h : Digits u) (rest : List UInt8) : atoi (u ++ 0 :: rest) = eval u := by
  have hzero : ∀ b ∈ u, b ≠ 0 := fun b hb => ne_of_isDigit (h b hb) rfl
  have hcut : cstring (u ++ 0 :: rest) = cstring u := (cstring_append_zero hzero rest).trans (cstring_of_ne_zero hzero).symm
  rw [← atoi_digits h]
  unfold atoi
  rw [hcut]

/-- Each number ends where the separator behind it was: what is read from the overwritten string is what
`fromString` takes from the text. -/
theorem Form.split {s : List UInt8} {ts : Timestamp} (h : Form s ts) :
    let at' (i : Nat) := atoi ((Timestamp.split (s.length = 19) s).drop i)
    at' 0 = ts.year ∧ at' 5 = ts.month ∧ at' 8 = ts.day ∧
      (s.length = 19 → at' 11 = ts.hour ∧ at' 14 = ts.minute ∧ at' 17 = ts.second) := by
  cases h with
  | @date y m d hy hm hd =>
    obtain ⟨y0, y1, y2, y3, rfl⟩ := exists_four hy.length
    obtain ⟨m0, m1, rfl⟩ := exists_two hm.length
    obtain ⟨d0, d1, rfl⟩ := exists_two hd.length
    exact ⟨atoi_digits_zero hy.digits _, atoi_digits_zero hm.digits _, atoi_digits hd.digits,
      fun hl => absurd (show 10 = 19 from hl) (by decide)⟩
  | @stamp y m d h n s hy hm hd hh hn hs =>
    obtain ⟨y0, y1, y2, y3, rfl⟩ := exists_four hy.length
    obtain ⟨m0, m1, rfl⟩ := exists_two hm.length
    obtain ⟨d0, d1, rfl⟩ := exists_two hd.length
    obtain ⟨h0, h1, rfl⟩ := exists_two hh.length
    obtain ⟨n0, n1, rfl⟩ := exists_two hn.length
    obtain ⟨s0, s1, rfl⟩ := exists_two hs.length
    exact ⟨atoi_digits_zero hy.digits _, atoi_digits_zero hm.digits _, atoi_digits_zero hd.digits _,
      fun _ => ⟨atoi_digits_zero hh.digits _, atoi_digits_zero hn.digits _, atoi_digits hs.digits⟩⟩

theorem fixed_natCast (w n : Nat) : fixed w n = pad w n := by
  unfold fixed
  rw [if_neg (by omega), Int.natAbs_natCast]

/-- A field is printed as it stood in the text. -/
theorem Field.fixed {w limit : Nat} {u : List UInt8} (h : Field w limit u) (hw : 0 < w) : fixed w (eval u) = u := by
  have hne : u ≠ [] := by
    rintro rfl
    exact absurd h.length hw.ne
  rw [fixed_natCast, ← h.length]
  exact Decimal.pad_eval h.digits hne

/-- A number within its limit is printed as a field. -/
theorem field_pad {w limit n : Nat} (hw : 0 < w) (hn : n ≤ limit) (hl : limit < 10 ^ w) : Field w limit (pad w n) :=
  ⟨Decimal.length_pad hw (Nat.lt_of_le_of_lt hn hl), Decimal.isDigit_pad w n, by rwa [Decimal.eval_pad]⟩

theorem Form.toString {s : List UInt8} {ts : Timestamp} (h : Form s ts) (hl : s.length = 19) :
    Timestamp.toString (some ts) = .ok s ∧ toIsostring (some ts) = .ok (s.take 10) := by
  cases h with
  | @date y m d hy hm hd =>
    exfalso
    have := hy.length
    have := hm.length
    have := hd.length
    simp only [List.length_append, List.length_cons] at hl
    omega
  | @stamp y m d h n s hy hm hd hh hn hs =>
    unfold Timestamp.toString toIsostring dateText
    dsimp only
    rw [hy.fixed (by decide), hm.fixed (by decide), hd.fixed (by decide), hh.fixed (by decide), hn.fixed (by decide),
      hs.fixed (by decide)]
    obtain ⟨y0, y1, y2, y3, rfl⟩ := exists_four hy.length
    obtain ⟨m0, m1, rfl⟩ := exists_two hm.length
    obtain ⟨d0, d1, rfl⟩ := exists_two hd.length
    exact ⟨rfl, rfl⟩

theorem Form.toIsostring {s : List UInt8} {ts : Timestamp} (h : Form s ts) (hl : s.length = 10) :
    Timestamp.toIsostring (some ts) = .ok s := by
  cases h with
  | @date y m d hy hm hd =>
    unfold Timestamp.toIsostring dateText
    dsimp only
    rw [hy.fixed (by decide), hm.fixed (by decide), hd.fixed (by decide)]
  | @stamp y m d h n s hy hm hd hh hn hs =>
    exfalso
    have := hy.length
    have := hm.length
    simp only [List.length_append, List.length_cons] at hl
    omega

/-- A printed timestamp is read back, but for `isdst`, which is not printed. -/
theorem InRange.fromString {ts : Timestamp} (h : InRange ts) :
    ∃ s, Timestamp.toString (some ts) = .ok s ∧ Timestamp.fromString s = some { ts with isdst := 0 } := by
  obtain ⟨year, month, day, hour, minute, second, isdst⟩ := ts
  obtain ⟨⟨hy0, hy⟩, ⟨hm0, hm⟩, ⟨hd0, hd⟩, ⟨hh0, hh⟩, ⟨hn0, hn⟩, ⟨hs0, hs⟩⟩ := h
  dsimp only at hy0 hy hm0 hm hd0 hd hh0 hh hn0 hn hs0 hs
  obtain ⟨y, rfl⟩ := Int.eq_ofNat_of_zero_le hy0
  obtain ⟨m, rfl⟩ := Int.eq_ofNat_of_zero_le hm0
  obtain ⟨d, rfl⟩ := Int.eq_ofNat_of_zero_le hd0
  obtain ⟨h, rfl⟩ := Int.eq_ofNat_of_zero_le hh0
  obtain ⟨n, rfl⟩ := Int.eq_ofNat_of_zero_le hn0
  obtain ⟨s, rfl⟩ := Int.eq_ofNat_of_zero_le hs0
  refine ⟨_, rfl, ?_⟩
  unfold dateText
  dsimp only
  rw [fixed_natCast, fixed_natCast, fixed_natCast, fixed_natCast, fixed_natCast, fixed_natCast, List.append_assoc,
    List.cons_append, List.append_assoc, List.cons_append]
  refine fromString_iff.mpr ?_
  have hform := Form.stamp (field_pad (by decide) (show y ≤ 9999 by omega) (by decide))
    (field_pad (by decide) (show m ≤ 12 by omega) (by decide)) (field_pad (by decide) (show d ≤ 31 by omega) (by decide))
    (field_pad (by decide) (show h ≤ 23 by omega) (by decide)) (field_pad (by decide) (show n ≤ 59 by omega) (by decide))
    (field_pad (by decide) (show s ≤ 59 by omega) (by decide))
  simp only [Decimal.eval_pad] at hform
  exact hform

/-- Parsing and printing undo each other. -/
theorem fromString_toString :
    (∀ s ts, Timestamp.fromString s = some ts ↔ Form s ts) ∧
      (∀ s ts, Timestamp.fromString s = some ts → s.length = 19 →
        Timestamp.toString (some ts) = .ok s ∧ Timestamp.toIsostring (some ts) = .ok (s.take 10)) ∧
      (∀ s ts, Timestamp.fromString s = some ts → s.length = 10 → Timestamp.toIsostring (some ts) = .ok s) ∧
      ∀ ts, InRange ts →
        ∃ s, Timestamp.toString (some ts) = .ok s ∧ Timestamp.fromString s = some { ts with isdst := 0 } :=
  ⟨fun _ _ => fromString_iff, fun _ _ h hl => (fromString_iff.mp h).toString hl,
    fun _ _ h hl => (fromString_iff.mp h).toIsostring hl, fun _ h => h.fromString⟩

/-- The flag of daylight saving time does not come back. -/
theorem isdst_not_restored :
    ¬∀ ts, InRange ts → ∃ s, Timestamp.toString (some ts) = .ok s ∧ Timestamp.fromString s = some ts := by
  intro h
  obtain ⟨s, hs, hts⟩ := h ⟨2009, 7, 4, 12, 30, 0, 1⟩ ⟨by decide, by decide, by decide, by decide, by decide, by decide⟩
  obtain ⟨s', hs', hts'⟩ : ∃ s, Timestamp.toString (some ⟨2009, 7, 4, 12, 30, 0, 1⟩) = .ok s ∧
      Timestamp.fromString s = some ⟨2009, 7, 4, 12, 30, 0, 0⟩ := ⟨_, rfl, by decide⟩
  obtain rfl := Except.ok.inj (hs.symm.trans hs')
  exact absurd (Option.some.inj (hts.symm.trans hts')) (by decide)

end Timestamp
end Mvpmc.Cmyth
