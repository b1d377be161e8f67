import Mvpmc.Cmyth.Commbreaks
import Mvpmc.Cmyth.NumBuffer
import Mvpmc.Cmyth.TwoNumbers

/-! Replies with commercial breaks as the backend prints them: the rows that `cmyth_rcv_commbreaklist` receives are the
rows sent, and their marks are paired correctly. -/
namespace Mvpmc.Cmyth
open Mvpmc.Lib
open Commbreak (Row Paired rowsOf rcvRows)

/-- A call has read a number in front of a message and left the rest. -/
structure ReadFront (r : Number × Conn) (x : Int) (payload rest next : List UInt8) : Prop where
  err : r.1.err = 0
  value : r.1.value = x
  consumed : (payload.length : Int) - r.1.consumed = rest.length
  left : At r.2 rest next

section Front
variable {conn : Conn} {x : Int} {tail next : List UInt8} (h : At conn (longText x ++ tail) next) (ht : Tail tail)
include h ht

omit h ht in
theorem longText_ne_nil (x : Int) : longText x ≠ [] := by
  obtain ⟨-, hx⟩ | ⟨-, hx⟩ := longText_cases x
  · exact hx ▸ List.cons_ne_nil _ _
  · exact hx ▸ Decimal.text_ne_nil _

omit h ht in
theorem length_longText_append_pos (x : Int) (tail : List UInt8) : ¬ ((longText x ++ tail).length : Int) ≤ 0 := by
  have := List.length_pos_of_ne_nil (longText_ne_nil x)
  rw [List.length_append]
  omega

/-- The token and what is left, for numbers of less than 32 bytes. -/
theorem At.rcvString_front (hx : (longText x).length < 32) :
    (Cmyth.rcvString conn 0 32 (longText x ++ tail).length).1.err = 0 ∧
      cstring (Cmyth.rcvString conn 0 32 (longText x ++ tail).length).1.token = longText x ∧
      ((longText x ++ tail).length : Int) - (Cmyth.rcvString conn 0 32 (longText x ++ tail).length).1.consumed =
        (tail.drop 5).length ∧
      At (Cmyth.rcvString conn 0 32 (longText x ++ tail).length).2 (tail.drop 5) next := by
  obtain ⟨hs, hat⟩ := h.rcvString 0 32
  obtain ⟨htoken, hdrop⟩ := receive_plain (plain_longText x) hx ht
  have hcons := congrArg Prod.snd hs
  have htok := congrArg Prod.fst hs
  dsimp only at hcons htok
  have hle := receive_le 32 (longText x ++ tail)
  rw [hdrop] at hat
  refine ⟨h.rcvString_err (.inl rfl) 32, ?_, ?_, hat⟩
  · rw [htok, htoken, cstring_longText]
  · rw [hcons, ← hdrop, List.length_drop]
    omega

/-- The number of rows. -/
theorem At.rcvLong_front (hx : x.natAbs ≤ 0x7FFFFFFF) (old : Int) :
    ReadFront (Cmyth.rcvLong conn old (longText x ++ tail).length) x (longText x ++ tail) (tail.drop 5) next := by
  have hlen := length_longText_le (k := 10) (by decide) (show x.natAbs < 10 ^ 10 by omega)
  obtain ⟨herr, htoken, hcons, hat⟩ := h.rcvString_front ht (by omega)
  obtain ⟨htext, hsign⟩ := longText_sign x
  have hpos := length_longText_append_pos x tail
  have hparse := parseLong_digits (digits_text x.natAbs) (Nat.zero_le 0x7FFFFFFF)
  rw [← Decimal.eval, Decimal.eval_text, if_pos hx] at hparse
  unfold Cmyth.rcvLong
  rw [if_neg hpos]
  dsimp only
  rw [if_neg (not_not.mpr herr), htoken, htext, hparse]
  exact ⟨rfl, hsign, hcons, hat⟩

/-- A mark that has one token. -/
theorem At.rcvNewInt64_front (hx : x.natAbs ≤ 0x7FFFFFFFFFFFFFFF) {version : Nat} (hone : ¬ twoNumbers version false = true)
    (old : Int) :
    ReadFront (Cmyth.rcvNewInt64 version conn old (longText x ++ tail).length false) x (longText x ++ tail) (tail.drop 5)
      next := by
  have hlen := length_longText_le (k := 19) (by decide) (show x.natAbs < 10 ^ 19 by omega)
  obtain ⟨herr, htoken, hcons, hat⟩ := h.rcvString_front ht (by omega)
  obtain ⟨htext, hsign⟩ := longText_sign x
  have hpos := length_longText_append_pos x tail
  have hval : Decimal.evalFrom 0 (Decimal.text x.natAbs) = x.natAbs := Decimal.eval_text _
  have hparse := parseInt64_digits (digits_text x.natAbs) (hval.trans_le hx)
  rw [hval] at hparse
  unfold Cmyth.rcvNewInt64
  rw [if_neg hone, if_neg hpos]
  dsimp only
  rw [if_neg (not_not.mpr herr), htoken, htext, hparse]
  exact ⟨rfl, hsign, hcons, hat⟩

omit h ht in
theorem parseUlong_digits {bytes : List UInt8} {val : Nat} (hd : Digits bytes)
    (hval : Decimal.evalFrom val bytes ≤ 0xFFFFFFFF) : parseUlong bytes val = .inr (Decimal.evalFrom val bytes) := by
  induction bytes generalizing val with
  | nil => rfl
  | cons b bytes ih =>
    have hb : isDigit b = true := hd b List.mem_cons_self
    have hpush : Decimal.evalFrom val (b :: bytes) = Decimal.evalFrom (pushDigit val b) bytes := rfl
    have hstep := Decimal.le_push val b
    have hle := Decimal.le_evalFrom (pushDigit val b) bytes
    change val ≤ pushDigit val b at hstep
    rw [hpush] at hval ⊢
    unfold parseUlong
    rw [if_neg (by simp [hb]), if_neg (by omega), Nat.mod_eq_of_lt (by omega)]
    exact ih hd.tail hval

/-- The type of a row. -/
theorem At.rcvUshort_front (hlo : 0 ≤ x) (hhi : x ≤ 65535) :
    ReadFront (Cmyth.rcvUshort conn (longText x ++ tail).length) x (longText x ++ tail) (tail.drop 5) next := by
  have hlen := length_longText_le (k := 5) (by decide) (show x.natAbs < 10 ^ 5 by omega)
  obtain ⟨herr, htoken, hcons, hat⟩ := h.rcvString_front ht (by omega)
  have htext : longText x = Decimal.text x.natAbs := if_neg (not_lt.mpr hlo)
  have hpos := length_longText_append_pos x tail
  have hval : Decimal.evalFrom 0 (Decimal.text x.natAbs) = x.natAbs := Decimal.eval_text _
  have hparse := parseUlong_digits (digits_text x.natAbs) (show Decimal.evalFrom 0 _ ≤ 0xFFFFFFFF by omega)
  rw [hval] at hparse
  have hulong : (Cmyth.rcvUlong conn (longText x ++ tail).length) =
      (⟨(Cmyth.rcvString conn 0 32 (longText x ++ tail).length).1.consumed, 0, (x.natAbs : Int)⟩,
        (Cmyth.rcvString conn 0 32 (longText x ++ tail).length).2) := by
    unfold Cmyth.rcvUlong
    rw [if_neg hpos]
    dsimp only
    rw [if_neg (not_not.mpr herr), htoken, htext, hparse]
  unfold Cmyth.rcvUshort
  rw [if_neg hpos, hulong]
  dsimp only
  rw [if_neg (not_not.mpr rfl), if_neg (by omega)]
  exact ⟨rfl, Int.natAbs_of_nonneg hlo, hcons, hat⟩

end Front

/-- A mark that has two tokens. -/
theorem At.rcvOldInt64_front {conn : Conn} {tail next : List UInt8} {x : Int} (h : At conn (halvesText x ++ tail) next)
    (ht : Tail tail) (hlo : 0 ≤ x) (hhi : x < 2 ^ 63) (hhalf : x % 2 ^ 32 ≠ 2 ^ 31) (old : Int) :
    ReadFront (Cmyth.rcvOldInt64 conn old (halvesText x ++ tail).length) x (halvesText x ++ tail) (tail.drop 5) next := by
  have hmin : -2 ^ 63 ≤ x := by omega
  have hsplit : halvesText x ++ tail = longText (hiHalf x) ++ (separator ++ (longText (loHalf x) ++ tail)) := by
    simp only [halvesText, List.append_assoc]
  have htail : Tail (separator ++ (longText (loHalf x) ++ tail)) := .inr ⟨_, rfl⟩
  have hhigh := (hiHalf_small_iff hmin hhi).mpr (by omega)
  have hlow := loHalf_small_iff.mpr hhalf
  rw [hsplit] at h ⊢
  obtain ⟨herr, hval, hcons, hat⟩ := h.rcvLong_front htail hhigh 0
  change At _ (longText (loHalf x) ++ tail) next at hat
  obtain ⟨herr', hval', hcons', hat'⟩ := hat.rcvLong_front ht hlow 0
  have hpos := length_longText_append_pos (hiHalf x) (separator ++ (longText (loHalf x) ++ tail))
  have hcount : ((longText (hiHalf x) ++ (separator ++ (longText (loHalf x) ++ tail))).length : Int) -
      (Cmyth.rcvLong conn 0 (longText (hiHalf x) ++ (separator ++ (longText (loHalf x) ++ tail))).length).1.consumed =
        (longText (loHalf x) ++ tail).length := hcons
  unfold Cmyth.rcvOldInt64
  rw [if_neg hpos]
  dsimp only
  rw [if_neg (not_not.mpr herr), hcount, if_neg (not_not.mpr herr')]
  refine ⟨rfl, ?_, ?_, hat'⟩
  · dsimp only
    rw [hval, hval']
    exact halves_eq hmin hhi
  · dsimp only
    push_cast
    omega

namespace Commbreak

/-- A mark as it is printed in a version of the protocol. -/
def markText (version : Nat) (mark : Int) : List UInt8 :=
  if twoNumbers version false then halvesText mark else longText mark

/-- What stands behind the number of rows, and behind each row. -/
def rowsText (version : Nat) : List Row → List UInt8
  | [] => []
  | r :: rows => separator ++ (longText r.type ++ (separator ++ (markText version r.mark ++ rowsText version rows)))

/-- The reply to `QUERY_COMMBREAK` and `QUERY_CUTLIST`. -/
def replyText (version : Nat) (rows : List Row) : List UInt8 := longText rows.length ++ rowsText version rows

/-- The rows that can be sent: the type is an `unsigned short`, the mark is not negative, and where it is printed as two
numbers the lower one is not the least number of 32 bits. -/
structure Row.Sendable (version : Nat) (r : Row) : Prop where
  type : 0 ≤ r.type ∧ r.type ≤ 65535
  mark : 0 ≤ r.mark ∧ r.mark < 2 ^ 63
  halves : twoNumbers version false = true → r.mark % 2 ^ 32 ≠ 2 ^ 31

theorem tail_rowsText (version : Nat) (rows : List Row) : Tail (rowsText version rows) := by
  cases rows with
  | nil => exact .inl rfl
  | cons r rows => exact .inr ⟨_, rfl⟩

theorem rcvMark_front {conn : Conn} {version : Nat} {r : Row} {tail next : List UInt8} (hr : r.Sendable version)
    (h : At conn (markText version r.mark ++ tail) next) (ht : Tail tail) (old : Int) :
    ReadFront (rcvNewInt64 version conn old (markText version r.mark ++ tail).length false) r.mark
      (markText version r.mark ++ tail) (tail.drop 5) next := by
  obtain ⟨hlo, hhi⟩ := hr.mark
  unfold markText at h ⊢
  by_cases htwo : twoNumbers version false = true
  · rw [if_pos htwo] at h ⊢
    have hold := h.rcvOldInt64_front ht hlo hhi (hr.halves htwo) old
    unfold rcvNewInt64
    rw [if_pos htwo]
    exact hold
  · rw [if_neg htwo] at h ⊢
    exact h.rcvNewInt64_front ht (by omega) htwo old

/-- The loop receives the rows as they were sent. -/
theorem rcvRows_text {σ : Type} (row : σ → Row → σ) {version : Nat} {rows : List Row} (hrows : ∀ r ∈ rows, r.Sendable version)
    {conn : Conn} {next : List UInt8} (h : At conn ((rowsText version rows).drop 5) next) (s : σ) :
    (rcvRows row version rows.length conn ((rowsText version rows).drop 5).length s).1.value = rows.foldl row s := by
  induction rows generalizing conn s with
  | nil => rfl
  | cons r rows ih =>
    obtain ⟨hr, hrest⟩ := List.forall_mem_cons.mp hrows
    have htail := tail_rowsText version rows
    change At conn (longText r.type ++ (separator ++ (markText version r.mark ++ rowsText version rows))) next at h
    obtain ⟨herr, hval, hcons, hat⟩ := h.rcvUshort_front (.inr ⟨_, rfl⟩) hr.type.1 hr.type.2
    change At _ (markText version r.mark ++ rowsText version rows) next at hat
    change _ = ((markText version r.mark ++ rowsText version rows).length : Int) at hcons
    obtain ⟨herr', hval', hcons', hat'⟩ := rcvMark_front hr hat htail 0
    change (rcvRows row version (rows.length + 1) conn
      (longText r.type ++ (separator ++ (markText version r.mark ++ rowsText version rows))).length s).1.value = _
    unfold rcvRows
    dsimp only
    rw [if_neg (not_not.mpr herr), hcons, if_neg (not_not.mpr herr'), hcons', hval, hval']
    exact ih hrest hat' _

/-- The rows received are those sent. -/
theorem rowsOf_reply {version : Nat} {rows : List Row} (hrows : ∀ r ∈ rows, r.Sendable version)
    (hlen : rows.length ≤ 0x7FFFFFFF) {conn : Conn} {next : List UInt8} (h : At conn (replyText version rows) next) :
    rowsOf version conn (replyText version rows).length = rows := by
  obtain ⟨herr, hval, hcons, hat⟩ := h.rcvLong_front (tail_rowsText version rows) (show (rows.length : Int).natAbs ≤ _ by omega) 0
  have hpos : ¬ ((replyText version rows).length : Int) ≤ 0 := length_longText_append_pos rows.length _
  have hgo : ¬ ((rcvLong conn 0 (replyText version rows).length).1.err ≠ 0 ∨
      (rcvLong conn 0 (replyText version rows).length).1.value < 0) := by
    rintro (hne | hneg)
    · exact hne herr
    · exact absurd (hval ▸ hneg) (not_lt.mpr (Int.natCast_nonneg rows.length))
  unfold rowsOf
  rw [if_neg hpos]
  dsimp only
  rw [if_neg hgo]
  unfold replyText
  rw [hcons, hval, Int.toNat_natCast, rcvRows_text (fun l r => l ++ [r]) hrows hat []]
  have hsnoc : rows.foldl (fun l r => l ++ [r]) [] = [] ++ (rows.map fun r => [r]).flatten := List.foldl_append_eq_append
  rw [hsnoc, List.nil_append, ← List.flatMap_def, List.flatMap_singleton']

end Commbreak

end Mvpmc.Cmyth
