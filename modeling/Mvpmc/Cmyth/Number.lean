import Mathlib.Data.List.TakeWhile
import Mvpmc.Lib.Decimal
import Mvpmc.Cmyth.Malformed

/-! Numbers as `sprintf` prints them into a message, and what the calls that read numbers make of them. -/
namespace Mvpmc.Cmyth
open Mvpmc.Lib

/-- `%ld` and `%d`. -/
def longText (x : Int) : List UInt8 := if x < 0 then 0x2D :: Decimal.text x.natAbs else Decimal.text x.natAbs

/-- Bytes that are all digits. -/
def Digits (bytes : List UInt8) : Prop := ∀ b ∈ bytes, Decimal.isDigit b = true

theorem digits_text (n : Nat) : Digits (Decimal.text n) := Decimal.isDigit_text n

section
variable {bytes rest : List UInt8} {val n : Nat}

theorem Digits.tail {b : UInt8} (h : Digits (b :: bytes)) : Digits bytes := fun c hc => h c (List.mem_cons_of_mem b hc)

/-- A digit is no zero byte, no bracket, no blank and no sign. -/
theorem ne_of_isDigit {b c : UInt8} (hb : Decimal.isDigit b = true) (hc : Decimal.isDigit c = false) : b ≠ c := by
  rintro rfl
  exact absurd (hb.symm.trans hc) (by decide)

theorem cstring_of_ne_zero (h : ∀ b ∈ bytes, b ≠ 0) : cstring bytes = bytes := by
  unfold cstring
  exact List.takeWhile_eq_self_iff.mpr fun b hb => by simp [h b hb]

theorem cstring_digits (h : Digits bytes) : cstring bytes = bytes :=
  cstring_of_ne_zero fun b hb => ne_of_isDigit (h b hb) rfl

theorem parseLong_digits (h : Digits bytes) (hval : val ≤ 0x7FFFFFFF) :
    parseLong bytes val =
      if Decimal.evalFrom val bytes ≤ 0x7FFFFFFF then .inr (Decimal.evalFrom val bytes) else .inl ERANGE := by
  induction bytes generalizing val with
  | nil => exact (if_pos hval).symm
  | cons b bytes ih =>
    have hb : isDigit b = true := h b List.mem_cons_self
    have hpush : Decimal.evalFrom val (b :: bytes) = Decimal.evalFrom (pushDigit val b) bytes := rfl
    have hle := Decimal.le_evalFrom (pushDigit val b) bytes
    rw [hpush]
    unfold parseLong
    rw [if_neg (by simp [hb])]
    by_cases hbig : 0x7FFFFFFF < pushDigit val b
    · rw [if_pos hbig, if_neg (by omega)]
    · rw [if_neg hbig]
      exact ih h.tail (not_lt.mp hbig)

theorem parseInt64_digits (h : Digits bytes) (hv : Decimal.evalFrom val bytes ≤ 0x7FFFFFFFFFFFFFFF) :
    parseInt64 bytes val = .inr (Decimal.evalFrom val bytes) := by
  induction bytes generalizing val with
  | nil => rfl
  | cons b bytes ih =>
    have hb : isDigit b = true := h b List.mem_cons_self
    have hpush : Decimal.evalFrom val (b :: bytes) = Decimal.evalFrom (pushDigit val b) bytes := rfl
    have hle := Decimal.le_evalFrom (pushDigit val b) bytes
    rw [hpush] at hv ⊢
    unfold parseInt64
    rw [Nat.mod_eq_of_lt (by omega), if_neg (by simp [hb]), if_neg (by omega)]
    exact ih h.tail hv

theorem digits_eq_eval (h : Digits bytes) : digits bytes = Decimal.eval bytes := by
  have htake : bytes.takeWhile isDigit = bytes := List.takeWhile_eq_self_iff.mpr h
  unfold digits
  rw [htake]
  rfl

end

/-- The sign and the digits of a number that has been printed. -/
theorem longText_cases (x : Int) :
    x < 0 ∧ longText x = 0x2D :: Decimal.text x.natAbs ∨ 0 ≤ x ∧ longText x = Decimal.text x.natAbs := by
  unfold longText
  by_cases hx : x < 0
  · exact .inl ⟨hx, if_pos hx⟩
  · exact .inr ⟨not_lt.mp hx, if_neg hx⟩

/-- What is printed begins with a digit. -/
theorem head_text (n : Nat) : ∃ b bytes, Decimal.text n = b :: bytes ∧ Decimal.isDigit b = true := by
  obtain ⟨b, bytes, hb⟩ := List.exists_cons_of_ne_nil (Decimal.text_ne_nil n)
  exact ⟨b, bytes, hb, digits_text n b (hb ▸ List.mem_cons_self)⟩

theorem atoi_text (n : Nat) : atoi (Decimal.text n) = n := by
  obtain ⟨b, bytes, hb, hd⟩ := head_text n
  have heval : digits (Decimal.text n) = n := (digits_eq_eval (digits_text n)).trans (Decimal.eval_text n)
  have hspace : isSpace b = false := by
    have hle : 48 ≤ b.toNat := by
      simp only [Decimal.isDigit, Bool.and_eq_true, decide_eq_true_eq, UInt8.le_iff_toNat_le] at hd
      exact hd.1
    have hn : ¬ b ≤ 0x0D := by
      rw [UInt8.le_iff_toNat_le]
      exact not_le.mpr (lt_of_lt_of_le (by decide) hle)
    have hblank : b ≠ 0x20 := ne_of_isDigit hd (by decide)
    simp [isSpace, hblank, hn]
  unfold atoi
  rw [cstring_digits (digits_text n), hb, List.dropWhile_cons_of_neg (by simp [hspace])]
  rw [hb] at heval
  split
  · rename_i heq
    exact absurd (List.cons.inj heq).1 (ne_of_isDigit hd rfl)
  · rename_i heq
    exact absurd (List.cons.inj heq).1 (ne_of_isDigit hd rfl)
  · exact congrArg _ heval

theorem atoi_longText (x : Int) : atoi (longText x) = x := by
  rcases longText_cases x with ⟨hx, ht⟩ | ⟨hx, ht⟩
  · have hzero : ∀ b ∈ longText x, b ≠ 0 := by
      rw [ht]
      intro b hb
      rcases List.mem_cons.mp hb with rfl | hb
      · decide
      · exact ne_of_isDigit (digits_text _ b hb) rfl
    unfold atoi
    rw [cstring_of_ne_zero hzero, ht, List.dropWhile_cons_of_neg (by decide)]
    change -(digits (Decimal.text x.natAbs) : Int) = x
    rw [digits_eq_eval (digits_text _), Decimal.eval_text]
    omega
  · rw [ht, atoi_text]
    omega

/-- What is printed has none of these bytes. -/
theorem longText_ne {c : UInt8} (hc : Decimal.isDigit c = false) (hsign : c ≠ 0x2D) (x : Int) :
    ∀ b ∈ longText x, b ≠ c := by
  intro b hb
  rcases longText_cases x with ⟨-, ht⟩ | ⟨-, ht⟩
  · rw [ht] at hb
    rcases List.mem_cons.mp hb with rfl | hb
    · exact hsign.symm
    · exact ne_of_isDigit (digits_text _ b hb) hc
  · rw [ht] at hb
    exact ne_of_isDigit (digits_text _ b hb) hc

theorem length_longText_le {k : Nat} (hk : 0 < k) {x : Int} (h : x.natAbs < 10 ^ k) : (longText x).length ≤ k + 1 := by
  have hle := Decimal.length_text_le hk h
  rcases longText_cases x with ⟨-, ht⟩ | ⟨-, ht⟩
  · rw [ht, List.length_cons]
    omega
  · rw [ht]
    omega

/-- The sign that the calls for signed numbers look for, and the digits behind it. -/
theorem longText_sign (x : Int) :
    (if (longText x).head? = some 0x2D then (longText x).tail else longText x) = Decimal.text x.natAbs ∧
      (if (longText x).head? = some 0x2D then (-1 : Int) else 1) * x.natAbs = x := by
  rcases longText_cases x with ⟨hx, ht⟩ | ⟨hx, ht⟩
  · rw [ht, List.head?_cons, if_pos rfl, if_pos rfl]
    exact ⟨rfl, by omega⟩
  · obtain ⟨b, bytes, hb, hd⟩ := head_text x.natAbs
    have hsign : (longText x).head? ≠ some 0x2D := by
      rw [ht, hb, List.head?_cons]
      exact fun h => ne_of_isDigit hd (by decide) (Option.some.inj h)
    rw [if_neg hsign, if_neg hsign]
    exact ⟨ht, by omega⟩

theorem cstring_longText (x : Int) : cstring (longText x) = longText x :=
  cstring_of_ne_zero (longText_ne (by decide) (by decide) x)

theorem numberIn_longText {payload : List UInt8} {x : Int} (h : (receive 32 payload).1 = longText x) :
    numberIn parseLong payload = if x.natAbs ≤ 0x7FFFFFFF then some x else none := by
  obtain ⟨htext, hsign⟩ := longText_sign x
  unfold numberIn
  dsimp only
  rw [h, cstring_longText, htext, parseLong_digits (digits_text _) (Nat.zero_le _), ← Decimal.eval, Decimal.eval_text]
  by_cases hle : x.natAbs ≤ 0x7FFFFFFF
  · rw [if_pos hle, if_pos hle]
    exact congrArg some hsign
  · rw [if_neg hle, if_neg hle]

theorem numberIn_longText_int64 {payload : List UInt8} {x : Int} (h : (receive 32 payload).1 = longText x)
    (hx : x.natAbs ≤ 0x7FFFFFFFFFFFFFFF) : numberIn parseInt64 payload = some x := by
  obtain ⟨htext, hsign⟩ := longText_sign x
  have heval : Decimal.evalFrom 0 (Decimal.text x.natAbs) = x.natAbs := Decimal.eval_text _
  unfold numberIn
  dsimp only
  rw [h, cstring_longText, htext, parseInt64_digits (digits_text _) (heval.trans_le hx), heval]
  exact congrArg some hsign

/-- A token without brackets is clean, whatever the separator's automaton makes of the rest of the message. -/
def Plain (token : List UInt8) : Prop := ∀ b ∈ token, b ≠ 0x5B

theorem Plain.not_separator {token : List UInt8} (h : Plain token) : ¬ separator <:+: token := fun hin =>
  h 0x5B (hin.subset List.mem_cons_self) rfl

theorem Plain.stateAfter {token : List UInt8} (h : Plain token) : Scan.stateAfter token = 0 := by
  by_contra h0
  obtain ⟨k, hk⟩ := Nat.exists_eq_succ_of_ne_zero h0
  obtain ⟨-, hsuf⟩ := Scan.stateAfter_suffix token
  rw [hk] at hsuf
  exact h 0x5B (hsuf.subset List.mem_cons_self) rfl

theorem plain_longText (x : Int) : Plain (longText x) := longText_ne (by decide) (by decide) x

/-- What stands behind a token: nothing, or a separator and more of the message. -/
def Tail (tail : List UInt8) : Prop := tail = [] ∨ ∃ rest, tail = separator ++ rest

/-- The token and the separator behind it. -/
theorem receive_plain {buflen : Nat} {token tail : List UInt8} (hp : Plain token) (hl : token.length < buflen)
    (ht : Tail tail) :
    (receive buflen (token ++ tail)).1 = token ∧
      (token ++ tail).drop (receive buflen (token ++ tail)).2 = tail.drop 5 := by
  obtain rfl | ⟨rest, rfl⟩ := ht
  · rw [List.append_nil, receive_last hp.not_separator hl]
    exact ⟨rfl, List.drop_length⟩
  · rw [receive_clean hp.not_separator hl hp.stateAfter rest]
    refine ⟨rfl, ?_⟩
    rw [← List.drop_drop, List.drop_left]

end Mvpmc.Cmyth
