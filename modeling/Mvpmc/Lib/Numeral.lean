import Mathlib.Data.List.TakeWhile
import Mathlib.Data.List.Infix
import Mvpmc.Lib.Decimal

/-! Decimal numbers up to a limit. `Reads` says what it is to read one from a text; `scan` reads one from a buffer
that may have cut the text, keeps the value modulo a size and stops on an alarm. -/
namespace Mvpmc.Lib.Numeral
open Decimal (isDigit push eval evalFrom)

/-- The number, or why there is none: the digits are too large, or another character came first. -/
inductive Outcome where
  | number (n : Nat)
  | large
  | other
  deriving DecidableEq, Repr

def Digits (bytes : List UInt8) : Prop := ∀ b ∈ bytes, isDigit b = true

/-- The text is a number, or it begins with one that is too large, or with digits and another character. -/
inductive Reads (limit : Nat) : List UInt8 → Outcome → Prop where
  | number {u : List UInt8} : Digits u → eval u ≤ limit → Reads limit u (.number (eval u))
  | large {u : List UInt8} (rest : List UInt8) : Digits u → limit < eval u → Reads limit (u ++ rest) .large
  | other {u : List UInt8} {b : UInt8} (rest : List UInt8) : Digits u → eval u ≤ limit → isDigit b = false →
      Reads limit (u ++ b :: rest) .other

/-- A number that is read for a smaller limit. -/
def Outcome.bounded (limit : Nat) : Outcome → Outcome
  | .number n => if limit < n then .large else .number n
  | o => o

theorem Outcome.bounded_number (limit n : Nat) :
    (Outcome.number n).bounded limit = if limit < n then .large else .number n := rfl

/-- The digits in front. -/
def run (bytes : List UInt8) : List UInt8 := bytes.takeWhile isDigit

/-- What is read behind digits with the value `val`. -/
def outcomeFrom (limit val : Nat) (bytes : List UInt8) : Outcome :=
  if limit < evalFrom val (run bytes) then .large
  else if run bytes = bytes then .number (evalFrom val bytes)
  else .other

def outcome (limit : Nat) (bytes : List UInt8) : Outcome := outcomeFrom limit 0 bytes

section
variable {bytes u rest : List UInt8} {b : UInt8} {limit val : Nat}

theorem digits_run (bytes : List UInt8) : Digits (run bytes) := fun _ hb => List.mem_takeWhile_imp hb

theorem Digits.run_eq (h : Digits bytes) : run bytes = bytes := List.takeWhile_eq_self_iff.mpr h

theorem run_cons_of_digit (hb : isDigit b = true) (bytes : List UInt8) : run (b :: bytes) = b :: run bytes :=
  List.takeWhile_cons_of_pos hb

theorem run_cons_of_not (hb : isDigit b = false) (bytes : List UInt8) : run (b :: bytes) = [] :=
  List.takeWhile_cons_of_neg (by simp [hb])

theorem Digits.run_append (h : Digits u) (rest : List UInt8) : run (u ++ rest) = u ++ run rest :=
  List.takeWhile_append_of_pos h

/-- The digits in front, and the character that ends them. -/
theorem run_cases (bytes : List UInt8) :
    run bytes = bytes ∨ ∃ b rest, bytes = run bytes ++ b :: rest ∧ isDigit b = false := by
  induction bytes with
  | nil => exact .inl rfl
  | cons b bytes ih =>
    cases hb : isDigit b with
    | false => exact .inr ⟨b, bytes, by rw [run_cons_of_not hb, List.nil_append], hb⟩
    | true =>
      rw [run_cons_of_digit hb]
      obtain he | ⟨c, rest, he, hc⟩ := ih
      · exact .inl (congrArg (b :: ·) he)
      · exact .inr ⟨c, rest, congrArg (b :: ·) he, hc⟩

/-- A text reads as one outcome. -/
theorem reads_iff {o : Outcome} : Reads limit bytes o ↔ o = outcome limit bytes := by
  constructor
  · intro h
    cases h with
    | number hd hle =>
      have hle' : ¬limit < evalFrom 0 bytes := Nat.not_lt.mpr hle
      unfold outcome outcomeFrom
      rw [hd.run_eq, if_neg hle', if_pos rfl]
      rfl
    | @large u rest hd hlt =>
      have hle : eval u ≤ evalFrom 0 (run (u ++ rest)) := by
        rw [hd.run_append, Decimal.evalFrom_append]
        exact Decimal.le_evalFrom _ _
      unfold outcome outcomeFrom
      rw [if_pos (by omega)]
    | @other u b rest hd hle hb =>
      have hrun : run (u ++ b :: rest) = u := by
        rw [hd.run_append, run_cons_of_not hb, List.append_nil]
      have hle' : ¬limit < evalFrom 0 u := Nat.not_lt.mpr hle
      unfold outcome outcomeFrom
      rw [hrun, if_neg hle', if_neg (by simp)]
  · rintro rfl
    unfold outcome outcomeFrom
    by_cases hlt : limit < evalFrom 0 (run bytes)
    · rw [if_pos hlt]
      obtain he | ⟨b, rest, he, -⟩ := run_cases bytes
      · have hl : Reads limit _ _ := .large [] (digits_run bytes) hlt
        rwa [List.append_nil, he] at hl
      · have hl : Reads limit _ _ := .large (b :: rest) (digits_run bytes) hlt
        rwa [← he] at hl
    · rw [if_neg hlt]
      have hle := Nat.not_lt.mp hlt
      obtain he | ⟨b, rest, he, hb⟩ := run_cases bytes
      · rw [if_pos he]
        rw [he] at hle
        exact .number (he ▸ digits_run bytes) hle
      · have hne : run bytes ≠ bytes := by
          intro h
          rw [h] at he
          simp at he
        rw [if_neg hne]
        have ho := Reads.other rest (digits_run bytes) hle hb
        rwa [← he] at ho

theorem outcomeFrom_nil (h : val ≤ limit) : outcomeFrom limit val [] = .number val := by
  have hval : evalFrom val (run []) = val := rfl
  have hrun : run [] = [] := rfl
  unfold outcomeFrom
  rw [hval, if_neg (Nat.not_lt.mpr h), if_pos hrun]
  rfl

theorem outcomeFrom_other (h : val ≤ limit) (hb : isDigit b = false) (bytes : List UInt8) :
    outcomeFrom limit val (b :: bytes) = .other := by
  have hval : evalFrom val [] = val := rfl
  unfold outcomeFrom
  rw [run_cons_of_not hb, hval, if_neg (Nat.not_lt.mpr h), if_neg (List.cons_ne_nil b bytes).symm]

theorem outcomeFrom_digit (hb : isDigit b = true) (bytes : List UInt8) :
    outcomeFrom limit val (b :: bytes) =
      if limit < push val b then .large else outcomeFrom limit (push val b) bytes := by
  have hval (u : List UInt8) : evalFrom val (b :: u) = evalFrom (push val b) u := rfl
  have hle := Decimal.le_evalFrom (push val b) (run bytes)
  unfold outcomeFrom
  rw [run_cons_of_digit hb, hval, hval]
  simp only [List.cons.injEq, true_and]
  by_cases hlt : limit < push val b
  · rw [if_pos hlt, if_pos (by omega)]
  · rw [if_neg hlt]

end

/-- What a reader finds: an outcome, or the end of its buffer. -/
inductive Scanned where
  | found (o : Outcome)
  | past
  deriving DecidableEq, Repr

/-- A reader of the bytes of a buffer up to a zero byte. -/
def scan (size : Nat) (alarm : Nat → UInt8 → Bool) : List UInt8 → Nat → Scanned
  | [], _ => .past
  | b :: bytes, val =>
    if b = 0 then .found (.number val)
    else if isDigit b = false then .found .other
    else if alarm val b then .found .large
    else scan size alarm bytes (push val b % size)

/-- What a buffer of `n` bytes holds of a text and the zero byte behind it. -/
def buffer (n : Nat) (text : List UInt8) : List UInt8 := (text ++ [0]).take n

/-- Some digit raises the alarm behind the digits before it. -/
def AlarmedFrom (size : Nat) (alarm : Nat → UInt8 → Bool) (val : Nat) (bytes : List UInt8) : Prop :=
  ∃ u b rest, bytes = u ++ b :: rest ∧ Digits u ∧ isDigit b = true ∧ alarm (evalFrom val u % size) b = true

abbrev Alarmed (size : Nat) (alarm : Nat → UInt8 → Bool) (bytes : List UInt8) : Prop := AlarmedFrom size alarm 0 bytes

section
variable {size : Nat} {alarm : Nat → UInt8 → Bool} {bytes text : List UInt8} {b : UInt8} {limit n val : Nat}

theorem evalFrom_mod (val : Nat) (bytes : List UInt8) : evalFrom (val % size) bytes % size = evalFrom val bytes % size := by
  induction bytes generalizing val with
  | nil => exact Nat.mod_mod val size
  | cons b bytes ih =>
    have hstep (v : Nat) : evalFrom v (b :: bytes) = evalFrom (push v b) bytes := rfl
    have hpush : push (val % size) b % size = push val b % size := by
      unfold push
      rw [Nat.add_mod, Nat.mod_mul_mod, ← Nat.add_mod]
    rw [hstep, hstep, ← ih (push (val % size) b), hpush, ih]

theorem not_alarmedFrom_nil : ¬AlarmedFrom size alarm val [] := by
  rintro ⟨u, b, rest, h, -⟩
  simp at h

theorem not_alarmedFrom_other (hb : isDigit b = false) : ¬AlarmedFrom size alarm val (b :: bytes) := by
  rintro ⟨u, c, rest, h, hu, hc, -⟩
  cases u with
  | nil =>
    obtain ⟨rfl, -⟩ := List.cons.inj h
    exact absurd (hb.symm.trans hc) (by decide)
  | cons d u =>
    obtain ⟨rfl, -⟩ := List.cons.inj h
    exact absurd (hb.symm.trans (hu _ List.mem_cons_self)) (by decide)

theorem alarmedFrom_cons (hb : isDigit b = true) (hval : val < size) :
    AlarmedFrom size alarm val (b :: bytes) ↔
      alarm val b = true ∨ AlarmedFrom size alarm (push val b % size) bytes := by
  have hmod : evalFrom val [] % size = val := Nat.mod_eq_of_lt hval
  have hstep (u : List UInt8) : evalFrom (push val b % size) u % size = evalFrom val (b :: u) % size := evalFrom_mod _ _
  constructor
  · rintro ⟨u, c, rest, h, hu, hc, halarm⟩
    cases u with
    | nil =>
      obtain ⟨rfl, -⟩ := List.cons.inj h
      rw [hmod] at halarm
      exact .inl halarm
    | cons d u =>
      obtain ⟨rfl, he⟩ := List.cons.inj h
      refine .inr ⟨u, c, rest, he, fun e he => hu e (List.mem_cons_of_mem _ he), hc, ?_⟩
      rwa [hstep]
  · rintro (halarm | ⟨u, c, rest, rfl, hu, hc, halarm⟩)
    · refine ⟨[], b, bytes, rfl, nofun, hb, ?_⟩
      rwa [hmod]
    · refine ⟨b :: u, c, rest, rfl, ?_, hc, ?_⟩
      · intro e he
        obtain rfl | he := List.mem_cons.mp he
        · exact hb
        · exact hu e he
      · rwa [← hstep]

/-- Nothing is read behind the zero byte. -/
theorem scan_zero (text rest : List UInt8) (val : Nat) :
    scan size alarm (text ++ 0 :: rest) val = scan size alarm (text ++ [0]) val := by
  induction text generalizing val with
  | nil => rfl
  | cons b text ih =>
    rw [List.cons_append, List.cons_append, scan, scan, ih]

open Classical in
/-- What the reader finds in a buffer with a text in it. -/
theorem scan_buffer (hzero : ∀ b ∈ text, b ≠ 0) (hval : val < size) :
    scan size alarm (buffer n text) val =
      if AlarmedFrom size alarm val (text.take n) then .found .large
      else if (run text).length < n then
        .found (if run text = text then .number (evalFrom val text % size) else .other)
      else .past := by
  induction text generalizing n val with
  | nil =>
    rw [List.take_nil, if_neg not_alarmedFrom_nil]
    cases n with
    | zero => rfl
    | succ n =>
      have hmod : evalFrom val [] % size = val := Nat.mod_eq_of_lt hval
      have hrun : run [] = [] := rfl
      rw [hrun, List.length_nil, if_pos (Nat.zero_lt_succ n), if_pos rfl, hmod]
      rfl
  | cons b text ih =>
    cases n with
    | zero =>
      rw [List.take_zero, if_neg not_alarmedFrom_nil]
      rfl
    | succ n =>
      have hb0 : b ≠ 0 := hzero b List.mem_cons_self
      have hbuf : buffer (n + 1) (b :: text) = b :: buffer n text := rfl
      rw [hbuf, List.take_succ_cons, scan, if_neg hb0]
      cases hb : isDigit b with
      | false =>
        rw [if_pos rfl, if_neg (not_alarmedFrom_other hb), run_cons_of_not hb, List.length_nil,
          if_pos (Nat.zero_lt_succ n), if_neg (List.cons_ne_nil b text).symm]
      | true =>
        rw [if_neg (by decide), run_cons_of_digit hb, List.length_cons]
        simp only [alarmedFrom_cons hb hval, Nat.succ_lt_succ_iff, List.cons.injEq, true_and]
        by_cases halarm : alarm val b = true
        · rw [if_pos halarm, if_pos (.inl halarm)]
        · rw [if_neg halarm, ih (fun c hc => hzero c (List.mem_cons_of_mem _ hc)) (Nat.mod_lt _ (Nat.zero_lt_of_lt hval))]
          have hstep : evalFrom val (b :: text) = evalFrom (push val b) text := rfl
          simp only [halarm, Bool.false_eq_true, false_or, evalFrom_mod, hstep]

/-- An alarm that only goes off above the limit is right about the number. -/
theorem Alarmed.large (hsound : ∀ v b, alarm (v % size) b = true → limit < push v b) (h : Alarmed size alarm (text.take n)) :
    limit < eval (run text) := by
  obtain ⟨u, b, rest, he, hu, hb, halarm⟩ := h
  have htext : text = u ++ b :: (rest ++ text.drop n) := by
    have hcut := List.take_append_drop n text
    rw [he, List.append_assoc, List.cons_append] at hcut
    exact hcut.symm
  have hrun : run text = u ++ b :: run (rest ++ text.drop n) := by
    conv_lhs => rw [htext]
    rw [hu.run_append, run_cons_of_digit hb]
  have heval : eval (run text) = evalFrom (push (evalFrom 0 u) b) (run (rest ++ text.drop n)) := by
    rw [hrun]
    exact Decimal.evalFrom_append _ _ _
  have hle := Decimal.le_evalFrom (push (evalFrom 0 u) b) (run (rest ++ text.drop n))
  have hlt := hsound _ b halarm
  omega

/-- When the reader finds what the text says: the number is in the limit and its digits end in the buffer, or the
alarm goes off. -/
theorem scan_exact_iff (hzero : ∀ b ∈ text, b ≠ 0) (hsize : limit < size)
    (hsound : ∀ v b, alarm (v % size) b = true → limit < push v b) :
    scan size alarm (buffer n text) 0 = .found (outcome limit text) ↔
      (eval (run text) ≤ limit ∧ (run text).length < n) ∨ Alarmed size alarm (text.take n) := by
  rw [scan_buffer hzero (Nat.zero_lt_of_lt hsize)]
  unfold outcome outcomeFrom
  change _ ↔ (evalFrom 0 (run text) ≤ limit ∧ _) ∨ _
  by_cases halarm : Alarmed size alarm (text.take n)
  · have hlarge : limit < evalFrom 0 (run text) := halarm.large hsound
    rw [if_pos halarm, if_pos hlarge]
    exact iff_of_true rfl (.inr halarm)
  · rw [if_neg halarm, or_iff_left halarm]
    by_cases hlarge : limit < evalFrom 0 (run text)
    · rw [if_pos hlarge]
      refine iff_of_false ?_ fun h => absurd h.1 (Nat.not_le.mpr hlarge)
      split
      · split <;> nofun
      · nofun
    · have hle := Nat.not_lt.mp hlarge
      rw [if_neg hlarge, and_iff_right hle]
      by_cases hshort : (run text).length < n
      · rw [if_pos hshort]
        refine iff_of_true ?_ hshort
        split
        · rename_i hrun
          rw [hrun] at hle
          rw [Nat.mod_eq_of_lt (by omega)]
        · rfl
      · rw [if_neg hshort]
        exact iff_of_false nofun hshort

/-- The same for a reader whose numbers are then compared with the limit. Digits that are too large for the buffer's
reader but raise no alarm are still found out if the remainder is too large. -/
theorem scan_bounded_iff (hzero : ∀ b ∈ text, b ≠ 0) (hsize : limit < size)
    (hsound : ∀ v b, alarm (v % size) b = true → limit < push v b) :
    (∃ o, scan size alarm (buffer n text) 0 = .found o ∧ o.bounded limit = outcome limit text) ↔
      ((eval (run text) ≤ limit ∧ (run text).length < n) ∨ Alarmed size alarm (text.take n)) ∨
        (Digits text ∧ text.length < n ∧ limit < eval text % size) := by
  rw [scan_buffer hzero (Nat.zero_lt_of_lt hsize)]
  by_cases halarm : Alarmed size alarm (text.take n)
  · have hlarge : limit < evalFrom 0 (run text) := halarm.large hsound
    unfold outcome outcomeFrom
    rw [if_pos halarm, if_pos hlarge]
    exact iff_of_true ⟨.large, rfl, rfl⟩ (.inl (.inr halarm))
  · rw [if_neg halarm, or_iff_left halarm]
    by_cases hshort : (run text).length < n
    · rw [if_pos hshort, and_iff_left hshort]
      simp only [Scanned.found.injEq, exists_eq_left']
      unfold outcome outcomeFrom
      change _ ↔ evalFrom 0 (run text) ≤ limit ∨ Digits text ∧ text.length < n ∧ limit < evalFrom 0 text % size
      by_cases hrun : run text = text
      · have hdigits : Digits text := hrun ▸ digits_run text
        rw [hrun] at hshort
        rw [hrun, if_pos rfl, if_pos rfl, and_iff_right hdigits, and_iff_right hshort]
        rw [Outcome.bounded_number]
        by_cases hlarge : limit < evalFrom 0 text
        · rw [if_pos hlarge, or_iff_right (Nat.not_le.mpr hlarge)]
          by_cases hrest : limit < evalFrom 0 text % size
          · rw [if_pos hrest]
            exact iff_of_true rfl hrest
          · rw [if_neg hrest]
            exact iff_of_false nofun hrest
        · have hle := Nat.not_lt.mp hlarge
          rw [if_neg hlarge, Nat.mod_eq_of_lt (by omega), if_neg hlarge]
          exact iff_of_true rfl (.inl hle)
      · rw [if_neg hrun, if_neg hrun]
        have hnot : ¬Digits text := fun h => hrun h.run_eq
        rw [or_iff_left fun h => hnot h.1]
        by_cases hlarge : limit < evalFrom 0 (run text)
        · rw [if_pos hlarge]
          exact iff_of_false nofun (Nat.not_le.mpr hlarge)
        · rw [if_neg hlarge]
          exact iff_of_true rfl (Nat.not_lt.mp hlarge)
    · rw [if_neg hshort]
      refine iff_of_false (fun ⟨o, h, _⟩ => nomatch h) ?_
      rintro (h | ⟨hd, hlen, -⟩)
      · exact hshort h.2
      · exact hshort (hd.run_eq.symm ▸ hlen)

end
end Mvpmc.Lib.Numeral
