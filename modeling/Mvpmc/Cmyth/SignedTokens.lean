import Mvpmc.Cmyth.NumberTokens

/-! Numbers with a sign: `cmyth_rcv_long` with the calls for smaller types that stand on it, and
`cmyth_rcv_new_int64`, whose accumulator is no wider than the numbers it reads. -/
namespace Mvpmc.Cmyth
open Mvpmc.Lib Mvpmc.Lib.Numeral

/-- `cmyth_rcv_byte` and `cmyth_rcv_short`, for numbers from `lo` to `hi`. -/
def rcvNarrow (lo hi : Int) (conn : Conn) (old : Int) (count : Int) : Number × Conn :=
  if count ≤ 0 then (⟨0, EINVAL, old⟩, conn)
  else
    let r := rcvLong conn 0 count
    if r.1.err ≠ 0 then (⟨r.1.consumed, r.1.err, old⟩, r.2)
    else if hi < r.1.value ∨ r.1.value < lo then (⟨r.1.consumed, ERANGE, old⟩, r.2)
    else r

def rcvByte : Conn → Int → Int → Number × Conn := rcvNarrow (-128) 127

def rcvShort : Conn → Int → Int → Number × Conn := rcvNarrow (-32768) 32767

/-- The sign of a number. -/
def signOf (token : List UInt8) : Int := if token.head? = some 0x2D then -1 else 1

theorem signOf_ne_zero (token : List UInt8) : signOf token ≠ 0 := by
  unfold signOf
  split <;> decide

/-- The test of the range in `cmyth_rcv_new_int64`. -/
def int64Alarm (val : Nat) (b : UInt8) : Bool := 0x7FFFFFFFFFFFFFFF < Decimal.push val b % 2 ^ 64

/-- The loop of `cmyth_rcv_new_int64` over the bytes of `num`, behind the sign. -/
def readInt64 (num : List UInt8) : Scanned := scan (2 ^ 64) int64Alarm (magnitude num) 0

/-- The bytes of `num` behind the sign. -/
def room (token : List UInt8) : Nat := if token.head? = some 0x2D then 31 else 32

/-- The digits are few enough for the buffer and not too large, or the remainder of a number at their beginning is
too large. -/
def Int64InTime (token : List UInt8) : Prop :=
  (Decimal.eval (run (magnitude token)) ≤ 0x7FFFFFFFFFFFFFFF ∧ (run (magnitude token)).length < room token) ∨
    ∃ u rest, (magnitude token).take (room token) = u ++ rest ∧ Digits u ∧
      0x7FFFFFFFFFFFFFFF < Decimal.eval u % 2 ^ 64

section Loops
variable {text tail : List UInt8}

theorem parseInt64_of_scan (hzero : ∀ b ∈ text, b ≠ 0) (ht : tail = [] ∨ ∃ rest, tail = 0 :: rest) {o : Outcome}
    (h : scan (2 ^ 64) int64Alarm (text ++ tail) 0 = .found o) : parseInt64 text 0 = code o := by
  refine parse_of_scan (fun _ => rfl) (fun b bytes v => ?_) hzero ht h
  simp only [int64Alarm, decide_eq_true_eq]
  rfl

/-- The loop of `cmyth_rcv_long` checks each number before it can overflow. -/
theorem parseLong_outcome {val : Nat} (hval : val ≤ 0x7FFFFFFF) :
    parseLong text val = code (outcomeFrom 0x7FFFFFFF val text) := by
  induction text generalizing val with
  | nil =>
    rw [outcomeFrom_nil hval]
    rfl
  | cons b text ih =>
    rw [parseLong]
    cases hb : Decimal.isDigit b with
    | false =>
      have hother : isDigit b = false := hb
      rw [if_pos hother, outcomeFrom_other hval hb]
      rfl
    | true =>
      have hdigit : ¬isDigit b = false := Bool.not_eq_false _ ▸ hb
      rw [if_neg hdigit, outcomeFrom_digit hb]
      by_cases hlarge : 0x7FFFFFFF < pushDigit val b
      · have hlarge' : 0x7FFFFFFF < Decimal.push val b := hlarge
        rw [if_pos hlarge, if_pos hlarge']
        rfl
      · have hlarge' : ¬0x7FFFFFFF < Decimal.push val b := hlarge
        rw [if_neg hlarge, if_neg hlarge']
        exact ih (Nat.not_lt.mp hlarge)

theorem int64_alarm_sound (v : Nat) (b : UInt8) (h : int64Alarm (v % 2 ^ 64) b = true) :
    0x7FFFFFFFFFFFFFFF < Decimal.push v b := by
  have hlt := of_decide_eq_true h
  have hmod := Nat.mod_le (Decimal.push (v % 2 ^ 64) b) (2 ^ 64)
  have hv := Nat.mod_le v (2 ^ 64)
  unfold Decimal.push at hlt hmod ⊢
  omega

theorem alarmed_int64_iff (n : Nat) :
    Alarmed (2 ^ 64) int64Alarm (text.take n) ↔
      ∃ u rest, text.take n = u ++ rest ∧ Digits u ∧ 0x7FFFFFFFFFFFFFFF < Decimal.eval u % 2 ^ 64 := by
  have hpush (u : List UInt8) (b : UInt8) :
      Decimal.push (Decimal.eval u % 2 ^ 64) b % 2 ^ 64 = Decimal.eval (u ++ [b]) % 2 ^ 64 := by
    have heval : Decimal.eval (u ++ [b]) = Decimal.evalFrom (Decimal.eval u) [b] := Decimal.evalFrom_append 0 u [b]
    rw [heval]
    exact evalFrom_mod (Decimal.eval u) [b]
  constructor
  · rintro ⟨u, b, rest, he, hu, hb, halarm⟩
    refine ⟨u ++ [b], rest, by rw [he, List.append_assoc, List.singleton_append], ?_, ?_⟩
    · intro c hc
      obtain hc | hc := List.mem_append.mp hc
      · exact hu c hc
      · exact List.mem_singleton.mp hc ▸ hb
    · rw [← hpush]
      exact of_decide_eq_true halarm
  · rintro ⟨u, rest, he, hu, hlt⟩
    obtain rfl | ⟨u', b, rfl⟩ := List.eq_nil_or_concat u
    · exact absurd hlt (by decide)
    · rw [List.concat_eq_append] at he hu hlt
      refine ⟨u', b, rest, by rw [he, List.append_assoc, List.singleton_append],
        fun c hc => hu c (List.mem_append_left _ hc), hu b (List.mem_append_right _ List.mem_cons_self), ?_⟩
      rw [← hpush] at hlt
      exact decide_eq_true hlt

end Loops

section Sign
variable {text cells : List UInt8}

theorem head?_of_cells (h : (text.length < 32 ∧ ∃ rest, cells = text ++ 0 :: rest) ∨ (32 ≤ text.length ∧ cells = text.take 32)) :
    cells.head? = some 0x2D ↔ text.head? = some 0x2D := by
  cases text with
  | nil =>
    obtain ⟨-, rest, rfl⟩ | ⟨hlong, -⟩ := h
    · exact iff_of_false (by simp) nofun
    · exact absurd hlong (by decide)
  | cons b text =>
    obtain ⟨-, rest, rfl⟩ | ⟨-, rfl⟩ := h
    · rfl
    · rfl

/-- The buffer behind the sign. -/
theorem magnitude_cells (h : (text.length < 32 ∧ ∃ rest, cells = text ++ 0 :: rest) ∨ (32 ≤ text.length ∧ cells = text.take 32)) :
    ((magnitude text).length < room text ∧ ∃ rest, magnitude cells = magnitude text ++ 0 :: rest) ∨
      (room text ≤ (magnitude text).length ∧ magnitude cells = (magnitude text).take (room text)) := by
  have hhead := head?_of_cells h
  unfold magnitude room
  by_cases hs : text.head? = some 0x2D
  · rw [if_pos hs, if_pos hs, if_pos (hhead.mpr hs)]
    cases text with
    | nil => exact nomatch hs
    | cons b text =>
      obtain ⟨hshort, rest, rfl⟩ | ⟨hlong, rfl⟩ := h
      · exact .inl ⟨Nat.lt_of_succ_lt_succ hshort, rest, rfl⟩
      · exact .inr ⟨Nat.le_of_succ_le_succ hlong, rfl⟩
  · rw [if_neg hs, if_neg hs, if_neg (mt hhead.mp hs)]
    exact h

theorem magnitude_take (text : List UInt8) : magnitude (text.take 32) = (magnitude text).take (room text) := by
  cases text with
  | nil => rfl
  | cons b text =>
    unfold magnitude room
    change (if (b :: text).head? = some 0x2D then _ else _) = _
    by_cases hs : (b :: text).head? = some 0x2D
    · rw [if_pos hs, if_pos hs, if_pos hs]
      rfl
    · rw [if_neg hs, if_neg hs, if_neg hs]

end Sign

section
variable {conn : Conn} {payload next : List UInt8}

theorem magnitude_ne_zero : ∀ b ∈ magnitude (tokenIn payload), b ≠ 0 := by
  intro b hb
  unfold magnitude at hb
  split at hb
  · exact tokenIn_ne_zero b (List.mem_of_mem_tail hb)
  · exact tokenIn_ne_zero b hb

theorem At.rcvNewInt64_tells (h : At conn payload next) (hne : payload ≠ []) {version : Nat} {forced : Bool}
    (hv : 66 ≤ version ∨ 57 ≤ version ∧ forced = true) (old : Int) {o : Outcome}
    (hread : readInt64 (Cmyth.rcvString conn 0 32 payload.length).1.cells = .found o) :
    (rcvNewInt64 version conn old payload.length forced).1.Tells (signOf (tokenIn payload)) o := by
  have hpos := List.length_pos_of_ne_nil hne
  have hone : ¬twoNumbers version forced = true := by
    unfold twoNumbers
    obtain hv | ⟨hv, rfl⟩ := hv
    · simp
      omega
    · simp
      omega
  obtain ⟨tail, hcells, htail⟩ := cells_take (magnitude_cells (h.cells 32))
  unfold readInt64 at hread
  rw [hcells] at hread
  have hparse := parseInt64_of_scan (fun b hb => magnitude_ne_zero b (List.mem_of_mem_take hb)) htail hread
  rw [← magnitude_take] at hparse
  have hsign : (if ((tokenIn payload).take 32).head? = some 0x2D then (-1 : Int) else 1) = signOf (tokenIn payload) := by
    unfold signOf
    cases tokenIn payload <;> rfl
  unfold rcvNewInt64
  rw [if_neg hone, if_neg (by omega)]
  dsimp only
  rw [if_neg (not_not.mpr (h.rcvString_err (.inl rfl) 32)), h.cstring_token, hsign]
  unfold magnitude at hparse
  rw [hparse]
  have htells := ofCode_tells (Cmyth.rcvString conn 0 32 payload.length).1.consumed old (signOf (tokenIn payload)) o
  cases o with
  | number v => exact htells
  | large => exact htells
  | other => exact htells

/-- When `cmyth_rcv_new_int64` is exact, where one token has all 64 bits. -/
theorem rcvNewInt64_exact_iff (h : At conn payload next) (hne : payload ≠ []) (version : Nat) (forced : Bool)
    (hv : 66 ≤ version ∨ 57 ≤ version ∧ forced = true) (old : Int) :
    let token := tokenIn payload
    Exact 0x7FFFFFFFFFFFFFFF (magnitude token) (signOf token)
        (readInt64 (rcvString conn 0 32 payload.length).1.cells)
        (rcvNewInt64 version conn old payload.length forced).1 ↔ Int64InTime token := by
  intro token
  have hscan : readInt64 (rcvString conn 0 32 payload.length).1.cells =
      scan (2 ^ 64) int64Alarm (buffer (room token) (magnitude token)) 0 :=
    scan_buffer_eq 0 (magnitude_cells (h.cells 32))
  have hlimit : 0x7FFFFFFFFFFFFFFF < 2 ^ 64 := by decide
  have hexact : _ ↔ _ ∨ Alarmed (2 ^ 64) int64Alarm ((magnitude token).take (room token)) :=
    scan_exact_iff magnitude_ne_zero hlimit int64_alarm_sound
  unfold Int64InTime
  rw [exact_iff (signOf_ne_zero token) id fun o ho => h.rcvNewInt64_tells hne hv old ho, ← alarmed_int64_iff,
    ← hexact, hscan]
  constructor
  · rintro ⟨o, hfound, ho⟩
    exact ho ▸ hfound
  · exact fun hfound => ⟨_, hfound, rfl⟩

theorem At.rcvLong_code (h : At conn payload next) (hne : payload ≠ []) (hl : (tokenIn payload).length ≤ 31) (old : Int) :
    (Cmyth.rcvLong conn old payload.length).1 =
      ofCode (Cmyth.rcvString conn 0 32 payload.length).1.consumed old (signOf (tokenIn payload))
        (code (outcome 0x7FFFFFFF (magnitude (tokenIn payload)))) := by
  have hpos := List.length_pos_of_ne_nil hne
  have htake : (tokenIn payload).take 32 = tokenIn payload := List.take_of_length_le (by omega)
  have hparse : parseLong (if (tokenIn payload).head? = some 0x2D then (tokenIn payload).tail else tokenIn payload) 0 =
      code (outcome 0x7FFFFFFF (magnitude (tokenIn payload))) := parseLong_outcome (Nat.zero_le _)
  unfold Cmyth.rcvLong
  rw [if_neg (by omega)]
  dsimp only
  rw [if_neg (not_not.mpr (h.rcvString_err (.inl rfl) 32)), h.cstring_token, htake, hparse]
  cases outcome 0x7FFFFFFF (magnitude (tokenIn payload)) with
  | number v => rfl
  | large => rfl
  | other => rfl

/-- A call for a smaller type accepts the numbers from `lo` to `hi`, and leaves the variable otherwise. -/
structure Accepts (lo hi : Int) (token : List UInt8) (old : Int) (n : Number) : Prop where
  accepts : n.err = 0 ↔
    ∃ v, Reads 0x7FFFFFFF (magnitude token) (.number v) ∧ lo ≤ signOf token * v ∧ signOf token * v ≤ hi
  value : ∀ v, Reads 0x7FFFFFFF (magnitude token) (.number v) → n.err = 0 → n.value = signOf token * v
  kept : n.err ≠ 0 → n.value = old

theorem At.rcvNarrow_accepts (h : At conn payload next) (hne : payload ≠ []) (hl : (tokenIn payload).length ≤ 31)
    (lo hi old : Int) : Accepts lo hi (tokenIn payload) old (rcvNarrow lo hi conn old payload.length).1 := by
  have hpos := List.length_pos_of_ne_nil hne
  have hcode := h.rcvLong_code hne hl 0
  unfold rcvNarrow
  rw [if_neg (by omega)]
  dsimp only
  generalize Cmyth.rcvLong conn 0 payload.length = r at hcode ⊢
  generalize (Cmyth.rcvString conn 0 32 payload.length).1.consumed = consumed at hcode
  have hfail (err : Int) (he : err ≠ 0) (ho : ∀ v, outcome 0x7FFFFFFF (magnitude (tokenIn payload)) ≠ .number v) :
      Accepts lo hi (tokenIn payload) old ⟨consumed, err, old⟩ :=
    ⟨iff_of_false he fun ⟨v, hv, _⟩ => ho v (reads_iff.mp hv).symm, fun v hv => absurd (reads_iff.mp hv).symm (ho v),
      fun _ => rfl⟩
  cases ho : outcome 0x7FFFFFFF (magnitude (tokenIn payload)) with
  | large =>
    rw [ho] at hcode hfail
    rw [hcode]
    exact hfail ERANGE (by decide) (fun v => nofun)
  | other =>
    rw [ho] at hcode hfail
    rw [hcode]
    exact hfail EINVAL (by decide) (fun v => nofun)
  | number v =>
    rw [ho] at hcode
    have hreads : Reads 0x7FFFFFFF (magnitude (tokenIn payload)) (.number v) := reads_iff.mpr ho.symm
    have honly (w : Nat) (hw : Reads 0x7FFFFFFF (magnitude (tokenIn payload)) (.number w)) : w = v :=
      Outcome.number.inj ((reads_iff.mp hw).trans ho)
    have herr : r.1.err = 0 := congrArg Number.err hcode
    have hval : r.1.value = signOf (tokenIn payload) * v := congrArg Number.value hcode
    rw [if_neg (not_not.mpr herr)]
    by_cases hout : hi < r.1.value ∨ r.1.value < lo
    · rw [if_pos hout]
      have he : ERANGE ≠ 0 := by decide
      refine ⟨iff_of_false he ?_, fun _ _ h0 => absurd h0 he, fun _ => rfl⟩
      rintro ⟨w, hw, hlo, hhi⟩
      rw [honly w hw, ← hval] at hlo hhi
      omega
    · rw [if_neg hout]
      refine ⟨iff_of_true herr ⟨v, hreads, by omega, by omega⟩, fun w hw _ => ?_, fun h0 => absurd herr h0⟩
      rw [honly w hw, hval]

/-- `cmyth_rcv_long`, `cmyth_rcv_byte` and `cmyth_rcv_short` on a token that their buffer takes. -/
theorem rcvLong_exact (h : At conn payload next) (hne : payload ≠ []) (hl : (tokenIn payload).length ≤ 31) (old : Int) :
    let token := tokenIn payload
    let n := (rcvLong conn old payload.length).1
    (∃ o, Reads 0x7FFFFFFF (magnitude token) o ∧ n.Tells (signOf token) o) ∧ (n.err ≠ 0 → n.value = old) ∧
      Accepts (-128) 127 token old (rcvByte conn old payload.length).1 ∧
      Accepts (-32768) 32767 token old (rcvShort conn old payload.length).1 := by
  intro token n
  have hcode : n = _ := h.rcvLong_code hne hl old
  refine ⟨⟨_, reads_iff.mpr rfl, ?_⟩, ?_, h.rcvNarrow_accepts hne hl _ _ old, h.rcvNarrow_accepts hne hl _ _ old⟩
  · rw [hcode]
    exact ofCode_tells _ _ _ _
  · rw [hcode]
    cases outcome 0x7FFFFFFF (magnitude (tokenIn payload)) with
    | number v => exact fun h0 => absurd rfl h0
    | large => exact fun _ => rfl
    | other => exact fun _ => rfl

end

/-- The token `-129`, which is no byte. -/
theorem rcvLong_exact_minus_129 :
    let payload := longText (-129) ++ separator
    Accepts (-128) 127 (longText (-129)) 7 (rcvByte (arrived payload) 7 payload.length).1 := by
  intro payload
  have htoken : tokenIn payload = longText (-129) := tokenIn_longText (-129) (.inr ⟨[], rfl⟩)
  have hne : payload ≠ [] := by decide
  have hl : (tokenIn payload).length ≤ 31 := by
    rw [htoken]
    decide
  have hexact := rcvLong_exact (at_arrived hne) hne hl 7
  rw [htoken] at hexact
  exact hexact.2.2.1

/-- The same token as a number of 64 bits. -/
theorem rcvNewInt64_exact_minus_129 :
    let payload := longText (-129) ++ separator
    Exact 0x7FFFFFFFFFFFFFFF (magnitude (longText (-129))) (signOf (longText (-129)))
      (readInt64 (rcvString (arrived payload) 0 32 payload.length).1.cells)
      (rcvNewInt64 66 (arrived payload) 0 payload.length false).1 := by
  intro payload
  have htoken : tokenIn payload = longText (-129) := tokenIn_longText (-129) (.inr ⟨[], rfl⟩)
  have hne : payload ≠ [] := by decide
  have hexact := rcvNewInt64_exact_iff (at_arrived hne) hne 66 false (.inl (le_refl 66)) 0
  rw [htoken] at hexact
  exact hexact.mpr (.inl ⟨by decide, by decide⟩)

/-- `2 ^ 64` is read as 0. -/
theorem rcvNewInt64_not_exact :
    let payload := Decimal.text (2 ^ 64)
    ¬Exact 0x7FFFFFFFFFFFFFFF (magnitude (tokenIn payload)) (signOf (tokenIn payload))
      (readInt64 (rcvString (arrived payload) 0 32 payload.length).1.cells)
      (rcvNewInt64 66 (arrived payload) 0 payload.length false).1 := by
  rintro payload ⟨-, o, hreads, htells⟩
  have htext : payload = [0x31, 0x38, 0x34, 0x34, 0x36, 0x37, 0x34, 0x34, 0x30, 0x37, 0x33, 0x37, 0x30, 0x39, 0x35,
    0x35, 0x31, 0x36, 0x31, 0x36] := by decide
  have ho : o = .large := by
    rw [reads_iff.mp hreads, htext]
    decide
  have herr : (rcvNewInt64 66 (arrived payload) 0 payload.length false).1.err = 0 := by
    rw [htext]
    decide
  subst ho
  exact absurd (htells.symm.trans herr) (by decide)

end Mvpmc.Cmyth
