import Mvpmc.Lib.Numeral
import Mvpmc.Cmyth.NumBuffer
import Mvpmc.Cmyth.ProginfoRcv

/-! The functions of `socket.c` that read a number from a token: what they make of every token. Their buffer `num`
has 32 bytes, and a token that fills it is not terminated there. -/
namespace Mvpmc.Cmyth
open Mvpmc.Lib Mvpmc.Lib.Numeral

/-- The test of the range in `cmyth_rcv_ulong`. -/
def ulongAlarm (val : Nat) (b : UInt8) : Bool := 0xFFFFFFFF < val && 0x35 < b

/-- The loop of `cmyth_rcv_ulong` over the bytes of `num`. -/
def readUlong (num : List UInt8) : Scanned := scan (2 ^ 64) ulongAlarm num 0

/-- `cmyth_rcv_ubyte`. -/
def rcvUbyte (conn : Conn) (old : Int) (count : Int) : Number × Conn :=
  if count ≤ 0 then (⟨0, EINVAL, old⟩, conn)
  else
    let r := rcvUlong conn count
    if r.1.err ≠ 0 then (⟨r.1.consumed, r.1.err, old⟩, r.2)
    else if 255 < r.1.value then (⟨r.1.consumed, ERANGE, old⟩, r.2)
    else r

/-- The number set, or the error code, is that of the outcome. -/
def Number.Tells (n : Number) (sign : Int) : Outcome → Prop
  | .number v => n.err = 0 ∧ n.value = sign * v
  | .large => n.err = ERANGE
  | .other => n.err = EINVAL

/-- The loop stays in its buffer, and the call tells what the token says. -/
structure Exact (limit : Nat) (text : List UInt8) (sign : Int) (read : Scanned) (n : Number) : Prop where
  inside : read ≠ .past
  tells : ∃ o, Reads limit text o ∧ n.Tells sign o

theorem Number.Tells.unique {n : Number} {sign : Int} (hs : sign ≠ 0) {o o' : Outcome} (h : n.Tells sign o)
    (h' : n.Tells sign o') : o = o' := by
  have h34 : (ERANGE : Int) ≠ 0 := by decide
  have h22 : (EINVAL : Int) ≠ 0 := by decide
  have hne : ERANGE ≠ EINVAL := by decide
  cases o with
  | number v =>
    cases o' with
    | number v' =>
      have hv : sign * v = sign * v' := h.2.symm.trans h'.2
      rw [Int.ofNat_inj.mp (Int.eq_of_mul_eq_mul_left hs hv)]
    | large => exact absurd (h'.symm.trans h.1) h34
    | other => exact absurd (h'.symm.trans h.1) h22
  | large =>
    cases o' with
    | number v' => exact absurd (h.symm.trans h'.1) h34
    | large => rfl
    | other => exact absurd (h.symm.trans h') hne
  | other =>
    cases o' with
    | number v' => exact absurd (h.symm.trans h'.1) h22
    | large => exact absurd (h'.symm.trans h) hne
    | other => rfl

/-- A call is exact if and only if its loop finds what the token says. -/
theorem exact_iff {limit : Nat} {text : List UInt8} {sign : Int} (hs : sign ≠ 0) {read : Scanned} {n : Number}
    (f : Outcome → Outcome) (hn : ∀ o, read = .found o → n.Tells sign (f o)) :
    Exact limit text sign read n ↔ ∃ o, read = .found o ∧ f o = outcome limit text := by
  constructor
  · rintro ⟨hin, o, hreads, htells⟩
    cases hread : read with
    | past => exact absurd hread hin
    | found o' => exact ⟨o', rfl, ((hn o' hread).unique hs htells).trans (reads_iff.mp hreads)⟩
  · rintro ⟨o, hread, ho⟩
    refine ⟨by rw [hread]; nofun, f o, reads_iff.mpr ho, hn o hread⟩

/-- What the loops of the model return. -/
def code : Outcome → Int ⊕ Nat
  | .number v => .inr v
  | .large => .inl ERANGE
  | .other => .inl EINVAL

/-- What a call leaves that has read the sign and then the digits. -/
def ofCode (consumed : Nat) (old sign : Int) : Int ⊕ Nat → Number
  | .inl err => ⟨consumed, err, old⟩
  | .inr val => ⟨consumed, 0, sign * val⟩

theorem ofCode_tells (consumed : Nat) (old sign : Int) (o : Outcome) : (ofCode consumed old sign (code o)).Tells sign o := by
  cases o with
  | number v => exact ⟨rfl, rfl⟩
  | large => rfl
  | other => rfl

/-- A loop that does not look behind the end of the string finds what the loop over the buffer finds, if that comes
to an end in the buffer. -/
theorem parse_of_scan {parse : List UInt8 → Nat → Int ⊕ Nat} {size : Nat} {alarm : Nat → UInt8 → Bool}
    (hnil : ∀ v, parse [] v = .inr v)
    (hcons : ∀ b bytes v, parse (b :: bytes) v = if isDigit b = false then .inl EINVAL
      else if alarm v b = true then .inl ERANGE else parse bytes (pushDigit v b % size))
    {text tail : List UInt8} (hzero : ∀ b ∈ text, b ≠ 0) (ht : tail = [] ∨ ∃ rest, tail = 0 :: rest) {val : Nat}
    {o : Outcome} (h : scan size alarm (text ++ tail) val = .found o) : parse text val = code o := by
  induction text generalizing val with
  | nil =>
    obtain rfl | ⟨rest, rfl⟩ := ht
    · exact nomatch h
    · obtain rfl := Scanned.found.inj h
      exact hnil val
  | cons b text ih =>
    rw [List.cons_append, scan, if_neg (hzero b List.mem_cons_self)] at h
    rw [hcons]
    change (if isDigit b = false then _ else _) = _ at h
    split at h
    · rename_i hb
      rw [if_pos hb]
      obtain rfl := Scanned.found.inj h
      rfl
    · rename_i hb
      rw [if_neg hb]
      split at h
      · rename_i halarm
        rw [if_pos halarm]
        obtain rfl := Scanned.found.inj h
        rfl
      · rename_i halarm
        rw [if_neg halarm]
        exact ih (fun c hc => hzero c (List.mem_cons_of_mem _ hc)) h

theorem parseUlong_of_scan {text tail : List UInt8} (hzero : ∀ b ∈ text, b ≠ 0)
    (ht : tail = [] ∨ ∃ rest, tail = 0 :: rest) {o : Outcome} (h : readUlong (text ++ tail) = .found o) :
    parseUlong text 0 = code o := by
  refine parse_of_scan (fun _ => rfl) (fun b bytes v => ?_) hzero ht h
  simp only [ulongAlarm, Bool.and_eq_true, decide_eq_true_eq]
  rfl

theorem scan_buffer_eq {size n : Nat} {alarm : Nat → UInt8 → Bool} {text cells : List UInt8} (val : Nat)
    (h : (text.length < n ∧ ∃ rest, cells = text ++ 0 :: rest) ∨ (n ≤ text.length ∧ cells = text.take n)) :
    scan size alarm cells val = scan size alarm (buffer n text) val := by
  obtain ⟨hshort, rest, rfl⟩ | ⟨hlong, rfl⟩ := h
  · have hbuf : buffer n text = text ++ [0] := by
      refine List.take_of_length_le ?_
      rw [List.length_append, List.length_singleton]
      exact hshort
    rw [hbuf, scan_zero]
  · have hbuf : buffer n text = text.take n := List.take_append_of_le_length hlong
    rw [hbuf]

/-- The cells are the token as far as it fits, and nothing or a zero byte behind it. -/
theorem cells_take {n : Nat} {text cells : List UInt8}
    (h : (text.length < n ∧ ∃ rest, cells = text ++ 0 :: rest) ∨ (n ≤ text.length ∧ cells = text.take n)) :
    ∃ tail, cells = text.take n ++ tail ∧ (tail = [] ∨ ∃ rest, tail = 0 :: rest) := by
  obtain ⟨hshort, rest, rfl⟩ | ⟨hlong, rfl⟩ := h
  · exact ⟨_, by rw [List.take_of_length_le hshort.le], .inr ⟨rest, rfl⟩⟩
  · exact ⟨[], (List.append_nil _).symm, .inl rfl⟩

theorem tokenIn_ne_zero {payload : List UInt8} : ∀ b ∈ tokenIn payload, b ≠ 0 := fun _ hb => ne_zero_of_mem_cstring hb

/-- The digits of a number are few enough for the buffer and not too large, or a digit that is larger than 5 gives
the overflow away. -/
def UlongInTime (limit : Nat) (token : List UInt8) : Prop :=
  (Decimal.eval (run token) ≤ limit ∧ (run token).length < 32) ∨
    ∃ u b rest, token.take 32 = u ++ b :: rest ∧ Digits u ∧ Decimal.isDigit b = true ∧
      0xFFFFFFFF < Decimal.eval u % 2 ^ 64 ∧ 0x35 < b

/-- Digits that fit the buffer, with a value whose remainder is too large. -/
def LargeRest (limit : Nat) (token : List UInt8) : Prop :=
  Digits token ∧ token.length < 32 ∧ limit < Decimal.eval token % 2 ^ 64

section
variable {conn : Conn} {payload next : List UInt8}

/-- What `cmyth_rcv_ulong` makes of a message in which bytes are left. -/
theorem At.rcvUlong_code (h : At conn payload next) (hne : payload ≠ []) :
    (Cmyth.rcvUlong conn payload.length).1 =
      ofCode (Cmyth.rcvString conn 0 32 payload.length).1.consumed 0 1 (parseUlong ((tokenIn payload).take 32) 0) := by
  have hpos := List.length_pos_of_ne_nil hne
  unfold Cmyth.rcvUlong
  rw [if_neg (by omega)]
  dsimp only
  rw [if_neg (not_not.mpr (h.rcvString_err (.inl rfl) 32)), h.cstring_token]
  cases parseUlong ((tokenIn payload).take 32) 0 with
  | inl err => rfl
  | inr val => exact congrArg (Number.mk _ 0) (Int.one_mul _).symm

theorem At.rcvUlong_tells (h : At conn payload next) (hne : payload ≠ []) {o : Outcome}
    (hread : readUlong (Cmyth.rcvString conn 0 32 payload.length).1.cells = .found o) :
    (Cmyth.rcvUlong conn payload.length).1.Tells 1 o := by
  obtain ⟨tail, hcells, htail⟩ := cells_take (h.cells 32)
  rw [hcells] at hread
  rw [h.rcvUlong_code hne, parseUlong_of_scan (fun b hb => tokenIn_ne_zero b (List.mem_of_mem_take hb)) htail hread]
  exact ofCode_tells _ _ _ o

/-- The comparison behind the call. -/
theorem Number.Tells.bounded {n n' : Number} {o : Outcome} {limit : Nat} (h : n.Tells 1 o) (herr : n.err ≠ 0 → n'.err = n.err)
    (hlarge : n.err = 0 → limit < n.value → n'.err = ERANGE) (hle : n.err = 0 → ¬limit < n.value → n' = n) :
    n'.Tells 1 (o.bounded limit) := by
  cases o with
  | number v =>
    obtain ⟨h0, hv⟩ := h
    rw [Int.one_mul] at hv
    rw [Outcome.bounded_number]
    by_cases hlt : limit < v
    · rw [if_pos hlt]
      exact hlarge h0 (by omega)
    · rw [if_neg hlt, hle h0 (by omega)]
      exact ⟨h0, by rw [hv, Int.one_mul]⟩
  | large =>
    have he : n.err ≠ 0 := fun h0 => absurd (h.symm.trans h0) (by decide)
    exact (herr he).trans h
  | other =>
    have he : n.err ≠ 0 := fun h0 => absurd (h.symm.trans h0) (by decide)
    exact (herr he).trans h

theorem At.rcvUbyte_tells (h : At conn payload next) (hne : payload ≠ []) (old : Int) {o : Outcome}
    (hread : readUlong (Cmyth.rcvString conn 0 32 payload.length).1.cells = .found o) :
    (rcvUbyte conn old payload.length).1.Tells 1 (o.bounded 255) := by
  have hpos := List.length_pos_of_ne_nil hne
  have htells := h.rcvUlong_tells hne hread
  unfold rcvUbyte
  rw [if_neg (by omega)]
  dsimp only
  generalize Cmyth.rcvUlong conn payload.length = r at htells ⊢
  refine htells.bounded (fun he => ?_) (fun h0 hlt => ?_) fun h0 hlt => ?_
  · rw [if_pos he]
  · rw [if_neg (not_not.mpr h0), if_pos (show (255 : Int) < r.1.value from hlt)]
  · rw [if_neg (not_not.mpr h0), if_neg (show ¬(255 : Int) < r.1.value from hlt)]

theorem At.rcvUshort_tells (h : At conn payload next) (hne : payload ≠ []) {o : Outcome}
    (hread : readUlong (Cmyth.rcvString conn 0 32 payload.length).1.cells = .found o) :
    (Cmyth.rcvUshort conn payload.length).1.Tells 1 (o.bounded 65535) := by
  have hpos := List.length_pos_of_ne_nil hne
  have htells := h.rcvUlong_tells hne hread
  unfold Cmyth.rcvUshort
  rw [if_neg (by omega)]
  dsimp only
  generalize Cmyth.rcvUlong conn payload.length = r at htells ⊢
  refine htells.bounded (fun he => ?_) (fun h0 hlt => ?_) fun h0 hlt => ?_
  · rw [if_pos he]
  · rw [if_neg (not_not.mpr h0), if_pos (show (65535 : Int) < r.1.value from hlt)]
  · rw [if_neg (not_not.mpr h0), if_neg (show ¬(65535 : Int) < r.1.value from hlt)]

theorem alarmed_ulong_iff (limit : Nat) (token : List UInt8) :
    (Decimal.eval (run token) ≤ limit ∧ (run token).length < 32) ∨
        Alarmed (2 ^ 64) ulongAlarm (token.take 32) ↔ UlongInTime limit token := by
  unfold UlongInTime Alarmed AlarmedFrom ulongAlarm
  simp only [Bool.and_eq_true, decide_eq_true_eq]
  rfl

theorem ulong_alarm_sound {limit : Nat} (hl : limit ≤ 0xFFFFFFFF) (v : Nat) (b : UInt8)
    (h : ulongAlarm (v % 2 ^ 64) b = true) : limit < Decimal.push v b := by
  have hv := of_decide_eq_true (Bool.and_eq_true_iff.mp h).1
  have hmod := Nat.mod_le v (2 ^ 64)
  have hpush := Decimal.le_push v b
  omega

end

end Mvpmc.Cmyth
