import Mvpmc.Cmyth.CommandLength

/-! The results of `cmyth_proginfo_get_detail`: what `fill_command`, `cmyth_rcv_length` and `cmyth_rcv_proginfo` report,
up to the test of the sign (`proginfo.c`, `socket.c`). -/
namespace Mvpmc.Cmyth
open Proginfo (Clock Slot)

/-- A control connection: the version of the protocol, what comes in, and what `cmyth_send_message` returns for a
message, 0 or a negative error. -/
structure Control where
  version : Nat
  conn : Conn
  send : List UInt8 → Int

/-- `fill_command`. -/
def fillCommand (clock : Clock) (control : Control) (prog : Proginfo) (cmd : List UInt8) : Int :=
  match Proginfo.fillCommand clock control.version (some prog) cmd with
  | .error err => err
  | .ok buf => if control.send buf < 0 then control.send buf else 0

/-- The length of the answer, and what is received of it. -/
def Control.count (control : Control) : Int := (rcvLength control.conn).1

def Control.answer (libc : Libc) (control : Control) (prog : Proginfo) : Got Proginfo :=
  (rcvProginfo libc control.version (rcvLength control.conn).2 0 prog control.count).1

/-- `cmyth_proginfo_fill`: the result and the program information. What `fill_command` returns is compared before it is
assigned, so its errors come out as 1. -/
def proginfoFill (libc : Libc) (clock : Clock) (control : Option Control) (prog : Proginfo) : Int × Proginfo :=
  match control with
  | none => (-EINVAL, prog)
  | some control =>
    let length := prog.numbers .length
    if fillCommand clock control prog (ascii "FILL_PROGRAM_INFO") ≠ 0 then (1, prog)
    else if control.count < 0 then (control.count, prog)
    else
      let r := control.answer libc prog
      if r.consumed ≠ control.count then (r.err, r.value)
      else if r.value.numbers .length = 0 then (-1, r.value.setNumber .length length)
      else (0, r.value)

/-- `cmyth_proginfo_dup`, which copies every field, if there is memory. -/
def proginfoDup (mem : Bool) (p : Proginfo) : Option Proginfo := if mem then some p else none

/-- `cmyth_proginfo_get_detail`. -/
def proginfoGetDetail (libc : Libc) (clock : Clock) (mem : Bool) (control : Option Control) (p : Proginfo) :
    Option Proginfo :=
  match proginfoDup mem p with
  | none => none
  | some ret =>
    let r := proginfoFill libc clock control ret
    if r.1 < 0 then none else some r.2

/-- The request has been sent. -/
def Control.Sent (clock : Clock) (control : Control) (p : Proginfo) : Prop :=
  fillCommand clock control p (ascii "FILL_PROGRAM_INFO") = 0

/-- The whole answer has been decoded without an error. -/
structure Control.Decoded (libc : Libc) (control : Control) (p : Proginfo) : Prop where
  length : 0 ≤ control.count
  err : (control.answer libc p).err = 0
  whole : (control.answer libc p).consumed = control.count

/-- The failures that come out negative: no length arrives, decoding stops before the end of the answer with a negative
error, or the answer is used up and the length of the recording is 0. -/
def Control.Reported (libc : Libc) (control : Control) (p : Proginfo) : Prop :=
  control.count < 0 ∨
    ((control.answer libc p).consumed ≠ control.count ∧ (control.answer libc p).err < 0) ∨
    ((control.answer libc p).consumed = control.count ∧ (control.answer libc p).value.numbers .length = 0)

section
variable {libc : Libc} {clock : Clock} {control : Control} {p : Proginfo}

/-- The result is negative in just these cases. -/
theorem proginfoFill_neg_iff :
    (proginfoFill libc clock (some control) p).1 < 0 ↔ control.Sent clock p ∧ control.Reported libc p := by
  unfold proginfoFill Control.Sent Control.Reported
  dsimp only
  by_cases hsent : fillCommand clock control p (ascii "FILL_PROGRAM_INFO") = 0
  · rw [if_neg (not_not.mpr hsent)]
    refine Iff.trans ?_ (and_iff_right hsent).symm
    by_cases hcount : control.count < 0
    · rw [if_pos hcount]
      exact iff_of_true hcount (.inl hcount)
    rw [if_neg hcount]
    by_cases hwhole : (control.answer libc p).consumed = control.count
    · rw [if_neg (not_not.mpr hwhole)]
      by_cases hlength : (control.answer libc p).value.numbers .length = 0
      · rw [if_pos hlength]
        exact iff_of_true (Int.negSucc_lt_zero 0) (.inr (.inr ⟨hwhole, hlength⟩))
      · rw [if_neg hlength]
        exact iff_of_false (lt_irrefl 0) (by simp [hcount, hwhole, hlength])
    · rw [if_pos hwhole]
      simp [hcount, hwhole]
  · rw [if_pos hsent]
    exact iff_of_false (by change ¬(1 : Int) < 0; decide) fun h => hsent h.1

theorem proginfoGetDetail_eq_none_iff : proginfoGetDetail libc clock true (some control) p = none ↔
    control.Sent clock p ∧ control.Reported libc p := by
  have hdup : proginfoGetDetail libc clock true (some control) p =
      if (proginfoFill libc clock (some control) p).1 < 0 then none
      else some (proginfoFill libc clock (some control) p).2 := rfl
  rw [← proginfoFill_neg_iff, hdup]
  exact ite_eq_left_iff.trans (by simp)

/-- Where the request is not sent, the copy is returned as it is. -/
theorem proginfoGetDetail_unsent (h : ¬ control.Sent clock p) :
    proginfoGetDetail libc clock true (some control) p = some p := by
  have hfill : proginfoFill libc clock (some control) p = (1, p) := if_pos h
  have hdup : proginfoGetDetail libc clock true (some control) p =
      if (proginfoFill libc clock (some control) p).1 < 0 then none
      else some (proginfoFill libc clock (some control) p).2 := rfl
  rw [hdup, hfill]
  rfl

end

/-- What is returned has been received, if and only if the request is sent and the answer is decoded whole or fails in
one of the ways that come out negative. -/
theorem proginfoGetDetail_received_iff (libc : Libc) (clock : Clock) (mem : Bool) (control : Option Control) (p : Proginfo) :
    (∀ q, proginfoGetDetail libc clock mem control p = some q →
        ∃ c, control = some c ∧ c.Sent clock p ∧ c.Decoded libc p) ↔
      ∀ c, mem = true → control = some c → c.Sent clock p ∧ (c.Decoded libc p ∨ c.Reported libc p) := by
  cases mem with
  | false => exact iff_of_true (fun q hq => absurd hq nofun) (fun c hm => absurd hm nofun)
  | true =>
    cases control with
    | none => exact iff_of_true (fun q hq => absurd hq nofun) (fun c _ hc => absurd hc nofun)
    | some control =>
      constructor
      · rintro h c - hc
        obtain rfl := Option.some.inj hc
        cases hres : proginfoGetDetail libc clock true (some control) p with
        | none =>
          obtain ⟨hsent, hreported⟩ := proginfoGetDetail_eq_none_iff.mp hres
          exact ⟨hsent, .inr hreported⟩
        | some q =>
          obtain ⟨c, hc, hsent, hdecoded⟩ := h q hres
          obtain rfl := Option.some.inj hc
          exact ⟨hsent, .inl hdecoded⟩
      · intro h q hq
        obtain ⟨hsent, hdecoded | hreported⟩ := h control rfl rfl
        · exact ⟨control, rfl, hsent, hdecoded⟩
        · exact absurd (hq.symm.trans (proginfoGetDetail_eq_none_iff.mpr ⟨hsent, hreported⟩)) (Option.some_ne_none q)

/-- The peer has closed the connection: `send` fails with `EPIPE`. -/
def closedControl : Control where
  version := 12
  conn := ⟨3, none, 0, 0, 0, [], 0⟩
  send := fun _ => -32

/-- The program information is returned as if it had been received. -/
theorem closedControl_returned :
    proginfoGetDetail ⟨fun _ => ⟨0, 0, 0, 0, 0, 0, 0⟩, id⟩ ⟨fun _ => 0, fun _ => []⟩ true (some closedControl) Proginfo.create =
        some Proginfo.create ∧
      ¬ closedControl.Sent ⟨fun _ => 0, fun _ => []⟩ Proginfo.create := by
  have hok := Proginfo.commandOf_some ⟨fun _ => 0, fun _ => []⟩ (show 12 ≤ closedControl.version from le_refl 12)
  have hfail : fillCommand ⟨fun _ => 0, fun _ => []⟩ closedControl Proginfo.create (ascii "FILL_PROGRAM_INFO") = -32 := by
    unfold fillCommand Proginfo.fillCommand
    rw [hok]
    rfl
  have hsent : ¬ closedControl.Sent ⟨fun _ => 0, fun _ => []⟩ Proginfo.create := by
    rw [Control.Sent, hfail]
    exact Int.negSucc_ne_zero 31
  exact ⟨proginfoGetDetail_unsent hsent, hsent⟩

section Negative

theorem zero_le_einval : 0 ≤ EINVAL := by decide

theorem zero_le_erange : 0 ≤ ERANGE := by decide

theorem fill_err_nonneg {s : Rcv} (h : 0 ≤ s.err) (n : Nat) : 0 ≤ (s.fill n).1.err := by
  unfold Rcv.fill
  split
  · dsimp only
    split
    · rename_i hneg
      exact Int.neg_nonneg_of_nonpos (Int.le_of_lt hneg)
    · rename_i hnonneg
      exact not_lt.mp hnonneg
  · exact h

theorem rcvLoop_err_nonneg (buflen n : Nat) {s : Rcv} (h : 0 ≤ s.err) : 0 ≤ (rcvLoop buflen n s).1.err := by
  induction n generalizing s with
  | zero => exact h
  | succ n ih =>
    have hfill := fill_err_nonneg h (n + 1)
    unfold rcvLoop
    dsimp only
    split
    · exact hfill
    · split
      · exact hfill
      · exact ih hfill

/-- A loop over digits that stops at a byte with one of the two errors. -/
theorem parse_err_nonneg {parse : List UInt8 → Nat → Int ⊕ Nat} (hnil : ∀ val, parse [] val = .inr val)
    (hcons : ∀ b bytes val, parse (b :: bytes) val = .inl EINVAL ∨ parse (b :: bytes) val = .inl ERANGE ∨
      ∃ val', parse (b :: bytes) val = parse bytes val') {bytes : List UInt8} {val : Nat} {err : Int}
    (h : parse bytes val = .inl err) : 0 ≤ err := by
  induction bytes generalizing val with
  | nil => exact absurd ((hnil val).symm.trans h) nofun
  | cons b bytes ih =>
    obtain hinval | hrange | ⟨val', hrest⟩ := hcons b bytes val
    · exact Sum.inl.inj (hinval.symm.trans h) ▸ zero_le_einval
    · exact Sum.inl.inj (hrange.symm.trans h) ▸ zero_le_erange
    · exact ih (hrest.symm.trans h)

theorem parseUlong_err {bytes : List UInt8} {val : Nat} {err : Int} (h : parseUlong bytes val = .inl err) : 0 ≤ err := by
  refine parse_err_nonneg (fun _ => rfl) (fun b bytes val => ?_) h
  rw [parseUlong]
  split_ifs
  · exact .inl rfl
  · exact .inr (.inl rfl)
  · exact .inr (.inr ⟨_, rfl⟩)

theorem parseLong_err {bytes : List UInt8} {val : Nat} {err : Int} (h : parseLong bytes val = .inl err) : 0 ≤ err := by
  refine parse_err_nonneg (fun _ => rfl) (fun b bytes val => ?_) h
  rw [parseLong]
  split_ifs
  · exact .inl rfl
  · exact .inr (.inl rfl)
  · exact .inr (.inr ⟨_, rfl⟩)

theorem parseInt64_err {bytes : List UInt8} {val : Nat} {err : Int} (h : parseInt64 bytes val = .inl err) : 0 ≤ err := by
  refine parse_err_nonneg (fun _ => rfl) (fun b bytes val => ?_) h
  rw [parseInt64]
  split_ifs
  · exact .inl rfl
  · exact .inr (.inl rfl)
  · exact .inr (.inr ⟨_, rfl⟩)

variable (conn : Conn) (count : Int)

theorem rcvString_err_nonneg {err : Int} (h : 0 ≤ err) (buflen : Nat) : 0 ≤ (rcvString conn err buflen count).1.err := by
  unfold rcvString
  split
  · exact zero_le_einval
  · split
    · exact Int.le_of_lt (Int.natCast_pos.mpr (Nat.succ_pos 8))
    · exact rcvLoop_err_nonneg buflen count.toNat h

theorem rcvUlong_err_nonneg : 0 ≤ (rcvUlong conn count).1.err := by
  have hstring := rcvString_err_nonneg conn count (le_refl 0) 32
  unfold rcvUlong
  dsimp only
  split
  · exact zero_le_einval
  · split
    · exact hstring
    · split
      · rename_i h
        exact parseUlong_err h
      · exact le_refl 0

theorem rcvUshort_err_nonneg : 0 ≤ (rcvUshort conn count).1.err := by
  have hulong := rcvUlong_err_nonneg conn count
  unfold rcvUshort
  dsimp only
  split
  · exact zero_le_einval
  · split
    · exact hulong
    · split
      · exact zero_le_erange
      · exact hulong

theorem rcvLong_err_nonneg (old : Int) : 0 ≤ (rcvLong conn old count).1.err := by
  have hstring := rcvString_err_nonneg conn count (le_refl 0) 32
  unfold rcvLong
  dsimp only
  split
  · exact zero_le_einval
  · split
    · exact hstring
    · split
      · rename_i h
        exact parseLong_err h
      · exact le_refl 0

theorem rcvNewInt64_err_nonneg (version : Nat) (old : Int) (forced : Bool) :
    0 ≤ (rcvNewInt64 version conn old count forced).1.err := by
  have hstring := rcvString_err_nonneg conn count (le_refl 0) 32
  have hhi := rcvLong_err_nonneg conn count 0
  unfold rcvNewInt64 rcvOldInt64
  dsimp only
  split
  · split
    · exact zero_le_einval
    · split
      · exact hhi
      · split
        · exact rcvLong_err_nonneg _ _ 0
        · exact le_refl 0
  · split
    · exact zero_le_einval
    · split
      · exact hstring
      · split
        · rename_i h
          exact parseInt64_err h
        · exact le_refl 0

theorem rcvDatetime_err_nonneg (libc : Libc) (ts : Option Timestamp) : 0 ≤ (rcvDatetime libc conn ts count).1.err := by
  have hstring := rcvString_err_nonneg conn count (le_refl 0) 11
  unfold rcvDatetime
  dsimp only
  split
  · exact zero_le_einval
  · split
    · exact hstring
    · exact le_refl 0

/-- Of the steps, only those that receive the text of a timestamp can fail with a negative error. -/
theorem Proginfo.Slot.rcv_err_nonneg (libc : Libc) {slot : Slot} (hslot : ∀ f, slot ≠ .timestamp f) {err : Int} (h : 0 ≤ err)
    (p : Proginfo) : 0 ≤ (slot.rcv libc conn err p count).1.err := by
  cases slot with
  | timestamp f => exact absurd rfl (hslot f)
  | string f => exact rcvString_err_nonneg conn count h 32767
  | chanId => exact rcvString_err_nonneg conn count h 32767
  | icon => exact rcvString_err_nonneg conn count h 32767
  | stars => exact rcvString_err_nonneg conn count h 32767
  | ulong f => exact rcvUlong_err_nonneg conn count
  | long f => exact rcvLong_err_nonneg conn count _
  | ushort f => exact rcvUshort_err_nonneg conn count
  | length => exact rcvNewInt64_err_nonneg conn count _ _ true
  | datetime f => exact rcvDatetime_err_nonneg conn count libc _

theorem rcvSlots_err_nonneg (libc : Libc) {slots : List Slot} (hslots : ∀ f, Slot.timestamp f ∉ slots) {err : Int}
    (h : 0 ≤ err) (p : Proginfo) : 0 ≤ (Proginfo.rcvSlots libc slots conn err p count).1.err := by
  induction slots generalizing conn err p count with
  | nil => exact h
  | cons slot slots ih =>
    have hne : ∀ f, slot ≠ .timestamp f := fun f hf => hslots f (hf ▸ List.mem_cons_self)
    have hstep := Slot.rcv_err_nonneg conn count libc hne h p
    unfold Proginfo.rcvSlots
    dsimp only
    split
    · exact hstep
    · exact ih _ _ (fun f hf => hslots f (List.mem_cons_of_mem slot hf)) hstep _

theorem timestamp_not_mem_slots {version : Nat} (hlo : 14 ≤ version) (hhi : version ≤ 32) (f : Proginfo.StampField) :
    Slot.timestamp f ∉ Proginfo.slots version := by
  have hgiven : ∀ (c : Bool) (l : List Slot), Slot.timestamp f ∈ Proginfo.given c l ↔ c = true ∧ Slot.timestamp f ∈ l := by
    intro c l
    cases c with
    | false => exact iff_of_false List.not_mem_nil fun h => Bool.false_ne_true h.1
    | true => exact (and_iff_right rfl).symm
  have hstamp : ∀ g, Proginfo.stamp version g = .datetime g := fun g => if_pos hlo
  have hair : (14 ≤ version && version ≤ 32) = true := by simp [hlo, hhi]
  intro hmem
  unfold Proginfo.slots at hmem
  simp only [hstamp, hair, if_true, List.mem_append, hgiven, List.mem_cons, List.not_mem_nil, reduceCtorEq, or_false,
    and_false] at hmem
  split at hmem
  · simp at hmem
  · simp at hmem

/-- In the versions in which every timestamp is a number no error of the decoder is negative. -/
theorem Control.answer_err_nonneg (libc : Libc) {control : Control} (hlo : 14 ≤ control.version)
    (hhi : control.version ≤ 32) (p : Proginfo) : 0 ≤ (control.answer libc p).err := by
  unfold Control.answer rcvProginfo
  split
  · exact zero_le_einval
  · exact rcvSlots_err_nonneg _ _ libc (timestamp_not_mem_slots hlo hhi) (le_refl 0) _

end Negative

end Mvpmc.Cmyth
