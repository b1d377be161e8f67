import Mvpmc.Cmyth.TimestampText
import Mvpmc.Cmyth.TwoNumbers

/-! The commands that carry a whole program information (`delete_command` and `fill_command`, `proginfo.c`): the
text that is built, and the buffer allocated for it. -/
namespace Mvpmc.Cmyth
open Mvpmc.Lib
open Proginfo (StringField StampField NumberField)

namespace Proginfo

/-- What the text takes from outside: `mktime`, and what the array for a timestamp that is NULL happens to hold. -/
structure Clock where
  mktime : Timestamp → Int
  leftover : StampField → List UInt8

/-- The macro `S`, up to the end of the string. -/
def textOf (p : Proginfo) (f : StringField) : List UInt8 := cstring ((p.strings f).getD [])

/-- `cmyth_datetime_to_string`: seconds, printed with `%lu`. -/
def datetimeToString (clock : Clock) : Option Timestamp → Except Int (List UInt8)
  | none => .error (-EINVAL)
  | some ts => .ok (Decimal.text (clock.mktime ts % 2 ^ 64).toNat)

/-- What the array for a timestamp holds when the text is built. -/
def stampText (clock : Clock) (version : Nat) (p : Proginfo) (f : StampField) : List UInt8 :=
  let ts := p.stamps f
  match if f = .originalairdate ∧ 32 < version then Timestamp.toIsostring ts
      else if version < 14 then Timestamp.toString ts else datetimeToString clock ts with
  | .ok s => s
  | .error _ => clock.leftover f

/-- What is printed between two separators. -/
inductive Piece where
  | string (f : StringField)
  /-- `%ld`, and `PRId64` for the length. -/
  | long (f : NumberField)
  /-- An `unsigned short`, printed with `%u` or `%d`. -/
  | ushort (f : NumberField)
  | zero
  | lengthHi
  | lengthLo
  | stamp (f : StampField)
  deriving DecidableEq, Repr

def Piece.text (clock : Clock) (version : Nat) (p : Proginfo) : Piece → List UInt8
  | .string f => textOf p f
  | .long f => longText ((p.numbers f).bmod (2 ^ 64))
  | .ushort f => Decimal.text (p.numbers f % 2 ^ 16).toNat
  | .zero => longText 0
  | .lengthHi => longText (hiHalf (p.numbers .length))
  | .lengthLo => longText (loHalf (p.numbers .length))
  | .stamp f => stampText clock version p f

/-- Entries of some versions only. -/
def since {α : Type} (c : Prop) [Decidable c] (l : List α) : List α := if c then l else []

/-- The pieces of both commands, in order. -/
def pieces (version : Nat) : List Piece :=
  [[.string .title, .string .subtitle, .string .description],
    since (67 ≤ version) [.ushort .season, .ushort .episode],
    [.string .category, .long .chanId, .string .chanstr, .string .chansign, .string .channame, .string .url],
    since (57 ≤ version) [.long .length],
    since (version < 57) [.lengthHi, .lengthLo],
    [.stamp .startTs, .stamp .endTs],
    since (version < 57) [.string .unknown0, .zero],
    [.zero, .string .hostname, .long .sourceId, .long .cardId, .long .inputId, .string .recPriority, .long .recStatus,
      .long .recordId, .long .recType, .long .recDups, .long .unknown1, .stamp .recStartTs, .stamp .recEndTs],
    since (version < 57) [.long .repeats],
    [.long .programFlags, .string .recgroup],
    since (version < 57) [.string .chancommfree],
    [.string .chanOutputFilters, .string .seriesid, .string .programid],
    since (67 ≤ version) [.string .inetref],
    [.stamp .lastmodified, .string .stars, .stamp .originalairdate],
    since (15 ≤ version ∧ version < 57) [.long .hasairdate],
    since (18 ≤ version) [.string .playgroup],
    since (25 ≤ version) [.string .recpriority2],
    since (31 ≤ version) [.long .parentid],
    since (32 ≤ version) [.string .storagegroup],
    since (35 ≤ version) [.long .audioproperties, .long .videoproperties, .long .subtitletype],
    since (43 ≤ version) [.ushort .year]].flatten

/-- The text of a command from its first words. Every piece is followed by a separator. -/
def command (clock : Clock) (version : Nat) (p : Proginfo) (head : List UInt8) : List UInt8 :=
  head ++ (pieces version).flatMap fun piece => piece.text clock version p ++ separator

/-- `delete_command` and `fill_command` up to the call that sends: the error returned, or the message. -/
def commandOf (clock : Clock) (version : Nat) (p : Option Proginfo) (head : List UInt8) : Except Int (List UInt8) :=
  match p with
  | none => .error (-EINVAL)
  | some p => if version < 12 then .error (-EINVAL) else .ok (command clock version p head)

def deleteHead (cmd : List UInt8) : List UInt8 := cmd ++ ascii " 0[]:[]"

def fillHead (cmd : List UInt8) : List UInt8 := cmd ++ ascii " libcmyth[]:[]0[]:[]"

def deleteCommand (clock : Clock) (version : Nat) (p : Option Proginfo) (cmd : List UInt8) : Except Int (List UInt8) :=
  commandOf clock version p (deleteHead cmd)

def fillCommand (clock : Clock) (version : Nat) (p : Option Proginfo) (cmd : List UInt8) : Except Int (List UInt8) :=
  commandOf clock version p (fillHead cmd)

/-- The strings whose lengths are added to `len`. -/
def counted : List StringField :=
  [.title, .subtitle, .description, .category, .chanstr, .chansign, .channame, .url, .hostname, .playgroup, .seriesid,
    .programid, .inetref, .recpriority2, .storagegroup]

/-- The lengths of some strings. -/
def lengths (p : Proginfo) (fields : List StringField) : Nat := (fields.map fun f => (textOf p f).length).sum

/-- `CMYTH_LONGLONG_LEN`, `CMYTH_TIMESTAMP_LEN` and `CMYTH_LONG_LEN`. -/
def longlongLen : Nat := 21
def timestampLen : Nat := 19
def longLen : Nat := 11

/-- `len`, an `unsigned int`. -/
def len (p : Proginfo) : Nat := (2 * longlongLen + 6 * timestampLen + 16 * longLen + lengths p counted) % 2 ^ 32

/-- The bytes allocated. -/
def allocated (p : Proginfo) : Nat := (len p + 1 + 2048) % 2 ^ 32

/-- A message fits in the buffer with its terminator. -/
def Fits (p : Proginfo) (message : List UInt8) : Prop := message.length + 1 ≤ allocated p

/-- The strings that are printed without being counted. -/
def uncounted (version : Nat) : List StringField :=
  [[.recPriority, .recgroup, .chanOutputFilters, .stars], since (version < 57) [.unknown0, .chancommfree]].flatten

/-- The strings that are counted without being printed. -/
def unprinted (version : Nat) : List StringField :=
  [since (version < 67) [.inetref], since (version < 18) [.playgroup], since (version < 25) [.recpriority2],
    since (version < 32) [.storagegroup]].flatten

def Piece.field? : Piece → Option StringField
  | .string f => some f
  | _ => none

/-- The bytes of the numbers and the timestamps. -/
def numeralBytes (clock : Clock) (version : Nat) (p : Proginfo) : Nat :=
  (((pieces version).filter fun piece => piece.field? = none).map fun piece => (piece.text clock version p).length).sum

/-- What is not counted has room in the 2381 bytes that are added, less one separator a piece. -/
def Roomy (clock : Clock) (version : Nat) (p : Proginfo) (head : List UInt8) : Prop :=
  head.length + lengths p (uncounted version) + numeralBytes clock version p + 5 * (pieces version).length + 1 +
    2 ^ 32 * ((lengths p counted + 2381) / 2 ^ 32) ≤ 2381 + lengths p (unprinted version)

instance (clock : Clock) (version : Nat) (p : Proginfo) (head : List UInt8) : Decidable (Roomy clock version p head) :=
  inferInstanceAs (Decidable (_ ≤ _))

theorem commandOf_some (clock : Clock) {version : Nat} (hv : 12 ≤ version) (p : Proginfo) (head : List UInt8) :
    commandOf clock version (some p) head = .ok (command clock version p head) :=
  if_neg (not_lt.mpr hv)

section Lengths
variable (clock : Clock) (version : Nat) (p : Proginfo)

@[simp] theorem lengths_nil : lengths p [] = 0 := rfl

@[simp] theorem lengths_cons (f : StringField) (fields : List StringField) :
    lengths p (f :: fields) = (textOf p f).length + lengths p fields := List.sum_cons

@[simp] theorem lengths_append (l m : List StringField) : lengths p (l ++ m) = lengths p l + lengths p m := by
  rw [lengths, List.map_append, List.sum_append]
  rfl

@[simp] theorem lengths_since (c : Prop) [Decidable c] (l : List StringField) :
    lengths p (since c l) = if c then lengths p l else 0 := by
  unfold since
  split
  · rfl
  · rfl

@[simp] theorem since_nil {α : Type} (c : Prop) [Decidable c] : since c ([] : List α) = [] := by
  unfold since
  split
  · rfl
  · rfl

@[simp] theorem filterMap_since (c : Prop) [Decidable c] (l : List Piece) :
    (since c l).filterMap Piece.field? = since c (l.filterMap Piece.field?) := by
  unfold since
  split
  · rfl
  · rfl

/-- The strings among the pieces. -/
def printed (version : Nat) : List StringField := (pieces version).filterMap Piece.field?

theorem flatMap_length (l : List Piece) :
    (l.flatMap fun piece => piece.text clock version p ++ separator).length =
      lengths p (l.filterMap Piece.field?) +
        ((l.filter fun piece => piece.field? = none).map fun piece => (piece.text clock version p).length).sum +
        5 * l.length := by
  induction l with
  | nil => rfl
  | cons piece l ih =>
    rw [List.flatMap_cons, List.length_append, List.length_append, ih, List.length_cons]
    have hsep : separator.length = 5 := rfl
    cases piece with
    | string f =>
      rw [List.filterMap_cons_some (f := Piece.field?) rfl, List.filter_cons_of_neg (by simp [Piece.field?]), lengths_cons, hsep]
      change (textOf p f).length + _ + _ = _
      omega
    | _ =>
      rw [List.filterMap_cons_none rfl, List.filter_cons_of_pos (by simp [Piece.field?]), List.map_cons, List.sum_cons,
        hsep]
      omega

theorem command_length (head : List UInt8) :
    (command clock version p head).length =
      head.length + (lengths p (printed version) + numeralBytes clock version p + 5 * (pieces version).length) := by
  rw [command, List.length_append, flatMap_length]
  rfl

/-- The strings that are printed, in order. -/
theorem printed_eq :
    printed version =
      [[.title, .subtitle, .description, .category, .chanstr, .chansign, .channame, .url],
        since (version < 57) [.unknown0], [.hostname, .recPriority, .recgroup], since (version < 57) [.chancommfree],
        [.chanOutputFilters, .seriesid, .programid], since (67 ≤ version) [.inetref], [.stars],
        since (18 ≤ version) [.playgroup], since (25 ≤ version) [.recpriority2],
        since (32 ≤ version) [.storagegroup]].flatten := by
  unfold printed pieces
  simp only [List.flatten_cons, List.flatten_nil, List.filterMap_append, filterMap_since]
  simp only [List.filterMap_cons, List.filterMap_nil, Piece.field?, since_nil, List.append_nil, List.nil_append,
    List.cons_append]

/-- A string of some versions is printed or left out. -/
theorem lengths_since_or (c : Prop) [Decidable c] (l : List StringField) :
    lengths p (since c l) + lengths p (since (¬c) l) = lengths p l := by
  by_cases hc : c
  · simp [hc]
  · simp [hc]

/-- The two lists kept by hand, of what is counted and of what is printed. -/
theorem printed_lengths :
    lengths p (printed version) + lengths p (unprinted version) = lengths p counted + lengths p (uncounted version) := by
  have h67 := lengths_since_or p (67 ≤ version) [.inetref]
  have h18 := lengths_since_or p (18 ≤ version) [.playgroup]
  have h25 := lengths_since_or p (25 ≤ version) [.recpriority2]
  have h32 := lengths_since_or p (32 ≤ version) [.storagegroup]
  have h57 : lengths p (since (version < 57) [.unknown0, .chancommfree]) =
      lengths p (since (version < 57) [.unknown0]) + lengths p (since (version < 57) [.chancommfree]) := by
    by_cases hv : version < 57
    · simp [since, hv]
    · simp [since, hv]
  simp only [not_le, lengths_cons, lengths_nil] at h67 h18 h25 h32
  simp only [printed_eq, unprinted, uncounted, counted, List.flatten_cons, List.flatten_nil, lengths_append, lengths_cons,
    lengths_nil, h57]
  omega

theorem allocated_eq : allocated p = (lengths p counted + 2381) % 2 ^ 32 := by
  have hlen : len p = (332 + lengths p counted) % 2 ^ 32 := rfl
  rw [allocated, hlen]
  omega

/-- A command fits if and only if what is not counted has room. -/
theorem fits_command_iff (head : List UInt8) :
    Fits p (command clock version p head) ↔ Roomy clock version p head := by
  have hprinted := printed_lengths version p
  have hwrap := Nat.mod_add_div (lengths p counted + 2381) (2 ^ 32)
  rw [Fits, command_length, allocated_eq, Roomy]
  omega

theorem length_since {α : Type} (c : Prop) [Decidable c] (l : List α) :
    (since c l).length = if c then l.length else 0 := by
  unfold since
  split
  · rfl
  · rfl

theorem length_pieces_le : (pieces version).length ≤ 47 := by
  unfold pieces
  simp only [List.flatten_cons, List.flatten_nil, List.length_append, List.length_cons, List.length_nil, length_since]
  grind

variable {clock version p} in
/-- A number takes 20 bytes at most. -/
theorem Piece.length_text_le (hstamps : ∀ f, (stampText clock version p f).length ≤ 20) {piece : Piece}
    (h : piece.field? = none) : (piece.text clock version p).length ≤ 20 := by
  have hhalf : ∀ x : Int, (longText (int32 x)).length ≤ 20 := by
    intro x
    have hlo : -(2 ^ 32 / 2) ≤ int32 x := Int.le_bmod (by decide)
    have hhi : int32 x < (2 ^ 32 + 1) / 2 := Int.bmod_lt (by decide)
    exact length_longText_le (k := 19) (by decide) (by omega)
  cases piece with
  | string f => exact absurd h (Option.some_ne_none f)
  | long f =>
    have hlo : -(2 ^ 64 / 2) ≤ (p.numbers f).bmod (2 ^ 64) := Int.le_bmod (by decide)
    have hhi : (p.numbers f).bmod (2 ^ 64) < (2 ^ 64 + 1) / 2 := Int.bmod_lt (by decide)
    exact length_longText_le (k := 19) (by decide) (by omega)
  | ushort f =>
    have hlt : (p.numbers f % 2 ^ 16).toNat < 10 ^ 20 := by omega
    exact Decimal.length_text_le (by decide) hlt
  | zero => exact length_longText_le (k := 19) (x := 0) (by decide) (by decide)
  | lengthHi => exact hhalf _
  | lengthLo => exact hhalf _
  | stamp f => exact hstamps f

variable {clock version p} in
theorem numeralBytes_le (hstamps : ∀ f, (stampText clock version p f).length ≤ 20) :
    numeralBytes clock version p ≤ 940 := by
  have hcount : ((pieces version).filter fun piece => piece.field? = none).length ≤ 47 :=
    (List.length_filter_le _ _).trans (length_pieces_le version)
  have hsum := List.sum_le_card_nsmul
    (((pieces version).filter fun piece => piece.field? = none).map fun piece => (piece.text clock version p).length) 20 (by
      intro n hn
      obtain ⟨piece, hpiece, rfl⟩ := List.mem_map.mp hn
      exact Piece.length_text_le hstamps (by simpa using (List.mem_filter.mp hpiece).2))
  rw [List.length_map, smul_eq_mul] at hsum
  exact hsum.trans (Nat.mul_le_mul_right 20 hcount)

variable {clock version p} in
/-- The numbers, the timestamps and the separators are within the allowance at every version: it takes strings that are
not counted to fill it. -/
theorem roomy_of_uncounted_le {head : List UInt8} (hstamps : ∀ f, (stampText clock version p f).length ≤ 20)
    (hhead : head.length ≤ 40) (hlen : lengths p counted + 2381 < 2 ^ 32) (h : lengths p (uncounted version) ≤ 1000) :
    Roomy clock version p head := by
  have hnumerals := numeralBytes_le hstamps
  have hpieces := length_pieces_le version
  have hwrap : (lengths p counted + 2381) / 2 ^ 32 = 0 := Nat.div_eq_of_lt hlen
  rw [Roomy, hwrap]
  omega

end Lengths

/-- The buffer is large enough if and only if the strings that are printed without being counted, the numbers, the
timestamps and the separators are within the allowance of 2381 bytes (and `len` does not wrap). -/
theorem deleteCommand_fillCommand_fit_iff (clock : Clock) {version : Nat} (hv : 12 ≤ version) (p : Proginfo)
    (cmd : List UInt8) :
    (∃ s, deleteCommand clock version (some p) cmd = .ok s ∧ (Fits p s ↔ Roomy clock version p (deleteHead cmd))) ∧
      ∃ s, fillCommand clock version (some p) cmd = .ok s ∧ (Fits p s ↔ Roomy clock version p (fillHead cmd)) :=
  ⟨⟨_, commandOf_some clock hv p _, fits_command_iff clock version p (deleteHead cmd)⟩,
    ⟨_, commandOf_some clock hv p _, fits_command_iff clock version p (fillHead cmd)⟩⟩

theorem deleteCommand_fillCommand_fit_twelve :
    (12 ≤ 12) ∧
      (∃ s, deleteCommand ⟨fun _ => 0, fun _ => []⟩ 12 (some create) [] = .ok s ∧
        (Fits create s ↔ Roomy ⟨fun _ => 0, fun _ => []⟩ 12 create (deleteHead []))) ∧
      ∃ s, fillCommand ⟨fun _ => 0, fun _ => []⟩ 12 (some create) [] = .ok s ∧
        (Fits create s ↔ Roomy ⟨fun _ => 0, fun _ => []⟩ 12 create (fillHead [])) :=
  ⟨le_refl 12, deleteCommand_fillCommand_fit_iff _ (le_refl 12) create []⟩

/-- A program in a recording group with a long name. -/
def longGroup : Proginfo := create.setString .recgroup (some (List.replicate 4000 0x78))

theorem longGroup_not_fits :
    ∃ s, deleteCommand ⟨fun _ => 0, fun _ => []⟩ 12 (some longGroup) (ascii "DELETE_RECORDING") = .ok s ∧
      ¬ Fits longGroup s := by
  have hok : deleteCommand ⟨fun _ => 0, fun _ => []⟩ 12 (some longGroup) (ascii "DELETE_RECORDING") =
      .ok (command ⟨fun _ => 0, fun _ => []⟩ 12 longGroup (deleteHead (ascii "DELETE_RECORDING"))) :=
    commandOf_some _ (le_refl 12) _ _
  refine ⟨_, hok, ?_⟩
  have hgroup : (textOf longGroup .recgroup).length = 4000 := by
    have hne : ∀ b ∈ List.replicate 4000 (0x78 : UInt8), b ≠ 0 := fun b hb => List.eq_of_mem_replicate hb ▸ by decide
    change (cstring (List.replicate 4000 0x78)).length = 4000
    rw [cstring_of_ne_zero hne, List.length_replicate]
  have hcounted : lengths longGroup counted = 0 := rfl
  have huncounted : 4000 ≤ lengths longGroup (uncounted 12) := by
    have heq : uncounted 12 = .recPriority :: .recgroup :: [.chanOutputFilters, .stars, .unknown0, .chancommfree] := rfl
    rw [heq, lengths_cons, lengths_cons, hgroup]
    omega
  have hunprinted : lengths longGroup (unprinted 12) = 0 := rfl
  rw [fits_command_iff, Roomy, hcounted, hunprinted]
  omega

end Proginfo

end Mvpmc.Cmyth
