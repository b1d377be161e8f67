import Mvpmc.Cmyth.NumBuffer
import Mvpmc.Cmyth.ProginfoRcv

/-! Lists of program information as they come in a message (`cmyth_rcv_proglist`, `socket.c`) and as they are read
(`proglist.c`). Sizes have 32 bits and pointers four bytes; whether there is memory is an argument. -/
namespace Mvpmc.Cmyth

def ENOMEM : Int := 12

/-- `struct cmyth_proglist`, with the array as long as the memory that it was given. A NULL pointer is `none`. -/
structure Proglist where
  list : Option (List (Option Proginfo))
  count : Int

namespace Proglist

/-- `cmyth_proglist_create`. -/
def create : Proglist := ⟨none, 0⟩

/-- The number of entries that are allocated. -/
def room (p : Proglist) : Nat := (p.list.getD []).length

/-- `cmyth_proglist_get_item`. What is no entry of the array is `none`. -/
def getItem (p : Proglist) (index : Int) : Option (Option Proginfo) :=
  match p.list with
  | none => some none
  | some list => if index < 0 ∨ p.count ≤ index then some none else list[index.toNat]?

end Proglist

/-- What the loop of `cmyth_rcv_proglist` leaves; the flag tells whether it has written outside of the array. -/
structure Filled where
  consumed : Nat
  err : Int
  list : List (Option Proginfo)
  outside : Bool

/-- What `cmyth_rcv_proglist` leaves. -/
structure ProglistGot where
  consumed : Nat
  err : Int
  buf : Proglist
  outside : Bool

section
variable (libc : Libc) (version : Nat)

/-- The loop of `cmyth_rcv_proglist` from the entry `i` on, with `n` entries to come. `create` tells for which entries
`cmyth_proginfo_create` succeeds. -/
def proglistLoop (create : Nat → Bool) : Nat → Nat → Conn → Int → Int → List (Option Proginfo) → Filled × Conn
  | 0, _, conn, err, _, list => (⟨0, err, list, false⟩, conn)
  | n + 1, i, conn, err, count, list =>
    if create i = false then (⟨0, ENOMEM, list, false⟩, conn)
    else
      let r := rcvProginfo libc version conn err Proginfo.create count
      if r.1.err ≠ 0 then (⟨r.1.consumed, r.1.err, list, false⟩, r.2)
      else
        let t := proglistLoop create n (i + 1) r.2 r.1.err (count - r.1.consumed) (list.set i (some r.1.value))
        (⟨r.1.consumed + t.1.consumed, t.1.err, t.1.list, t.1.outside || decide (list.length ≤ i)⟩, t.2)

/-- `cmyth_rcv_proglist`, where `malloc` tells for which sizes there is memory. -/
def rcvProglist (malloc create : Nat → Bool) (conn : Conn) (buf : Proglist) (count : Int) : ProglistGot × Conn :=
  if count ≤ 0 then (⟨0, EINVAL, buf, false⟩, conn)
  else
    let r := rcvLong conn buf.count count
    let buf := { buf with count := r.1.value }
    if r.1.err ≠ 0 then (⟨r.1.consumed, r.1.err, buf, false⟩, r.2)
    else
      let size := (4 * r.1.value % 2 ^ 32).toNat
      if malloc size = false then (⟨r.1.consumed, ENOMEM, { buf with list := none }, false⟩, r.2)
      else
        let t := proglistLoop libc version create r.1.value.toNat 0 r.2 0 (count - r.1.consumed)
          (List.replicate (size / 4) none)
        (⟨r.1.consumed + t.1.consumed, t.1.err, { buf with list := some t.1.list }, t.1.outside⟩, t.2)

/-- Program information that is decoded one after the other from a message. -/
def Decodes : Conn → Int → List Proginfo → Prop
  | _, _, [] => True
  | conn, count, p :: ps =>
    let r := rcvProginfo libc version conn 0 Proginfo.create count
    r.1.err = 0 ∧ r.1.value = p ∧ Decodes r.2 (count - r.1.consumed) ps

/-- A list is decoded inside of its allocation: nothing is written outside of the array, the count is that of some of
its entries, and without an error these are decoded, from what comes behind the count. -/
structure DecodedInside (conn : Conn) (count : Int) (r : ProglistGot) : Prop where
  writes : r.outside = false
  bounds : 0 ≤ r.buf.count ∧ r.buf.count ≤ r.buf.room
  decoded : r.err = 0 → ∃ ps : List Proginfo, (ps.length : Int) = r.buf.count ∧ Decodes libc version conn count ps ∧
    ps.map some <+: r.buf.list.getD []

end

/-- The count is no number, or it is 0, or it is so small that the size of the array is not cut, and there is memory. -/
def CountFits (malloc : Nat → Bool) (n : Number) : Prop :=
  n.err ≠ 0 ∨ n.value = 0 ∨ (0 < n.value ∧ n.value < 2 ^ 30 ∧ malloc (4 * n.value.toNat) = true)

section Loop
variable {libc : Libc} {version : Nat} {create : Nat → Bool}

/-- A round of the loop ends it with an error, or puts a decoded entry into its place. -/
theorem proglistLoop_cases (n i : Nat) (conn : Conn) (err count : Int) (list : List (Option Proginfo)) :
    (∃ f conn', f.err ≠ 0 ∧ f.list = list ∧ f.outside = false ∧
      proglistLoop libc version create (n + 1) i conn err count list = (f, conn')) ∨
    ∃ r, r = rcvProginfo libc version conn err Proginfo.create count ∧ r.1.err = 0 ∧ ∃ t,
      t = proglistLoop libc version create n (i + 1) r.2 0 (count - r.1.consumed) (list.set i (some r.1.value)) ∧
      proglistLoop libc version create (n + 1) i conn err count list =
        (⟨r.1.consumed + t.1.consumed, t.1.err, t.1.list, t.1.outside || decide (list.length ≤ i)⟩, t.2) := by
  have hmem : ENOMEM ≠ 0 := by decide
  by_cases hcreate : create i = false
  · refine .inl ⟨⟨0, ENOMEM, list, false⟩, conn, hmem, rfl, rfl, ?_⟩
    rw [proglistLoop, if_pos hcreate]
  · generalize hr : rcvProginfo libc version conn err Proginfo.create count = r
    by_cases herr : r.1.err = 0
    · refine .inr ⟨r, rfl, herr, _, rfl, ?_⟩
      rw [proglistLoop, if_neg hcreate, hr]
      dsimp only
      rw [if_neg (not_not.mpr herr), herr]
    · refine .inl ⟨⟨r.1.consumed, r.1.err, list, false⟩, r.2, herr, rfl, rfl, ?_⟩
      rw [proglistLoop, if_neg hcreate, hr]
      dsimp only
      rw [if_pos herr]

theorem proglistLoop_length (n i : Nat) (conn : Conn) (err count : Int) (list : List (Option Proginfo)) :
    (proglistLoop libc version create n i conn err count list).1.list.length = list.length := by
  induction n generalizing i conn err count list with
  | zero => rfl
  | succ n ih =>
    rcases proglistLoop_cases n i conn err count list with ⟨f, conn', -, hlist, -, heq⟩ | ⟨r, -, -, t, ht, heq⟩
    · rw [heq]
      exact congrArg List.length hlist
    · rw [heq, ht]
      exact (ih _ _ _ _ _).trans List.length_set

theorem proglistLoop_inside {n i : Nat} (conn : Conn) (err count : Int) {list : List (Option Proginfo)}
    (h : i + n ≤ list.length) : (proglistLoop libc version create n i conn err count list).1.outside = false := by
  induction n generalizing i conn err count list with
  | zero => rfl
  | succ n ih =>
    rcases proglistLoop_cases n i conn err count list with ⟨f, conn', -, -, hin, heq⟩ | ⟨r, -, -, t, ht, heq⟩
    · rw [heq]
      exact hin
    · have hrest : t.1.outside = false := by
        rw [ht]
        exact ih _ _ _ (by rw [List.length_set]; omega)
      have hi : ¬ list.length ≤ i := by omega
      rw [heq, hrest, decide_eq_false hi]
      rfl

/-- Without an error the entries are what is decoded one after the other. -/
theorem proglistLoop_decodes {n i : Nat} {conn : Conn} {count : Int} {list : List (Option Proginfo)}
    (h : i + n ≤ list.length) (h0 : (proglistLoop libc version create n i conn 0 count list).1.err = 0) :
    ∃ ps, ps.length = n ∧ Decodes libc version conn count ps ∧
      list.take i ++ ps.map some <+: (proglistLoop libc version create n i conn 0 count list).1.list := by
  induction n generalizing i conn count list with
  | zero => exact ⟨[], rfl, trivial, by simpa [proglistLoop] using List.take_prefix i list⟩
  | succ n ih =>
    rcases proglistLoop_cases n i conn 0 count list with ⟨f, conn', herr, -, -, heq⟩ | ⟨r, hr, herr, t, ht, heq⟩
    · rw [heq] at h0
      exact absurd h0 herr
    · rw [heq] at h0 ⊢
      dsimp only at h0 ⊢
      rw [ht] at h0 ⊢
      obtain ⟨ps, hlen, hdec, hprefix⟩ := ih (by rw [List.length_set]; omega) h0
      have htake : (list.set i (some r.1.value)).take (i + 1) = list.take i ++ [some r.1.value] := by
        have hi : i < (list.set i (some r.1.value)).length := by
          rw [List.length_set]
          omega
        rw [List.take_succ_eq_append_getElem hi, List.getElem_set_self, List.take_set_of_le (le_refl i)]
      rw [htake, List.append_assoc] at hprefix
      refine ⟨r.1.value :: ps, congrArg (· + 1) hlen, ?_, hprefix⟩
      rw [Decodes, ← hr]
      exact ⟨herr, rfl, hdec⟩

end Loop

section Whole
variable {libc : Libc} {version : Nat} {conn : Conn} {count : Int}

/-- An item that is asked for is read from the array, whatever its index. -/
theorem DecodedInside.getItem {r : ProglistGot} (h : DecodedInside libc version conn count r) (index : Int) :
    r.buf.getItem index ≠ none := by
  obtain ⟨-, hle⟩ := h.bounds
  unfold Proglist.room at hle
  unfold Proglist.getItem
  cases hlist : r.buf.list with
  | none => exact Option.some_ne_none none
  | some list =>
    rw [hlist] at hle
    simp only [Option.getD_some] at hle
    dsimp only
    split
    · exact Option.some_ne_none none
    · rw [List.getElem?_eq_getElem (by omega)]
      exact Option.some_ne_none _

/-- The number of entries that a size is for. -/
theorem entries_eq {c : Int} (h : 0 ≤ c) : (4 * c % 2 ^ 32).toNat / 4 = c.toNat % 2 ^ 30 := by omega

theorem size_eq {c : Int} (h : 0 ≤ c) (hc : c < 2 ^ 30) : (4 * c % 2 ^ 32).toNat = 4 * c.toNat := by omega

/-- An array that is allocated has room for the count if and only if its size is not cut. -/
theorem filled_inside_iff {create : Nat → Bool} {consumed : Nat} {c : Int} {f : Filled × Conn}
    (hf : f = proglistLoop libc version create c.toNat 0 conn 0 count (List.replicate ((4 * c % 2 ^ 32).toNat / 4) none)) :
    DecodedInside libc version conn count ⟨consumed, f.1.err, ⟨some f.1.list, c⟩, f.1.outside⟩ ↔ 0 ≤ c ∧ c < 2 ^ 30 := by
  have hlen : f.1.list.length = (4 * c % 2 ^ 32).toNat / 4 := by
    rw [hf, proglistLoop_length, List.length_replicate]
  constructor
  · rintro ⟨-, ⟨hge, hle⟩, -⟩
    change 0 ≤ c at hge
    change c ≤ (f.1.list.length : Int) at hle
    rw [hlen, entries_eq hge] at hle
    omega
  · rintro ⟨hge, hlt⟩
    have hroom : c.toNat % 2 ^ 30 = c.toNat := Nat.mod_eq_of_lt (by omega)
    rw [entries_eq hge, hroom] at hf hlen
    have hfits : 0 + c.toNat ≤ (List.replicate c.toNat (none : Option Proginfo)).length := by
      rw [List.length_replicate, Nat.zero_add]
    refine ⟨?_, ⟨hge, ?_⟩, fun herr => ?_⟩
    · rw [hf]
      exact proglistLoop_inside conn 0 count hfits
    · change c ≤ (f.1.list.length : Int)
      rw [hlen, Int.toNat_of_nonneg hge]
    · change f.1.err = 0 at herr
      rw [hf] at herr
      obtain ⟨ps, hps, hdec, hprefix⟩ := proglistLoop_decodes hfits herr
      rw [← hf] at hprefix
      refine ⟨ps, ?_, hdec, hprefix⟩
      rw [hps]
      exact Int.toNat_of_nonneg hge

/-- What is no number leaves the number there. -/
theorem rcvLong_kept {old : Int} (h : (rcvLong conn old count).1.err ≠ 0) : (rcvLong conn old count).1.value = old := by
  unfold rcvLong at h ⊢
  by_cases hcount : count ≤ 0
  · rw [if_pos hcount]
  · rw [if_neg hcount] at h ⊢
    dsimp only at h ⊢
    split
    · rfl
    · next herr =>
      rw [if_neg herr] at h
      split at h
      · rfl
      · exact absurd rfl h

/-- What that says of the number at the front of a message. -/
theorem At.countFits_iff {payload next : List UInt8} (h : At conn payload next) (malloc : Nat → Bool) :
    CountFits malloc (Cmyth.rcvLong conn 0 payload.length).1 ↔
      ∀ c, longOf payload = some c → c = 0 ∨ (0 < c ∧ c < 2 ^ 30 ∧ malloc (4 * c.toNat) = true) := by
  obtain ⟨hvalue, herr, -⟩ := h.rcvLong_number 0
  unfold CountFits
  rw [Ne, herr, not_not, hvalue]
  cases longOf payload with
  | none => exact iff_of_true (.inl rfl) nofun
  | some c =>
    constructor
    · rintro (h0 | hfits) c' hc
      · exact absurd h0 (Option.some_ne_none c)
      · exact Option.some.inj hc ▸ hfits
    · exact fun hall => .inr (hall c rfl)

/-- A new list is decoded inside of its allocation if and only if the count fits. -/
theorem rcvProglist_inside_iff (libc : Libc) (version : Nat) (malloc create : Nat → Bool) (conn : Conn) (count : Int) :
    DecodedInside libc version (rcvLong conn 0 count).2 (count - (rcvLong conn 0 count).1.consumed)
      (rcvProglist libc version malloc create conn Proglist.create count).1 ↔ CountFits malloc (rcvLong conn 0 count).1 := by
  have hinval : EINVAL ≠ 0 := by decide
  have hnomem : ENOMEM ≠ 0 := by decide
  have hempty : Proglist.create.count = 0 := rfl
  unfold rcvProglist
  by_cases hcount : count ≤ 0
  · have herr : (rcvLong conn 0 count).1.err ≠ 0 := by
      rw [rcvLong, if_pos hcount]
      exact hinval
    rw [if_pos hcount]
    exact iff_of_true ⟨rfl, ⟨le_refl 0, le_refl 0⟩, fun h => absurd h hinval⟩ (.inl herr)
  have hkept : (rcvLong conn 0 count).1.err ≠ 0 → (rcvLong conn 0 count).1.value = 0 := rcvLong_kept
  rw [if_neg hcount, hempty]
  generalize rcvLong conn 0 count = n at hkept ⊢
  obtain ⟨⟨consumed, err, c⟩, conn'⟩ := n
  dsimp only at hkept ⊢
  unfold CountFits
  by_cases herr : err ≠ 0
  · rw [if_pos herr]
    obtain rfl := hkept herr
    exact iff_of_true ⟨rfl, ⟨le_refl 0, le_refl 0⟩, fun h => absurd h herr⟩ (.inl herr)
  rw [if_neg herr]
  by_cases hmalloc : malloc (4 * c % 2 ^ 32).toNat = false
  · rw [if_pos hmalloc]
    constructor
    · rintro ⟨-, ⟨hge, hle⟩, -⟩
      exact .inr (.inl (le_antisymm hle hge))
    · rintro (h | h | ⟨hpos, hlt, hroom⟩)
      · exact absurd h herr
      · obtain rfl : c = 0 := h
        exact ⟨rfl, ⟨le_refl 0, le_refl 0⟩, fun h => absurd h hnomem⟩
      · rw [size_eq hpos.le hlt] at hmalloc
        exact absurd (hroom.symm.trans hmalloc) nofun
  · rw [if_neg hmalloc]
    refine (filled_inside_iff rfl).trans ?_
    constructor
    · rintro ⟨hge, hlt⟩
      rw [size_eq hge hlt, Bool.not_eq_false] at hmalloc
      rcases hge.eq_or_lt with h0 | hpos
      · exact .inr (.inl h0.symm)
      · exact .inr (.inr ⟨hpos, hlt, hmalloc⟩)
    · rintro (h | h | ⟨hpos, hlt, -⟩)
      · exact absurd h herr
      · obtain rfl : c = 0 := h
        exact ⟨le_refl 0, by decide⟩
      · exact ⟨hpos.le, hlt⟩

end Whole

/-- A list whose count is -1. -/
def minusOne (malloc : Nat → Bool) : ProglistGot :=
  (rcvProglist ⟨fun _ => ⟨0, 0, 0, 0, 0, 0, 0⟩, id⟩ 40 malloc (fun _ => true) (arrived (longText (-1))) Proglist.create 2).1

theorem minusOne_not_inside :
    ¬ DecodedInside ⟨fun _ => ⟨0, 0, 0, 0, 0, 0, 0⟩, id⟩ 40 (rcvLong (arrived (longText (-1))) 0 2).2
      (2 - (rcvLong (arrived (longText (-1))) 0 2).1.consumed) (minusOne fun size => size < 2 ^ 31) := by
  rintro ⟨-, ⟨hge, -⟩, -⟩
  have hcount : (minusOne fun size => size < 2 ^ 31).buf.count = -1 := by decide
  rw [hcount] at hge
  exact absurd hge (by decide)

end Mvpmc.Cmyth
