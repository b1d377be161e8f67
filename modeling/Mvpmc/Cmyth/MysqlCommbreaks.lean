import Mvpmc.Lib.Cursor
import Mvpmc.Cmyth.Commbreaks

/-! Commercial breaks from the database (`cmyth_mysql_get_commbreak_list`, `mythtv_mysql.c`): the array that is filled
from the rows of one query and sized by another, and the breaks created for it. -/
namespace Mvpmc.Cmyth.Mysql
open Mvpmc.Lib.Cursor (Act Fills Safe entry fills_make_iff fills_advance_iff)
open Commbreak (commbreakStart commbreakEnd)

/-- A row of a result; a column is NULL or a text. -/
abbrev SqlRow := List (Option (List UInt8))

/-- `safe_atoi` and `safe_atoll` of a column. -/
def SqlRow.number (row : SqlRow) (i : Nat) : Int :=
  match row[i]?.join with
  | none => 0
  | some s => atoi s

/-- The locals of `cmyth_mysql_get_commbreak_list`. Breaks are numbered as they are created, and `commbreak` is the
number of one; the array is told by the assignments to its entries, the last one first. -/
structure Fill where
  breaks : List Commbreak
  commbreak : Option Nat
  stores : List (Nat × Nat)
  rows : Nat
  i : Nat
  startPrevious : Int
  endPrevious : Int

namespace Fill

def start : Fill := ⟨[], none, [], 0, 0, 0, 0⟩

/-- A break is created, with its start. -/
def startBreak (s : Fill) (mark offset : Int) : Fill :=
  { s with
    breaks := s.breaks ++ [{ Commbreak.create with startMark := mark, startOffset := offset }]
    commbreak := some s.breaks.length }

/-- A break gets its end and is stored at `rows`. -/
def endBreak (s : Fill) (b : Nat) (mark offset : Int) : Fill :=
  { s with
    breaks := s.breaks.modify b fun c => { c with endMark := mark, endOffset := offset }
    stores := (s.rows, b) :: s.stores }

/-- A row from version 43 on, where `i` is not used; `none` if the function returns -1. The columns are the type, the
mark, the mark of a seek entry near it and its offset. -/
def row (s : Fill) (r : SqlRow) : Option Fill :=
  let mark := r.number 1
  let seek := r.number 2
  if r.number 0 = commbreakStart then
    if mark ≠ s.startPrevious then some { s.startBreak mark (r.number 3) with startPrevious := mark }
    else if mark = seek then some (s.startBreak mark (r.number 3))
    else some s
  else if r.number 0 = commbreakEnd then
    if mark ≠ s.endPrevious then
      s.commbreak.map fun b => { s.endBreak b mark (r.number 3) with endPrevious := mark, rows := s.rows + 1 }
    else if mark = seek then
      s.commbreak.map fun b =>
        { s.endBreak b mark (r.number 3) with rows := if s.endPrevious ≠ mark then s.rows + 1 else s.rows }
    else some s
  else none

/-- A row before version 43: the type, the mark and the offset. There is a break where an end is expected. -/
def rowOld (s : Fill) (r : SqlRow) : Option Fill :=
  if s.i % 2 = 0 then
    if r.number 0 ≠ commbreakStart then none
    else some { s.startBreak (r.number 1) (r.number 2) with i := s.i + 1 }
  else if r.number 0 ≠ commbreakEnd then none
  else s.commbreak.map fun b => { s.endBreak b (r.number 1) (r.number 2) with i := 0, rows := s.rows + 1 }

/-- The loop over the rows, and whether it comes to their end. -/
def run (row : Fill → SqlRow → Option Fill) : List SqlRow → Fill → Fill × Bool
  | [], s => (s, true)
  | r :: rows, s =>
    match row s r with
    | none => (s, false)
    | some s => run row rows s

end Fill

/-- What the database answers: whether the parameters are bound, the result of the query, what
`cmyth_mysql_query_commbreak_count` returns; and whether there is memory for the array. -/
structure Answers where
  bound : Bool
  result : Option (List SqlRow)
  counted : Int
  mem : Bool

/-- What is left by a call: the value returned, `commbreak_count`, and the breaks and the array. -/
structure Listed where
  ret : Int
  count : Int
  fill : Fill

/-- `commbreak_count`. -/
def commbreakCount (version : Nat) (db : Answers) (rows : List SqlRow) : Int :=
  if 43 ≤ version then db.counted else (rows.length / 2 : Nat)

/-- `cmyth_mysql_get_commbreak_list` with a list that is new. There is no memory for an array of negative size, which
as a `size_t` is larger than any object. -/
def getCommbreakList (version : Nat) (db : Answers) : Listed :=
  if db.bound = false then ⟨-1, 0, .start⟩
  else
    match db.result with
    | none => ⟨-1, 0, .start⟩
    | some rows =>
      let count := commbreakCount version db rows
      if count < 0 ∨ db.mem = false then ⟨-1, count, .start⟩
      else
        let r := Fill.run (if 43 ≤ version then Fill.row else Fill.rowOld) rows .start
        ⟨if r.2 then r.1.rows else -1, count, r.1⟩

/-- No entry is written outside the array, no break is stored in two entries, and every break created is in the list.
None is released by the function. -/
structure Listed.Kept (l : Listed) : Prop where
  inside : ∀ p ∈ l.fill.stores, (p.1 : Int) < l.count
  single : ∀ p ∈ l.fill.stores, ∀ q ∈ l.fill.stores, p.2 = q.2 → p.1 = q.1
  reachable : ∀ b < l.fill.breaks.length, ∃ i : Nat, (i : Int) < l.count ∧ entry l.fill.stores i = some b

/-- What rows from version 43 on come to, up to the first at which the function returns: a start with a new mark, or
with the mark of its seek entry, creates a break; an end with a new mark stores the break and moves on; one with the mark
of the last end and of its seek entry stores it without moving on. -/
def acts (startPrevious endPrevious : Int) (created : Bool) : List SqlRow → List Act
  | [] => []
  | r :: rows =>
    let mark := r.number 1
    if r.number 0 = commbreakStart then
      if mark ≠ startPrevious ∨ mark = r.number 2 then .make :: acts mark endPrevious true rows
      else acts startPrevious endPrevious created rows
    else if r.number 0 = commbreakEnd then
      if mark ≠ endPrevious then
        if created then .advance :: acts startPrevious mark created rows else []
      else if mark = r.number 2 then
        if created then .put :: acts startPrevious endPrevious created rows else []
      else acts startPrevious endPrevious created rows
    else []

/-- What rows before version 43 come to: a start and an end in turn. -/
def actsOld (opened : Bool) : List SqlRow → List Act
  | [] => []
  | r :: rows =>
    if opened then if r.number 0 = commbreakEnd then .advance :: actsOld false rows else []
    else if r.number 0 = commbreakStart then .make :: actsOld true rows
    else []

def actsOf (version : Nat) (rows : List SqlRow) : List Act :=
  if 43 ≤ version then acts 0 0 false rows else actsOld false rows

namespace Fill

/-- The numbers of the breaks, without what is in them. -/
def view (s : Fill) : Mvpmc.Lib.Cursor.State := ⟨s.breaks.length, s.rows, s.stores⟩

/-- The break at hand is the last one created. -/
def Current (s : Fill) : Prop := s.commbreak = if s.breaks.length = 0 then none else some (s.breaks.length - 1)

variable {s : Fill} {b : Nat}

theorem Current.eq (h : s.Current) (hb : s.commbreak = some b) : s.breaks.length - 1 = b := by
  unfold Current at h
  rw [hb] at h
  split at h
  · exact absurd h (Option.some_ne_none b)
  · exact (Option.some.inj h).symm

theorem current_startBreak (s : Fill) (mark offset : Int) : (s.startBreak mark offset).Current := by
  unfold Current startBreak
  simp

theorem view_startBreak (s : Fill) (mark offset : Int) : (s.startBreak mark offset).view = s.view.step .make := by
  unfold view startBreak
  simp [Mvpmc.Lib.Cursor.State.step]

theorem length_endBreak (s : Fill) (b : Nat) (mark offset : Int) :
    (s.endBreak b mark offset).breaks.length = s.breaks.length := List.length_modify _ _ _

theorem current_endBreak (h : s.Current) (mark offset : Int) : (s.endBreak b mark offset).Current := by
  unfold Current at h ⊢
  rw [length_endBreak]
  exact h

/-- A row comes to some acts, which are those in front of what the rows behind it come to. -/
def Steps (row : Fill → SqlRow → Option Fill) (I : Fill → Prop) (acts : Fill → List SqlRow → List Act) (s : Fill)
    (r : SqlRow) : Prop :=
  (row s r = none ∧ ∀ rows, acts s (r :: rows) = []) ∨
    ∃ (s' : Fill) (l : List Act), row s r = some s' ∧ I s' ∧ s'.view = s.view.run l ∧
      ∀ rows, acts s (r :: rows) = l ++ acts s' rows

/-- So do the rows of a loop. -/
theorem view_run {row : Fill → SqlRow → Option Fill} {I : Fill → Prop} {acts : Fill → List SqlRow → List Act}
    (hnil : ∀ s, acts s [] = []) (hstep : ∀ s r, I s → Steps row I acts s r) {s : Fill} (h : I s) (rows : List SqlRow) :
    (run row rows s).1.view = s.view.run (acts s rows) := by
  induction rows generalizing s with
  | nil =>
    rw [hnil]
    rfl
  | cons r rows ih =>
    rw [run]
    obtain ⟨hnone, hacts⟩ | ⟨s', l, hsome, hI, hview, hacts⟩ := hstep s r h
    · rw [hnone, hacts]
      rfl
    · rw [hsome, hacts]
      refine (ih hI).trans ?_
      rw [hview]
      exact List.foldl_append.symm

/-- A store of the break at hand. -/
theorem view_endBreak (h : s.Current) (hb : s.commbreak = some b) (mark offset : Int) :
    (s.endBreak b mark offset).view = s.view.step .put ∧
      ∀ e i, { s.endBreak b mark offset with endPrevious := e, i := i, rows := s.rows + 1 }.view =
        s.view.step .advance := by
  have hput : (s.endBreak b mark offset).view = ⟨s.breaks.length, s.rows, (s.rows, b) :: s.stores⟩ := by
    unfold view
    rw [length_endBreak]
    rfl
  have hlast := h.eq hb
  subst hlast
  refine ⟨hput, fun e i => ?_⟩
  exact congrArg (fun v : Mvpmc.Lib.Cursor.State => { v with cursor := s.rows + 1 }) hput

/-- A row from version 43 on. -/
theorem steps_row (h : s.Current) (r : SqlRow) :
    Steps row Current (fun s => acts s.startPrevious s.endPrevious s.commbreak.isSome) s r := by
  unfold Steps row
  simp only [acts]
  by_cases hstart : r.number 0 = commbreakStart
  · simp only [if_pos hstart]
    by_cases hnew : r.number 1 ≠ s.startPrevious
    · simp only [if_pos hnew, if_pos (Or.inl hnew)]
      exact .inr ⟨_, [.make], rfl, current_startBreak s _ _, view_startBreak s _ _, fun rows => rfl⟩
    · have hold := not_not.mp hnew
      by_cases hseek : r.number 1 = r.number 2
      · simp only [if_neg hnew, if_pos hseek, if_pos (Or.inr hseek)]
        refine .inr ⟨_, [.make], rfl, current_startBreak s _ _, view_startBreak s _ _, fun rows => ?_⟩
        rw [hold]
        rfl
      · simp only [if_neg hnew, if_neg hseek, if_neg (not_or.mpr ⟨hnew, hseek⟩)]
        exact .inr ⟨s, [], rfl, h, rfl, fun rows => rfl⟩
  · simp only [if_neg hstart]
    by_cases hend : r.number 0 = commbreakEnd
    · simp only [if_pos hend]
      by_cases hnew : r.number 1 ≠ s.endPrevious
      · simp only [if_pos hnew]
        cases hb : s.commbreak with
        | none => exact .inl ⟨rfl, fun rows => rfl⟩
        | some b =>
          refine .inr ⟨_, [.advance], rfl, current_endBreak h _ _, (view_endBreak h hb _ _).2 _ _, fun rows => ?_⟩
          change _ = _ ++ acts s.startPrevious (r.number 1) s.commbreak.isSome rows
          rw [hb]
          rfl
      · have hold := not_not.mp hnew
        by_cases hseek : r.number 1 = r.number 2
        · simp only [if_neg hnew, if_pos hseek, if_neg (not_not.mpr hold.symm)]
          cases hb : s.commbreak with
          | none => exact .inl ⟨rfl, fun rows => rfl⟩
          | some b =>
            refine .inr ⟨_, [.put], rfl, current_endBreak h _ _, (view_endBreak h hb _ _).1, fun rows => ?_⟩
            change _ = _ ++ acts s.startPrevious s.endPrevious s.commbreak.isSome rows
            rw [hb]
            rfl
        · simp only [if_neg hnew, if_neg hseek]
          exact .inr ⟨s, [], rfl, h, rfl, fun rows => rfl⟩
    · simp only [if_neg hend]
      exact .inl ⟨trivial, fun _ => trivial⟩

/-- There is a break where an end is expected. -/
def Opened (s : Fill) : Prop := s.Current ∧ (s.i = 0 ∨ s.i = 1 ∧ s.commbreak ≠ none)

/-- A row before version 43. -/
theorem steps_rowOld (h : s.Opened) (r : SqlRow) : Steps rowOld Opened (fun s => actsOld (s.i = 1)) s r := by
  obtain ⟨hcurrent, hi | ⟨hi, hbreak⟩⟩ := h
  · have heven : s.i % 2 = 0 := by rw [hi]
    have hnot : ¬ decide (s.i = 1) = true := by simp [hi]
    unfold Steps rowOld
    simp only [actsOld, if_pos heven, if_neg hnot]
    by_cases hstart : r.number 0 = commbreakStart
    · simp only [if_neg (not_not.mpr hstart), if_pos hstart]
      refine .inr ⟨_, [.make], rfl, ⟨current_startBreak s _ _, .inr ⟨?_, Option.some_ne_none _⟩⟩, view_startBreak s _ _,
        fun rows => ?_⟩
      · rw [hi]
      · rw [hi]
        rfl
    · simp only [if_pos hstart, if_neg hstart]
      exact .inl ⟨trivial, fun _ => trivial⟩
  · obtain ⟨b, hb⟩ := Option.ne_none_iff_exists'.mp hbreak
    have hodd : ¬ 1 % 2 = 0 := by decide
    unfold Steps rowOld
    simp only [actsOld, hi, if_neg hodd, decide_true, if_true]
    by_cases hend : r.number 0 = commbreakEnd
    · simp only [if_neg (not_not.mpr hend), if_pos hend, hb]
      refine .inr ⟨_, [.advance], rfl, ⟨current_endBreak hcurrent _ _, .inl rfl⟩, (view_endBreak hcurrent hb _ _).2 _ _,
        fun rows => rfl⟩
    · simp only [if_pos hend, if_neg hend]
      exact .inl ⟨trivial, fun _ => trivial⟩

theorem current_start : start.Current := (if_pos rfl).symm

/-- The loops from the start. -/
theorem view_run_start (version : Nat) (rows : List SqlRow) :
    (run (if 43 ≤ version then row else rowOld) rows start).1.view =
      Mvpmc.Lib.Cursor.start.run (actsOf version rows) := by
  unfold actsOf
  by_cases hv : 43 ≤ version
  · rw [if_pos hv, if_pos hv]
    exact view_run (fun _ => rfl) (fun _ r h => steps_row h r) current_start rows
  · rw [if_neg hv, if_neg hv]
    exact view_run (fun _ => rfl) (fun _ r h => steps_rowOld h r) ⟨current_start, .inl rfl⟩ rows

end Fill

/-- Before an object is created nothing is stored. -/
theorem head_acts (startPrevious endPrevious : Int) (rows : List SqlRow) :
    (acts startPrevious endPrevious false rows).head?.getD .make = .make := by
  induction rows generalizing startPrevious endPrevious with
  | nil => rfl
  | cons r rows ih =>
    unfold acts
    simp only [Bool.false_eq_true, if_false]
    split_ifs
    · rfl
    · exact ih _ _
    · rfl
    · rfl
    · exact ih _ _
    · rfl

theorem head_actsOf (version : Nat) (rows : List SqlRow) : (actsOf version rows).head?.getD .make = .make := by
  unfold actsOf
  split
  · exact head_acts 0 0 rows
  · cases rows with
    | nil => rfl
    | cons r rows =>
      unfold actsOld
      simp only [Bool.false_eq_true, if_false]
      split_ifs
      · rfl
      · rfl

/-- The condition on the answers of the database: where the array is allocated, the rows fill at most `commbreak_count`
entries, each with a break of its own. -/
def Answers.Fillable (version : Nat) (db : Answers) : Prop :=
  ∀ rows, db.bound = true → db.result = some rows → db.mem = true → 0 ≤ commbreakCount version db rows →
    ∃ m : Nat, (m : Int) ≤ commbreakCount version db rows ∧ Fills .idle m (actsOf version rows)

/-- What is kept, in terms of the numbers of the breaks. -/
theorem Listed.kept_iff {l : Listed} {n : Nat} (hn : l.count = n) : l.Kept ↔ Safe n l.fill.view := by
  constructor
  · rintro ⟨hinside, hsingle, hreachable⟩
    refine ⟨fun p hp => by exact_mod_cast hn ▸ hinside p hp, hsingle, fun b hb => ?_⟩
    obtain ⟨i, hi, hentry⟩ := hreachable b hb
    exact ⟨i, by exact_mod_cast hn ▸ hi, hentry⟩
  · rintro ⟨hinside, hsingle, hkept⟩
    refine ⟨fun p hp => hn ▸ by exact_mod_cast hinside p hp, hsingle, fun b hb => ?_⟩
    obtain ⟨i, hi, hentry⟩ := hkept b hb
    exact ⟨i, hn ▸ by exact_mod_cast hi, hentry⟩

/-- Where nothing is created there is nothing to keep. -/
theorem kept_start (ret count : Int) : Listed.Kept ⟨ret, count, .start⟩ := ⟨nofun, nofun, nofun⟩

/-- The list stays inside its array, with each break in one entry, if and only if the rows come to breaks that are each
stored before the next is created, in as many entries as were counted. -/
theorem getCommbreakList_kept_iff (version : Nat) (db : Answers) :
    (getCommbreakList version db).Kept ↔ db.Fillable version := by
  unfold getCommbreakList Answers.Fillable
  cases hbound : db.bound with
  | false => exact iff_of_true (kept_start _ _) fun rows hb => absurd hb Bool.false_ne_true
  | true =>
    rw [if_neg Bool.true_eq_false.mp]
    cases hresult : db.result with
    | none => exact iff_of_true (kept_start _ _) fun rows _ hr => absurd hr nofun
    | some rows =>
      dsimp only
      by_cases hfail : commbreakCount version db rows < 0 ∨ db.mem = false
      · rw [if_pos hfail]
        refine iff_of_true (kept_start _ _) fun rows' _ hr hmem hcount => ?_
        obtain rfl := Option.some.inj hr
        obtain hneg | hnone := hfail
        · exact absurd hneg (not_lt.mpr hcount)
        · exact absurd (hnone.symm.trans hmem) Bool.false_ne_true
      · rw [if_neg hfail]
        obtain ⟨hcount, hmem⟩ := not_or.mp hfail
        obtain ⟨n, hn⟩ := Int.eq_ofNat_of_zero_le (not_lt.mp hcount)
        refine (Listed.kept_iff hn).trans ?_
        change Safe n (Fill.run _ rows .start).1.view ↔ _
        rw [Fill.view_run_start, Mvpmc.Lib.Cursor.safe_run_iff (head_actsOf version rows)]
        constructor
        · rintro ⟨m, hm, hfills⟩ rows' - hr - -
          obtain rfl := Option.some.inj hr
          exact ⟨m, hn ▸ by exact_mod_cast hm, hfills⟩
        · intro h
          obtain ⟨m, hm, hfills⟩ := h rows rfl rfl (Bool.not_eq_false _ ▸ hmem) (not_lt.mp hcount)
          rw [hn] at hm
          exact ⟨m, by exact_mod_cast hm, hfills⟩

/-- An advertisement of which the recording has seek entries at both frames 48 and 50, and its end at frame 50. -/
def twoSeeks : List SqlRow :=
  [[some (ascii "4"), some (ascii "10"), some (ascii "10"), some (ascii "7000")],
    [some (ascii "5"), some (ascii "50"), some (ascii "48"), some (ascii "90000")],
    [some (ascii "5"), some (ascii "50"), some (ascii "50"), some (ascii "95000")]]

/-- One break is counted; the second row of its end stores it behind the array. -/
theorem twoSeeks_not_kept :
    (twoSeeks.Pairwise fun r t => r.number 1 ≤ t.number 1) ∧ ¬ (getCommbreakList 43 ⟨true, some twoSeeks, 1, true⟩).Kept := by
  refine ⟨by decide, fun h => ?_⟩
  have hstores : (getCommbreakList 43 ⟨true, some twoSeeks, 1, true⟩).fill.stores = [(1, 0), (0, 0)] := by decide
  have hinside := h.inside (1, 0) (hstores ▸ List.mem_cons_self)
  exact absurd hinside (by decide)

section Old

/-- A start and an end for each entry. -/
theorem two_mul_le_of_fills {m : Nat} {rows : List SqlRow} :
    (Fills .idle m (actsOld false rows) → 2 * m ≤ rows.length) ∧
      (Fills .fresh m (actsOld true rows) → 2 * m ≤ rows.length + 1) := by
  induction rows generalizing m with
  | nil =>
    constructor
    · intro h
      cases h with
      | done => exact Nat.zero_le _
    · intro h
      nomatch h
  | cons r rows ih =>
    constructor
    · intro h
      unfold actsOld at h
      simp only [Bool.false_eq_true, if_false] at h
      split at h
      · exact ih.2 (fills_make_iff.mp h).2
      · cases h with
        | done => exact Nat.zero_le _
    · intro h
      unfold actsOld at h
      simp only [if_true] at h
      split at h
      · obtain ⟨-, k, rfl, hrest⟩ := fills_advance_iff.mp h
        have := ih.1 hrest
        rw [List.length_cons]
        omega
      · nomatch h

/-- The rows fill entries if every start has its end. -/
theorem exists_fills_iff {rows : List SqlRow} :
    ((∃ m, Fills .idle m (actsOld false rows)) ↔ (actsOld false rows).length % 2 = 0) ∧
      ((∃ m, Fills .fresh m (actsOld true rows)) ↔ (actsOld true rows).length % 2 = 1) := by
  induction rows with
  | nil => exact ⟨iff_of_true ⟨0, .done⟩ rfl, iff_of_false (fun ⟨m, h⟩ => nomatch h) (by decide)⟩
  | cons r rows ih =>
    constructor
    · unfold actsOld
      simp only [Bool.false_eq_true, if_false]
      split
      · have hmake : (∃ m, Fills .idle m (.make :: actsOld true rows)) ↔ ∃ m, Fills .fresh m (actsOld true rows) :=
          exists_congr fun m => fills_make_iff.trans (and_iff_right rfl)
        rw [hmake, ih.2, List.length_cons]
        omega
      · exact iff_of_true ⟨0, .done⟩ rfl
    · unfold actsOld
      simp only [if_true]
      split
      · have hadvance : (∃ m, Fills .fresh m (.advance :: actsOld false rows)) ↔ ∃ m, Fills .idle m (actsOld false rows) := by
          constructor
          · rintro ⟨m, h⟩
            obtain ⟨-, k, -, hrest⟩ := fills_advance_iff.mp h
            exact ⟨k, hrest⟩
          · rintro ⟨m, h⟩
            exact ⟨m + 1, .advance nofun h⟩
        rw [hadvance, ih.1, List.length_cons]
        omega
      · exact iff_of_false (fun ⟨m, h⟩ => nomatch h) (by decide)

/-- Before version 43 the array is always large enough, and the only break to be lost is one whose end does not come. -/
theorem fillable_old_iff {version : Nat} (hv : version < 43) (db : Answers) :
    db.Fillable version ↔ ∀ rows, db.bound = true → db.result = some rows → db.mem = true →
      (actsOld false rows).length % 2 = 0 := by
  have hcount (rows : List SqlRow) : commbreakCount version db rows = (rows.length / 2 : Nat) := if_neg (by omega)
  have hacts (rows : List SqlRow) : actsOf version rows = actsOld false rows := if_neg (by omega)
  unfold Answers.Fillable
  refine forall_congr' fun rows => forall₃_congr fun _ _ _ => ?_
  rw [hcount, hacts, ← exists_fills_iff.1]
  constructor
  · intro h
    obtain ⟨m, -, hfills⟩ := h (Int.natCast_nonneg _)
    exact ⟨m, hfills⟩
  · rintro ⟨m, hfills⟩ -
    have := two_mul_le_of_fills.1 hfills
    exact ⟨m, by omega, hfills⟩

end Old

end Mvpmc.Cmyth.Mysql
