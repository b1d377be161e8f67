import Mvpmc.Lib.Pairing
import Mvpmc.Cmyth.ProginfoRcv

/-! Commercial breaks and cut lists of the backend (`cmyth_rcv_commbreaklist`, `commbreak.c`): the rows of a reply, and
the intervals made of them. Memory is taken to be there. -/
namespace Mvpmc.Cmyth
open Mvpmc.Lib

/-- `struct cmyth_commbreak`. -/
structure Commbreak where
  startMark : Int
  startOffset : Int
  endMark : Int
  endOffset : Int
  deriving DecidableEq, Repr

namespace Commbreak

/-- `CMYTH_COMMBREAK_START`, `CMYTH_COMMBREAK_END`, `CMYTH_CUTLIST_START` and `CMYTH_CUTLIST_END`. -/
def commbreakStart : Int := 4
def commbreakEnd : Int := 5
def cutlistStart : Int := 1
def cutlistEnd : Int := 0

/-- `cmyth_commbreak_create`. -/
def create : Commbreak := ⟨0, 0, 0, 0⟩

/-- A row of a reply. -/
structure Row where
  type : Int
  mark : Int
  deriving DecidableEq, Repr

/-- The locals `start` and `start_type`, and the list that is filled. -/
structure State where
  start : Int
  startType : Int
  list : List Commbreak

/-- What the loop does with a row. -/
def State.row (s : State) (r : Row) : State :=
  if r.type = commbreakStart ∨ r.type = cutlistStart then { s with start := r.mark, startType := r.type }
  else if r.type = commbreakEnd ∨ r.type = cutlistEnd then
    if 0 ≤ s.start ∧ ((r.type = commbreakEnd ∧ s.startType = commbreakStart) ∨
        (r.type = cutlistEnd ∧ s.startType = cutlistStart)) then
      { s with start := -1, list := s.list ++ [{ create with startMark := s.start, endMark := r.mark }] }
    else s
  else s

/-- The loop of `cmyth_rcv_commbreaklist` with `rows` rows to go, where `row` is what is done with one. -/
def rcvRows {σ : Type} (row : σ → Row → σ) (version : Nat) : Nat → Conn → Int → σ → Got σ × Conn
  | 0, conn, _, s => (⟨0, 0, s⟩, conn)
  | rows + 1, conn, count, s =>
    let type := rcvUshort conn count
    if type.1.err ≠ 0 then (⟨type.1.consumed, type.1.err, s⟩, type.2)
    else
      let mark := rcvNewInt64 version type.2 0 (count - type.1.consumed) false
      if mark.1.err ≠ 0 then (⟨type.1.consumed + mark.1.consumed, mark.1.err, s⟩, mark.2)
      else
        let t := rcvRows row version rows mark.2 (count - type.1.consumed - mark.1.consumed)
          (row s ⟨type.1.value, mark.1.value⟩)
        (⟨type.1.consumed + mark.1.consumed + t.1.consumed, t.1.err, t.1.value⟩, t.2)

end Commbreak
open Commbreak (Row State rcvRows)

/-- `cmyth_rcv_commbreaklist`: what is consumed, the error and the list. -/
def rcvCommbreaklist (version : Nat) (conn : Conn) (breaklist : List Commbreak) (count : Int) :
    Got (List Commbreak) × Conn :=
  if count ≤ 0 then (⟨0, EINVAL, breaklist⟩, conn)
  else
    let rows := rcvLong conn 0 count
    if rows.1.err ≠ 0 then (⟨rows.1.consumed, rows.1.err, breaklist⟩, rows.2)
    else if rows.1.value < 0 then (⟨0, 0, breaklist⟩, rows.2)
    else
      let r := rcvRows State.row version rows.1.value.toNat rows.2 (count - rows.1.consumed) ⟨-1, 0, breaklist⟩
      (⟨rows.1.consumed + r.1.consumed, r.1.err, r.1.value.list⟩, r.2)

namespace Commbreak

/-- The rows of a reply, as they are received by the same calls. -/
def rowsOf (version : Nat) (conn : Conn) (count : Int) : List Row :=
  if count ≤ 0 then []
  else
    let rows := rcvLong conn 0 count
    if rows.1.err ≠ 0 ∨ rows.1.value < 0 then []
    else (rcvRows (fun l r => l ++ [r]) version rows.1.value.toNat rows.2 (count - rows.1.consumed) []).1.value

/-- The two kinds of breaks. -/
inductive Kind where
  | commbreak
  | cutlist
  deriving DecidableEq, Repr

/-- What a row does: its type, as the header names it. -/
def Row.event (r : Row) : Pairing.Event Kind :=
  if r.type = commbreakStart then .opening .commbreak
  else if r.type = cutlistStart then .opening .cutlist
  else if r.type = commbreakEnd then .closing .commbreak
  else if r.type = cutlistEnd then .closing .cutlist
  else .other

/-- The break from one row to another. -/
def between (p : Row × Row) : Commbreak := { create with startMark := p.1.mark, endMark := p.2.mark }

/-- What the loop does with rows is the same whatever they are received into. -/
theorem rcvRows_value {σ : Type} (row : σ → Row → σ) (version rows : Nat) (conn : Conn) (count : Int) (s : σ)
    (before : List Row) :
    ∃ l, (rcvRows (fun l r => l ++ [r]) version rows conn count before).1.value = before ++ l ∧
      (rcvRows row version rows conn count s).1.value = l.foldl row s := by
  induction rows generalizing conn count s before with
  | zero => exact ⟨[], (List.append_nil before).symm, rfl⟩
  | succ rows ih =>
    unfold rcvRows
    dsimp only
    split
    · exact ⟨[], (List.append_nil before).symm, rfl⟩
    · split
      · exact ⟨[], (List.append_nil before).symm, rfl⟩
      · obtain ⟨l, hl, hrow⟩ := ih _ _ (row s ⟨_, _⟩) (before ++ [⟨_, _⟩])
        exact ⟨_ :: l, hl.trans (List.append_assoc before [_] l), hrow⟩

theorem rcvCommbreaklist_value (version : Nat) (conn : Conn) (breaklist : List Commbreak) (count : Int) :
    (rcvCommbreaklist version conn breaklist count).1.value =
      ((rowsOf version conn count).foldl State.row ⟨-1, 0, breaklist⟩).list := by
  unfold rcvCommbreaklist rowsOf
  by_cases hcount : count ≤ 0
  · rw [if_pos hcount, if_pos hcount]
    rfl
  rw [if_neg hcount, if_neg hcount]
  dsimp only
  by_cases herr : (rcvLong conn 0 count).1.err ≠ 0
  · rw [if_pos herr, if_pos (.inl herr)]
    rfl
  rw [if_neg herr]
  by_cases hneg : (rcvLong conn 0 count).1.value < 0
  · rw [if_pos hneg, if_pos (.inr hneg)]
    rfl
  rw [if_neg hneg, if_neg fun h => h.elim herr hneg]
  obtain ⟨l, hl, hrow⟩ := rcvRows_value State.row version (rcvLong conn 0 count).1.value.toNat (rcvLong conn 0 count).2
    (count - (rcvLong conn 0 count).1.consumed) ⟨-1, 0, breaklist⟩ []
  rw [hl]
  exact congrArg State.list hrow

/-- The types of a kind. -/
def Kind.start : Kind → Int
  | commbreak => commbreakStart
  | cutlist => cutlistStart

def Kind.stop : Kind → Int
  | commbreak => commbreakEnd
  | cutlist => cutlistEnd

theorem event_opening_iff {r : Row} {k : Kind} : r.event = .opening k ↔ r.type = k.start := by
  unfold Row.event
  cases k with
  | commbreak =>
    change _ ↔ r.type = commbreakStart
    by_cases h : r.type = commbreakStart
    · simp [h]
    · rw [if_neg h]
      refine iff_of_false ?_ h
      split_ifs
      all_goals exact nofun
  | cutlist =>
    change _ ↔ r.type = cutlistStart
    by_cases h : r.type = cutlistStart
    · simp [h, cutlistStart, commbreakStart]
    · rw [if_neg h]
      refine iff_of_false ?_ h
      split_ifs
      all_goals exact nofun

theorem event_closing_iff {r : Row} {k : Kind} : r.event = .closing k ↔ r.type = k.stop := by
  unfold Row.event
  cases k with
  | commbreak =>
    change _ ↔ r.type = commbreakEnd
    by_cases h : r.type = commbreakEnd
    · simp [h, commbreakEnd, commbreakStart, cutlistStart]
    · rw [if_neg h]
      refine iff_of_false ?_ h
      split_ifs
      all_goals exact nofun
  | cutlist =>
    change _ ↔ r.type = cutlistEnd
    by_cases h : r.type = cutlistEnd
    · simp [h, cutlistEnd, cutlistStart, commbreakStart, commbreakEnd]
    · rw [if_neg h]
      refine iff_of_false ?_ h
      split_ifs
      all_goals exact nofun

namespace State
variable {s : State} {r : Row} {k : Kind}

theorem row_opening (h : r.event = .opening k) : s.row r = { s with start := r.mark, startType := r.type } := by
  have htype := event_opening_iff.mp h
  refine if_pos ?_
  cases k with
  | commbreak => exact .inl htype
  | cutlist => exact .inr htype

theorem row_other (h : r.event = .other) : s.row r = s := by
  have hopening : ∀ k : Kind, r.type ≠ k.start := fun k hk => absurd (h.symm.trans (event_opening_iff.mpr hk)) nofun
  have hclosing : ∀ k : Kind, r.type ≠ k.stop := fun k hk => absurd (h.symm.trans (event_closing_iff.mpr hk)) nofun
  unfold row
  rw [if_neg fun hor => hor.elim (hopening .commbreak) (hopening .cutlist),
    if_neg fun hor => hor.elim (hclosing .commbreak) (hclosing .cutlist)]

/-- An end mark makes a break of an open start of its own type. -/
theorem row_closing (h : r.event = .closing k) : s.row r =
    if 0 ≤ s.start ∧ s.startType = k.start then
      { s with start := -1, list := s.list ++ [{ create with startMark := s.start, endMark := r.mark }] }
    else s := by
  have htype := event_closing_iff.mp h
  unfold row
  cases k with
  | commbreak =>
    change r.type = 5 at htype
    change _ = if 0 ≤ s.start ∧ s.startType = 4 then _ else _
    simp [htype, commbreakStart, commbreakEnd, cutlistStart, cutlistEnd]
  | cutlist =>
    change r.type = 0 at htype
    change _ = if 0 ≤ s.start ∧ s.startType = 1 then _ else _
    simp [htype, commbreakStart, commbreakEnd, cutlistStart, cutlistEnd]

/-- The start that is open, in the two locals. -/
def Open (pending : Option Row) (s : State) : Prop :=
  match pending with
  | none => s.start < 0
  | some r => 0 ≤ r.mark ∧ s.start = r.mark ∧ s.startType = r.type

theorem open_none (startType : Int) (list : List Commbreak) : Open none ⟨-1, startType, list⟩ := Int.negSucc_lt_zero 0

/-- The loop pairs the rows. -/
theorem foldl_row {pending : Option Row} {rows : List Row} (hrows : ∀ r ∈ rows, 0 ≤ r.mark) (hopen : s.Open pending) :
    (rows.foldl row s).list = s.list ++ (Pairing.pairsFrom Row.event pending rows).map between := by
  induction rows generalizing s pending with
  | nil => exact (List.append_nil s.list).symm
  | cons r rows ih =>
    have hrest : ∀ r ∈ rows, 0 ≤ r.mark := fun r' hr' => hrows r' (List.mem_cons_of_mem r hr')
    rw [List.foldl_cons, Pairing.pairsFrom]
    cases hr : r.event with
    | opening k =>
      rw [row_opening hr]
      exact ih hrest ⟨hrows r List.mem_cons_self, rfl, rfl⟩
    | other =>
      rw [row_other hr]
      exact ih hrest hopen
    | closing k =>
      rw [row_closing hr]
      cases pending with
      | none =>
        rw [if_neg fun h => absurd h.1 (not_le.mpr hopen)]
        exact ih hrest hopen
      | some t =>
        obtain ⟨hmark, hstart, htype⟩ := hopen
        dsimp only
        by_cases ht : t.event = .opening k
        · rw [if_pos ht, if_pos ⟨hstart ▸ hmark, htype.trans (event_opening_iff.mp ht)⟩,
            ih hrest (open_none _ _), List.map_cons, List.append_assoc, hstart]
          rfl
        · rw [if_neg ht, if_neg fun h => ht (event_opening_iff.mpr (htype.symm.trans h.2))]
          exact ih hrest ⟨hmark, hstart, htype⟩

end State

/-- The breaks added are the pairs of the rows. -/
theorem rcvCommbreaklist_pairs {version : Nat} {conn : Conn} {count : Int} (breaklist : List Commbreak)
    (hnonneg : ∀ r ∈ rowsOf version conn count, 0 ≤ r.mark) :
    (rcvCommbreaklist version conn breaklist count).1.value =
      breaklist ++ (Pairing.pairs Row.event (rowsOf version conn count)).map between := by
  rw [rcvCommbreaklist_value]
  exact State.foldl_row hnonneg (State.open_none 0 breaklist)

/-- A start mark and the end mark that makes a break with it: no start mark of any kind stands between them, and no end
mark of this kind. -/
def Joins (rows : List Row) (s e : Row) : Prop :=
  ∃ (k : Kind) (pre mid post : List Row), rows = pre ++ s :: (mid ++ e :: post) ∧ s.type = k.start ∧ e.type = k.stop ∧
    ∀ r ∈ mid, (∀ j : Kind, r.type ≠ j.start) ∧ r.type ≠ k.stop

theorem joins_iff {rows : List Row} {s e : Row} : Joins rows s e ↔ Pairing.Matched Row.event rows s e := by
  constructor
  · rintro ⟨k, pre, mid, post, rfl, hs, he, hmid⟩
    refine ⟨pre, _, rfl, k, mid, post, rfl, event_opening_iff.mpr hs, event_closing_iff.mpr he, fun r hr => ?_⟩
    obtain ⟨hstart, hstop⟩ := hmid r hr
    exact ⟨fun j hj => hstart j (event_opening_iff.mp hj), fun hk => hstop (event_closing_iff.mp hk)⟩
  · rintro ⟨pre, _, rfl, k, mid, post, rfl, hs, he, hmid⟩
    refine ⟨k, pre, mid, post, rfl, event_opening_iff.mp hs, event_closing_iff.mp he, fun r hr => ?_⟩
    obtain ⟨hopening, hclosing⟩ := hmid r hr
    exact ⟨fun j hj => hopening j (event_opening_iff.mpr hj), fun hk => hclosing (event_closing_iff.mpr hk)⟩

/-- Breaks that are the intervals of some rows. -/
structure Paired (rows : List Row) (breaks : List Commbreak) : Prop where
  /-- Each ends after its start, and before the next one starts. -/
  inside : ∀ b ∈ breaks, b.startMark < b.endMark
  apart : breaks.Pairwise fun b c => b.endMark < c.startMark
  /-- A break goes from a start mark to the end mark that joins it. -/
  joined : ∀ b ∈ breaks, ∃ s e, Joins rows s e ∧ b = between (s, e)
  /-- An end mark that joins a start mark gives one break. -/
  once : ∀ s e, Joins rows s e → between (s, e) ∈ breaks ∧ (breaks.map Commbreak.endMark).count e.mark = 1
  /-- So does one directly behind a start mark of its kind. -/
  direct : ∀ (pre post : List Row) (s e : Row) (k : Kind), rows = pre ++ s :: e :: post → s.type = k.start →
    e.type = k.stop → between (s, e) ∈ breaks ∧ (breaks.map Commbreak.endMark).count e.mark = 1

theorem paired_pairs {rows : List Row} (hrows : rows.Pairwise fun r t => r.mark < t.mark) :
    Paired rows ((Pairing.pairs Row.event rows).map between) := by
  obtain ⟨hinside, hbetween⟩ : (∀ p ∈ Pairing.pairs Row.event rows, p.1.mark < p.2.mark) ∧
      (Pairing.pairs Row.event rows).Pairwise fun p q => p.2.mark < q.1.mark := Pairing.pairs_ordered hrows
  have hinside' : ∀ b ∈ (Pairing.pairs Row.event rows).map between, b.startMark < b.endMark := by
    intro b hb
    obtain ⟨p, hp, rfl⟩ := List.mem_map.mp hb
    exact hinside p hp
  have hapart : ((Pairing.pairs Row.event rows).map between).Pairwise fun b c => b.endMark < c.startMark :=
    List.pairwise_map.mpr hbetween
  have hends : (((Pairing.pairs Row.event rows).map between).map Commbreak.endMark).Nodup := by
    refine List.pairwise_map.mpr ((hapart.imp_of_mem ?_))
    intro b c _ hc hbc
    exact ne_of_lt (hbc.trans (hinside' c hc))
  have honce : ∀ s e, Joins rows s e → between (s, e) ∈ (Pairing.pairs Row.event rows).map between ∧
      (((Pairing.pairs Row.event rows).map between).map Commbreak.endMark).count e.mark = 1 := by
    intro s e hjoins
    have hmem := List.mem_map_of_mem (f := between) (Pairing.mem_pairs.mpr (joins_iff.mp hjoins))
    exact ⟨hmem, List.count_eq_one_of_mem hends (List.mem_map_of_mem (f := Commbreak.endMark) hmem)⟩
  refine ⟨hinside', hapart, fun b hb => ?_, honce, fun pre post s e k hsplit hs he => ?_⟩
  · obtain ⟨⟨s, e⟩, hp, rfl⟩ := List.mem_map.mp hb
    exact ⟨s, e, joins_iff.mpr (Pairing.mem_pairs.mp hp), rfl⟩
  · exact honce s e ⟨k, pre, [], post, hsplit, hs, he, nofun⟩

end Commbreak

end Mvpmc.Cmyth
