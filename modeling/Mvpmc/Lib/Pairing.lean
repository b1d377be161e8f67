import Mathlib.Data.List.Count
import Mathlib.Data.List.Pairwise

/-! Events that open and close, of several kinds, in one sequence: an event that closes is paired with the last one
that opened, if that one is of its kind and still open. -/
namespace Mvpmc.Lib.Pairing

/-- What an event does. -/
inductive Event (κ : Type*) where
  | opening (k : κ)
  | closing (k : κ)
  | other
  deriving DecidableEq

variable {α κ : Type*} [DecidableEq κ] (kind : α → Event κ)

/-- The pairs in a sequence, where `pending` is what has opened last in front of it and is still open. -/
def pairsFrom : Option α → List α → List (α × α)
  | _, [] => []
  | pending, a :: l =>
    match kind a with
    | .opening _ => pairsFrom (some a) l
    | .other => pairsFrom pending l
    | .closing k =>
      match pending with
      | none => pairsFrom none l
      | some s => if kind s = .opening k then (s, a) :: pairsFrom none l else pairsFrom (some s) l

def pairs (l : List α) : List (α × α) := pairsFrom kind none l

/-- An event that neither opens nor closes what is open of kind `k`. -/
def Quiet (k : κ) (a : α) : Prop := (∀ j, kind a ≠ .opening j) ∧ kind a ≠ .closing k

/-- Of the events that follow `s`, `e` is the one that closes it. -/
def Closes (s : α) (l : List α) (e : α) : Prop :=
  ∃ k mid post, l = mid ++ e :: post ∧ kind s = .opening k ∧ kind e = .closing k ∧ ∀ m ∈ mid, Quiet kind k m

/-- In the sequence, `e` closes `s`. -/
def Matched (l : List α) (s e : α) : Prop := ∃ pre post, l = pre ++ s :: post ∧ Closes kind s post e

variable {kind} {l : List α} {a s e : α}

omit [DecidableEq κ] in
theorem not_closes_nil : ¬ Closes kind s [] e := by
  rintro ⟨k, mid, post, hl, -⟩
  exact absurd hl.symm (List.append_ne_nil_of_right_ne_nil mid (List.cons_ne_nil e post))

omit [DecidableEq κ] in
theorem closes_cons {k : κ} (hs : kind s = .opening k) :
    Closes kind s (a :: l) e ↔ (kind a = .closing k ∧ e = a) ∨ (Quiet kind k a ∧ Closes kind s l e) := by
  constructor
  · rintro ⟨j, mid, post, hl, hj, he, hmid⟩
    obtain rfl : k = j := Event.opening.inj (hs.symm.trans hj)
    cases mid with
    | nil =>
      obtain ⟨rfl, rfl⟩ := List.cons.inj hl
      exact .inl ⟨he, rfl⟩
    | cons m mid =>
      obtain ⟨rfl, rfl⟩ := List.cons.inj hl
      exact .inr ⟨hmid a List.mem_cons_self, k, mid, post, rfl, hs, he, fun m hm => hmid m (List.mem_cons_of_mem a hm)⟩
  · rintro (⟨hclose, rfl⟩ | ⟨hquiet, j, mid, post, rfl, hj, he, hmid⟩)
    · exact ⟨k, [], l, rfl, hs, hclose, nofun⟩
    · obtain rfl : k = j := Event.opening.inj (hs.symm.trans hj)
      refine ⟨k, a :: mid, post, rfl, hs, he, fun m hm => ?_⟩
      obtain rfl | hm := List.mem_cons.mp hm
      · exact hquiet
      · exact hmid m hm

omit [DecidableEq κ] in
theorem matched_cons : Matched kind (a :: l) s e ↔ (s = a ∧ Closes kind a l e) ∨ Matched kind l s e := by
  constructor
  · rintro ⟨pre, post, hl, hclose⟩
    cases pre with
    | nil =>
      obtain ⟨rfl, rfl⟩ := List.cons.inj hl
      exact .inl ⟨rfl, hclose⟩
    | cons b pre =>
      obtain ⟨rfl, rfl⟩ := List.cons.inj hl
      exact .inr ⟨pre, post, rfl, hclose⟩
  · rintro (⟨rfl, hclose⟩ | ⟨pre, post, rfl, hclose⟩)
    · exact ⟨[], l, rfl, hclose⟩
    · exact ⟨a :: pre, post, rfl, hclose⟩

omit [DecidableEq κ] in
/-- What does not open closes nothing behind it. -/
theorem Closes.opening (h : Closes kind s l e) : ∃ k, kind s = .opening k :=
  have ⟨k, _, _, _, hs, _⟩ := h
  ⟨k, hs⟩

omit [DecidableEq κ] in
/-- An event in between that does nothing to `s`. -/
theorem closes_cons_of_quiet (h : ∀ k, kind s = .opening k → Quiet kind k a) :
    Closes kind s (a :: l) e ↔ Closes kind s l e := by
  constructor
  · intro hclose
    obtain ⟨k, hs⟩ := hclose.opening
    obtain ⟨hc, -⟩ | ⟨-, hrest⟩ := (closes_cons hs).mp hclose
    · exact absurd hc (h k hs).2
    · exact hrest
  · intro hclose
    obtain ⟨k, hs⟩ := hclose.opening
    exact (closes_cons hs).mpr (.inr ⟨h k hs, hclose⟩)

omit [DecidableEq κ] in
/-- Nothing in front of an event that opens is closed behind it. -/
theorem not_closes_cons_opening {k : κ} (ha : kind a = .opening k) : ¬ Closes kind s (a :: l) e := by
  intro hclose
  obtain ⟨j, hs⟩ := hclose.opening
  obtain ⟨hc, -⟩ | ⟨hquiet, -⟩ := (closes_cons hs).mp hclose
  · exact absurd (ha.symm.trans hc) nofun
  · exact hquiet.1 k ha

omit [DecidableEq κ] in
/-- An event that closes what is open is the one that does. -/
theorem closes_cons_closing {k : κ} (hs : kind s = .opening k) (ha : kind a = .closing k) :
    Closes kind s (a :: l) e ↔ e = a := by
  rw [closes_cons hs]
  constructor
  · rintro (⟨-, he⟩ | ⟨hquiet, -⟩)
    · exact he
    · exact absurd ha hquiet.2
  · exact fun he => .inl ⟨ha, he⟩

omit [DecidableEq κ] in
/-- An event that does not open only adds to what stands between others. -/
theorem matched_cons_of_not_opening (ha : ∀ k, kind a ≠ .opening k) : Matched kind (a :: l) s e ↔ Matched kind l s e := by
  refine matched_cons.trans (or_iff_right ?_)
  rintro ⟨-, hclose⟩
  obtain ⟨k, hk⟩ := hclose.opening
  exact ha k hk

/-- The pairs are those of an event that closes and the last one that opened before it. -/
theorem mem_pairsFrom {pending : Option α} :
    (s, e) ∈ pairsFrom kind pending l ↔ (pending = some s ∧ Closes kind s l e) ∨ Matched kind l s e := by
  induction l generalizing pending with
  | nil =>
    refine iff_of_false List.not_mem_nil ?_
    rintro (⟨-, hclose⟩ | ⟨pre, post, hl, -⟩)
    · exact not_closes_nil hclose
    · exact absurd hl.symm (List.append_ne_nil_of_right_ne_nil pre (List.cons_ne_nil s post))
  | cons a l ih =>
    rw [pairsFrom]
    cases ha : kind a with
    | opening k =>
      dsimp only
      rw [ih, matched_cons, or_iff_right fun h : pending = some s ∧ _ => not_closes_cons_opening ha h.2]
      refine or_congr_left ⟨?_, ?_⟩
      · rintro ⟨hpending, hclose⟩
        obtain rfl := Option.some.inj hpending
        exact ⟨rfl, hclose⟩
      · rintro ⟨rfl, hclose⟩
        exact ⟨rfl, hclose⟩
    | other =>
      have hskip : Closes kind s (a :: l) e ↔ Closes kind s l e :=
        closes_cons_of_quiet fun k _ => ⟨fun j => ha ▸ nofun, ha ▸ nofun⟩
      dsimp only
      rw [ih, hskip, matched_cons_of_not_opening fun k => ha ▸ nofun]
    | closing k =>
      rw [matched_cons_of_not_opening fun j => ha ▸ nofun]
      cases pending with
      | none =>
        dsimp only
        rw [ih]
        exact or_congr_left (iff_of_false (fun h => nomatch h.1) fun h => nomatch h.1)
      | some t =>
        dsimp only
        by_cases ht : kind t = .opening k
        · -- the event closes `t`, and nothing is open behind it
          rw [if_pos ht, List.mem_cons, ih, or_iff_right fun h : none = some s ∧ _ => nomatch h.1]
          refine or_congr_left ⟨?_, ?_⟩
          · intro heq
            obtain ⟨rfl, rfl⟩ := Prod.mk.inj heq
            exact ⟨rfl, (closes_cons_closing ht ha).mpr rfl⟩
          · rintro ⟨hpending, hclose⟩
            obtain rfl := Option.some.inj hpending
            rw [(closes_cons_closing ht ha).mp hclose]
        · -- it is of another kind, and `t` stays open
          rw [if_neg ht, ih]
          refine or_congr_left (and_congr_right fun hpending => ?_)
          obtain rfl := Option.some.inj hpending
          refine (closes_cons_of_quiet fun j hj => ⟨fun i => ha ▸ nofun, fun hc => ht ?_⟩).symm
          rw [hj, Event.closing.inj (hc.symm.trans ha)]

theorem mem_pairs : (s, e) ∈ pairs kind l ↔ Matched kind l s e := by
  rw [pairs, mem_pairsFrom]
  exact or_iff_right fun h => absurd h.1 nofun

/-- The members of the pairs stand in the sequence in this order, each once. -/
theorem pairsFrom_sublist (pending : Option α) (l : List α) :
    ((pairsFrom kind pending l).flatMap fun p => [p.1, p.2]).Sublist (pending.toList ++ l) := by
  induction l generalizing pending with
  | nil => exact List.nil_sublist _
  | cons a l ih =>
    rw [pairsFrom]
    cases kind a with
    | opening k => exact (ih (some a)).trans (List.sublist_append_right pending.toList (a :: l))
    | other => exact (ih pending).trans ((List.sublist_cons_self a l).append_left pending.toList)
    | closing k =>
      cases pending with
      | none => exact (ih none).trans (List.sublist_cons_self a l)
      | some t =>
        dsimp only
        split
        · exact ((ih none).cons_cons a).cons_cons t
        · exact (ih (some t)).trans ((List.sublist_cons_self a l).cons_cons t)

theorem pairs_sublist (l : List α) : ((pairs kind l).flatMap fun p => [p.1, p.2]).Sublist l := pairsFrom_sublist none l

/-- In a sequence in order the pairs are in order, each pair is, and each is in front of the next. -/
theorem pairs_ordered {R : α → α → Prop} (h : l.Pairwise R) :
    (∀ p ∈ pairs kind l, R p.1 p.2) ∧ (pairs kind l).Pairwise fun p q => R p.2 q.1 := by
  have hsub : ((pairs kind l).flatMap fun p => [p.1, p.2]).Sublist l := pairs_sublist l
  obtain ⟨hin, hbetween⟩ := List.pairwise_flatMap.mp (h.sublist hsub)
  constructor
  · intro p hp
    exact List.rel_of_pairwise_cons (hin p hp) List.mem_cons_self
  · exact hbetween.imp fun {p q} hpq => hpq p.2 (List.mem_cons_of_mem _ List.mem_cons_self) q.1 List.mem_cons_self

end Mvpmc.Lib.Pairing
