import Mathlib.Data.List.Basic

/-! Objects that are made one after another and put into an array at a cursor: when each of them ends up in one entry,
inside the array. -/
namespace Mvpmc.Lib.Cursor

/-- An object is made, put at the cursor, or put there and the cursor moved on. It is the last one made that is put. -/
inductive Act where
  | make
  | put
  | advance
  deriving DecidableEq, Repr

/-- Objects are numbered as they are made. The array is told by the stores made to it, the last one first. -/
structure State where
  made : Nat
  cursor : Nat
  stores : List (Nat × Nat)

def State.step (s : State) : Act → State
  | .make => { s with made := s.made + 1 }
  | .put => { s with stores := (s.cursor, s.made - 1) :: s.stores }
  | .advance => { s with cursor := s.cursor + 1, stores := (s.cursor, s.made - 1) :: s.stores }

def State.run (s : State) (acts : List Act) : State := acts.foldl State.step s

def start : State := ⟨0, 0, []⟩

/-- What an entry holds. -/
def entry (stores : List (Nat × Nat)) (i : Nat) : Option Nat := (stores.find? fun p => p.1 = i).map Prod.snd

/-- Every store was inside an array of `count` entries, no object was stored in two of them, and each object is in one. -/
structure Safe (count : Nat) (s : State) : Prop where
  inside : ∀ p ∈ s.stores, p.1 < count
  single : ∀ p ∈ s.stores, ∀ q ∈ s.stores, p.2 = q.2 → p.1 = q.1
  kept : ∀ b < s.made, ∃ i < count, entry s.stores i = some b

/-- Where an object is: there is none that is not behind the cursor, one has been made, or it is also at the cursor. -/
inductive Phase where
  | idle
  | fresh
  | held
  deriving DecidableEq, Repr

/-- The objects made in front of the cursor, and how many of them are stored. -/
def Phase.made : Phase → Nat
  | idle => 0
  | fresh | held => 1

def Phase.stored : Phase → Nat
  | idle | fresh => 0
  | held => 1

/-- Acts that fill `n` entries from a phase: each object is put at the cursor until the cursor moves on behind it, and
only then is the next one made. -/
inductive Fills : Phase → Nat → List Act → Prop where
  | done : Fills .idle 0 []
  | last : Fills .held 1 []
  | make {n : Nat} {acts : List Act} : Fills .fresh n acts → Fills .idle n (.make :: acts)
  | put {p : Phase} {n : Nat} {acts : List Act} : p ≠ .idle → Fills .held n acts → Fills p n (.put :: acts)
  | advance {p : Phase} {n : Nat} {acts : List Act} : p ≠ .idle → Fills .idle n acts → Fills p (n + 1) (.advance :: acts)

theorem fills_make_iff {p : Phase} {n : Nat} {acts : List Act} :
    Fills p n (.make :: acts) ↔ p = .idle ∧ Fills .fresh n acts := by
  constructor
  · intro h
    cases h with
    | make h => exact ⟨rfl, h⟩
  · rintro ⟨rfl, h⟩
    exact .make h

theorem fills_put_iff {p : Phase} {n : Nat} {acts : List Act} :
    Fills p n (.put :: acts) ↔ p ≠ .idle ∧ Fills .held n acts := by
  constructor
  · intro h
    cases h with
    | put hp h => exact ⟨hp, h⟩
  · rintro ⟨hp, h⟩
    exact .put hp h

theorem fills_advance_iff {p : Phase} {n : Nat} {acts : List Act} :
    Fills p n (.advance :: acts) ↔ p ≠ .idle ∧ ∃ m, n = m + 1 ∧ Fills .idle m acts := by
  constructor
  · intro h
    cases h with
    | advance hp h => exact ⟨hp, _, rfl, h⟩
  · rintro ⟨hp, m, rfl, h⟩
    exact .advance hp h

theorem entry_cons_self (stores : List (Nat × Nat)) (i b : Nat) : entry ((i, b) :: stores) i = some b := by
  simp [entry]

theorem entry_cons_of_ne (stores : List (Nat × Nat)) (b : Nat) {i j : Nat} (h : j ≠ i) :
    entry ((j, b) :: stores) i = entry stores i := by
  simp [entry, h]

/-- What an entry holds has been stored there. -/
theorem mem_of_entry {stores : List (Nat × Nat)} {i b : Nat} (h : entry stores i = some b) : (i, b) ∈ stores := by
  obtain ⟨p, hp, hb⟩ := Option.map_eq_some_iff.mp h
  have hi : p.1 = i := by simpa using List.find?_some hp
  have hmem := List.mem_of_find?_eq_some hp
  obtain ⟨j, c⟩ := p
  dsimp only at hi hb
  exact hi ▸ hb ▸ hmem

/-- The objects stand in the entries of their numbers, up to the cursor. -/
structure Good (p : Phase) (n : Nat) (s : State) : Prop where
  made : s.made = n + p.made
  cursor : s.cursor = n
  stores : ∀ q ∈ s.stores, q.1 = q.2 ∧ q.2 < n + p.stored
  entries : ∀ i < n + p.stored, entry s.stores i = some i

/-- An object is in two entries, or one that will not be put again is in none; or a new one has been made whose entry
holds the only store of the last one. -/
inductive Lost (s : State) : Prop where
  | twice {i j b : Nat} : (i, b) ∈ s.stores → (j, b) ∈ s.stores → i ≠ j → Lost s
  | gone {b : Nat} : b + 1 < s.made → (∀ i, entry s.stores i ≠ some b) → Lost s
  | doomed {b : Nat} : s.made = b + 2 → (∀ i, entry s.stores i = some b → i = s.cursor) →
      (∀ i, entry s.stores i ≠ some (b + 1)) → Lost s

theorem good_start : Good .idle 0 start := ⟨rfl, rfl, nofun, nofun⟩

section
variable {s : State} {p : Phase} {n count : Nat}

theorem Lost.not_safe (h : Lost s) : ¬ Safe count s := by
  intro hs
  cases h with
  | twice hi hj hne => exact hne (hs.single _ hi _ hj rfl)
  | gone hb hnone =>
    obtain ⟨i, -, hi⟩ := hs.kept _ (Nat.lt_of_succ_lt hb)
    exact hnone i hi
  | @doomed b hmade _ hnone =>
    obtain ⟨i, -, hi⟩ := hs.kept (b + 1) (by omega)
    exact hnone i hi

/-- A store of the last object made. -/
theorem Lost.store (h : Lost s) (cursor : Nat) :
    Lost { s with cursor := cursor, stores := (s.cursor, s.made - 1) :: s.stores } := by
  cases h with
  | twice hi hj hne => exact .twice (List.mem_cons_of_mem _ hi) (List.mem_cons_of_mem _ hj) hne
  | gone hb hnone =>
    refine .gone hb fun i => ?_
    by_cases hi : s.cursor = i
    · subst hi
      rw [entry_cons_self]
      exact fun heq => absurd (Option.some.inj heq) (by omega)
    · rw [entry_cons_of_ne _ _ hi]
      exact hnone i
  | @doomed b hmade honly hnone =>
    refine .gone (b := b) (show b + 1 < s.made by omega) fun i => ?_
    by_cases hi : s.cursor = i
    · subst hi
      rw [entry_cons_self]
      exact fun heq => absurd (Option.some.inj heq) (by omega)
    · rw [entry_cons_of_ne _ _ hi]
      exact fun heq => hi (honly i heq).symm

theorem Lost.step (h : Lost s) (a : Act) : Lost (s.step a) := by
  cases a with
  | make =>
    cases h with
    | twice hi hj hne => exact .twice hi hj hne
    | gone hb hnone => exact .gone (Nat.lt_succ_of_lt hb) hnone
    | doomed hmade _ hnone => exact .gone (show _ < s.made + 1 by omega) hnone
  | put => exact h.store s.cursor
  | advance => exact h.store (s.cursor + 1)

theorem Lost.run (h : Lost s) (acts : List Act) : Lost (s.run acts) := by
  induction acts generalizing s with
  | nil => exact h
  | cons a acts ih => exact ih (h.step a)

namespace Good

/-- Nothing is stored that is not in the entry of its number. -/
theorem entry_eq (h : Good p n s) {i b : Nat} (hi : entry s.stores i = some b) : i = b ∧ b < n + p.stored :=
  h.stores (i, b) (mem_of_entry hi)

theorem make (h : Good .idle n s) : Good .fresh n (s.step .make) :=
  ⟨congrArg (· + 1) h.made, h.cursor, h.stores, h.entries⟩

/-- An object that is made while another is at the cursor. -/
theorem make_lost (h : Good p n s) (hp : p ≠ .idle) : Lost (s.step .make) := by
  have hmade : s.made = n + 1 := by
    rw [h.made]
    cases p with
    | idle => exact absurd rfl hp
    | fresh | held => rfl
  refine .doomed (b := n) (congrArg (· + 1) hmade) (fun i hi => ?_) fun i hi => ?_
  · exact (h.entry_eq hi).1.trans h.cursor.symm
  · obtain ⟨-, hlt⟩ := h.entry_eq hi
    have hle : p.stored ≤ 1 := by cases p <;> decide
    omega

/-- The array after a store of the object at the cursor. -/
theorem store (h : Good p n s) (hp : p ≠ .idle) :
    (∀ q ∈ (s.cursor, s.made - 1) :: s.stores, q.1 = q.2 ∧ q.2 < n + 1) ∧
      ∀ i < n + 1, entry ((s.cursor, s.made - 1) :: s.stores) i = some i := by
  have hlast : s.made - 1 = n := by
    rw [h.made]
    cases p with
    | idle => exact absurd rfl hp
    | fresh | held => rfl
  have hle : p.stored ≤ 1 := by cases p <;> decide
  rw [hlast, h.cursor]
  constructor
  · intro q hq
    obtain rfl | hq := List.mem_cons.mp hq
    · exact ⟨rfl, Nat.lt_succ_self n⟩
    · obtain ⟨heq, hlt⟩ := h.stores q hq
      exact ⟨heq, by omega⟩
  · intro i hi
    by_cases hin : n = i
    · rw [hin]
      exact entry_cons_self _ _ _
    · rw [entry_cons_of_ne _ _ hin]
      exact h.entries i (by omega)

theorem put (h : Good p n s) (hp : p ≠ .idle) : Good .held n (s.step .put) := by
  obtain ⟨hstores, hentries⟩ := h.store hp
  refine ⟨h.made.trans ?_, h.cursor, hstores, hentries⟩
  cases p with
  | idle => exact absurd rfl hp
  | fresh | held => rfl

theorem advance (h : Good p n s) (hp : p ≠ .idle) : Good .idle (n + 1) (s.step .advance) := by
  obtain ⟨hstores, hentries⟩ := h.store hp
  refine ⟨h.made.trans ?_, congrArg (· + 1) h.cursor, hstores, hentries⟩
  cases p with
  | idle => exact absurd rfl hp
  | fresh | held => rfl

/-- An object that is put although the cursor has moved on behind it. -/
theorem store_lost (h : Good .idle (n + 1) s) (cursor : Nat) :
    Lost { s with cursor := cursor, stores := (s.cursor, s.made - 1) :: s.stores } := by
  have hbefore := mem_of_entry (h.entries n (Nat.lt_succ_self n))
  have hmade : s.made = n + 1 := h.made
  have hcursor : s.cursor = n + 1 := h.cursor
  refine .twice (i := n) (j := n + 1) (b := n) (List.mem_cons_of_mem _ hbefore) ?_ (Nat.ne_of_lt (Nat.lt_succ_self n))
  rw [hcursor, hmade]
  exact List.mem_cons_self

/-- At the end the objects are safe if each is stored and the array is large enough. -/
theorem safe_iff (h : Good p n s) : Safe count s ↔ p.made = p.stored ∧ n + p.stored ≤ count := by
  constructor
  · intro hs
    have hmade : p.made ≤ p.stored := by
      by_contra hlt
      obtain ⟨i, -, hi⟩ := hs.kept (n + p.stored) (by rw [h.made]; omega)
      exact absurd (h.entry_eq hi).2 (Nat.lt_irrefl _)
    have hle : p.stored ≤ p.made := by cases p <;> decide
    refine ⟨Nat.le_antisymm hmade hle, ?_⟩
    cases hn : n + p.stored with
    | zero => exact Nat.zero_le count
    | succ m => exact hs.inside (m, m) (mem_of_entry (h.entries m (by omega)))
  · rintro ⟨hp, hcount⟩
    refine ⟨fun q hq => ?_, fun q hq r hr heq => ?_, fun b hb => ?_⟩
    · obtain ⟨heq, hlt⟩ := h.stores q hq
      omega
    · rw [(h.stores q hq).1, (h.stores r hr).1, heq]
    · rw [h.made, hp] at hb
      exact ⟨b, by omega, h.entries b hb⟩

/-- A run is safe if and only if the acts fill the entries that are left. -/
theorem run_safe_iff (h : Good p n s) {acts : List Act} (hfirst : n = 0 → p = .idle → acts.head?.getD .make = .make) :
    Safe count (s.run acts) ↔ ∃ m, n + m ≤ count ∧ Fills p m acts := by
  induction acts generalizing s p n with
  | nil =>
    refine h.safe_iff.trans ⟨?_, ?_⟩
    · rintro ⟨hp, hcount⟩
      cases p with
      | idle => exact ⟨0, hcount, .done⟩
      | fresh => exact absurd hp (by decide)
      | held => exact ⟨1, hcount, .last⟩
    · rintro ⟨m, hcount, hfills⟩
      cases hfills with
      | done => exact ⟨rfl, hcount⟩
      | last => exact ⟨rfl, hcount⟩
  | cons a acts ih =>
    have hlost : Lost (s.step a) → (¬ ∃ m, n + m ≤ count ∧ Fills p m (a :: acts)) →
        (Safe count (s.run (a :: acts)) ↔ ∃ m, n + m ≤ count ∧ Fills p m (a :: acts)) :=
      fun hl hno => iff_of_false (hl.run acts).not_safe hno
    by_cases hp : p = .idle
    · subst hp
      have hstored : n = 0 → ¬ (a :: acts).head?.getD .make ≠ .make := fun hn hne => hne (hfirst hn rfl)
      cases a with
      | make =>
        refine (ih h.make fun _ => nofun).trans (exists_congr fun m => and_congr_right fun _ => ?_)
        exact (fills_make_iff.trans (and_iff_right rfl)).symm
      | put =>
        obtain ⟨k, rfl⟩ : ∃ k, n = k + 1 := Nat.exists_eq_succ_of_ne_zero fun hn => hstored hn nofun
        exact hlost (h.store_lost s.cursor) fun ⟨m, _, hf⟩ => (fills_put_iff.mp hf).1 rfl
      | advance =>
        obtain ⟨k, rfl⟩ : ∃ k, n = k + 1 := Nat.exists_eq_succ_of_ne_zero fun hn => hstored hn nofun
        exact hlost (h.store_lost (s.cursor + 1)) fun ⟨m, _, hf⟩ => (fills_advance_iff.mp hf).1 rfl
    · cases a with
      | make => exact hlost (h.make_lost hp) fun ⟨m, _, hf⟩ => hp (fills_make_iff.mp hf).1
      | put =>
        refine (ih (h.put hp) fun _ => nofun).trans (exists_congr fun m => and_congr_right fun _ => ?_)
        exact (fills_put_iff.trans (and_iff_right hp)).symm
      | advance =>
        refine (ih (h.advance hp) nofun).trans ⟨?_, ?_⟩
        · rintro ⟨m, hcount, hf⟩
          exact ⟨m + 1, by omega, .advance hp hf⟩
        · rintro ⟨m, hcount, hf⟩
          obtain ⟨-, k, rfl, hrest⟩ := fills_advance_iff.mp hf
          exact ⟨k, by omega, hrest⟩

end Good

/-- From the start. Nothing can be put before an object is made. -/
theorem safe_run_iff {acts : List Act} (hfirst : acts.head?.getD .make = .make) :
    Safe count (start.run acts) ↔ ∃ m ≤ count, Fills .idle m acts := by
  refine (good_start.run_safe_iff fun _ _ => hfirst).trans (exists_congr fun m => ?_)
  rw [Nat.zero_add]

end

end Mvpmc.Lib.Cursor
