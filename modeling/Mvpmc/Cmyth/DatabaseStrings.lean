import Mvpmc.RefMem.Alloc

/-! The strings of a database object (`cmyth_database_init` and `cmyth_database_set_*`, `mythtv_mysql.c`), as blocks of
the heap of `RefMem`. Their contents and numbers in the order they were given out are kept beside the heap. -/
namespace Mvpmc.Cmyth.Database
open Mvpmc.RefMem (Addr Heap Sys)

/-- The members of `struct cmyth_database` that are strings. -/
inductive Field where
  | host | user | pass | name
  deriving DecidableEq, Repr

/-- The heap, the contents of its strings, and what only the model keeps: which string was last given out at an
address, how many were given out, and the ones released. -/
structure Memory where
  heap : Heap
  text : Addr → List UInt8
  number : Addr → Nat
  issued : Nat
  released : List Nat

/-- The object in its memory; `mysql` tells whether a connection is open. -/
structure Db where
  memory : Memory
  strings : Field → Option Addr
  mysql : Bool

namespace Memory
variable (sizeofRefcounter : Nat)

/-- `ref_release` of a string, which has no destroy function. -/
def refRelease (m : Memory) (p : Option Addr) : Memory :=
  match p with
  | none => m
  | some a =>
    { m with
      heap := ((Sys.refRelease ⟨m.heap, [], 0⟩ a).resume sizeofRefcounter).heap
      released := m.number a :: m.released }

/-- `ref_strdup(str)`, where `malloc` answers `ret`, and what it returns. -/
def refStrdup (m : Memory) (str : Option (List UInt8)) (ret : Option Addr) : Memory × Option Addr :=
  match str, ret with
  | some s, some q =>
    ({ m with
        heap := m.heap.refAlloc sizeofRefcounter (s.length + 1) (some q)
        text := Function.update m.text q s
        number := Function.update m.number q m.issued
        issued := m.issued + 1 }, some q)
  | _, _ => (m, none)

end Memory

/-- The object as `ref_alloc` clears it. -/
def cleared (heap : Heap) (text : Addr → List UInt8) (number : Addr → Nat) : Db :=
  ⟨⟨heap, text, number, 0, []⟩, fun _ => none, false⟩

/-- A call: the string passed, and what `malloc` answers. -/
structure Arg where
  str : Option (List UInt8)
  ret : Option Addr

section
variable (sizeofRefcounter : Nat)

/-- `db->f = ref_strdup(str)`. -/
def Db.assign (db : Db) (f : Field) (arg : Arg) : Db :=
  let (memory, p) := db.memory.refStrdup sizeofRefcounter arg.str arg.ret
  { db with memory := memory, strings := Function.update db.strings f p }

/-- `ref_release(db->f)`. -/
def Db.release (db : Db) (f : Field) : Db := { db with memory := db.memory.refRelease sizeofRefcounter (db.strings f) }

/-- `cmyth_database_close`. -/
def Db.close (db : Db) : Db := { db with mysql := false }

/-- `cmyth_database_init`, once the object has been allocated. -/
def Db.init (db : Db) (args : Field → Arg) : Db :=
  [Field.host, Field.user, Field.pass, Field.name].foldl (fun db f => db.assign sizeofRefcounter f (args f)) db

/-- What the four setters do: the connection is closed, the string of one member released and another one assigned. -/
def Db.set (freed assigned : Field) (db : Db) (arg : Arg) : Db × Int :=
  let db := (db.close.release sizeofRefcounter freed).assign sizeofRefcounter assigned arg
  (db, if (db.strings assigned).isNone then 0 else 1)

def setHost : Db → Arg → Db × Int := Db.set sizeofRefcounter .host .host
def setUser : Db → Arg → Db × Int := Db.set sizeofRefcounter .user .user

/-- It is the user that is released here. -/
def setPass : Db → Arg → Db × Int := Db.set sizeofRefcounter .user .pass
def setName : Db → Arg → Db × Int := Db.set sizeofRefcounter .name .name

/-- The setter of a member. -/
def setter (f : Field) : Db → Arg → Db × Int :=
  match f with
  | .host => setHost sizeofRefcounter
  | .user => setUser sizeofRefcounter
  | .pass => setPass sizeofRefcounter
  | .name => setName sizeofRefcounter

/-- The setters called one after the other. -/
def Db.run (db : Db) (calls : List (Field × Arg)) : Db :=
  calls.foldl (fun db c => (setter sizeofRefcounter c.1 db c.2).1) db

/-- The member whose string a setter releases. -/
def freedBy : Field → Field
  | .host => .host
  | .user => .user
  | .pass => .user
  | .name => .name

/-- `malloc` answers with addresses that are not in use at the time. -/
def Fresh (db : Db) : List (Field × Arg) → Prop
  | [] => True
  | c :: calls => (∀ q ∈ c.2.ret, q ∉ (db.release sizeofRefcounter (freedBy c.1)).memory.heap.live) ∧
      Fresh (setter sizeofRefcounter c.1 db c.2).1 calls

def FreshInit (db : Db) (args : Field → Arg) : List Field → Prop
  | [] => True
  | f :: fs => (∀ q ∈ (args f).ret, q ∉ db.memory.heap.live) ∧
      FreshInit (db.assign sizeofRefcounter f (args f)) args fs

end

/-- The `n`-th string is that of a member. -/
def Current (strings : Field → Option Addr) (m : Memory) (n : Nat) : Prop := ∃ f p, strings f = some p ∧ m.number p = n

/-- The strings given out are those of the members, or have been released once. -/
structure ReleasedOnce (strings : Field → Option Addr) (m : Memory) : Prop where
  current : ∀ n < m.issued, Current strings m n → m.released.count n = 0
  replaced : ∀ n < m.issued, ¬ Current strings m n → m.released.count n = 1

/-- The values last set, from those that the object was given at first. -/
def lastSet (first : Field → Option (List UInt8)) (calls : List (Field × Arg)) : Field → Option (List UInt8) :=
  calls.foldl (fun last c => Function.update last c.1 c.2.str) first

/-- Every member refers to a string of its own that is in use, has one reference and holds the last value set, and
every string that was replaced has been released once. -/
structure Owned (last : Field → Option (List UInt8)) (db : Db) : Prop where
  live : ∀ f, ∃ p, db.strings f = some p ∧ p ∈ db.memory.heap.live ∧ (db.memory.heap.block p).refcount = 1 ∧
    last f = some (db.memory.text p)
  apart : ∀ f g p, db.strings f = some p → db.strings g = some p → f = g
  once : ReleasedOnce db.strings db.memory

/-- What holds of the memory when members have the values in `cur`, or are NULL. -/
structure Holds (cur : Field → Option (List UInt8)) (strings : Field → Option Addr) (m : Memory) : Prop where
  null : ∀ f, cur f = none → strings f = none
  live : ∀ f v, cur f = some v → ∃ p, strings f = some p ∧ p ∈ m.heap.live ∧
    (m.heap.block p).refcount = 1 ∧ (m.heap.block p).destroy = false ∧ m.text p = v
  apart : ∀ f g p q, strings f = some p → strings g = some q → m.number p = m.number q → f = g
  issued : ∀ f p, strings f = some p → m.number p < m.issued
  released : ∀ n ∈ m.released, n < m.issued
  once : ReleasedOnce strings m

section
variable {sizeofRefcounter : Nat} {cur : Field → Option (List UInt8)} {strings : Field → Option Addr} {m : Memory} {f : Field}

variable (sizeofRefcounter) in
/-- The last reference to a string frees it. -/
theorem refRelease_last {a : Addr} (hc : (m.heap.block a).refcount = 1) (hd : (m.heap.block a).destroy = false) :
    (m.refRelease sizeofRefcounter (some a)).heap.live = m.heap.live.erase a ∧
      ∀ b, b ≠ a → (m.refRelease sizeofRefcounter (some a)).heap.block b = m.heap.block b := by
  have hdrop : ((m.heap.dropRef a).block a).refcount = 0 := by
    simp [Heap.dropRef, Heap.set, hc, RefMem.mvpAtomicDec, RefMem.word]
  have hdest : ((m.heap.dropRef a).block a).destroy = false := by
    simp [Heap.dropRef, Heap.set, hd]
  have hrel : Sys.refRelease ⟨m.heap, [], 0⟩ a = ⟨m.heap.dropRef a, [(a, [])], 0⟩ := by
    unfold Sys.refRelease
    dsimp only
    rw [if_pos hdrop, if_neg (by simp [hdest])]
  have hheap : (m.refRelease sizeofRefcounter (some a)).heap = (m.heap.dropRef a).free sizeofRefcounter a := by
    unfold Memory.refRelease
    dsimp only
    rw [hrel]
    rfl
  refine ⟨by rw [hheap]; rfl, fun b hb => ?_⟩
  rw [hheap]
  exact Function.update_of_ne hb _ _

theorem update_none {β : Type} {g : Field → Option β} (h : g f = none) : Function.update g f none = g := by
  rw [← h, Function.update_eq_self]

theorem update_none_eq_some {g : Field} {p : Addr} :
    Function.update strings f none g = some p ↔ g ≠ f ∧ strings g = some p := by
  by_cases hg : g = f <;> simp [hg]

/-- The numbers of the strings that are left when a member is set to NULL. -/
theorem Holds.current_erase (h : Holds cur strings m) {p : Addr} (hp : strings f = some p) (n : Nat) :
    Current (Function.update strings f none) m n ↔ n ≠ m.number p ∧ Current strings m n := by
  constructor
  · rintro ⟨g, q, hq, rfl⟩
    obtain ⟨hg, hq⟩ := update_none_eq_some.mp hq
    exact ⟨fun he => hg (h.apart g f q p hq hp he), g, q, hq, rfl⟩
  · rintro ⟨hne, g, q, hq, rfl⟩
    refine ⟨g, q, update_none_eq_some.mpr ⟨?_, hq⟩, rfl⟩
    rintro rfl
    rw [hp] at hq
    exact hne (by rw [Option.some.inj hq])

variable (sizeofRefcounter) in
/-- A string that is released with its member has been released once then. -/
theorem Holds.once_erase (h : Holds cur strings m) {p : Addr} (hp : strings f = some p) :
    ReleasedOnce (Function.update strings f none) (m.refRelease sizeofRefcounter (some p)) := by
  have hfree : m.released.count (m.number p) = 0 := h.once.current _ (h.issued f p hp) ⟨f, p, hp, rfl⟩
  refine ⟨fun n hn hcn => ?_, fun n hn hcn => ?_⟩
  · obtain ⟨hne, hcn⟩ := (h.current_erase hp n).mp hcn
    show (m.number p :: m.released).count n = 0
    rw [List.count_cons_of_ne (Ne.symm hne)]
    exact h.once.current n hn hcn
  · show (m.number p :: m.released).count n = 1
    by_cases hne : n = m.number p
    · rw [hne, List.count_cons_self, hfree]
    · rw [List.count_cons_of_ne (Ne.symm hne)]
      exact h.once.replaced n hn fun hc => hcn ((h.current_erase hp n).mpr ⟨hne, hc⟩)

/-- The string of a member is released, and the member set to NULL. -/
theorem Holds.refRelease (h : Holds cur strings m) :
    Holds (Function.update cur f none) (Function.update strings f none) (m.refRelease sizeofRefcounter (strings f)) := by
  cases hcur : cur f with
  | none =>
    have hnull := h.null f hcur
    rw [update_none hcur, update_none hnull, hnull]
    exact h
  | some v =>
    obtain ⟨p, hp, -, hc, hd, -⟩ := h.live f v hcur
    obtain ⟨hlive, hblock⟩ := refRelease_last sizeofRefcounter hc hd
    have honce := h.once_erase sizeofRefcounter hp
    rw [hp]
    refine ⟨?_, ?_, ?_, ?_, ?_, honce⟩
    · intro g hg
      by_cases he : g = f
      · rw [he, Function.update_self]
      · rw [Function.update_of_ne he] at hg ⊢
        exact h.null g hg
    · intro g w hg
      obtain ⟨he, hg⟩ : g ≠ f ∧ cur g = some w := by
        by_cases he : g = f
        · rw [he, Function.update_self] at hg
          cases hg
        · exact ⟨he, by rwa [Function.update_of_ne he] at hg⟩
      obtain ⟨q, hq, hlq, hcq, hdq, htq⟩ := h.live g w hg
      have hne : q ≠ p := fun heq => he (h.apart g f q p hq hp (by rw [heq]))
      refine ⟨q, update_none_eq_some.mpr ⟨he, hq⟩, ?_, ?_, ?_, htq⟩
      · rw [hlive]
        exact Finset.mem_erase.mpr ⟨hne, hlq⟩
      · rw [hblock q hne, hcq]
      · rw [hblock q hne, hdq]
    · intro g g' q q' hq hq' hn
      exact h.apart g g' q q' (update_none_eq_some.mp hq).2 (update_none_eq_some.mp hq').2 hn
    · intro g q hq
      exact h.issued g q (update_none_eq_some.mp hq).2
    · intro n hn
      rcases List.mem_cons.mp hn with rfl | hn
      · exact h.issued f p hp
      · exact h.released n hn

/-- The string that `ref_strdup` leaves in a member. -/
def Arg.value (arg : Arg) : Option (List UInt8) := if arg.ret.isSome then arg.str else none

theorem update_some_eq_some {g : Field} {p q : Addr} :
    Function.update strings f (some q) g = some p ↔ g = f ∧ q = p ∨ g ≠ f ∧ strings g = some p := by
  by_cases hg : g = f <;> simp [hg]

/-- The members that have a string are apart from one that is NULL, and from memory that is not in use. -/
theorem Holds.other (h : Holds cur strings m) (hf : cur f = none) {g : Field} {p q : Addr} (hq : q ∉ m.heap.live)
    (hp : strings g = some p) : p ≠ q ∧ g ≠ f := by
  cases hcur : cur g with
  | none =>
    rw [h.null g hcur] at hp
    cases hp
  | some w =>
    obtain ⟨p', hp', hl, -⟩ := h.live g w hcur
    rw [hp] at hp'
    obtain rfl := Option.some.inj hp'
    refine ⟨fun he => hq (he ▸ hl), ?_⟩
    rintro rfl
    rw [hf] at hcur
    cases hcur

section Insert
variable {v : List UInt8} {q : Addr} (h : Holds cur strings m) (hf : cur f = none) (hq : q ∉ m.heap.live)
include h hf hq

/-- A new string does not change the numbers of the others. -/
theorem Holds.number_other {g : Field} {p : Addr} (hp : strings g = some p) :
    Function.update m.number q m.issued p = m.number p := Function.update_of_ne (h.other hf hq hp).1 _ _

variable (sizeofRefcounter v) in
theorem Holds.current_insert {n : Nat} (hn : n < m.issued) :
    Current (Function.update strings f (some q)) (m.refStrdup sizeofRefcounter (some v) (some q)).1 n ↔
      Current strings m n := by
  have hself : Function.update m.number q m.issued q = m.issued := Function.update_self _ _ _
  constructor
  · rintro ⟨g, p, hp, he⟩
    rcases update_some_eq_some.mp hp with ⟨-, rfl⟩ | ⟨-, hp⟩
    · rw [← he] at hn
      exact absurd hself (ne_of_lt hn)
    · exact ⟨g, p, hp, (h.number_other hf hq hp).symm.trans he⟩
  · rintro ⟨g, p, hp, he⟩
    exact ⟨g, p, update_some_eq_some.mpr (.inr ⟨(h.other hf hq hp).2, hp⟩), (h.number_other hf hq hp).trans he⟩

variable (sizeofRefcounter v) in
/-- A new string has a number of its own, which has not been released. -/
theorem Holds.once_insert :
    ReleasedOnce (Function.update strings f (some q)) (m.refStrdup sizeofRefcounter (some v) (some q)).1 := by
  have hnew : Current (Function.update strings f (some q)) (m.refStrdup sizeofRefcounter (some v) (some q)).1 m.issued :=
    ⟨f, q, Function.update_self _ _ _, Function.update_self _ _ _⟩
  have hnever : m.released.count m.issued = 0 :=
    List.count_eq_zero.mpr fun hn => absurd (h.released _ hn) (Nat.lt_irrefl _)
  refine ⟨fun n hn hcn => ?_, fun n hn hcn => ?_⟩
  · rcases Nat.lt_succ_iff_lt_or_eq.mp hn with hn | rfl
    · exact h.once.current n hn ((h.current_insert sizeofRefcounter v hf hq hn).mp hcn)
    · exact hnever
  · rcases Nat.lt_succ_iff_lt_or_eq.mp hn with hn | rfl
    · exact h.once.replaced n hn fun hc => hcn ((h.current_insert sizeofRefcounter v hf hq hn).mpr hc)
    · exact absurd hnew hcn

/-- A member that is NULL gets the string `v` at `q`. -/
theorem Holds.refStrdup_some : Holds (Function.update cur f (some v)) (Function.update strings f (some q))
    (m.refStrdup sizeofRefcounter (some v) (some q)).1 := by
  have hself : Function.update m.number q m.issued q = m.issued := Function.update_self _ _ _
  refine ⟨?_, ?_, ?_, ?_, fun n hn => Nat.lt_succ_of_lt (h.released n hn), h.once_insert sizeofRefcounter v hf hq⟩
  · intro g hg
    by_cases he : g = f
    · rw [he, Function.update_self] at hg
      cases hg
    · rw [Function.update_of_ne he] at hg ⊢
      exact h.null g hg
  · intro g w hg
    by_cases he : g = f
    · rw [he, Function.update_self] at hg
      refine ⟨q, by rw [he, Function.update_self], Finset.mem_insert_self _ _, ?_, ?_, ?_⟩
      · simp [Memory.refStrdup, Heap.refAlloc]
      · simp [Memory.refStrdup, Heap.refAlloc]
      · simpa [Memory.refStrdup] using hg
    · rw [Function.update_of_ne he] at hg
      obtain ⟨p, hp, hl, hc, hd, ht⟩ := h.live g w hg
      have hne := (h.other hf hq hp).1
      refine ⟨p, by rw [Function.update_of_ne he, hp], Finset.mem_insert_of_mem hl, ?_, ?_, ?_⟩
      · simp [Memory.refStrdup, Heap.refAlloc, hne, hc]
      · simp [Memory.refStrdup, Heap.refAlloc, hne, hd]
      · simp [Memory.refStrdup, hne, ht]
  · intro g g' p p' hp hp' hn
    change Function.update m.number q m.issued p = Function.update m.number q m.issued p' at hn
    rcases update_some_eq_some.mp hp with ⟨hg, rfl⟩ | ⟨-, ho⟩ <;>
      rcases update_some_eq_some.mp hp' with ⟨hg', rfl⟩ | ⟨-, ho'⟩
    · rw [hg, hg']
    · rw [hself, h.number_other hf hq ho'] at hn
      exact absurd (h.issued g' p' ho') (by omega)
    · rw [hself, h.number_other hf hq ho] at hn
      exact absurd (h.issued g p ho) (by omega)
    · rw [h.number_other hf hq ho, h.number_other hf hq ho'] at hn
      exact h.apart g g' p p' ho ho' hn
  · intro g p hp
    show Function.update m.number q m.issued p < m.issued + 1
    rcases update_some_eq_some.mp hp with ⟨-, rfl⟩ | ⟨-, hp⟩
    · rw [hself]
      exact Nat.lt_succ_self _
    · rw [h.number_other hf hq hp]
      exact Nat.lt_succ_of_lt (h.issued g p hp)

end Insert

variable (sizeofRefcounter) in
/-- A member that is NULL gets what `ref_strdup` returns. -/
theorem Holds.refStrdup {arg : Arg} (h : Holds cur strings m) (hf : cur f = none) (hfresh : ∀ q ∈ arg.ret, q ∉ m.heap.live) :
    Holds (Function.update cur f arg.value)
      (Function.update strings f (m.refStrdup sizeofRefcounter arg.str arg.ret).2)
      (m.refStrdup sizeofRefcounter arg.str arg.ret).1 := by
  obtain ⟨str, ret⟩ := arg
  have hsame : Holds (Function.update cur f none) (Function.update strings f none) m := by
    rw [update_none hf, update_none (h.null f hf)]
    exact h
  cases ret with
  | none => cases str <;> exact hsame
  | some q =>
    cases str with
    | none => exact hsame
    | some v => exact h.refStrdup_some hf (hfresh q rfl)

end

section
variable {sizeofRefcounter : Nat} {cur : Field → Option (List UInt8)} {db : Db} {args : Field → Arg} {calls : List (Field × Arg)}

variable (sizeofRefcounter) in
theorem Holds.assign {f : Field} {arg : Arg} (h : Holds cur db.strings db.memory) (hf : cur f = none)
    (hfresh : ∀ q ∈ arg.ret, q ∉ db.memory.heap.live) :
    Holds (Function.update cur f arg.value) (db.assign sizeofRefcounter f arg).strings (db.assign sizeofRefcounter f arg).memory :=
  h.refStrdup sizeofRefcounter hf hfresh

/-- A setter that releases the string it replaces. -/
theorem Holds.set {f : Field} {arg : Arg} (h : Holds cur db.strings db.memory)
    (hfresh : ∀ q ∈ arg.ret, q ∉ (db.release sizeofRefcounter f).memory.heap.live) :
    Holds (Function.update cur f arg.value) (Db.set sizeofRefcounter f f db arg).1.strings
      (Db.set sizeofRefcounter f f db arg).1.memory := by
  have hrel : Holds (Function.update cur f none) (Function.update db.strings f none) (db.release sizeofRefcounter f).memory :=
    h.refRelease
  have hset := hrel.refStrdup sizeofRefcounter (Function.update_self f none cur) hfresh
  rw [Function.update_idem, Function.update_idem] at hset
  exact hset

theorem setter_eq (f : Field) : setter sizeofRefcounter f = Db.set sizeofRefcounter (freedBy f) f := by
  cases f <;> rfl

theorem freedBy_of_ne_pass {f : Field} (hf : f ≠ .pass) : freedBy f = f := by
  cases f with
  | pass => exact absurd rfl hf
  | _ => rfl

/-- The string and the memory for it are there. -/
def Arg.Given (arg : Arg) : Prop := arg.str.isSome ∧ arg.ret.isSome

theorem Arg.value_of_given {arg : Arg} (h : arg.Given) : arg.value = arg.str := if_pos h.2

theorem Arg.value_isSome {arg : Arg} : arg.value.isSome ↔ arg.Given := by
  unfold Arg.value Arg.Given
  cases arg.ret <;> simp

theorem Holds.owned (h : Holds cur db.strings db.memory) (hcur : ∀ f, (cur f).isSome) : Owned cur db := by
  refine ⟨fun f => ?_, fun f g p hf hg => h.apart f g p p hf hg rfl, h.once⟩
  obtain ⟨v, hv⟩ := Option.isSome_iff_exists.mp (hcur f)
  obtain ⟨p, hp, hl, hc, -, ht⟩ := h.live f v hv
  exact ⟨p, hp, hl, hc, by rw [hv, ht]⟩

/-- The members of an object that owns its strings are not NULL. -/
theorem Holds.isSome_of_owned {last : Field → Option (List UInt8)} (h : Holds cur db.strings db.memory) (ho : Owned last db)
    (f : Field) : (cur f).isSome := by
  obtain ⟨p, hp, -⟩ := ho.live f
  by_contra hf
  rw [h.null f (Option.not_isSome_iff_eq_none.mp hf)] at hp
  cases hp

/-- `cmyth_database_set_pass` leaves the user's member referring to memory that has been freed, or that is the
password's now. -/
theorem setPass_not_owned {last : Field → Option (List UInt8)} {arg : Arg} (h : Holds cur db.strings db.memory)
    (hcur : ∀ f, (cur f).isSome) : ¬ Owned last (setPass sizeofRefcounter db arg).1 := by
  intro ho
  obtain ⟨v, hv⟩ := Option.isSome_iff_exists.mp (hcur .user)
  obtain ⟨p, hp, -, hc, hd, -⟩ := h.live .user v hv
  have hlive := (refRelease_last sizeofRefcounter hc hd).1
  have hmem : (setPass sizeofRefcounter db arg).1.memory =
      ((db.memory.refRelease sizeofRefcounter (some p)).refStrdup sizeofRefcounter arg.str arg.ret).1 := by
    rw [← hp]
    rfl
  have hstrings : (setPass sizeofRefcounter db arg).1.strings = Function.update db.strings .pass
      ((db.memory.refRelease sizeofRefcounter (some p)).refStrdup sizeofRefcounter arg.str arg.ret).2 := by
    rw [← hp]
    rfl
  have huser : (setPass sizeofRefcounter db arg).1.strings .user = some p := by
    rw [hstrings, Function.update_of_ne (by decide), hp]
  have hpass : (setPass sizeofRefcounter db arg).1.strings .pass =
      ((db.memory.refRelease sizeofRefcounter (some p)).refStrdup sizeofRefcounter arg.str arg.ret).2 := by
    rw [hstrings, Function.update_self]
  obtain ⟨p', hp', hl, -⟩ := ho.live .user
  obtain rfl := Option.some.inj (huser.symm.trans hp')
  rw [hmem] at hl
  have hgone : p ∉ (db.memory.refRelease sizeofRefcounter (some p)).heap.live := by
    rw [hlive]
    exact Finset.notMem_erase p _
  obtain ⟨str, ret⟩ := arg
  cases str with
  | none => exact hgone hl
  | some w =>
    cases ret with
    | none => exact hgone hl
    | some q =>
      rcases Finset.mem_insert.mp hl with rfl | hl
      · exact absurd (ho.apart .user .pass p huser hpass) (by decide)
      · exact hgone hl

/-- From an object that owns its strings on, it owns them all the time unless a password is set. -/
theorem run_owned_iff (h : Holds cur db.strings db.memory) (hcur : ∀ f, (cur f).isSome) (hfresh : Fresh sizeofRefcounter db calls) :
    (∀ pre, pre <+: calls → Owned (lastSet cur pre) (db.run sizeofRefcounter pre)) ↔
      ∀ c ∈ calls, c.1 ≠ .pass ∧ c.2.Given := by
  induction calls generalizing cur db with
  | nil =>
    refine iff_of_true (fun pre hpre => ?_) fun c hc => absurd hc List.not_mem_nil
    rw [List.prefix_nil.mp hpre]
    exact h.owned hcur
  | cons c calls ih =>
    obtain ⟨f, arg⟩ := c
    obtain ⟨hq, hfresh⟩ := hfresh
    -- what a setter that is not the password's leaves
    have hstep (hf : f ≠ .pass) : Holds (Function.update cur f arg.value) (setter sizeofRefcounter f db arg).1.strings
        (setter sizeofRefcounter f db arg).1.memory := by
      rw [freedBy_of_ne_pass hf] at hq
      rw [setter_eq, freedBy_of_ne_pass hf]
      exact h.set hq
    have hnext (hg : arg.Given) : ∀ g, (Function.update cur f arg.value g).isSome := by
      intro g
      by_cases hgf : g = f
      · rw [hgf, Function.update_self]
        exact Arg.value_isSome.mpr hg
      · rw [Function.update_of_ne hgf]
        exact hcur g
    rw [List.forall_mem_cons]
    constructor
    · intro hall
      have hone : Owned (lastSet cur [(f, arg)]) (setter sizeofRefcounter f db arg).1 :=
        hall [(f, arg)] ⟨calls, rfl⟩
      have hf : f ≠ .pass := by
        rintro rfl
        exact setPass_not_owned h hcur hone
      have hg : arg.Given := by
        have hsome := (hstep hf).isSome_of_owned hone f
        rw [Function.update_self] at hsome
        exact Arg.value_isSome.mp hsome
      refine ⟨⟨hf, hg⟩, (ih (hstep hf) (hnext hg) hfresh).mp fun pre hpre => ?_⟩
      have hcons := hall ((f, arg) :: pre) (List.cons_prefix_cons.mpr ⟨rfl, hpre⟩)
      rw [Arg.value_of_given hg]
      exact hcons
    · rintro ⟨⟨hf, hg⟩, hrest⟩ pre hpre
      cases pre with
      | nil => exact h.owned hcur
      | cons c' pre =>
        obtain ⟨rfl, htail⟩ := List.cons_prefix_cons.mp hpre
        have hcons := (ih (hstep hf) (hnext hg) hfresh).mpr hrest pre htail
        rw [Arg.value_of_given hg] at hcons
        exact hcons

/-- `cmyth_database_init` gives each member its string. -/
theorem init_holds {heap : Heap} {text : Addr → List UInt8} {number : Addr → Nat}
    (hfresh : FreshInit sizeofRefcounter (cleared heap text number) args [.host, .user, .pass, .name]) :
    Holds (fun f => (args f).value) ((cleared heap text number).init sizeofRefcounter args).strings
      ((cleared heap text number).init sizeofRefcounter args).memory := by
  have h₀ : Holds (fun _ => none) (cleared heap text number).strings (cleared heap text number).memory := by
    constructor
    · exact fun _ _ => rfl
    · exact fun _ _ hv => absurd hv (by simp)
    · exact fun _ _ _ _ hp => absurd hp (by simp [cleared])
    · exact fun _ _ hp => absurd hp (by simp [cleared])
    · exact fun _ hn => absurd hn List.not_mem_nil
    · exact ⟨fun n hn => absurd hn (Nat.not_lt_zero n), fun n hn => absurd hn (Nat.not_lt_zero n)⟩
  obtain ⟨hhost, huser, hpass, hname, -⟩ := hfresh
  have h₁ := h₀.assign sizeofRefcounter (f := .host) rfl hhost
  have h₂ := h₁.assign sizeofRefcounter (f := .user) rfl huser
  have h₃ := h₂.assign sizeofRefcounter (f := .pass) rfl hpass
  have h₄ := h₃.assign sizeofRefcounter (f := .name) rfl hname
  have hcur : (fun f => (args f).value) = Function.update (Function.update (Function.update (Function.update (fun _ => none)
      .host (args .host).value) .user (args .user).value) .pass (args .pass).value) .name (args .name).value := by
    funext f
    cases f <;> rfl
  rw [hcur]
  exact h₄

end

/-- An initialised database object owns its strings through a sequence of setters if and only if none of them is
`cmyth_database_set_pass`, and every string is given and gets its memory. -/
theorem setters_owned_iff (sizeofRefcounter : Nat) (heap : Heap) (text : Addr → List UInt8) (number : Addr → Nat)
    (args : Field → Arg) (calls : List (Field × Arg))
    (hinit : FreshInit sizeofRefcounter (cleared heap text number) args [.host, .user, .pass, .name])
    (hargs : ∀ f, (args f).Given)
    (hfresh : Fresh sizeofRefcounter ((cleared heap text number).init sizeofRefcounter args) calls) :
    (∀ pre, pre <+: calls → Owned (lastSet (fun f => (args f).str) pre)
      (((cleared heap text number).init sizeofRefcounter args).run sizeofRefcounter pre)) ↔
      ∀ c ∈ calls, c.1 ≠ .pass ∧ c.2.Given := by
  have hvalue : (fun f => (args f).value) = fun f => (args f).str := funext fun f => Arg.value_of_given (hargs f)
  have h := init_holds hinit
  rw [hvalue] at h
  refine run_owned_iff h (fun f => ?_) hfresh
  exact (hargs f).1

/-- One letter for each member, at the addresses 1 to 4. -/
def letters : Field → Arg
  | .host => ⟨some [104], some 1⟩
  | .user => ⟨some [117], some 2⟩
  | .pass => ⟨some [112], some 3⟩
  | .name => ⟨some [110], some 4⟩

/-- An object with the members in `letters`. -/
def lettered : Db := (cleared Heap.empty (fun _ => []) fun _ => 0).init 24 letters

/-- A new host and then a new user, who gets the memory of the old host's name. -/
theorem setters_owned_two :
    Owned (lastSet (fun f => (letters f).str) [(.host, ⟨some [105], some 5⟩), (.user, ⟨some [118], some 1⟩)])
      (lettered.run 24 [(.host, ⟨some [105], some 5⟩), (.user, ⟨some [118], some 1⟩)]) :=
  (setters_owned_iff 24 Heap.empty (fun _ => []) (fun _ => 0) letters
    [(.host, ⟨some [105], some 5⟩), (.user, ⟨some [118], some 1⟩)]
    ⟨by decide, by decide, by decide, by decide, trivial⟩
    (by rintro (_ | _ | _ | _) <;> exact ⟨rfl, rfl⟩)
    ⟨by decide, by decide, trivial⟩).mpr (by
      intro c hc
      rcases List.mem_cons.mp hc with rfl | hc
      · exact ⟨by decide, rfl, rfl⟩
      · rcases List.mem_singleton.mp hc with rfl
        exact ⟨by decide, rfl, rfl⟩) _ List.prefix_rfl

/-- A new password: the user's name is freed with the member still referring to it. -/
theorem newPassword_not_owned : Fresh 24 lettered [(.pass, ⟨some [113], some 5⟩)] ∧
    ¬ Owned (lastSet (fun f => (letters f).str) [(.pass, ⟨some [113], some 5⟩)])
      (lettered.run 24 [(.pass, ⟨some [113], some 5⟩)]) := by
  refine ⟨⟨by decide, trivial⟩, fun ho => ?_⟩
  obtain ⟨p, hp, hl, -⟩ := ho.live .user
  obtain rfl : 2 = p := Option.some.inj hp
  exact absurd hl (by decide)

end Mvpmc.Cmyth.Database
