import Mathlib.Algebra.BigOperators.Group.Finset.Basic
import Mathlib.Data.Multiset.Count
import Mathlib.Algebra.Order.Sub.Basic

/-! Reference counted blocks, as `src/libs/librefmem/alloc.c` hands them out. A release that takes a
count to zero calls the block's destroy function before it frees the block, and destroy functions release
further blocks: the activations of `ref_release` still inside a destroy call are kept on a stack. -/
namespace Mvpmc.RefMem

abbrev Addr := Nat

/-- The range of the counters, which are of the type `mvp_atomic_t` (an unsigned int). -/
def word : Nat := 2 ^ 32

def mvpAtomicInc (a : Nat) : Nat := (a + 1) % word

def mvpAtomicDec (a : Nat) : Nat := (a + (word - 1)) % word

/-- A block: its header (`refcount`, `length`, and whether `destroy` is set) and the references its data
stores, which are what a destroy function releases. `destroyed` counts the calls of the destroy function
on the block since it was allocated; the code does not keep it. -/
structure RefCounter where
  refcount : Nat
  length : Nat
  destroy : Bool
  stored : List Addr
  destroyed : Nat
deriving DecidableEq

/-- The blocks `malloc` has given out and `free` not taken back, with the two totals. The contents of a
freed block stay in memory until it is given out again. -/
structure Heap where
  live : Finset Addr
  block : Addr → RefCounter
  totalRefcount : Nat
  totalBytecount : Nat

namespace Heap

/-- Nothing allocated, as the program starts. -/
def empty : Heap := ⟨∅, fun _ => ⟨0, 0, false, [], 0⟩, 0, 0⟩

def set (h : Heap) (p : Addr) (b : RefCounter) : Heap := { h with block := Function.update h.block p b }

/-- `__ref_alloc(len)`, where `malloc` answered `ret` (`none` for NULL). -/
def refAlloc (sizeofRefcounter : Nat) (h : Heap) (len : Nat) (ret : Option Addr) : Heap :=
  match ret with
  | none => h
  | some p =>
    { live := insert p h.live
      block := Function.update h.block p ⟨1, len, false, [], 0⟩
      totalRefcount := mvpAtomicInc h.totalRefcount
      totalBytecount := (h.totalBytecount + (sizeofRefcounter + len)) % word }

/-- `ref_set_destroy(p, func)`. -/
def refSetDestroy (h : Heap) (p : Addr) (func : Bool) : Heap := h.set p { h.block p with destroy := func }

/-- `ref_hold(p)`. -/
def refHold (h : Heap) (p : Addr) : Heap :=
  { h.set p { h.block p with refcount := mvpAtomicInc (h.block p).refcount } with
    totalRefcount := mvpAtomicInc h.totalRefcount }

/-- The two decrements at the start of `ref_release(p)`. -/
def dropRef (h : Heap) (p : Addr) : Heap :=
  { h.set p { h.block p with refcount := mvpAtomicDec (h.block p).refcount } with
    totalRefcount := mvpAtomicDec h.totalRefcount }

/-- The destroy function of `p` is called. -/
def callDestroy (h : Heap) (p : Addr) : Heap :=
  h.set p { h.block p with destroyed := (h.block p).destroyed + 1 }

/-- The end of the last `ref_release(p)`: the bytes are taken off the total and the block is freed. -/
def free (sizeofRefcounter : Nat) (h : Heap) (p : Addr) : Heap :=
  { h with
    live := h.live.erase p
    totalBytecount := (h.totalBytecount + (word - (sizeofRefcounter + (h.block p).length) % word)) % word }

end Heap

/-- The heap, the activations of `ref_release` that are inside a destroy call (innermost first, each with
the references its destroy function has still to release), and the references the callers own. -/
structure Sys where
  heap : Heap
  calls : List (Addr × List Addr)
  owned : Multiset Addr

namespace Sys
variable (sizeofRefcounter : Nat)

def start : Sys := ⟨Heap.empty, [], 0⟩

/-- `ref_release(p)`, up to the first reference its destroy function releases. -/
def refRelease (s : Sys) (p : Addr) : Sys :=
  let h := s.heap.dropRef p
  if (h.block p).refcount = 0 then
    if (h.block p).destroy then
      { s with heap := h.callDestroy p, calls := (p, (h.block p).stored) :: s.calls }
    else { s with heap := h, calls := (p, []) :: s.calls }
  else { s with heap := h }

/-- The innermost activation goes on: its destroy function releases the next reference, or has returned
and the block is freed. -/
def resume (s : Sys) : Sys :=
  match s.calls with
  | [] => s
  | (p, a :: rest) :: calls => refRelease { s with calls := (p, rest) :: calls } a
  | (p, []) :: calls => { s with heap := s.heap.free sizeofRefcounter p, calls := calls }

/-- `ref_alloc(len)` by a caller, who owns the reference returned. -/
def refAlloc (s : Sys) (len : Nat) (ret : Option Addr) : Sys :=
  { s with heap := s.heap.refAlloc sizeofRefcounter len ret, owned := ret.elim s.owned (· ::ₘ s.owned) }

/-- What `ref_realloc` copies to the new block: the data with the references in it, and `destroy`. -/
def copyBlock (s : Sys) (p q : Addr) : Sys :=
  let h := s.heap.set q { s.heap.block q with stored := (s.heap.block p).stored }
  { s with heap := h.refSetDestroy q (s.heap.block p).destroy }

/-- `ref_realloc(p, len)`: the caller's reference to `p` is released in any case. -/
def refRealloc (s : Sys) (p : Option Addr) (len : Nat) (ret : Option Addr) : Sys :=
  let s' := s.refAlloc sizeofRefcounter len ret
  match p, ret with
  | some p, some q => refRelease { s'.copyBlock p q with owned := s'.owned.erase p } p
  | some p, none => refRelease { s' with owned := s'.owned.erase p } p
  | none, _ => s'

end Sys

/-- The calls of the library's functions, with the answer `malloc` gives where it is asked, the accesses
of callers to the references stored in a block, and the progress of a release. -/
inductive Call where
  | refAlloc (len : Nat) (ret : Option Addr)
  | refStrdup (str : Option (List UInt8)) (ret : Option Addr)
  | refHold (p : Option Addr)
  | refRelease (p : Option Addr)
  | refRealloc (p : Option Addr) (len : Nat) (ret : Option Addr)
  | refSetDestroy (p : Addr) (func : Bool)
  | store (p a : Addr)
  | take (p a : Addr)
  | resume

namespace Sys

/-- What a call does. A reference stored in a block with a destroy function belongs to the block; in a
block without one it is a copy, and the reference stays with the caller. -/
def call (sizeofRefcounter : Nat) (s : Sys) : Call → Sys
  | .refAlloc len ret => s.refAlloc sizeofRefcounter len ret
  | .refStrdup none _ => s
  | .refStrdup (some str) ret => s.refAlloc sizeofRefcounter (str.length + 1) ret
  | .refHold none => s
  | .refHold (some p) => { s with heap := s.heap.refHold p, owned := p ::ₘ s.owned }
  | .refRelease none => s
  | .refRelease (some p) => refRelease { s with owned := s.owned.erase p } p
  | .refRealloc p len ret => s.refRealloc sizeofRefcounter p len ret
  | .refSetDestroy p func =>
    { s with
      heap := s.heap.refSetDestroy p func
      owned :=
        match (s.heap.block p).destroy, func with
        | false, true => s.owned - (s.heap.block p).stored
        | true, false => s.owned + (s.heap.block p).stored
        | _, _ => s.owned }
  | .store p a =>
    { s with
      heap := s.heap.set p { s.heap.block p with stored := a :: (s.heap.block p).stored }
      owned := if (s.heap.block p).destroy then s.owned.erase a else s.owned }
  | .take p a =>
    { s with
      heap := s.heap.set p { s.heap.block p with stored := (s.heap.block p).stored.erase a }
      owned := if (s.heap.block p).destroy then a ::ₘ s.owned else s.owned }
  | .resume => s.resume sizeofRefcounter

/-- What callers are bound to: they release, reallocate and write only what they own, hold only blocks
that are in use, give a block with a destroy function references of theirs, and grow what they
reallocate. `malloc` answers with an address that is not in use. -/
def Allowed (s : Sys) : Call → Prop
  | .refAlloc _ ret => ∀ q ∈ ret, q ∉ s.heap.live
  | .refStrdup _ ret => ∀ q ∈ ret, q ∉ s.heap.live
  | .refHold p => ∀ a ∈ p, a ∈ s.heap.live ∧ (s.heap.block a).refcount ≠ 0
  | .refRelease p => ∀ a ∈ p, a ∈ s.owned
  | .refRealloc p len ret =>
    (∀ a ∈ p, a ∈ s.owned ∧ (s.heap.block a).length ≤ len) ∧ ∀ q ∈ ret, q ∉ s.heap.live
  | .refSetDestroy p func =>
    p ∈ s.owned ∧ (func = true → (s.heap.block p).destroy = false → ((s.heap.block p).stored : Multiset Addr) ≤ s.owned)
  | .store p a => p ∈ s.owned ∧ a ∈ s.owned
  | .take p a => p ∈ s.owned ∧ a ∈ (s.heap.block p).stored
  | .resume => s.calls ≠ []

instance (s : Sys) (c : Call) : Decidable (s.Allowed c) :=
  match c with
  | .refAlloc _ ret => inferInstanceAs (Decidable (∀ q ∈ ret, q ∉ s.heap.live))
  | .refStrdup _ ret => inferInstanceAs (Decidable (∀ q ∈ ret, q ∉ s.heap.live))
  | .refHold p => inferInstanceAs (Decidable (∀ a ∈ p, a ∈ s.heap.live ∧ (s.heap.block a).refcount ≠ 0))
  | .refRelease p => inferInstanceAs (Decidable (∀ a ∈ p, a ∈ s.owned))
  | .refRealloc p len ret => inferInstanceAs (Decidable
      ((∀ a ∈ p, a ∈ s.owned ∧ (s.heap.block a).length ≤ len) ∧ ∀ q ∈ ret, q ∉ s.heap.live))
  | .refSetDestroy p func => inferInstanceAs (Decidable (p ∈ s.owned ∧ (func = true →
      (s.heap.block p).destroy = false → ((s.heap.block p).stored : Multiset Addr) ≤ s.owned)))
  | .store p a => inferInstanceAs (Decidable (p ∈ s.owned ∧ a ∈ s.owned))
  | .take p a => inferInstanceAs (Decidable (p ∈ s.owned ∧ a ∈ (s.heap.block p).stored))
  | .resume => inferInstanceAs (Decidable (s.calls ≠ []))

def Step (sizeofRefcounter : Nat) (s : Sys) (c : Call) (s' : Sys) : Prop :=
  s.Allowed c ∧ s' = s.call sizeofRefcounter c

end Sys
end Mvpmc.RefMem
