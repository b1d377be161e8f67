import Mathlib.Data.Multiset.Count
import Mathlib.Algebra.Order.Sub.Basic

/-! Reference counts over an arbitrary type of blocks, held against the references that exist, and programs that
may go wrong on a state. -/
namespace Mvpmc.Lib

/-- How many references each block has, and how many there are of all blocks together. -/
structure Ledger (α : Type) where
  count : α → Nat
  total : Nat

namespace Ledger
variable {α : Type} [DecidableEq α]

/-- A block is given out, with one reference. -/
def grant (l : Ledger α) (a : α) : Ledger α := ⟨Function.update l.count a 1, l.total + 1⟩

/-- One more reference; `none` if the block is not in use. -/
def hold (l : Ledger α) (a : α) : Option (Ledger α) :=
  if l.count a = 0 then none else some ⟨Function.update l.count a (l.count a + 1), l.total + 1⟩

/-- One reference less; `none` if there is none left. -/
def release (l : Ledger α) (a : α) : Option (Ledger α) :=
  if l.count a = 0 then none else some ⟨Function.update l.count a (l.count a - 1), l.total - 1⟩

/-- The counts are those of `refs`, and the total is as far from `base` as there are references. -/
structure Balanced (base : Nat) (l : Ledger α) (refs : Multiset α) : Prop where
  counts : ∀ a, l.count a = refs.count a
  total : l.total = base + refs.card

namespace Balanced
variable {base : Nat} {l : Ledger α} {refs : Multiset α} {a : α}

/-- A new count for one block. -/
theorem update {refs' : Multiset α} {n total : Nat} (h : Balanced base l refs) (ha : n = refs'.count a)
    (hb : ∀ b, b ≠ a → refs'.count b = refs.count b) (ht : total = base + refs'.card) :
    Balanced base ⟨Function.update l.count a n, total⟩ refs' := by
  refine ⟨fun b => ?_, ht⟩
  show Function.update l.count a n b = refs'.count b
  by_cases he : b = a
  · rw [he, Function.update_self, ha]
  · rw [Function.update_of_ne he, hb b he, h.counts b]

theorem grant (h : Balanced base l refs) (ha : a ∉ refs) : Balanced base (l.grant a) (a ::ₘ refs) := by
  refine h.update ?_ (fun b hb => Multiset.count_cons_of_ne hb refs) ?_
  · rw [Multiset.count_cons_self, Multiset.count_eq_zero_of_notMem ha]
  · rw [h.total, Multiset.card_cons, Nat.add_assoc]

theorem hold (h : Balanced base l refs) (ha : a ∈ refs) :
    ∃ l', l.hold a = some l' ∧ Balanced base l' (a ::ₘ refs) := by
  have hc : l.count a ≠ 0 := by
    rw [h.counts a]
    exact Multiset.count_ne_zero.mpr ha
  refine ⟨_, if_neg hc, h.update ?_ (fun b hb => Multiset.count_cons_of_ne hb refs) ?_⟩
  · rw [Multiset.count_cons_self, h.counts a]
  · rw [h.total, Multiset.card_cons, Nat.add_assoc]

theorem release (h : Balanced base l (a ::ₘ refs)) : ∃ l', l.release a = some l' ∧ Balanced base l' refs := by
  have hc : l.count a = refs.count a + 1 := by rw [h.counts a, Multiset.count_cons_self]
  have ht : l.total = base + (refs.card + 1) := by rw [h.total, Multiset.card_cons]
  refine ⟨_, if_neg (by omega), h.update ?_ (fun b hb => (Multiset.count_cons_of_ne hb refs).symm) ?_⟩
  · rw [hc, Nat.add_sub_cancel]
  · rw [ht, ← Nat.add_assoc, Nat.add_sub_cancel]

/-- The total is where it was if and only if there are no references. -/
theorem total_eq_iff (h : Balanced base l refs) : l.total = base ↔ refs = 0 := by
  rw [← Multiset.card_eq_zero, h.total]
  omega

theorem counts_eq_zero_iff (h : Balanced base l refs) : (∀ a, l.count a = 0) ↔ refs = 0 := by
  rw [Multiset.eq_zero_iff_forall_notMem]
  refine forall_congr' fun a => ?_
  rw [h.counts a, Multiset.count_eq_zero]

end Balanced
end Ledger

section
variable {σ α β : Type} {m : StateT σ Option α} {s : σ} {P Q : α → σ → Prop}

/-- `m` does not go wrong on `s`, and leaves a value and a state with `P`. -/
def Ensures (m : StateT σ Option α) (s : σ) (P : α → σ → Prop) : Prop := ∃ a s', m s = some (a, s') ∧ P a s'

namespace Ensures

theorem ret {a : α} (h : P a s) : Ensures (pure a) s P := ⟨a, s, rfl, h⟩

theorem bind {k : α → StateT σ Option β} {R : β → σ → Prop} (h : Ensures m s P)
    (hk : ∀ a s', P a s' → Ensures (k a) s' R) : Ensures (m >>= k) s R := by
  obtain ⟨a, s', hm, hP⟩ := h
  obtain ⟨b, s'', hb, hR⟩ := hk a s' hP
  refine ⟨b, s'', ?_, hR⟩
  show (m s >>= fun x => k x.1 x.2) = _
  rw [hm]
  exact hb

theorem bind_get {k : σ → StateT σ Option β} {R : β → σ → Prop} (h : Ensures (k s) s R) : Ensures (get >>= k) s R := h

theorem mono (h : Ensures m s P) (hPQ : ∀ a s', P a s' → Q a s') : Ensures m s Q := by
  obtain ⟨a, s', hm, hP⟩ := h
  exact ⟨a, s', hm, hPQ a s' hP⟩

/-- A program for each element of a list, with an invariant that tells what is left of the list. -/
theorem forM {γ : Type} {f : γ → StateT σ Option PUnit} {I : List γ → σ → Prop}
    (hf : ∀ c cs s, I (c :: cs) s → Ensures (f c) s fun _ s' => I cs s') (cs : List γ) {s : σ} (h : I cs s) :
    Ensures (cs.forM f) s fun _ s' => I [] s' := by
  induction cs generalizing s with
  | nil => exact ret h
  | cons c cs ih => exact bind (hf c cs s h) fun _ _ hcs => ih hcs

end Ensures
end

end Mvpmc.Lib
