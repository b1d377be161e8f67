import Mvpmc.Lib.Circular
import Mvpmc.Lib.ByteOrder

/-! Fields of a memory whose byte order is converted where they stand. -/
namespace Mvpmc.Lib.InPlace
open Mvpmc.Lib.Circular

/-- Bytes in a row, by their distance from some address. -/
structure Span where
  start : Nat
  len : Nat
  deriving DecidableEq

namespace Span

def stop (s : Span) : Nat := s.start + s.len

def shift (base : Nat) (s : Span) : Span := ⟨base + s.start, s.len⟩

/-- Two spans without a common byte. -/
def Apart (s t : Span) : Prop := s.stop ≤ t.start ∨ t.stop ≤ s.start

instance (s t : Span) : Decidable (s.Apart t) := inferInstanceAs (Decidable (_ ∨ _))

theorem Apart.symm {s t : Span} (h : s.Apart t) : t.Apart s := Or.symm h

theorem apart_shift_iff (base : Nat) (s t : Span) : (s.shift base).Apart (t.shift base) ↔ s.Apart t := by
  simp only [Apart, stop, shift]
  omega

/-- Parts of spans without a common byte. -/
theorem Apart.mono {s t s' t' : Span} (h : s.Apart t) (hs : s.start ≤ s'.start ∧ s'.stop ≤ s.stop)
    (ht : t.start ≤ t'.start ∧ t'.stop ≤ t.stop) : s'.Apart t' := by
  rcases h with h | h
  · exact .inl (hs.2.trans (h.trans ht.1))
  · exact .inr (ht.2.trans (h.trans hs.1))

end Span

section Reverse
variable {α : Type*}

/-- The bytes of a span in reverse order. -/
def reverseAt (s : Span) (m : Nat → α) : Nat → α := fun i =>
  if s.start ≤ i ∧ i < s.stop then m (s.start + (s.stop - 1 - i)) else m i

theorem reverseAt_of_lt {s : Span} (m : Nat → α) {i : Nat} (h : i < s.start) : reverseAt s m i = m i :=
  if_neg fun hin => absurd hin.1 (Nat.not_le.mpr h)

theorem reverseAt_of_ge {s : Span} (m : Nat → α) {i : Nat} (h : s.stop ≤ i) : reverseAt s m i = m i :=
  if_neg fun hin => absurd hin.2 (Nat.not_lt.mpr h)

theorem slice_congr {m m' : Nat → α} {t : Span} (h : ∀ i, t.start ≤ i → i < t.stop → m i = m' i) :
    slice m t.start t.len = slice m' t.start t.len :=
  List.map_congr_left fun _ hi => h _ (Nat.le_add_right _ _) (Nat.add_lt_add_left (List.mem_range.mp hi) _)

theorem slice_reverseAt_of_apart {s t : Span} (m : Nat → α) (h : s.Apart t) :
    slice (reverseAt s m) t.start t.len = slice m t.start t.len := by
  refine slice_congr fun i hlo hhi => ?_
  rcases h with h | h
  · exact reverseAt_of_ge m (h.trans hlo)
  · exact reverseAt_of_lt m (hhi.trans_le h)

theorem slice_reverseAt (s : Span) (m : Nat → α) :
    slice (reverseAt s m) s.start s.len = (slice m s.start s.len).reverse := by
  refine List.ext_getElem (by simp) fun i hi _ => ?_
  rw [slice_length] at hi
  have hin : s.start ≤ s.start + i ∧ s.start + i < s.stop := ⟨Nat.le_add_right _ _, Nat.add_lt_add_left hi _⟩
  have hplace : s.stop - 1 - (s.start + i) = s.len - 1 - i := by
    simp only [Span.stop]
    omega
  simp [slice, reverseAt, hin, hplace]

end Reverse

section Convert
variable {order : ByteOrder} {fields : List Span} {m : Nat → UInt8}

/-- `ntohs`, `ntohl` and `ntohll` on one field after the other. -/
def convert (order : ByteOrder) (fields : List Span) (m : Nat → UInt8) : Nat → UInt8 :=
  match order with
  | .big => m
  | .little => fields.foldl (fun m s => reverseAt s m) m

theorem convert_nil (m : Nat → UInt8) : convert order [] m = m := by
  cases order <;> rfl

theorem convert_cons (s : Span) (m : Nat → UInt8) :
    convert order (s :: fields) m = convert order fields (convert order [s] m) := by
  cases order <;> rfl

/-- A byte that no field holds. -/
theorem convert_outside {i : Nat} (h : ∀ s ∈ fields, i < s.start ∨ s.stop ≤ i) : convert order fields m i = m i := by
  cases order with
  | big => rfl
  | little =>
    induction fields generalizing m with
    | nil => rfl
    | cons s fields ih =>
      obtain ⟨hs, hfields⟩ := List.forall_mem_cons.mp h
      have hone : reverseAt s m i = m i := hs.elim (reverseAt_of_lt m) (reverseAt_of_ge m)
      exact (ih hfields).trans hone

theorem slice_convert_of_apart {t : Span} (h : ∀ s ∈ fields, s.Apart t) :
    slice (convert order fields m) t.start t.len = slice m t.start t.len := by
  refine slice_congr fun i hlo hhi => convert_outside fun s hs => ?_
  rcases h s hs with h | h
  · exact .inr (h.trans hlo)
  · exact .inl (hhi.trans_le h)

/-- A field that is converted once is read as it stands in network order. -/
theorem load_convert (h : fields.Pairwise Span.Apart) {s : Span} (hs : s ∈ fields) :
    order.load (slice (convert order fields m) s.start s.len) = ofNetwork (slice m s.start s.len) := by
  cases order with
  | big => rfl
  | little =>
    induction fields generalizing m with
    | nil => cases hs
    | cons t fields ih =>
      obtain ⟨ht, hfields⟩ := List.pairwise_cons.mp h
      rcases List.mem_cons.mp hs with rfl | hs
      · rw [convert_cons, slice_convert_of_apart fun u hu => (ht u hu).symm]
        have hone : slice (convert .little [s] m) s.start s.len = (slice m s.start s.len).reverse := slice_reverseAt s m
        rw [ByteOrder.load, hone, List.reverse_reverse]
      · have hone : slice (convert .little [t] m) s.start s.len = slice m s.start s.len :=
          slice_reverseAt_of_apart m (ht s hs)
        rw [convert_cons, ih hfields hs, hone]

end Convert
end Mvpmc.Lib.InPlace
