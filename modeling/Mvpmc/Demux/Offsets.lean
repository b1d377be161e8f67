import Mvpmc.Demux.FillLevel

/-! The scan of the video ring in straight positions. The indices of the scanner jump at the
end of the ring; the positions behind them do not, and `ringbuf_valid` compares positions. -/
namespace Mvpmc.Demux
open Mvpmc.Lib.Circular

/-- A start code prefix and its identifier stand at position `y`. -/
def codeAt (tape : Nat → UInt8) (y : Nat) (identifier : UInt8) : Prop :=
  tape y = 0 ∧ tape (y + 1) = 0 ∧ tape (y + 2) = 1 ∧ tape (y + 3) = identifier

/-- The part to scan in positions from the cell `base` on: its first byte, behind the tail, is
at `lo`, and its head at `hi`. Six cells stay free, as `stream_add` has it. -/
structure Span (base size lo hi tail head : Nat) : Prop where
  tail_lt : tail < size
  first : (tail + 1) % size = (base + lo) % size
  head : head = (base + hi) % size
  le : lo ≤ hi
  room : hi + 7 ≤ lo + size

/-- The scanner stands at position `x`. Its index may have run past the ring. -/
structure Scan.At (base size : Nat) (sc : Scan) (x : Nat) : Prop where
  cell : sc.i % size = (base + x) % size
  pos : 0 < sc.i
  le : sc.i ≤ size + 4

/-- Only the cell of the index counts. -/
theorem ringbufValid_mod (tail head : Nat) (size i : Nat) :
    ringbufValid tail head size i =
      ((decide (head < tail) && decide (tail < i % size)) ||
        (decide (i % size < head) && (decide (head < tail) || decide (tail < i % size)))) := by
  have hj : (if 0 < i ∧ i < size then i else (i + size) % size) = i % size := by
    split
    · rw [Nat.mod_eq_of_lt (by omega)]
    · exact Nat.add_mod_right i size
  unfold ringbufValid
  simp only [hj]

namespace Span
variable {base size lo hi tail head : Nat}

/-- Within a lap of the tail `ringbuf_valid` says that the position is before the head. -/
theorem valid (sp : Span base size lo hi tail head) {i x : Nat} (hi' : i % size = (base + x) % size)
    (hlo : lo ≤ x) (hlap : x + 1 < lo + size) : ringbufValid tail head size i = decide (x < hi) := by
  have h1 := sp.le
  have h2 := sp.room
  have ht := sp.tail_lt
  have hcell (y : Nat) : (base + (lo + y)) % size = (tail + 1 + y) % size := by
    rw [← Nat.add_assoc, Nat.add_mod, ← sp.first, ← Nat.add_mod]
  obtain ⟨m, rfl⟩ := Nat.exists_eq_add_of_le hlo
  obtain ⟨l, hl⟩ := Nat.exists_eq_add_of_le h1
  have hhead : head = (tail + 1 + l) % size := by rw [sp.head, hl, hcell]
  have hj : i % size = (tail + 1 + m) % size := by rw [hi', hcell]
  rw [ringbufValid_mod, hj, hhead]
  have hm := mod_cases (tail + 1 + m) size (by omega)
  have hl' := mod_cases (tail + 1 + l) size (by omega)
  rw [Bool.eq_iff_iff]
  simp only [Bool.or_eq_true, Bool.and_eq_true, decide_eq_true_eq]
  omega

end Span

namespace Scan
variable {base size x : Nat} {sc sc' : Scan}

theorem At.of_i (hat : sc.At base size x) (hi : sc'.i = sc.i) : sc'.At base size x :=
  ⟨hi ▸ hat.cell, hi ▸ hat.pos, hi ▸ hat.le⟩

theorem At.cell_add (hat : sc.At base size x) (k : Nat) : (sc.i + k) % size = (base + (x + k)) % size := by
  rw [Nat.add_mod, hat.cell, ← Nat.add_mod, Nat.add_assoc]

/-- Inside a round the index is in the ring, or one past it. -/
theorem At.wrap (hat : sc.At base size x) (hz : 5 ≤ size) :
    (sc.wrap size).At base size x ∧ (sc.wrap size).i ≤ size := by
  have hle := hat.le
  have hpos := hat.pos
  unfold Scan.wrap
  by_cases hs : size < sc.i
  · have hm : sc.i % size = sc.i - size := by
      rw [Nat.mod_eq_sub_mod (by omega), Nat.mod_eq_of_lt (by omega)]
    rw [if_pos hs]
    refine ⟨⟨?_, ?_, ?_⟩, ?_⟩ <;> dsimp only
    · rw [Nat.mod_mod]
      exact hat.cell
    all_goals omega
  · rw [if_neg hs]
    exact ⟨⟨hat.cell, hpos, hle⟩, by dsimp only; omega⟩

theorem At.next (hat : sc.At base size x) (hle : sc.i ≤ size) {n : Nat} (hn : n ≤ 4) :
    (sc.next n).At base size (x + n) := by
  have hpos := hat.pos
  refine ⟨?_, ?_, ?_⟩ <;> dsimp only [Scan.next]
  · exact hat.cell_add n
  all_goals omega

/-- Reads at and ahead of the index. -/
theorem At.ringbuf (hat : sc.At base size x) (k : Nat) :
    sc.ringbuf size (sc.i + k) = unroll sc.h.video.buf size base (x + k) := by
  unfold Scan.ringbuf unroll
  rw [hat.cell_add]

/-- Reads behind the index. -/
theorem At.behind (hat : sc.At base size x) (hle : sc.i ≤ size) (hz : size < 2147483648) {k y : Nat}
    (hk : 0 < k) (hk4 : k ≤ 4) (hs : 4 ≤ size) (hx : x = y + k) :
    sc.behind size k = unroll sc.h.video.buf size base y := by
  have hpos := hat.pos
  have hcell : (sc.i + size - k) % size = (base + y) % size := by
    have h1 : (sc.i + size - k) + k ≡ (base + y) + k [MOD size] := by
      rw [show sc.i + size - k + k = sc.i + size by omega, show base + y + k = base + x by omega]
      exact (Nat.add_mod_right _ _).trans hat.cell
    exact Nat.ModEq.add_right_cancel' k h1
  unfold Scan.behind unroll
  split
  · have hu : u32 ((sc.i : Int) - k + size) = sc.i + size - k := by
      rw [show ((sc.i : Int) - k + size) = ((sc.i + size - k : Nat) : Int) by omega]
      exact Stream.u32_of_lt (by omega)
    rw [hu, hcell]
  · have h1 : (sc.i + size - k) % size = sc.i - k := by
      rw [show sc.i + size - k = sc.i - k + size by omega, Nat.add_mod_right, Nat.mod_eq_of_lt (by omega)]
    rw [← hcell, h1]

/-- The header test of a round, and the byte it switches on. -/
theorem At.isHeader (hat : sc.At base size (x + 4)) (hle : sc.i ≤ size) (hz : size < 2147483648) (hs : 4 ≤ size) :
    sc.isHeader size = true ↔
      codeAt (unroll sc.h.video.buf size base) x (sc.behind size 1) := by
  unfold Scan.isHeader codeAt
  rw [hat.behind hle hz (by decide) (by decide) hs (show x + 4 = x + 4 from rfl),
    hat.behind hle hz (by decide) (by decide) hs (show x + 4 = x + 1 + 3 from rfl),
    hat.behind hle hz (by decide) (by decide) hs (show x + 4 = x + 2 + 2 from rfl),
    hat.behind hle hz (by decide) (by decide) hs (show x + 4 = x + 3 + 1 from rfl)]
  simp only [Bool.and_eq_true, beq_iff_eq, and_assoc, and_true]

end Scan
end Mvpmc.Demux
