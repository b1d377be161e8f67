import Mvpmc.Demux.Restart

/-! The scan of `parse_video_stream` ends, and the tail that it returns is in the part that has been scanned. -/
namespace Mvpmc.Demux
open Mvpmc.Lib Mvpmc.Lib.Circular

namespace Scan
section
variable (tail head size : Nat)

/-- The scan from one state ends in another, by the test of the loop or by a jump to `out`. -/
inductive Ends : Scan → Scan → Prop where
  | stop {sc : Scan} (hv : ringbufValid tail head size sc.i = false) : Ends sc sc
  | out {sc : Scan} (hv : ringbufValid tail head size sc.i = true) (hh : (sc.wrap size).isHeader size = true)
      (ho : ((sc.wrap size).code tail head size ((sc.wrap size).behind size 1).toNat).2 = true) :
      Ends sc ((sc.wrap size).code tail head size ((sc.wrap size).behind size 1).toNat).1
  | header {sc sc' : Scan} (hv : ringbufValid tail head size sc.i = true) (hh : (sc.wrap size).isHeader size = true)
      (ho : ((sc.wrap size).code tail head size ((sc.wrap size).behind size 1).toNat).2 = false)
      (hrest : Ends (((sc.wrap size).code tail head size ((sc.wrap size).behind size 1).toNat).1.next 4) sc') : Ends sc sc'
  | skip {sc sc' : Scan} (hv : ringbufValid tail head size sc.i = true) (hh : (sc.wrap size).isHeader size = false)
      (hrest : Ends ((sc.wrap size).next 1) sc') : Ends sc sc'

end

/-- What a seek has noted so far lies in front of position `x`. -/
structure Marked (base size x : Nat) (sc : Scan) : Prop where
  start : sc.seekingFoundStart ≠ 0 → ∃ a, a + 4 ≤ x ∧ Spot base size sc.seekingStart (a + 4)
  next : 1 < sc.seekingFoundStart → ∃ a, a + 4 ≤ x ∧ Spot base size sc.nextSeekingStart (a + 4)

namespace Marked
variable {base size x x' : Nat} {sc sc' : Scan}

theorem mono (hm : Marked base size x sc) (hle : x ≤ x') (hf : sc'.seekingFoundStart = sc.seekingFoundStart)
    (hs : sc'.seekingStart = sc.seekingStart) (hn : sc'.nextSeekingStart = sc.nextSeekingStart) : Marked base size x' sc' := by
  constructor
  · intro h
    rw [hf] at h
    obtain ⟨a, ha, hspot⟩ := hm.start h
    rw [hs]
    exact ⟨a, ha.trans hle, hspot⟩
  · intro h
    rw [hf] at h
    obtain ⟨a, ha, hspot⟩ := hm.next h
    rw [hn]
    exact ⟨a, ha.trans hle, hspot⟩

theorem seekStart (hm : Marked base size x sc) (hx : 4 ≤ x) (hat : sc.At base size x) (hle : sc.i ≤ size) :
    Marked base size x (sc.seekStart size) := by
  obtain ⟨y, rfl⟩ := Nat.exists_eq_add_of_le' hx
  have hspot : ∃ a, a + 4 ≤ y + 4 ∧ Spot base size sc.i (a + 4) := ⟨y, le_refl _, sc.i, rfl, hle, hat.cell⟩
  have hstart (hf : sc.seekingFoundStart ≠ 0) : ∃ a, a + 4 ≤ y + 4 ∧ Spot base size
      (if 1 < sc.seekingFoundStart then sc.nextSeekingStart else sc.seekingStart) (a + 4) := by
    split
    · next h => exact hm.next h
    · exact hm.start hf
  unfold Scan.seekStart
  split
  · dsimp only
    generalize (if 1 < sc.seekingFoundStart then sc.nextSeekingStart else sc.seekingStart) = start at hstart ⊢
    split
    · next hc => exact ⟨fun _ => hstart hc.1, fun _ => hspot⟩
    · exact ⟨fun _ => hspot, fun h => absurd h (Nat.lt_irrefl 1)⟩
  · exact hm

theorem code (hm : Marked base size x sc) (hx : 4 ≤ x) (hat : sc.At base size x) (hle : sc.i ≤ size)
    (tail head identifier : Nat) :
    Marked base size x (sc.code tail head size identifier).1 := by
  cases hid : isVideoStream identifier with
  | false =>
    obtain ⟨-, hf, hs, hn⟩ := (Scan.code_keeps sc tail head size identifier hid).1
    exact hm.mono (le_refl x) hf hs hn
  | true =>
    rcases sc.code_cases tail head size identifier with ⟨-, he⟩ | ⟨h0, -⟩ | ⟨h0, -⟩ | ⟨h0, -⟩ | ⟨h0, -⟩ | ⟨⟨hno, -⟩, -⟩
    · rw [he, videoCode_eq]
      split
      · exact hm.mono (le_refl x) rfl rfl rfl
      · exact seekStart (hm.mono (le_refl x) rfl rfl rfl) hx (hat.of_i rfl) hle
    all_goals first
      | exact absurd (h0 ▸ hid) (by decide)
      | exact absurd (hid.symm.trans hno) (by decide)

end Marked

section
variable {base size hi tail head x : Nat} {sc : Scan}

/-- With fuel for the cells up to the head the loop ends by itself, at most four cells behind the head, and with all that is
noted behind the tail. -/
theorem loop_ends (sp : Span base size 0 hi tail head) (hat : sc.At base size x) (hm : Marked base size x sc) (h4 : 4 ≤ x)
    (hx : x ≤ hi + 4) {fuel : Nat} (hf : hi ≤ x + fuel) :
    Ends tail head size sc (loop tail head size fuel sc) ∧
      ∃ x', 4 ≤ x' ∧ x' ≤ hi + 4 ∧ (loop tail head size fuel sc).At base size x' ∧
        Marked base size x' (loop tail head size fuel sc) := by
  have hroom := sp.room
  have hvalid (sc : Scan) {x : Nat} (hat : sc.At base size x) (hx : x ≤ hi + 4) :
      ringbufValid tail head size sc.i = decide (x < hi) := sp.valid hat.cell (by omega) (by omega)
  induction fuel generalizing sc x with
  | zero =>
    refine ⟨.stop ?_, x, h4, hx, hat, hm⟩
    rw [hvalid sc hat hx]
    exact decide_eq_false (by omega)
  | succ fuel ih =>
    have hv := hvalid sc hat hx
    by_cases hlt : x < hi
    · rw [decide_eq_true hlt] at hv
      obtain ⟨hat', hle⟩ := hat.wrap (by omega)
      have hm' : Marked base size x (sc.wrap size) := hm.mono (le_refl x) rfl rfl rfl
      have hi := code_i (sc.wrap size) tail head size ((sc.wrap size).behind size 1).toNat
      have hcode := hm'.code h4 hat' hle tail head ((sc.wrap size).behind size 1).toNat
      rw [loop, if_pos hv]
      dsimp only
      cases hh : (sc.wrap size).isHeader size with
      | true =>
        rw [if_pos rfl]
        cases ho : ((sc.wrap size).code tail head size ((sc.wrap size).behind size 1).toNat).2 with
        | true => exact ⟨.out hv hh ho, x, h4, hx, hat'.of_i hi, hcode⟩
        | false =>
          obtain ⟨hends, hrest⟩ := ih ((hat'.of_i hi).next (hi.trans_le hle) (le_refl 4))
            (hcode.mono (Nat.le_add_right x 4) rfl rfl rfl) (by omega) (by omega) (by omega)
          exact ⟨.header hv hh ho hends, hrest⟩
      | false =>
        obtain ⟨hends, hrest⟩ := ih (hat'.next hle (by decide)) (hm'.mono (Nat.le_add_right x 1) rfl rfl rfl) (by omega)
          (by omega) (by omega)
        exact ⟨.skip hv hh hends, hrest⟩
    · rw [decide_eq_false hlt] at hv
      rw [loop, if_neg (by rw [hv]; exact Bool.false_ne_true)]
      exact ⟨.stop hv, x, h4, hx, hat, hm⟩

end

/-- The tail that is returned from the state in which the scan has ended. -/
def newTail (size : Nat) (sc : Scan) : Nat :=
  u32 ((size : Int) + (if sc.h.seeking ∧ sc.seekingFoundStart ≠ 0 then sc.seekingStart else sc.i) - 5) % size

section
variable {base size tail x : Nat}

/-- An index for position `x` gives a tail `x - 4` cells behind the old one. -/
theorem distance_of_spot {s : Nat} (ht : tail < size) (h5 : 5 ≤ size) (hz : size < 2147483648)
    (hs : s ≤ size + 4) (hcell : s % size = (tail + 1 + x) % size) (h4 : 4 ≤ x) (hx : x < size + 4) :
    (u32 ((size : Int) + s - 5) % size + size - tail) % size = x - 4 := by
  have hu : u32 ((size : Int) + s - 5) = size + s - 5 := by
    rw [show (size : Int) + s - 5 = ((size + s - 5 : Nat) : Int) by omega]
    exact Stream.u32_of_lt (by omega)
  have hmod : size + s - 5 ≡ tail + (x - 4) [MOD size] := by
    refine Nat.ModEq.add_right_cancel' 5 ?_
    rw [show size + s - 5 + 5 = s + size by omega, show tail + (x - 4) + 5 = tail + 1 + x by omega]
    exact (Nat.add_mod_right _ _).trans hcell
  have htail : tail % size = (tail + 0) % size := rfl
  have hlt := Nat.mod_lt (size + s - 5) (show 0 < size by omega)
  rw [hu]
  exact (lap_distance htail ((Nat.mod_mod _ _).trans hmod) (by omega) (Nat.zero_le _) (by omega)).trans (Nat.sub_zero _)

end
end Scan

/-- Six free cells between head and tail, counted as positions behind the tail. -/
theorem span_of_free_cells {tail head size : Nat} (ht : tail < size) (hh : head < size)
    (hfree : 6 ≤ (tail + size - head) % size) : Span (tail + 1) size 0 ((head + size - 1 - tail) % size) tail head := by
  refine ⟨ht, rfl, ?_, Nat.zero_le _, ?_⟩
  · rw [Nat.add_mod_mod, show tail + 1 + (head + size - 1 - tail) = head + size by omega, Nat.add_mod_right,
      Nat.mod_eq_of_lt hh]
  · have h1 := mod_cases (tail + size - head) size (by omega)
    have h2 := mod_cases (head + size - 1 - tail) size (by omega)
    omega

/-- `parse_video_stream` ends, and moves the tail on by no more than there is in front of the head. -/
theorem parseVideoStream_moves (h : Handle) {tail head size : Nat} (h16 : 16 ≤ size) (hz : size < 2147483648) (ht : tail < size)
    (hh : head < size) (hfree : 6 ≤ (tail + size - head) % size) :
    (∃ sc, Scan.Ends tail head size { h := h, i := tail + 5 } sc ∧ (parseVideoStream h tail head size).2 = sc.newTail size) ∧
      (parseVideoStream h tail head size).2 < size ∧
      ((parseVideoStream h tail head size).2 + size - tail) % size ≤ (head + size - 1 - tail) % size := by
  have sp := span_of_free_cells ht hh hfree
  have hroom := sp.room
  have hat : Scan.At (tail + 1) size { h := h, i := tail + 5 } 4 := ⟨rfl, Nat.succ_pos _, by dsimp only; omega⟩
  have hm : Scan.Marked (tail + 1) size 4 { h := h, i := tail + 5 } :=
    ⟨fun hf => absurd rfl hf, fun hf => absurd hf (Nat.not_lt_zero 1)⟩
  obtain ⟨hends, x, h4, hx, hat', hm'⟩ := Scan.loop_ends sp hat hm (le_refl 4) (Nat.le_add_left 4 _)
    (show _ ≤ 4 + size by omega)
  have hresult : (parseVideoStream h tail head size).2 =
      (Scan.loop tail head size size { h := h, i := tail + 5 }).newTail size := rfl
  refine ⟨⟨_, hends, hresult⟩, hresult ▸ Nat.mod_lt _ (by omega), ?_⟩
  rw [hresult, Scan.newTail]
  generalize Scan.loop tail head size size { h := h, i := tail + 5 } = sc at hat' hm'
  split
  · next hc =>
    obtain ⟨a, ha, s, hs, hle, hcell⟩ := hm'.start hc.2
    rw [hs, Scan.distance_of_spot ht (by omega) hz (by omega) hcell (Nat.le_add_left 4 a) (by omega)]
    omega
  · rw [Scan.distance_of_spot ht (by omega) hz hat'.le hat'.cell h4 (by omega)]
    omega

theorem parseVideoStream_moves_sixteen :
    let r := parseVideoStream { demuxInit 100 (fun _ => 0) with seeking := true } 15 9 16
    (r.2 + 16 - 15) % 16 ≤ (9 + 16 - 1 - 15) % 16 :=
  (parseVideoStream_moves _ (by decide) (by decide) (by decide) (by decide) (by decide)).2.2

end Mvpmc.Demux
