import Mvpmc.Demux.StartCodes
import Mvpmc.Lib.Emitter

/-! The header scan of a straight byte string, and the scan of the ring as the same machine:
one call of the parser reads on in the string until bytes are missing. -/
namespace Mvpmc.Demux
open Mvpmc.Lib Mvpmc.Lib.Circular

/-- A start code handled to completion. `position` counts the bytes of the stream up to
and with its identifier. -/
structure Handled where
  position : Nat
  identifier : Nat
  fields : Decoded
  deriving DecidableEq, Repr

instance (tape : Nat → UInt8) (y : Nat) (identifier : UInt8) : Decidable (codeAt tape y identifier) :=
  inferInstanceAs (Decidable (_ ∧ _))

namespace Scan

/-- The stream position of the index, when `total` bytes have been added. -/
def position (sc : Scan) (total head size : Nat) : Nat := total - (head + size - sc.i % size) % size

/-- The start codes that `loop` handles to completion. -/
def handled (total tail head size : Nat) : Nat → Scan → List Handled
  | 0, _ => []
  | fuel + 1, sc =>
    if ringbufValid tail head size sc.i then
      let sc := sc.wrap size
      if sc.isHeader size then
        let identifier := (sc.behind size 1).toNat
        let r := sc.code tail head size identifier
        if r.2 then []
        else ⟨sc.position total head size, identifier, decode (sc.ahead size) identifier⟩ ::
          handled total tail head size fuel (r.1.next 4)
      else handled total tail head size fuel (sc.next 1)
    else []

end Scan

/-- A reader of a byte string that looks for a start code at `y`. -/
structure Reader where
  tape : Nat → UInt8
  y : Nat

namespace Reader
variable (r : Reader)

def identifier : Nat := (r.tape (r.y + 3)).toNat

def ahead : Nat → UInt8 := fun k => r.tape (r.y + 4 + k)

def isHeader : Bool := decide (codeAt r.tape r.y (r.tape (r.y + 3)))

/-- A sequence header of 576 lines, to be shown on a display of 480. -/
def isPal (displayHeight : Nat) : Bool :=
  decide (r.identifier = 0xb3) && decide (displayHeight = 480) && decide (sequenceHeight r.ahead = 576)

/-- Read a start code, or pass over one byte. -/
def read (displayHeight : Nat) : Reader × List Handled :=
  if r.isHeader then
    ({ tape := if r.isPal displayHeight then ntscHeight r.tape (r.y + 4) else r.tape, y := r.y + 4 },
      [⟨r.y + 4, r.identifier, decode r.ahead r.identifier⟩])
  else ({ r with y := r.y + 1 }, [])

/-- With `n` bytes there the reader is at the end, or at a start code that is not complete. -/
def waits (n : Nat) : Bool :=
  decide (n ≤ r.y + 4) || (r.isHeader && decide (n ≤ r.y + 4 + lookAhead r.ahead r.identifier))

variable {r}

theorem waits_of_le {n : Nat} (h : n ≤ r.y + 4) : r.waits n = true := by
  unfold Reader.waits
  rw [decide_eq_true h, Bool.true_or]

theorem read_header {displayHeight : Nat} (hh : r.isHeader = true) : r.read displayHeight =
    ({ tape := if r.isPal displayHeight then ntscHeight r.tape (r.y + 4) else r.tape, y := r.y + 4 },
      [⟨r.y + 4, r.identifier, decode r.ahead r.identifier⟩]) := if_pos hh

theorem read_other {displayHeight : Nat} (hh : r.isHeader = false) :
    r.read displayHeight = ({ r with y := r.y + 1 }, []) := if_neg (Bool.eq_false_iff.mp hh)

end Reader

/-- A reader at the beginning of a string. -/
def reader (bytes : List UInt8) : Reader := { tape := fun q => bytes.getD q 0, y := 0 }

/-- The start codes of a string, up to the first that lacks look-ahead. -/
def headers (displayHeight : Nat) (bytes : List UInt8) : List Handled :=
  Emitter.beforeStop (Reader.read · displayHeight) (Reader.waits · bytes.length) bytes.length (reader bytes)

/-- `headers` reads until it has to wait. -/
theorem headers_eq_emitted (displayHeight : Nat) (bytes : List UInt8) :
    ∃ k, headers displayHeight bytes = Emitter.emitted (Reader.read · displayHeight) k (reader bytes) ∧
      (Emitter.after (Reader.read · displayHeight) k (reader bytes)).waits bytes.length = true := by
  apply Emitter.beforeStop_eq_emitted _ fun r : Reader => bytes.length - (r.y + 4)
  · intro r hr
    exact Reader.waits_of_le (by omega)
  · intro r hr
    have hlt : r.y + 4 < bytes.length := by
      by_contra hge
      exact absurd (hr.symm.trans (Reader.waits_of_le (by omega))) Bool.false_ne_true
    have hy : r.y < (r.read displayHeight).1.y := by
      unfold Reader.read
      split
      · exact Nat.lt_add_of_pos_right (by decide)
      · exact Nat.lt_succ_self _
    omega
  · exact Nat.sub_le _ _

/-- The scanner stands where the reader does, and the bytes ahead are the same. -/
structure Follows (base size hi : Nat) (sc : Scan) (r : Reader) : Prop where
  pos : sc.At base size (r.y + 4)
  tape : ∀ z, r.y ≤ z → z < hi → unroll sc.h.video.buf size base z = r.tape z

namespace Follows
variable {base size lo hi tail head displayHeight : Nat} {sc : Scan} {r : Reader}

/-- The index counted back from the head is the position in the stream. -/
theorem position (hf : Follows base size hi sc r) (sp : Span base size lo hi tail head) (hlo : lo ≤ r.y)
    (hlt : r.y + 4 < hi) : sc.position hi head size = r.y + 4 := by
  have hroom := sp.room
  have hi' : sc.i % size < size := Nat.mod_lt _ (by omega)
  have hdist : (head + size - sc.i % size) % size = hi - (r.y + 4) := by
    have hcell : sc.i % size % size = (base + (r.y + 4)) % size := (Nat.mod_mod _ _).trans hf.pos.cell
    refine lap_distance hcell ?_ (by omega) (by omega) (by omega)
    rw [sp.head, Nat.mod_mod]
  unfold Scan.position
  rw [hdist]
  omega

/-- Ring and string agree on whether a start code ends here, and on its identifier. -/
theorem isHeader (hf : Follows base size hi sc r) (hle : sc.i ≤ size) (hz : size < 2147483648) (hs : 4 ≤ size)
    (hlt : r.y + 4 < hi) : sc.isHeader size = r.isHeader ∧ (sc.behind size 1).toNat = r.identifier := by
  have ht (k : Nat) (hk : k < 4) : unroll sc.h.video.buf size base (r.y + k) = r.tape (r.y + k) :=
    hf.tape _ (by omega) (by omega)
  have hid : sc.behind size 1 = r.tape (r.y + 3) := by
    rw [← ht 3 (by decide)]
    exact hf.pos.behind hle hz (by decide) (by decide) hs rfl
  have h0 := ht 0 (by decide)
  rw [Nat.add_zero] at h0
  refine ⟨?_, congrArg UInt8.toNat hid⟩
  rw [Bool.eq_iff_iff, hf.pos.isHeader hle hz hs, Reader.isHeader, decide_eq_true_eq]
  unfold codeAt
  rw [hid, h0, ht 1 (by decide), ht 2 (by decide), ht 3 (by decide)]

theorem ahead (hf : Follows base size hi sc r) {k : Nat} (hk : r.y + 4 + k < hi) :
    sc.ahead size k = r.ahead k := (hf.pos.ahead k).trans (hf.tape _ (by omega) hk)

/-- A start code that the scanner handles is handled by the reader. -/
theorem code_done (hf : Follows base size hi sc r) (sp : Span base size lo hi tail head) (hlo : lo ≤ r.y)
    (hlt : r.y + 4 < hi) (hle : sc.i ≤ size) (hheight : sc.h.height = displayHeight) (hh : r.isHeader = true)
    (hout : (sc.code tail head size r.identifier).2 = false) :
    decode (sc.ahead size) r.identifier = decode r.ahead r.identifier ∧
      Follows base size hi ((sc.code tail head size r.identifier).1.next 4) (r.read displayHeight).1 ∧
      ∀ z, hi ≤ z → (r.read displayHeight).1.tape z = r.tape z := by
  have hroom := sp.room
  have hneed := (hf.pos.code_out sp (by omega) hlt r.identifier).1 hout
  have hi' := sc.code_i tail head size r.identifier
  have hpos : ((sc.code tail head size r.identifier).1.next 4).At base size (r.y + 4 + 4) :=
    (hf.pos.of_i hi').next (hi'.trans_le hle) (by decide)
  rw [Reader.read_header hh]
  refine ⟨decode_congr fun k hk => hf.ahead (by omega), ⟨hpos, ?_⟩, ?_⟩ <;> dsimp only
  · intro z hz hzhi
    have hlap : r.y + 4 + 2 < z + size ∧ z < r.y + 4 + size := by omega
    change unroll (sc.code tail head size r.identifier).1.h.video.buf size base z = _
    rw [Scan.code_buf]
    by_cases hb3 : r.identifier = 0xb3
    · have h3 : r.y + 4 + 3 < hi := by
        rw [hb3] at hneed
        exact hneed
      have hv : ringbufValid tail head size (sc.i + 3) = true := by
        rw [sp.valid (hf.pos.cell_add 3) (by omega) (by omega), decide_eq_true_eq]
        exact h3
      have hsame : sequenceHeight (sc.ahead size) = sequenceHeight r.ahead := by
        unfold sequenceHeight
        rw [hf.ahead (by omega), hf.ahead (by omega)]
      by_cases hpal : displayHeight = 480 ∧ sequenceHeight r.ahead = 576
      · have hp : r.isPal displayHeight = true := by
          unfold Reader.isPal
          rw [decide_eq_true hb3, decide_eq_true hpal.1, decide_eq_true hpal.2]
          rfl
        rw [if_pos ⟨hb3, hv, hheight.trans hpal.1, hsame.trans hpal.2⟩, if_pos hp, hf.pos.ntscRing hlap.1 hlap.2]
        unfold ntscHeight
        rw [hf.tape (r.y + 4 + 1) (by omega) (by omega)]
        simp only [Function.update_apply]
        rw [hf.tape z (by omega) hzhi]
      · have hp : ¬ r.isPal displayHeight = true := by
          unfold Reader.isPal
          simp only [Bool.and_eq_true, decide_eq_true_eq]
          exact fun hc => hpal ⟨hc.1.2, hc.2⟩
        rw [if_neg fun hc => hpal ⟨hheight ▸ hc.2.2.1, hsame ▸ hc.2.2.2⟩, if_neg hp]
        exact hf.tape z (by omega) hzhi
    · have hp : ¬ r.isPal displayHeight = true := by
        unfold Reader.isPal
        simp only [Bool.and_eq_true, decide_eq_true_eq]
        exact fun hc => hb3 hc.1.1
      rw [if_neg fun hc => hb3 hc.1, if_neg hp]
      exact hf.tape z (by omega) hzhi
  · intro z hz
    split
    · rename_i hp
      unfold Reader.isPal at hp
      simp only [Bool.and_eq_true, decide_eq_true_eq] at hp
      rw [hp.1.1] at hneed
      have h3 : r.y + 4 + 3 < hi := hneed
      exact ntscHeight_of_gt (by omega)
    · rfl

/-- Where the scanner gives up the reader waits. -/
theorem code_waits (hf : Follows base size hi sc r) (sp : Span base size lo hi tail head) (hlo : lo ≤ r.y)
    (hlt : r.y + 4 < hi) (hh : r.isHeader = true) (hout : (sc.code tail head size r.identifier).2 = true) :
    r.waits hi = true := by
  unfold Reader.waits
  rw [hh, Bool.true_and, Bool.or_eq_true, decide_eq_true_eq, decide_eq_true_eq]
  right
  by_contra hno
  have hcongr : lookAhead (sc.ahead size) r.identifier = lookAhead r.ahead r.identifier := by
    apply lookAhead_congr
    intro hv
    have := @three_le_lookAhead r.ahead r.identifier hv
    exact hf.ahead (by omega)
  have hdone := (hf.pos.code_out sp (by omega) hlt r.identifier).2 (by omega)
  exact absurd (hdone.symm.trans hout) Bool.false_ne_true

/-- One run of the scanner is a run of the reader that ends where the reader waits. -/
theorem loop (hf : Follows base size hi sc r) (sp : Span base size lo hi tail head) (hlo : lo ≤ r.y)
    (hhi : r.y ≤ hi) (hz : size < 2147483648) (hheight : sc.h.height = displayHeight) {fuel : Nat}
    (hfuel : hi ≤ r.y + 4 + fuel) :
    ∃ k, Scan.handled hi tail head size fuel sc = Emitter.emitted (Reader.read · displayHeight) k r ∧
      Follows base size hi (Scan.loop tail head size fuel sc) (Emitter.after (Reader.read · displayHeight) k r) ∧
      (Emitter.after (Reader.read · displayHeight) k r).waits hi = true ∧
      r.y ≤ (Emitter.after (Reader.read · displayHeight) k r).y ∧
      (Emitter.after (Reader.read · displayHeight) k r).y ≤ hi ∧
      ∀ z, hi ≤ z → (Emitter.after (Reader.read · displayHeight) k r).tape z = r.tape z := by
  have hroom := sp.room
  induction fuel generalizing sc r with
  | zero => exact ⟨0, rfl, hf, Reader.waits_of_le (show hi ≤ r.y + 4 by omega), le_refl _, hhi, fun _ _ => rfl⟩
  | succ fuel ih =>
    unfold Scan.loop Scan.handled
    rw [sp.valid hf.pos.cell (by omega) (by omega)]
    by_cases hlt : r.y + 4 < hi
    · rw [if_pos (decide_eq_true hlt), if_pos (decide_eq_true hlt)]
      obtain ⟨hpos, hle⟩ := hf.pos.wrap (by omega)
      have hf' : Follows base size hi (sc.wrap size) r := ⟨hpos, hf.tape⟩
      obtain ⟨hh, hid⟩ := hf'.isHeader hle hz (by omega) hlt
      dsimp only
      rw [hh, hid]
      cases hcode : r.isHeader with
      | true =>
        rw [if_pos rfl, if_pos rfl]
        cases hout : ((sc.wrap size).code tail head size r.identifier).2 with
        | true =>
          refine ⟨0, rfl, ⟨hpos.of_i (Scan.code_i ..), ?_⟩, hf'.code_waits sp hlo hlt hcode hout, le_refl _, hhi,
            fun _ _ => rfl⟩
          rw [if_pos rfl, Scan.code_buf_of_out _ _ _ _ _ hout]
          exact hf.tape
        | false =>
          obtain ⟨hdecode, hnext, htape⟩ := hf'.code_done sp hlo hlt hle hheight hcode hout
          have hheight' : ((sc.wrap size).code tail head size r.identifier).1.h.height = displayHeight :=
            (congrArg Handle.height (Scan.code_only ..)).trans hheight
          have hy : (r.read displayHeight).1.y = r.y + 4 := by rw [Reader.read_header hcode]
          have hemit : (r.read displayHeight).2 = [⟨r.y + 4, r.identifier, decode r.ahead r.identifier⟩] := by
            rw [Reader.read_header hcode]
          obtain ⟨k, hemitted, hfollows, hwaits, hge, hend, htape'⟩ := ih hnext (by omega) (by omega) hheight' (by omega)
          rw [if_neg Bool.false_ne_true, if_neg Bool.false_ne_true]
          refine ⟨k + 1, ?_, hfollows, hwaits, Nat.le_trans (by omega) hge, hend,
            fun z hz => (htape' z hz).trans (htape z hz)⟩
          rw [hemitted, hf'.position sp hlo hlt, hdecode, Emitter.emitted, hemit]
          rfl
      | false =>
        have hread : r.read displayHeight = ({ r with y := r.y + 1 }, []) := Reader.read_other hcode
        have hnext : Follows base size hi ((sc.wrap size).next 1) (r.read displayHeight).1 := by
          rw [hread]
          exact ⟨hpos.next hle (by decide), fun z hz => hf.tape z (by dsimp only at hz; omega)⟩
        have hy : (r.read displayHeight).1.y = r.y + 1 := by rw [hread]
        have hemit : (r.read displayHeight).2 = [] := by rw [hread]
        have htape : (r.read displayHeight).1.tape = r.tape := by rw [hread]
        obtain ⟨k, hemitted, hfollows, hwaits, hge, hend, htape'⟩ := ih hnext (by omega) (by omega) hheight (by omega)
        rw [if_neg Bool.false_ne_true, if_neg Bool.false_ne_true]
        refine ⟨k + 1, ?_, hfollows, hwaits, Nat.le_trans (by omega) hge, hend, fun z hz => ?_⟩
        · rw [hemitted, Emitter.emitted, hemit]
          rfl
        · exact (htape' z hz).trans (congrFun htape z)
    · rw [if_neg (by simpa using hlt), if_neg (by simpa using hlt)]
      exact ⟨0, rfl, hf, Reader.waits_of_le (show hi ≤ r.y + 4 by omega), le_refl _, hhi, fun _ _ => rfl⟩

end Follows
end Mvpmc.Demux
