import Mvpmc.Demux.FillLevel

/-! For which lengths the test of `stream_add` tells whether a block fits. -/
namespace Mvpmc.Demux
open Mvpmc.Lib.Circular

namespace Stream

/-- The cells from the head to the tail. -/
def freeCells (s : Stream) : Nat := (s.tail + s.size - s.head) % s.size

end Stream

/-- `data` is in the ring, and not yet parsed. -/
def Handle.stored (h : Handle) (sid : StreamId) (data : List UInt8) : Handle :=
  h.setStream sid ((h.stream sid).advance false (h.stream sid).head data)

/-- What the parser, if there is any, makes of it. -/
def Handle.storedParsed (h : Handle) (sid : StreamId) (data : List UInt8) : Handle :=
  if (h.stream sid).parserCallback then
    runParser (h.stored sid data) false (((h.stream sid).head + data.length) % (h.stream sid).size)
  else h.stored sid data

section
variable (h : Handle) (sid : StreamId) (data : List UInt8) (force : Bool)

/-- All of `data` is taken: it stands in the ring from the head on, and the head behind it. -/
structure Stores : Prop where
  consumed : (streamAdd h sid data force).2 = data.length
  written : window ((h.stored sid data).stream sid).buf (h.stream sid).size (h.stream sid).head data.length = data
  parsed : ((streamAdd h sid data force).1.stream sid).buf = ((h.storedParsed sid data).stream sid).buf
  head : ((streamAdd h sid data force).1.stream sid).head = ((h.stream sid).head + data.length) % (h.stream sid).size

/-- Nothing is taken, and only the count of the refused blocks changes. -/
structure Refuses : Prop where
  consumed : (streamAdd h sid data force).2 = 0
  unchanged : (streamAdd h sid data force).1 = h.setStream sid (h.stream sid).countFull

/-- A block is taken if it fits with six bytes to spare, and only then. -/
structure Exact : Prop where
  stores : data.length + 6 ≤ (h.stream sid).freeCells → Stores h sid data force
  refuses : ¬ data.length + 6 ≤ (h.stream sid).freeCells → Refuses h sid data force

end

/-- Seen from the head, the test compares the wrapped end with the tail. -/
theorem Stream.isFull_iff_wrapped {s : Stream} (hs : 8 ≤ s.size) (hh : s.head < s.size) (ht : s.tail < s.size)
    (hne : s.head ≠ s.tail) {len : Nat} (hl : len ≤ s.size) :
    isFull s.size s.head s.tail len = true ↔ s.freeCells < (len + 6) % s.size := by
  have hstop : (s.head + len + 6) % s.size = (s.head + (len + 6) % s.size) % s.size := by
    rw [Nat.add_mod_mod, Nat.add_assoc]
  have hlt := Nat.mod_lt (len + 6) (show 0 < s.size by omega)
  have hwrap := mod_cases (s.head + (len + 6) % s.size) s.size (by omega)
  have hfree := mod_cases (s.tail + s.size - s.head) s.size (by omega)
  unfold isFull freeCells
  dsimp only
  rw [hstop]
  generalize (len + 6) % s.size = r at hlt hwrap ⊢
  by_cases hlap : s.tail < s.head
  · rw [if_pos hlap]
    simp only [Bool.or_eq_true, Bool.and_eq_true, decide_eq_true_eq]
    omega
  · rw [if_neg hlap]
    simp only [Bool.or_eq_true, decide_eq_true_eq]
    omega

section
variable {h : Handle} {sid : StreamId} {data : List UInt8} {force : Bool}

theorem stream_setStream (s : Stream) : (h.setStream sid s).stream sid = s := by cases sid <;> rfl

/-- Without a seek the call refuses the block or stores and parses it. -/
theorem streamAdd_of_not_seeking (hseek : (h.seeking && !force) = false) (hd : data ≠ [])
    (hlimit : (h.stream sid).limit false = (h.stream sid).tail) :
    streamAdd h sid data force =
      if Stream.isFull (h.stream sid).size (h.stream sid).head (h.stream sid).tail data.length then
        (h.setStream sid (h.stream sid).countFull, 0)
      else
        ((h.storedParsed sid data).setStream sid
          (((h.storedParsed sid data).stream sid).filled (h.storedParsed sid data).seeking data.length), data.length) := by
  have hpos : data.length ≠ 0 := fun h0 => hd (List.length_eq_zero_iff.mp h0)
  have hhide : (h.stream sid).hide false = h.stream sid := if_neg fun hc => Bool.false_ne_true hc.1
  have hhead : (h.stream sid).writeHead false = (h.stream sid).head := if_neg fun hc => Bool.false_ne_true hc.1
  unfold streamAdd
  dsimp only
  rw [hseek, if_neg hpos, if_neg fun hc => Bool.false_ne_true hc.2, hhide, hhead, hlimit]
  rfl

/-- A block of no more than the ring is in it once it is stored. -/
theorem stored_written (hh : (h.stream sid).head < (h.stream sid).size) (hl : data.length ≤ (h.stream sid).size)
    (hd : data ≠ []) :
    window ((h.stored sid data).stream sid).buf (h.stream sid).size (h.stream sid).head data.length = data := by
  have hbuf : ((h.stored sid data).stream sid).buf = (h.stream sid).copyIn (h.stream sid).head data := by
    rw [Handle.stored, stream_setStream]
    rfl
  have hwrap := window_store (h.stream sid).buf (h.stream sid).size (h.stream sid).head 0 data (by omega) (by omega)
  rw [hbuf, Stream.copyIn_eq _ hh hl hd]
  rw [Nat.add_zero, Nat.zero_add, Nat.mod_eq_of_lt hh, window_zero, List.nil_append] at hwrap
  exact hwrap

theorem filled_buf_head (s : Stream) (seeking : Bool) (n : Nat) : (s.filled seeking n).buf = s.buf ∧ (s.filled seeking n).head = s.head := by
  cases seeking <;> exact ⟨rfl, rfl⟩

/-- Without a seek the parser leaves the head. -/
theorem storedParsed_head :
    ((h.storedParsed sid data).stream sid).head = ((h.stream sid).head + data.length) % (h.stream sid).size := by
  have hstored : ((h.stored sid data).stream sid).head = ((h.stream sid).head + data.length) % (h.stream sid).size := by
    rw [Handle.stored, stream_setStream]
    rfl
  unfold Handle.storedParsed
  split
  · generalize ((h.stream sid).head + data.length) % (h.stream sid).size = stop at hstored ⊢
    cases sid with
    | audio => exact (congrArg Stream.head (runParser_only ..).1.audio).trans hstored
    | video => exact (runParser_indices ..).2.2.2.2.1.trans hstored
  · exact hstored

/-- The test is exact unless the six spare bytes take the end once around and it comes out in the free cells. -/
theorem streamAdd_exact_iff (hseek : (h.seeking && !force) = false) (hs : 8 ≤ (h.stream sid).size)
    (hh : (h.stream sid).head < (h.stream sid).size) (ht : (h.stream sid).tail < (h.stream sid).size)
    (hne : (h.stream sid).head ≠ (h.stream sid).tail) (hlimit : (h.stream sid).limit false = (h.stream sid).tail)
    (hpos : 1 ≤ data.length) (hl : data.length ≤ (h.stream sid).size) :
    Exact h sid data force ↔
      data.length + 6 < (h.stream sid).size ∨ (h.stream sid).freeCells < data.length + 6 - (h.stream sid).size := by
  have hd : data ≠ [] := List.length_pos_iff.mp hpos
  have hadd := streamAdd_of_not_seeking hseek hd hlimit
  have hfull := Stream.isFull_iff_wrapped hs hh ht hne hl
  have hfree : (h.stream sid).freeCells < (h.stream sid).size := Nat.mod_lt _ (by omega)
  have hstores (hno : ¬ Stream.isFull (h.stream sid).size (h.stream sid).head (h.stream sid).tail data.length = true) :
      Stores h sid data force := by
    rw [if_neg hno] at hadd
    refine ⟨congrArg Prod.snd hadd, stored_written hh hl hd, ?_, ?_⟩
    · rw [hadd, stream_setStream]
      exact (filled_buf_head ..).1
    · rw [hadd, stream_setStream]
      exact (filled_buf_head ..).2.trans storedParsed_head
  have hrefuses (hyes : Stream.isFull (h.stream sid).size (h.stream sid).head (h.stream sid).tail data.length = true) :
      Refuses h sid data force := by
    rw [if_pos hyes] at hadd
    exact ⟨congrArg Prod.snd hadd, congrArg Prod.fst hadd⟩
  rcases mod_cases (data.length + 6) (h.stream sid).size (by omega) with ⟨hlt, hmod⟩ | ⟨hge, hmod⟩
  · rw [hmod] at hfull
    exact iff_of_true ⟨fun hfits => hstores fun hyes => absurd (hfull.mp hyes) (by omega),
      fun hno => hrefuses (hfull.mpr (by omega))⟩ (.inl hlt)
  · rw [hmod] at hfull
    constructor
    · intro hexact
      refine .inr (hfull.mp ?_)
      by_contra hno
      have hzero := (hexact.refuses (by omega)).consumed
      exact absurd ((hstores hno).consumed.symm.trans hzero) (by omega)
    · intro hc
      exact ⟨fun hfits => absurd hfits (by omega), fun _ => hrefuses (hfull.mpr (by omega))⟩

end

/-- An audio ring of `size` cells, not seeking. -/
def audioRing (size head tail : Nat) : Handle :=
  { demuxInit 100 (fun _ => 0) with
    seeking := false
    audio := { (demuxInit 100 fun _ => 0).audio with size := size, head := head, tail := tail } }

theorem streamAdd_exact_half_full : Exact (audioRing 32 5 21) .audio [1, 2, 3] false ↔ 9 < 32 ∨ 16 < 9 - 32 :=
  streamAdd_exact_iff rfl (by decide) (by decide) (by decide) (by decide) rfl (by decide) (by decide)

/-- Two bytes go into one free cell. -/
theorem full_ring_overwritten : ¬ ∀ (h : Handle) (sid : StreamId) (data : List UInt8) (force : Bool),
    (h.seeking && !force) = false → 8 ≤ (h.stream sid).size → (h.stream sid).head < (h.stream sid).size →
    (h.stream sid).tail < (h.stream sid).size → (h.stream sid).head ≠ (h.stream sid).tail →
    (h.stream sid).limit false = (h.stream sid).tail → 1 ≤ data.length → data.length ≤ (h.stream sid).size →
    Exact h sid data force := by
  intro hall
  have hexact := hall (audioRing 8 0 1) .audio [1, 2] false rfl (by decide) (by decide) (by decide) (by decide) rfl
    (by decide) (by decide)
  have hzero := (hexact.refuses (by decide)).consumed
  have htwo : (streamAdd (audioRing 8 0 1) .audio [1, 2] false).2 = 2 := by decide
  omega

end Mvpmc.Demux
