import Mvpmc.Demux.RunLength

/-! The loops of `demux_spu_decompress` end, whatever the item says: the read position goes back once at most. -/
namespace Mvpmc.Demux
open Mvpmc.Lib

namespace Decoder
section
variable (data : Nat → UInt8) (w h : Nat)

/-- One round of `while (x < spu->w)`. -/
def fillPixel (c : UInt8) (d : Decoder) : Decoder := { d with img := Function.update d.img (d.y * w + d.x) c, x := d.x + 1 }

/-- One round of `while (j > 0)`. -/
def runPixel (c : UInt8) (r : Nat × Decoder) : Nat × Decoder := (r.1 - 1, run w c 1 r.2)

/-- The round sets the position to `line[1]`. -/
def GoesBack (d : Decoder) : Prop :=
  (d.readCode data).1 ≤ 3 ∧ h ≤ (d.readCode data).2.y + 2 ∧ ((d.readCode data).2.y + 2) % 2 = 0

/-- The read position, counted in nibbles. -/
def nibble (d : Decoder) : Nat := 2 * d.i + d.state.toNat

end

section
variable {data : Nat → UInt8} {w h size line2 : Nat}

theorem fill_ends (c : UInt8) (d : Decoder) : Loop.Ends (fun d => decide (d.x < w)) (fillPixel w c) d := by
  refine Loop.ends_of_measure (fun _ => True) (fun d => w - d.x) ?_ trivial
  intro d _ hx
  have hlt : d.x < w := of_decide_eq_true hx
  exact ⟨trivial, by simp only [fillPixel]; omega⟩

theorem fill_img (c : UInt8) (fuel : Nat) (d : Decoder) (hf : w - d.x ≤ fuel) :
    (Loop.run (fun d => decide (d.x < w)) (fillPixel w c) fuel d).img =
      fun k => if d.y * w + d.x ≤ k ∧ k < d.y * w + w then c else d.img k := by
  induction fuel generalizing d with
  | zero =>
    funext k
    rw [if_neg (by omega)]
    rfl
  | succ fuel ih =>
    unfold Loop.run
    by_cases hx : d.x < w
    · rw [if_pos (decide_eq_true hx), ih (d.fillPixel w c) (by simp only [fillPixel]; omega)]
      funext k
      simp only [fillPixel, Function.update_apply]
      by_cases hk : k = d.y * w + d.x
      · rw [if_pos hk, if_neg (by omega), if_pos (by omega)]
      · rw [if_neg hk]
        congr 1
        exact propext ⟨fun h => ⟨by omega, h.2⟩, fun h => ⟨by omega, h.2⟩⟩
    · rw [if_neg (by simpa using hx)]
      funext k
      rw [if_neg (by omega)]

/-- `fillLine` fills the line with that loop. -/
theorem fillLine_loop (c : UInt8) (d : Decoder) : (d.fillLine w h line2 c).img =
    (Loop.run (fun d => decide (d.x < w)) (fillPixel w c) (w - d.x) d.align).img := by
  rw [fill_img c (w - d.x) d.align (le_refl _)]
  unfold fillLine
  dsimp only
  split
  · rfl
  · rfl

theorem run_succ (c : UInt8) (j : Nat) (d : Decoder) : run w c (j + 1) d = run w c j (run w c 1 d) := rfl

theorem run_ends (c : UInt8) (r : Nat × Decoder) : Loop.Ends (fun r => decide (0 < r.1)) (runPixel w c) r := by
  refine Loop.ends_of_measure (fun _ => True) Prod.fst ?_ trivial
  intro r _ hj
  have hpos : 0 < r.1 := of_decide_eq_true hj
  exact ⟨trivial, Nat.sub_lt hpos Nat.one_pos⟩

/-- `run` is that loop. -/
theorem run_loop (c : UInt8) (j : Nat) (d : Decoder) :
    Loop.run (fun r => decide (0 < r.1)) (runPixel w c) j (j, d) = (0, run w c j d) := by
  induction j generalizing d with
  | zero => rfl
  | succ j ih =>
    rw [Loop.run, if_pos (decide_eq_true (Nat.succ_pos j)), runPixel, run_succ]
    exact ih (run w c 1 d)

variable (data w h line2) in
/-- A round stays in its field and reads on, or goes back to line 1. -/
theorem step_field (d : Decoder) :
    (GoesBack data h d ∧ d.y % 2 = 0 ∧ (d.step data w h line2).y = 1) ∨
      (¬ GoesBack data h d ∧ (d.step data w h line2).y % 2 = d.y % 2 ∧ d.nibble < (d.step data w h line2).nibble) := by
  obtain ⟨hf, hp⟩ := readCode_further data d
  have hfield := hf.field
  unfold step GoesBack
  dsimp only
  generalize d.readCode data = r at hf hp hfield ⊢
  by_cases hc : r.1 ≤ 3
  · have ha := (align_further r.2).pos
    rw [if_pos hc]
    by_cases hb : h ≤ r.2.align.y + 2 ∧ (r.2.align.y + 2) % 2 = 0
    · have heven : (r.2.y + 2) % 2 = 0 := hb.2
      refine .inl ⟨⟨hc, hb⟩, by omega, ?_⟩
      simp only [fillLine]
      rw [if_pos hb]
    · refine .inr ⟨fun h => hb h.2, ?_, ?_⟩
      · simp only [fillLine]
        rw [if_neg hb]
        exact (Nat.add_mod_right _ 2).trans hfield
      · simp only [fillLine]
        rw [if_neg hb]
        exact hp.trans_le ha
  · have hr := run_further (w := w) (UInt8.ofNat (r.1 &&& 3)) (r.1 >>> 2) r.2
    rw [if_neg hc]
    exact .inr ⟨fun h => hc h.1, hr.field.trans hfield, hp.trans_le hr.pos⟩

/-- On an odd line no round goes back any more. -/
theorem iterate_odd {d : Decoder} (hy : d.y % 2 = 1) (n : Nat) : (((·.step data w h line2))^[n] d).y % 2 = 1 := by
  induction n generalizing d with
  | zero => exact hy
  | succ n ih =>
    refine ih ?_
    rcases step_field data w h line2 d with ⟨-, heven, -⟩ | ⟨-, hkeep, -⟩
    · exact absurd (hy.symm.trans heven) (by decide)
    · exact hkeep.trans hy

end
end Decoder

/-- The place of an `int` when they are counted from the least one on. -/
def intPlace (x : Int) : Nat := (x + 2147483648).toNat

section
variable (mem : Int → UInt8) (size : Int) (line1 line2 : UInt32) (w h : Nat)

/-- One round of the loop of `demux_spu_decompress` over any memory. The offsets are converted to `int`. -/
def decompressStep (d : Decoder) : Decoder :=
  d.step (fun n => mem ((n : Int) - 2147483648)) w h (intPlace line2.toInt32.toInt)

/-- The decoder before round `n`. -/
def decompressRound (n : Nat) : Decoder :=
  (decompressStep mem line2 w h)^[n] { i := intPlace line1.toInt32.toInt, img := fun _ => 0 }

/-- Round `n` sets the position to `line[1]`. -/
def BackIn (n : Nat) : Prop :=
  (decompressRound mem line1 line2 w h n).GoesBack (fun n => mem ((n : Int) - 2147483648)) h

/-- The loops of `demux_spu_decompress` end, the two inner ones and the outer one: a round that does not go back reads on,
and behind one that does the line is odd and no round goes back. -/
theorem decompress_ends :
    Loop.Ends (Decoder.goesOn (intPlace size) h) (decompressStep mem line2 w h) (decompressRound mem line1 line2 w h 0) ∧
      (∀ c d, Loop.Ends (fun d => decide (d.x < w)) (Decoder.fillPixel w c) d ∧
        (d.fillLine w h (intPlace line2.toInt32.toInt) c).img =
          (Loop.run (fun d => decide (d.x < w)) (Decoder.fillPixel w c) (w - d.x) d.align).img) ∧
      (∀ c j d, Loop.Ends (fun r => decide (0 < r.1)) (Decoder.runPixel w c) (j, d) ∧
        Loop.run (fun r => decide (0 < r.1)) (Decoder.runPixel w c) j (j, d) = (0, Decoder.run w c j d)) ∧
      (∀ n, ¬ BackIn mem line1 line2 w h n →
        (decompressRound mem line1 line2 w h n).nibble < (decompressRound mem line1 line2 w h (n + 1)).nibble) ∧
      ∀ n, BackIn mem line1 line2 w h n → ∀ m, n < m →
        (decompressRound mem line1 line2 w h m).y % 2 = 1 ∧ ¬ BackIn mem line1 line2 w h m := by
  refine ⟨⟨_, Loop.run_stopped (fun _ hg => Decoder.left_step hg) (le_refl _)⟩,
    fun c d => ⟨Decoder.fill_ends c d, Decoder.fillLine_loop c d⟩,
    fun c j d => ⟨Decoder.run_ends c (j, d), Decoder.run_loop c j d⟩, ?_, ?_⟩
  · intro n hn
    have hsucc := Function.iterate_succ_apply' (decompressStep mem line2 w h) n
      { i := intPlace line1.toInt32.toInt, img := fun _ => 0 }
    rcases Decoder.step_field _ w h (intPlace line2.toInt32.toInt) (decompressRound mem line1 line2 w h n) with
      ⟨hback, -, -⟩ | ⟨-, -, hlt⟩
    · exact absurd hback hn
    · exact hlt.trans_eq (congrArg Decoder.nibble hsucc).symm
  · intro n hn m hm
    obtain ⟨k, rfl⟩ := Nat.exists_eq_add_of_lt hm
    have hsplit : decompressRound mem line1 line2 w h (n + k + 1) =
        (decompressStep mem line2 w h)^[k] (decompressStep mem line2 w h (decompressRound mem line1 line2 w h n)) := by
      rw [decompressRound, show n + k + 1 = k + 1 + n by omega, Function.iterate_add_apply]
      rfl
    have hodd : (decompressRound mem line1 line2 w h (n + k + 1)).y % 2 = 1 := by
      rw [hsplit]
      refine Decoder.iterate_odd ?_ k
      rcases Decoder.step_field _ w h (intPlace line2.toInt32.toInt) (decompressRound mem line1 line2 w h n) with
        ⟨-, -, hy⟩ | ⟨hback, -, -⟩
      · exact congrArg (· % 2) hy
      · exact absurd hn hback
    refine ⟨hodd, fun hback => ?_⟩
    rcases Decoder.step_field _ w h (intPlace line2.toInt32.toInt) (decompressRound mem line1 line2 w h (n + k + 1)) with
      ⟨-, heven, -⟩ | ⟨hno, -, -⟩
    · exact absurd (hodd.symm.trans heven) (by decide)
    · exact hno hback

end
end Mvpmc.Demux
