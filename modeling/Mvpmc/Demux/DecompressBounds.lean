import Mvpmc.Demux.RunLength
import Mvpmc.Lib.Reach

/-! Which bytes and pixels `demux_spu_decompress` touches. -/
namespace Mvpmc.Demux
open Mvpmc.Lib

namespace Decoder
variable (data : Nat → UInt8) (size w h line2 : Nat)

/-- The bytes that are read for a code. -/
def codeReads (d : Decoder) : List Nat :=
  let r := d.getNibble data
  d.i :: if r.1 < 0x4 then
    let r' := more data r
    r.2.i :: if r'.1 < 0x10 then
      let r'' := more data r'
      r'.2.i :: if r''.1 < 0x40 then [r''.2.i] else []
    else []
  else []

/-- The pixels that a run writes from pixel `x` of line `y` on. -/
def runWrites : Nat → Nat → Nat → List Nat
  | 0, _, _ => []
  | j + 1, x, y => (y * w + x) :: if w ≤ x + 1 then runWrites j 0 (y + 2) else runWrites j (x + 1) y

/-- The pixels written in one round of the loop. -/
def writes (d : Decoder) : List Nat :=
  let r := d.readCode data
  if r.1 ≤ 3 then List.range' (r.2.y * w + r.2.x) (w - r.2.x) else runWrites w (r.1 >>> 2) r.2.x r.2.y

/-- The test of the loop. `i` is an `int`, so a line offset from `2 ^ 31` on is a negative one. -/
def begins (d : Decoder) : Bool := (decide (d.i < size) || decide (2 ^ 31 ≤ d.i)) && decide (d.y < h)

/-- The states after any number of rounds. -/
def Reached (line1 : Nat) : Decoder → Prop :=
  Reach (fun d => d = { i := line1, img := fun _ => 0 })
    fun d (_ : Unit) d' => d.begins size h = true ∧ d' = d.step data w h line2

/-- The states in which a round begins. -/
def Begun (line1 : Nat) (d : Decoder) : Prop := d.Reached data size w h line2 line1 ∧ d.begins size h = true

/-- Every byte read in the round is one of the item and every pixel written one of the picture. -/
def Inside (d : Decoder) : Prop := (∀ k ∈ d.codeReads data, k < size) ∧ ∀ k ∈ d.writes data w, k < w * h

/-- The pixels left in the field from pixel `x` of line `y` on. -/
def room (d : Decoder) : Nat := (w - d.x) + w * ((h - 1 - d.y) / 2)

/-- The code that the round reads ends inside the item, and its run is no longer than what is left of the
field. -/
def Fits (d : Decoder) : Prop :=
  ∀ width v, CodeOk width v → CodeAt data (2 * d.i + d.state.toNat) width v →
    2 * d.i + d.state.toNat + width ≤ 2 * size ∧ v / 4 ≤ d.room w h

variable {data size w h line2}

theorem eq_reading (d : Decoder) : d = reading (2 * d.i + d.state.toNat) d.x d.y d.img := by
  obtain ⟨i, state, x, y, img⟩ := d
  cases state with
  | false => simp [reading]
  | true =>
    have hi : (2 * i + 1) / 2 = i := by omega
    simp [reading, hi]

/-- Some code starts at every nibble. -/
theorem exists_codeAt (data : Nat → UInt8) (n : Nat) : ∃ width v, CodeOk width v ∧ CodeAt data n width v := by
  have h0 := nibbleAt_lt data n
  have h1 := nibbleAt_lt data (n + 1)
  have h2 := nibbleAt_lt data (n + 2)
  have h3 := nibbleAt_lt data (n + 3)
  by_cases hw1 : 0x4 ≤ nibbleAt data n
  · refine ⟨1, nibbleAt data n, ⟨hw1, h0⟩, ?_⟩
    intro k hk
    interval_cases k
    simp only [Nat.add_zero]
    omega
  by_cases hw2 : 0x10 ≤ nibbleAt data n * 16 + nibbleAt data (n + 1)
  · refine ⟨2, nibbleAt data n * 16 + nibbleAt data (n + 1), ⟨hw2, by omega⟩, ?_⟩
    intro k hk
    interval_cases k
    · norm_num
      omega
    · norm_num
      omega
  by_cases hw3 : 0x40 ≤ (nibbleAt data n * 16 + nibbleAt data (n + 1)) * 16 + nibbleAt data (n + 2)
  · refine ⟨3, (nibbleAt data n * 16 + nibbleAt data (n + 1)) * 16 + nibbleAt data (n + 2), ⟨hw3, by omega⟩, ?_⟩
    intro k hk
    interval_cases k
    · norm_num
      omega
    · norm_num
      omega
    · norm_num
      omega
  · refine ⟨4, ((nibbleAt data n * 16 + nibbleAt data (n + 1)) * 16 + nibbleAt data (n + 2)) * 16 + nibbleAt data (n + 3),
      show _ < _ by omega, ?_⟩
    intro k hk
    interval_cases k
    · norm_num
      omega
    · norm_num
      omega
    · norm_num
      omega
    · norm_num
      omega

/-- The bytes of a code are those that its nibbles stand in. -/
theorem codeReads_reading {n width v : Nat} (hok : CodeOk width v) (hat : CodeAt data n width v) (x y : Nat)
    (img : Nat → UInt8) : (reading n x y img).codeReads data = (List.range width).map fun k => (n + k) / 2 := by
  have hd (k : Nat) (hk : k < width) := hat k hk
  simp only [codeReads, getNibble_reading, more_reading, Nat.add_assoc, Nat.reduceAdd]
  match width, hok with
  | 1, hv =>
    have h0 := hd 0 (by omega)
    simp only [CodeOk, Nat.add_zero] at *
    norm_num at h0
    rw [if_neg (by omega)]
    rfl
  | 2, hv =>
    have h0 := hd 0 (by omega)
    have h1 := hd 1 (by omega)
    simp only [CodeOk, Nat.add_zero] at *
    norm_num at h0 h1
    rw [if_pos (by omega), if_neg (by omega)]
    rfl
  | 3, hv =>
    have h0 := hd 0 (by omega)
    have h1 := hd 1 (by omega)
    have h2 := hd 2 (by omega)
    simp only [CodeOk, Nat.add_zero] at *
    norm_num at h0 h1 h2
    rw [if_pos (by omega), if_pos (by omega), if_neg (by omega)]
    rfl
  | 4, hv =>
    have h0 := hd 0 (by omega)
    have h1 := hd 1 (by omega)
    have h2 := hd 2 (by omega)
    have h3 := hd 3 (by omega)
    simp only [CodeOk, Nat.add_zero] at *
    norm_num at h0 h1 h2 h3
    rw [if_pos (by omega), if_pos (by omega), if_pos (by omega)]
    rfl

theorem codeReads_inside_iff (size : Nat) {n width v : Nat} (hok : CodeOk width v) (hat : CodeAt data n width v) (x y : Nat)
    (img : Nat → UInt8) : (∀ k ∈ (reading n x y img).codeReads data, k < size) ↔ n + width ≤ 2 * size := by
  have hpos := codeOk_pos hok
  rw [codeReads_reading hok hat]
  simp only [List.mem_map, List.mem_range, forall_exists_index, and_imp, forall_apply_eq_imp_iff₂]
  constructor
  · intro hall
    have := hall (width - 1) (by omega)
    omega
  · intro hle k hk
    omega

/-- Pixel `t` of a run, counted over the lines of its field. -/
theorem runWrites_eq (hw : 0 < w) {j x y : Nat} (hx : x < w) :
    runWrites w j x y = (List.range j).map fun t => (y + 2 * ((x + t) / w)) * w + (x + t) % w := by
  induction j generalizing x y with
  | zero => rfl
  | succ j ih =>
    rw [runWrites, List.range_succ_eq_map, List.map_cons, List.map_map]
    congr 1
    · rw [Nat.add_zero, Nat.div_eq_of_lt hx, Nat.mod_eq_of_lt hx]
      rfl
    · split
      · rename_i hend
        rw [ih hw]
        refine List.map_congr_left fun t _ => ?_
        have hshift : x + (t + 1) = t + w := by omega
        simp only [Function.comp_apply, Nat.zero_add, hshift, Nat.add_div_right t hw, Nat.add_mod_right]
        congr 2
        omega
      · rename_i hend
        rw [ih (not_le.mp hend)]
        refine List.map_congr_left fun t _ => ?_
        have hshift : x + 1 + t = x + (t + 1) := by omega
        simp only [Function.comp_apply, hshift]

theorem pixel_inside_iff {x y : Nat} (hx : x < w) : y * w + x < w * h ↔ y < h := by
  constructor
  · intro hlt
    by_contra hge
    have := Nat.mul_le_mul_left w (not_lt.mp hge)
    rw [Nat.mul_comm y w] at hlt
    omega
  · intro hlt
    have := Nat.mul_le_mul_left w (Nat.succ_le_of_lt hlt)
    rw [Nat.mul_succ] at this
    rw [Nat.mul_comm y w]
    omega

theorem runWrites_inside_iff (hw : 0 < w) {j x y : Nat} (hx : x < w) (hy : y < h) (hj : 0 < j) :
    (∀ k ∈ runWrites w j x y, k < w * h) ↔ j ≤ w - x + w * ((h - 1 - y) / 2) := by
  rw [runWrites_eq hw hx]
  simp only [List.mem_map, List.mem_range, forall_exists_index, and_imp, forall_apply_eq_imp_iff₂,
    pixel_inside_iff (Nat.mod_lt _ hw)]
  have hline (t : Nat) : y + 2 * ((x + t) / w) < h ↔ x + t < w * ((h - 1 - y) / 2 + 1) := by
    rw [Nat.mul_comm w, ← Nat.div_lt_iff_lt_mul hw]
    omega
  simp only [hline, Nat.mul_succ]
  constructor
  · intro hall
    have := hall (j - 1) (by omega)
    omega
  · intro hle t ht
    omega

/-- Which code starts at a nibble is determined. -/
theorem fits_iff {d : Decoder} {width v : Nat} (hok : CodeOk width v)
    (hat : CodeAt data (2 * d.i + d.state.toNat) width v) :
    d.Fits data size w h ↔ 2 * d.i + d.state.toNat + width ≤ 2 * size ∧ v / 4 ≤ d.room w h := by
  refine ⟨fun hf => hf width v hok hat, fun hf width' v' hok' hat' => ?_⟩
  have heq := (readCode_reading hok hat 0 0 fun _ => 0).symm.trans (readCode_reading hok' hat' 0 0 fun _ => 0)
  obtain ⟨rfl, hpos⟩ := Prod.mk.inj heq
  have hi := congrArg Decoder.i hpos
  have hs := congrArg Decoder.state hpos
  simp only [reading, beq_eq_beq] at hi hs
  have hwidth : width = width' := by
    by_contra hne
    rcases Nat.mod_two_eq_zero_or_one (2 * d.i + d.state.toNat + width) with h0 | h0 <;>
      rcases Nat.mod_two_eq_zero_or_one (2 * d.i + d.state.toNat + width') with h1 | h1 <;>
      simp [h0, h1] at hs <;> omega
  rw [← hwidth]
  exact hf

/-- A round stays inside the item and the picture just when its code and its run fit. -/
theorem inside_iff_fits (hw : 0 < w) {d : Decoder} (hx : d.x < w) (hy : d.y < h) :
    d.Inside data size w h ↔ d.Fits data size w h := by
  obtain ⟨width, v, hok, hat⟩ := exists_codeAt data (2 * d.i + d.state.toNat)
  rw [fits_iff hok hat]
  have he := eq_reading d
  generalize 2 * d.i + d.state.toNat = n at *
  have hread : d.readCode data = (v, reading (n + width) d.x d.y d.img) :=
    (congrArg (readCode data) he).trans (readCode_reading hok hat d.x d.y d.img)
  refine and_congr ?_ ?_
  · have hr := codeReads_inside_iff size hok hat d.x d.y d.img
    rwa [← he] at hr
  · unfold writes
    rw [hread]
    dsimp only
    split
    · rename_i hfill
      refine iff_of_true ?_ ?_
      · intro k hk
        obtain ⟨-, hlt⟩ := List.mem_range'_1.mp hk
        have hrow : d.y * w + (w - 1) < w * h := (pixel_inside_iff (by omega)).mpr hy
        simp only [reading] at hlt
        omega
      · rw [Nat.div_eq_of_lt (by omega)]
        exact Nat.zero_le _
    · rename_i hrun
      have hlen : v >>> 2 = v / 4 := by rw [Nat.shiftRight_eq_div_pow]
      rw [hlen]
      exact runWrites_inside_iff hw hx hy (by omega)

theorem run_x_lt (hw : 0 < w) (c : UInt8) {j : Nat} {d : Decoder} (hx : d.x < w) : (run w c j d).x < w := by
  induction j generalizing d with
  | zero => exact hx
  | succ j ih =>
    rw [run]
    refine ih ?_
    split
    · exact hw
    · rename_i hend
      exact not_le.mp hend

theorem step_x_lt (hw : 0 < w) {d : Decoder} (hx : d.x < w) : (d.step data w h line2).x < w := by
  obtain ⟨width, v, hok, hat⟩ := exists_codeAt data (2 * d.i + d.state.toNat)
  have hread := (congrArg (readCode data) (eq_reading d)).trans (readCode_reading hok hat d.x d.y d.img)
  unfold step
  rw [hread]
  dsimp only
  split
  · unfold fillLine
    dsimp only
    split <;> exact hw
  · exact run_x_lt hw _ hx

theorem Begun.x_lt (hw : 0 < w) {line1 : Nat} {d : Decoder} (hb : d.Begun data size w h line2 line1) : d.x < w := by
  have hstart (d : Decoder) (hd : d = { i := line1, img := fun _ => 0 }) : d.x < w := by
    rw [hd]
    exact hw
  have hstep (d : Decoder) (_ : Unit) (d' : Decoder) (hx : d.x < w)
      (hd : d.begins size h = true ∧ d' = d.step data w h line2) : d'.x < w := by
    rw [hd.2]
    exact step_x_lt hw hx
  exact Reach.invariant hstart hstep hb.1

theorem Begun.y_lt {line1 : Nat} {d : Decoder} (hb : d.Begun data size w h line2 line1) : d.y < h := by
  have hd := hb.2
  simp only [begins, Bool.and_eq_true, decide_eq_true_eq] at hd
  exact hd.2

theorem run_img_of_not_mem (c : UInt8) {j k : Nat} {d : Decoder} (hk : k ∉ runWrites w j d.x d.y) :
    (run w c j d).img k = d.img k := by
  induction j generalizing d with
  | zero => rfl
  | succ j ih =>
    rw [runWrites, List.mem_cons, not_or] at hk
    obtain ⟨hne, hk⟩ := hk
    have hfirst : Function.update d.img (d.y * w + d.x) c k = d.img k := Function.update_of_ne hne c d.img
    rw [run]
    split at hk
    · rename_i hend
      rw [if_pos hend, ih hk]
      exact hfirst
    · rename_i hend
      rw [if_neg hend, ih hk]
      exact hfirst

theorem readCode_img (data : Nat → UInt8) (d : Decoder) : (d.readCode data).2.img = d.img := by
  obtain ⟨width, v, hok, hat⟩ := exists_codeAt data (2 * d.i + d.state.toNat)
  rw [(congrArg (readCode data) (eq_reading d)).trans (readCode_reading hok hat d.x d.y d.img)]
  rfl

/-- Only the pixels in `writes` change in a round. -/
theorem step_img_of_not_mem {d : Decoder} {k : Nat} (hk : k ∉ d.writes data w) :
    (d.step data w h line2).img k = d.img k := by
  rw [← readCode_img data d]
  unfold step
  unfold writes at hk
  dsimp only at hk ⊢
  split
  · rename_i hfill
    rw [if_pos hfill, List.mem_range'_1] at hk
    have hout : ¬ ((d.readCode data).2.y * w + (d.readCode data).2.x ≤ k ∧ k < (d.readCode data).2.y * w + w) := by
      omega
    unfold fillLine
    dsimp only
    split <;> exact if_neg hout
  · rename_i hrun
    rw [if_neg hrun] at hk
    exact run_img_of_not_mem _ hk

theorem getNibble_congr {data' : Nat → UInt8} {d : Decoder} (hd : data' d.i = data d.i) :
    d.getNibble data' = d.getNibble data := by
  unfold getNibble
  rw [hd]

theorem more_congr {data' : Nat → UInt8} {r : Nat × Decoder} (hd : data' r.2.i = data r.2.i) :
    more data' r = more data r := by
  unfold more
  rw [getNibble_congr hd]

/-- Only the bytes in `codeReads` are looked at in a round. -/
theorem readCode_congr {data' : Nat → UInt8} {d : Decoder} (hd : ∀ k ∈ d.codeReads data, data' k = data k) :
    d.readCode data' = d.readCode data := by
  unfold codeReads at hd
  unfold readCode
  dsimp only at hd ⊢
  obtain ⟨h1, hd⟩ := List.forall_mem_cons.mp hd
  rw [getNibble_congr h1]
  by_cases hc1 : (d.getNibble data).1 < 0x4
  · rw [if_pos hc1] at hd
    obtain ⟨h2, hd⟩ := List.forall_mem_cons.mp hd
    rw [if_pos hc1, if_pos hc1, more_congr h2]
    by_cases hc2 : (more data (d.getNibble data)).1 < 0x10
    · rw [if_pos hc2] at hd
      obtain ⟨h3, hd⟩ := List.forall_mem_cons.mp hd
      rw [if_pos hc2, if_pos hc2, more_congr h3]
      by_cases hc3 : (more data (more data (d.getNibble data))).1 < 0x40
      · rw [if_pos hc3, List.forall_mem_singleton] at hd
        rw [if_pos hc3, if_pos hc3, more_congr hd]
      · rw [if_neg hc3, if_neg hc3]
    · rw [if_neg hc2, if_neg hc2]
  · rw [if_neg hc1, if_neg hc1]

theorem begins_of_goesOn {d : Decoder} (hd : d.goesOn size h = true) : d.begins size h = true := by
  simp only [goesOn, begins, Bool.and_eq_true, Bool.or_eq_true, decide_eq_true_eq] at hd ⊢
  exact ⟨.inl hd.1, hd.2⟩

theorem Reached.loop {line1 : Nat} (fuel : Nat) {d : Decoder} (hd : d.Reached data size w h line2 line1) :
    (Decoder.loop data size w h line2 fuel d).Reached data size w h line2 line1 := by
  induction fuel generalizing d with
  | zero => exact hd
  | succ fuel ih =>
    unfold Decoder.loop Loop.run
    split
    · rename_i hg
      exact ih (.next () hd ⟨begins_of_goesOn hg, rfl⟩)
    · exact hd

/-- The rounds of `demux_spu_decompress` are among those that begin. -/
theorem begun_of_loop {line1 fuel : Nat}
    (hg : goesOn size h (loop data size w h line2 fuel { i := line1, img := fun _ => 0 }) = true) :
    (loop data size w h line2 fuel { i := line1, img := fun _ => 0 }).Begun data size w h line2 line1 :=
  ⟨Reached.loop fuel (.start rfl), begins_of_goesOn hg⟩

end Decoder

/-- `demux_spu_decompress` stays inside the item and the picture in every round exactly when in every round the
code it reads ends inside the item and the run is no longer than what is left of the field. -/
theorem decompress_inside_iff (data : Nat → UInt8) (size w h line1 line2 : Nat) (hw : 0 < w) :
    (∀ d : Decoder, d.Begun data size w h line2 line1 → d.Inside data size w h) ↔
      ∀ d : Decoder, d.Begun data size w h line2 line1 → d.Fits data size w h :=
  forall_congr' fun _ => forall_congr' fun hb => Decoder.inside_iff_fits hw (hb.x_lt hw) hb.y_lt

/-- A picture of one pixel. -/
theorem decompress_inside_pixel :
    (∀ d : Decoder, d.Begun (fun _ => 0x40) 1 1 1 0 0 → d.Inside (fun _ => 0x40) 1 1 1) ↔
      ∀ d : Decoder, d.Begun (fun _ => 0x40) 1 1 1 0 0 → d.Fits (fun _ => 0x40) 1 1 1 :=
  decompress_inside_iff (fun _ => 0x40) 1 1 1 0 0 (by decide)

/-- A run of two pixels in a picture of one. -/
theorem run_leaves_picture : ¬ ∀ (data : Nat → UInt8) (size w h line1 line2 : Nat), 0 < w → 0 < h →
    ∀ d : Decoder, d.Begun data size w h line2 line1 → d.Inside data size w h := by
  intro hall
  obtain ⟨-, hw⟩ := hall (fun _ => 0x80) 1 1 1 0 0 (by decide) (by decide) { i := 0, img := fun _ => 0 }
    ⟨.start rfl, rfl⟩
  exact absurd (hw 2 (by decide)) (by decide)

end Mvpmc.Demux
