import Mvpmc.Demux.Decompress

/-! The run-length code of subpictures, and which encodings `demux_spu_decompress` undoes. -/
namespace Mvpmc.Demux
open Mvpmc.Lib
open Mvpmc.Lib.Circular

/-- The nibble at position `n`, high half of a byte first. -/
def nibbleAt (data : Nat → UInt8) (n : Nat) : Nat :=
  if n % 2 = 0 then (data (n / 2) >>> 4).toNat else (data (n / 2) &&& 0x0f).toNat

/-- The values a code of so many nibbles can have. -/
def CodeOk : Nat → Nat → Prop
  | 1, v => 0x4 ≤ v ∧ v < 0x10
  | 2, v => 0x10 ≤ v ∧ v < 0x40
  | 3, v => 0x40 ≤ v ∧ v < 0x100
  | 4, v => v < 0x400
  | _, _ => False

/-- The nibbles from position `n` on are the digits of `v`. -/
def CodeAt (data : Nat → UInt8) (n width v : Nat) : Prop :=
  ∀ k < width, nibbleAt data (n + k) = v / 16 ^ (width - 1 - k) % 16

/-- A run of one to 255 pixels: a code that is not one of the four that fill the line. -/
structure SpuRun where
  width : Nat
  value : Nat
  ok : CodeOk width value
  pos : 4 ≤ value

namespace SpuRun

def length (r : SpuRun) : Nat := r.value / 4

def pixel (r : SpuRun) : UInt8 := UInt8.ofNat (r.value % 4)

def pixels (r : SpuRun) : List UInt8 := List.replicate r.length r.pixel

theorem length_pos (r : SpuRun) : 0 < r.length := Nat.div_pos r.pos (by decide)

end SpuRun

/-- A line of `w` pixels: runs, and the pixel that the code behind them fills the line with. Without
that code the runs fill it exactly. -/
structure SpuLine (w : Nat) where
  runs : List SpuRun
  fill : Option (Fin 4)
  covers : if fill.isSome then (runs.map SpuRun.length).sum < w else (runs.map SpuRun.length).sum = w

namespace SpuLine
variable {w : Nat}

/-- The pixels the line stands for. -/
def pixels (l : SpuLine w) : List UInt8 :=
  let drawn := l.runs.flatMap SpuRun.pixels
  match l.fill with
  | none => drawn
  | some c => drawn ++ List.replicate (w - drawn.length) (UInt8.ofNat c)

end SpuLine

/-- The runs are encoded from nibble `n` on, up to nibble `e`. -/
def RunsAt (data : Nat → UInt8) : Nat → List SpuRun → Nat → Prop
  | n, [], e => n = e
  | n, r :: rs, e => CodeAt data n r.width r.value ∧ RunsAt data (n + r.width) rs e

theorem codeOk_pos {width v : Nat} (h : CodeOk width v) : 0 < width := by
  match width, h with
  | 1, _ => decide
  | 2, _ => decide
  | 3, _ => decide
  | 4, _ => decide

theorem RunsAt.le {n e : Nat} {rs : List SpuRun} (hr : RunsAt data n rs e) : n ≤ e := by
  induction rs generalizing n with
  | nil => exact le_of_eq hr
  | cons r rs ih =>
    have := ih hr.2
    omega

/-- The line is encoded from byte `i` on, up to byte `j`. A half byte left over may have any value. -/
def LineAt {w : Nat} (data : Nat → UInt8) (i : Nat) (l : SpuLine w) (j : Nat) : Prop :=
  ∃ e, RunsAt data (2 * i) l.runs e ∧
    match l.fill with
    | none => j = (e + 1) / 2
    | some c => CodeAt data e 4 c ∧ j = (e + 5) / 2

/-- The lines of a field are encoded one behind the other from byte `i` on, inside `size` bytes. -/
def FieldAt {w : Nat} (data : Nat → UInt8) (size : Nat) : Nat → List (SpuLine w) → Prop
  | _, [] => True
  | i, l :: ls => ∃ j ≤ size, LineAt data i l j ∧ FieldAt data size j ls

/-- An image of `h` lines: the even ones are encoded in one field, the odd ones in another. -/
structure SpuEncoding (w h : Nat) where
  even : List (SpuLine w)
  odd : List (SpuLine w)
  even_length : even.length = (h + 1) / 2
  odd_length : odd.length = h / 2

namespace SpuEncoding
variable {w h : Nat}

/-- The encoding is one of this image. -/
def Of (e : SpuEncoding w h) (image : Nat → Nat → Fin 4) : Prop :=
  (∀ k (hk : k < e.even.length), e.even[k].pixels = (List.range w).map fun x => UInt8.ofNat (image (2 * k) x)) ∧
  ∀ k (hk : k < e.odd.length), e.odd[k].pixels = (List.range w).map fun x => UInt8.ofNat (image (2 * k + 1) x)

/-- The last line of the even field ends with the fill code. -/
def FillsLast (e : SpuEncoding w h) : Prop := ∃ l ∈ e.even.getLast?, l.fill.isSome

end SpuEncoding

namespace Decoder
variable {data : Nat → UInt8} {size w h line2 : Nat}

/-- The decoder in front of nibble `n`. -/
def reading (n x y : Nat) (img : Nat → UInt8) : Decoder := ⟨n / 2, n % 2 == 1, x, y, img⟩

variable (data) in
theorem nibbleAt_lt (n : Nat) : nibbleAt data n < 16 := by
  unfold nibbleAt
  split
  · have := (data (n / 2)).toNat_lt
    rw [UInt8.toNat_shiftRight, Nat.shiftRight_eq_div_pow, show UInt8.toNat 4 % 8 = 4 from rfl]
    omega
  · simp only [UInt8.toNat_and]
    exact Nat.lt_of_le_of_lt Nat.and_le_right (by decide)

theorem getNibble_reading (n x y : Nat) (img : Nat → UInt8) :
    (reading n x y img).getNibble data = (nibbleAt data n, reading (n + 1) x y img) := by
  rcases Nat.mod_two_eq_zero_or_one n with h0 | h1
  · have hi : (n + 1) / 2 = n / 2 := by omega
    have hs : (n + 1) % 2 = 1 := by omega
    simp [getNibble, reading, nibbleAt, h0, hi, hs]
  · have hi : (n + 1) / 2 = n / 2 + 1 := by omega
    have hs : (n + 1) % 2 = 0 := by omega
    simp [getNibble, reading, nibbleAt, h1, hi, hs]

theorem more_reading (v n x y : Nat) (img : Nat → UInt8) :
    more data (v, reading n x y img) = (v * 16 + nibbleAt data n, reading (n + 1) x y img) := by
  have hlt := nibbleAt_lt data n
  simp only [more, getNibble_reading, Prod.mk.injEq, and_true]
  rw [← Nat.shiftLeft_add_eq_or_of_lt hlt, Nat.shiftLeft_eq]

/-- The decoder reads the code that stands there, with as many nibbles as it has. -/
theorem readCode_reading {n width v : Nat} (hok : CodeOk width v) (hat : CodeAt data n width v) (x y : Nat)
    (img : Nat → UInt8) : (reading n x y img).readCode data = (v, reading (n + width) x y img) := by
  have hd (k : Nat) (hk : k < width) := hat k hk
  simp only [readCode, getNibble_reading, more_reading, Nat.add_assoc, Nat.reduceAdd]
  match width, hok with
  | 1, hv =>
    have h0 := hd 0 (by omega)
    simp only [CodeOk, Nat.add_zero] at *
    norm_num at h0
    rw [if_neg (by omega), h0]
    simp only [Prod.mk.injEq, and_true]
    omega
  | 2, hv =>
    have h0 := hd 0 (by omega)
    have h1 := hd 1 (by omega)
    simp only [CodeOk, Nat.add_zero] at *
    norm_num at h0 h1
    rw [if_pos (by omega), if_neg (by omega), h0, h1]
    simp only [Prod.mk.injEq, and_true]
    omega
  | 3, hv =>
    have h0 := hd 0 (by omega)
    have h1 := hd 1 (by omega)
    have h2 := hd 2 (by omega)
    simp only [CodeOk, Nat.add_zero] at *
    norm_num at h0 h1 h2
    rw [if_pos (by omega), if_pos (by omega), if_neg (by omega), h0, h1, h2]
    simp only [Prod.mk.injEq, and_true]
    omega
  | 4, hv =>
    have h0 := hd 0 (by omega)
    have h1 := hd 1 (by omega)
    have h2 := hd 2 (by omega)
    have h3 := hd 3 (by omega)
    simp only [CodeOk, Nat.add_zero] at *
    norm_num at h0 h1 h2 h3
    rw [if_pos (by omega), if_pos (by omega), if_pos (by omega), h0, h1, h2, h3]
    simp only [Prod.mk.injEq, and_true]
    omega

theorem align_reading (n x y : Nat) (img : Nat → UInt8) :
    (reading n x y img).align = reading (2 * ((n + 1) / 2)) x y img := by
  rcases Nat.mod_two_eq_zero_or_one n with h0 | h1
  · have hi : (n + 1) / 2 = n / 2 := by omega
    simp [align, reading, h0, hi]
  · have hi : (n + 1) / 2 = n / 2 + 1 := by omega
    simp [align, reading, h1, hi]

/-- A run that stays inside the line. -/
theorem run_short (c : UInt8) {j n x y : Nat} (img : Nat → UInt8) (hx : x + j < w) :
    run w c j (reading n x y img) = reading n (x + j) y (blit img (y * w + x) (List.replicate j c)) := by
  induction j generalizing x img with
  | zero => simp [run]
  | succ j ih =>
    have hstep := ih (x := x + 1) (Function.update img (y * w + x) c) (by omega)
    rw [run, if_neg (by simp only [reading]; omega), List.replicate_succ, blit_cons]
    rw [show x + (j + 1) = x + 1 + j by omega]
    exact hstep

/-- A run that fills the line. -/
theorem run_exact (c : UInt8) {j n x y : Nat} (img : Nat → UInt8) (hx : x + (j + 1) = w) :
    run w c (j + 1) (reading n x y img) =
      reading (2 * ((n + 1) / 2)) 0 (y + 2) (blit img (y * w + x) (List.replicate (j + 1) c)) := by
  induction j generalizing x img with
  | zero =>
    rw [run, if_pos (by simp only [reading]; omega), List.replicate_succ, blit_cons]
    have ha := align_reading n x y (Function.update img (y * w + x) c)
    simp only [reading] at ha
    simp only [reading, ha, run]
    simp
  | succ j ih =>
    have hstep := ih (x := x + 1) (Function.update img (y * w + x) c) (by omega)
    rw [run, if_neg (by simp only [reading]; omega), List.replicate_succ, blit_cons]
    exact hstep

/-- The code that fills the line. -/
theorem fillLine_reading (c : UInt8) {n x y : Nat} (img : Nat → UInt8) :
    fillLine w h line2 c (reading n x y img) =
      if h ≤ y + 2 ∧ y % 2 = 0 then reading (2 * line2) 0 1 (blit img (y * w + x) (List.replicate (w - x) c))
      else reading (2 * ((n + 1) / 2)) 0 (y + 2) (blit img (y * w + x) (List.replicate (w - x) c)) := by
  have himg : (fun k => if y * w + x ≤ k ∧ k < y * w + w then c else img k) =
      blit img (y * w + x) (List.replicate (w - x) c) := by
    funext k
    by_cases hge : y * w + x ≤ k
    · by_cases hlt : k < y * w + w
      · obtain ⟨d, rfl⟩ := Nat.exists_eq_add_of_le hge
        rw [if_pos ⟨hge, hlt⟩, blit_of_mem _ _ _ _ (by rw [List.length_replicate]; omega)]
        simp
      · rw [if_neg (fun hh => hlt hh.2), blit_of_ge]
        rw [List.length_replicate]
        omega
    · rw [if_neg (fun hh => hge hh.1), blit_of_lt _ _ _ _ (by omega)]
  have hpar : (y + 2) % 2 = y % 2 := by omega
  unfold fillLine
  rw [align_reading]
  simp only [reading, hpar]
  split
  · rw [Decoder.mk.injEq]
    exact ⟨by omega, by simp, rfl, rfl, himg⟩
  · rw [Decoder.mk.injEq]
    exact ⟨rfl, rfl, rfl, rfl, himg⟩

/-- How much is left to read: nibbles of this field, and a whole field while an even line is drawn. -/
def left (size : Nat) (d : Decoder) : Nat :=
  (if d.y % 2 = 0 then 2 * size + 1 else 0) + (2 * size - (2 * d.i + d.state.toNat))

/-- Decoders on lines of one field, the second one not behind the first. -/
structure Further (d d' : Decoder) : Prop where
  field : d'.y % 2 = d.y % 2
  pos : 2 * d.i + d.state.toNat ≤ 2 * d'.i + d'.state.toNat

theorem Further.trans {d d' d'' : Decoder} (h : Further d d') (h' : Further d' d'') : Further d d'' :=
  ⟨h'.field.trans h.field, h.pos.trans h'.pos⟩

variable (data) in
theorem getNibble_further (d : Decoder) :
    Further d (d.getNibble data).2 ∧
      2 * d.i + d.state.toNat < 2 * (d.getNibble data).2.i + (d.getNibble data).2.state.toNat := by
  cases hs : d.state with
  | false => exact ⟨⟨by simp [getNibble, hs], by simp [getNibble, hs]⟩, by simp [getNibble, hs]⟩
  | true => exact ⟨⟨by simp [getNibble, hs], by simp [getNibble, hs]⟩, by simp [getNibble, hs]; omega⟩

variable (data) in
theorem readCode_further (d : Decoder) :
    Further d (d.readCode data).2 ∧
      2 * d.i + d.state.toNat < 2 * (d.readCode data).2.i + (d.readCode data).2.state.toNat := by
  have h1 := getNibble_further data d
  have h2 := (getNibble_further data (d.getNibble data).2).1
  have h3 := (getNibble_further data ((d.getNibble data).2.getNibble data).2).1
  have h4 := (getNibble_further data (((d.getNibble data).2.getNibble data).2.getNibble data).2).1
  unfold readCode
  simp only
  split
  · split
    · split
      · exact ⟨((h1.1.trans h2).trans h3).trans h4, h1.2.trans_le ((h2.trans h3).trans h4).pos⟩
      · exact ⟨(h1.1.trans h2).trans h3, h1.2.trans_le (h2.trans h3).pos⟩
    · exact ⟨h1.1.trans h2, h1.2.trans_le h2.pos⟩
  · exact h1

theorem align_further (d : Decoder) : Further d d.align := by
  cases hs : d.state with
  | false => exact ⟨rfl, by simp [align, hs]⟩
  | true => exact ⟨rfl, by simp [align, hs]⟩

theorem run_further (c : UInt8) (j : Nat) (d : Decoder) : Further d (run w c j d) := by
  induction j generalizing d with
  | zero => exact ⟨rfl, le_refl _⟩
  | succ j ih =>
    rw [run]
    refine Further.trans ?_ (ih _)
    split
    · have ha := align_further { d with img := Function.update d.img (d.y * w + d.x) c }
      exact ⟨by simp, ha.pos⟩
    · exact ⟨rfl, le_refl _⟩

theorem left_step {d : Decoder} (hg : d.goesOn size h = true) : left size (d.step data w h line2) < left size d := by
  have hi : d.i < size := by
    simp only [goesOn, Bool.and_eq_true, decide_eq_true_eq] at hg
    exact hg.1
  have hs : d.state.toNat ≤ 1 := Bool.toNat_le d.state
  obtain ⟨hf, hp⟩ := readCode_further data d
  unfold step
  simp only
  split
  · have ha := align_further (d.readCode data).2
    have hpos := ha.pos
    have hfield := hf.field
    have hy : (d.readCode data).2.align.y = (d.readCode data).2.y := rfl
    simp only [fillLine, left, hy]
    split
    · rename_i hsw
      rw [if_pos (show d.y % 2 = 0 by omega)]
      simp
      omega
    · simp only [Nat.add_mod_right, hfield]
      omega
  · have hr := hf.trans (run_further (w := w) (UInt8.ofNat ((d.readCode data).1 &&& 3)) ((d.readCode data).1 >>> 2) (d.readCode data).2)
    have hr' := (run_further (w := w) (UInt8.ofNat ((d.readCode data).1 &&& 3)) ((d.readCode data).1 >>> 2) (d.readCode data).2).pos
    simp only [left, hr.field]
    omega

variable (data size w h line2) in
/-- The loop run to its end. -/
def finish (d : Decoder) : Decoder := loop data size w h line2 (left size d) d

theorem loop_eq_finish {fuel : Nat} {d : Decoder} (hf : left size d ≤ fuel) :
    loop data size w h line2 fuel d = finish data size w h line2 d :=
  Loop.run_fuel (fun _ hg => left_step hg) hf (le_refl _)

theorem finish_step {d : Decoder} (hg : d.goesOn size h = true) :
    finish data size w h line2 d = finish data size w h line2 (d.step data w h line2) :=
  Loop.run_step (fun _ hg => left_step hg) hg (le_refl _) (le_refl _)

theorem finish_stopped {d : Decoder} (hg : d.goesOn size h = false) : finish data size w h line2 d = d :=
  Loop.run_of_stopped _ _ _ hg

theorem goesOn_reading {n x y : Nat} (img : Nat → UInt8) (hn : n < 2 * size) (hy : y < h) :
    (reading n x y img).goesOn size h = true := by
  have hi : n / 2 < size := by omega
  simp [goesOn, reading, hi, hy]

theorem stopped_reading {n x y : Nat} (img : Nat → UInt8) (hy : h ≤ y) :
    (reading n x y img).goesOn size h = false := by
  have hd : ¬ y < h := by omega
  simp [goesOn, reading, hd]

/-- A round that reads the code of a run. -/
theorem step_reading {n x y : Nat} (img : Nat → UInt8) (r : SpuRun) (hat : CodeAt data n r.width r.value) :
    (reading n x y img).step data w h line2 = run w r.pixel r.length (reading (n + r.width) x y img) := by
  have hpos := r.pos
  have hl : r.value >>> 2 = r.length := by rw [Nat.shiftRight_eq_div_pow]; rfl
  have hp : r.value &&& 3 = r.value % 4 := Nat.and_two_pow_sub_one_eq_mod r.value 2
  simp only [step, readCode_reading r.ok hat]
  rw [if_neg (by omega), hl, hp]
  rfl

/-- Runs that leave room on the line. -/
theorem finish_runs {rs : List SpuRun} {n e x y : Nat} (img : Nat → UInt8) (hat : RunsAt data n rs e)
    (he : e < 2 * size + 1) (hy : y < h) (hx : x + (rs.map SpuRun.length).sum < w) :
    finish data size w h line2 (reading n x y img) = finish data size w h line2
      (reading e (x + (rs.map SpuRun.length).sum) y (blit img (y * w + x) (rs.flatMap SpuRun.pixels))) := by
  induction rs generalizing n x img with
  | nil =>
    have hn : n = e := hat
    simp [hn]
  | cons r rs ih =>
    obtain ⟨hcode, hrest⟩ := hat
    have hw := codeOk_pos r.ok
    have hle := hrest.le
    simp only [List.map_cons, List.sum_cons] at hx
    rw [finish_step (goesOn_reading img (by omega) hy), step_reading img r hcode, run_short _ _ (by omega),
      ih _ hrest (by omega)]
    simp only [List.map_cons, List.sum_cons, List.flatMap_cons, blit_append, SpuRun.pixels, List.length_replicate,
      Nat.add_assoc]

/-- Runs that fill the line leave it, without a look at the field. -/
theorem finish_filled {rs : List SpuRun} {n e x y : Nat} (img : Nat → UInt8) (hat : RunsAt data n rs e)
    (he : e < 2 * size + 1) (hy : y < h) (hx : x < w) (hsum : x + (rs.map SpuRun.length).sum = w) :
    finish data size w h line2 (reading n x y img) = finish data size w h line2
      (reading (2 * ((e + 1) / 2)) 0 (y + 2) (blit img (y * w + x) (rs.flatMap SpuRun.pixels))) := by
  induction rs generalizing n x img with
  | nil => simp at hsum; omega
  | cons r rs ih =>
    obtain ⟨hcode, hrest⟩ := hat
    have hw := codeOk_pos r.ok
    have hle := hrest.le
    have hr := r.length_pos
    simp only [List.map_cons, List.sum_cons] at hsum
    rw [finish_step (goesOn_reading img (by omega) hy), step_reading img r hcode]
    cases rs with
    | nil =>
      have he : n + r.width = e := hrest
      obtain ⟨j, hj⟩ : ∃ j, r.length = j + 1 := ⟨r.length - 1, by omega⟩
      simp only [List.map_nil, List.sum_nil] at hsum
      rw [hj, run_exact _ _ (by omega), he]
      simp [SpuRun.pixels, hj]
    | cons r' rs =>
      have hr' := r'.length_pos
      simp only [List.map_cons, List.sum_cons] at hsum
      rw [run_short _ _ (by omega), ih _ hrest (by omega) (by simp only [List.map_cons, List.sum_cons]; omega)]
      simp only [List.flatMap_cons, blit_append, SpuRun.pixels, List.length_replicate, Nat.add_assoc]

end Decoder

namespace SpuLine
variable {w : Nat}

theorem drawn_length (rs : List SpuRun) : (rs.flatMap SpuRun.pixels).length = (rs.map SpuRun.length).sum := by
  induction rs with
  | nil => rfl
  | cons r rs ih =>
    rw [List.flatMap_cons, List.length_append, ih, List.map_cons, List.sum_cons, SpuRun.pixels, List.length_replicate]

theorem pixels_length (l : SpuLine w) : l.pixels.length = w := by
  have hc := l.covers
  unfold pixels
  cases hf : l.fill with
  | none =>
    rw [hf] at hc
    simpa [drawn_length l.runs] using hc
  | some c =>
    rw [hf] at hc
    simp only [Option.isSome_some, if_true] at hc
    simp only [List.length_append, drawn_length, List.length_replicate]
    omega

end SpuLine

namespace Decoder
variable {data : Nat → UInt8} {size w h line2 : Nat}

/-- A line, whichever way it ends. Only the fill code looks at the field. -/
theorem finish_line {i j y : Nat} (img : Nat → UInt8) {l : SpuLine w} (hat : LineAt data i l j) (hj : j ≤ size)
    (hy : y < h) (hw : 0 < w) :
    finish data size w h line2 (reading (2 * i) 0 y img) = finish data size w h line2
      (if l.fill.isSome ∧ h ≤ y + 2 ∧ y % 2 = 0 then reading (2 * line2) 0 1 (blit img (y * w) l.pixels)
        else reading (2 * j) 0 (y + 2) (blit img (y * w) l.pixels)) := by
  obtain ⟨e, hruns, hend⟩ := hat
  have hc := l.covers
  have hlen := SpuLine.drawn_length l.runs
  cases hf : l.fill with
  | none =>
    rw [hf] at hc hend
    simp only [Option.isSome_none, Bool.false_eq_true, if_false] at hc
    simp only at hend
    rw [finish_filled img hruns (by omega) hy hw (by omega), hend]
    simp [SpuLine.pixels, hf]
  | some c =>
    rw [hf] at hc hend
    simp only [Option.isSome_some, if_true] at hc
    obtain ⟨hcode, hend⟩ := hend
    have hok : CodeOk 4 c := by
      have := c.isLt
      simp only [CodeOk]
      omega
    have hgo := goesOn_reading (x := 0 + (l.runs.map SpuRun.length).sum)
      (blit img (y * w + 0) (l.runs.flatMap SpuRun.pixels)) (show e < 2 * size by omega) hy
    rw [finish_runs img hruns (by omega) hy (by omega), finish_step hgo]
    simp only [step, readCode_reading hok hcode]
    have he : (e + 4 + 1) / 2 = j := by omega
    rw [if_pos (show (c : Nat) ≤ 3 by omega), fillLine_reading, he]
    simp only [SpuLine.pixels, hf, blit_append, hlen, Nat.zero_add, Nat.add_zero, Option.isSome_some, true_and]

/-- The lines of a field drawn one below the other. -/
def drawField (w : Nat) (img : Nat → UInt8) (y : Nat) : List (SpuLine w) → Nat → UInt8
  | [] => img
  | l :: ls => drawField w (blit img (y * w) l.pixels) (y + 2) ls

theorem finish_odd {ls : List (SpuLine w)} {i y : Nat} (img : Nat → UInt8) (hat : FieldAt data size i ls)
    (hw : 0 < w) (hpar : y % 2 = 1) (hle : h ≤ y + 2 * ls.length) (hlt : y + 2 * ls.length < h + 2) :
    (finish data size w h line2 (reading (2 * i) 0 y img)).img = drawField w img y ls := by
  induction ls generalizing i y img with
  | nil =>
    rw [finish_stopped (stopped_reading img (by simpa using hle))]
    rfl
  | cons l ls ih =>
    obtain ⟨j, hj, hline, hrest⟩ := hat
    simp only [List.length_cons] at hle hlt
    rw [finish_line img hline hj (by omega) hw, if_neg (by omega)]
    exact ih _ hrest (by omega) (by omega) (by omega)

/-- Behind the even field the decoder goes on with the odd one if the last line ended with the
fill code, and stops otherwise. -/
theorem finish_even {ls : List (SpuLine w)} {i y : Nat} (img : Nat → UInt8) (hat : FieldAt data size i ls)
    (hw : 0 < w) (hpar : y % 2 = 0) (hne : ls ≠ []) (hle : h ≤ y + 2 * ls.length) (hlt : y + 2 * ls.length < h + 2) :
    (finish data size w h line2 (reading (2 * i) 0 y img)).img =
      if (ls.getLast hne).fill.isSome then
        (finish data size w h line2 (reading (2 * line2) 0 1 (drawField w img y ls))).img
      else drawField w img y ls := by
  induction ls generalizing i y img with
  | nil => exact absurd rfl hne
  | cons l ls ih =>
    obtain ⟨j, hj, hline, hrest⟩ := hat
    simp only [List.length_cons] at hle hlt
    rw [finish_line img hline hj (by omega) hw]
    cases ls with
    | nil =>
      simp only [List.length_nil] at hle hlt
      cases hf : l.fill with
      | none =>
        rw [if_neg (by simp), finish_stopped (stopped_reading _ (by omega))]
        simp [hf, drawField, reading]
      | some c =>
        rw [if_pos ⟨rfl, by omega, hpar⟩]
        simp [hf, drawField]
    | cons l' ls =>
      simp only [List.length_cons] at hle hlt
      rw [if_neg (by omega), ih _ hrest (by omega) (by simp) (by simp only [List.length_cons]; omega)
        (by simp only [List.length_cons]; omega)]
      simp [drawField]

/-- One line drawn: the other lines keep their pixels. -/
theorem blit_line {img : Nat → UInt8} {ps : List UInt8} {y y' x : Nat} (hl : ps.length = w) (hx : x < w) :
    blit img (y * w) ps (y' * w + x) = if y' = y then ps[x] else img (y' * w + x) := by
  rcases Nat.lt_trichotomy y' y with hlt | heq | hgt
  · have hle : (y' + 1) * w ≤ y * w := Nat.mul_le_mul_right w hlt
    rw [Nat.add_mul, Nat.one_mul] at hle
    rw [if_neg (by omega), blit_of_lt _ _ _ _ (by omega)]
  · rw [if_pos heq, heq, blit_of_mem _ _ _ _ (by omega)]
  · have hle : (y + 1) * w ≤ y' * w := Nat.mul_le_mul_right w hgt
    rw [Nat.add_mul, Nat.one_mul] at hle
    rw [if_neg (by omega), blit_of_ge _ _ _ _ (by omega)]

theorem drawField_of_lt {ls : List (SpuLine w)} {img : Nat → UInt8} {y y' x : Nat} (hx : x < w) (hy : y' < y) :
    drawField w img y ls (y' * w + x) = img (y' * w + x) := by
  induction ls generalizing img y with
  | nil => rfl
  | cons l ls ih =>
    rw [drawField, ih (by omega), blit_line l.pixels_length hx, if_neg (by omega)]

/-- The lines of the other field keep their pixels. -/
theorem drawField_other {ls : List (SpuLine w)} {img : Nat → UInt8} {y y' x : Nat} (hx : x < w)
    (hy : y' % 2 ≠ y % 2) : drawField w img y ls (y' * w + x) = img (y' * w + x) := by
  induction ls generalizing img y with
  | nil => rfl
  | cons l ls ih =>
    rw [drawField, ih (by omega), blit_line l.pixels_length hx, if_neg (by omega)]

theorem drawField_line {ls : List (SpuLine w)} (img : Nat → UInt8) {y k x : Nat} (hx : x < w) (hk : k < ls.length) :
    drawField w img y ls ((y + 2 * k) * w + x) = ls[k].pixels.get ⟨x, by rw [SpuLine.pixels_length]; exact hx⟩ := by
  induction ls generalizing img y k with
  | nil => exact absurd hk (Nat.not_lt_zero k)
  | cons l ls ih =>
    cases k with
    | zero =>
      simp only [Nat.mul_zero, Nat.add_zero]
      rw [drawField, drawField_of_lt hx (by omega), blit_line l.pixels_length hx, if_pos rfl]
      rfl
    | succ k =>
      have hstep := ih (blit img (y * w) l.pixels) (y := y + 2) (k := k) (by simpa using hk)
      rw [show y + 2 + 2 * k = y + 2 * (k + 1) by omega] at hstep
      exact hstep

end Decoder

namespace SpuEncoding
variable {w h : Nat}

theorem Of.even_pixel {e : SpuEncoding w h} {image : Nat → Nat → Fin 4} (ho : e.Of image) {img : Nat → UInt8}
    {y x : Nat} (hy : y < h) (hx : x < w) (hpar : y % 2 = 0) :
    Decoder.drawField w img 0 e.even (y * w + x) = UInt8.ofNat (image y x) := by
  have hlen := e.even_length
  have hk : y / 2 < e.even.length := by omega
  have hd := Decoder.drawField_line img (y := 0) hx hk
  rw [show 0 + 2 * (y / 2) = y by omega] at hd
  rw [hd]
  simp [ho.1 (y / 2) hk, show 2 * (y / 2) = y by omega]

theorem Of.odd_pixel {e : SpuEncoding w h} {image : Nat → Nat → Fin 4} (ho : e.Of image) {img : Nat → UInt8}
    {y x : Nat} (hy : y < h) (hx : x < w) (hpar : y % 2 = 1) :
    Decoder.drawField w img 1 e.odd (y * w + x) = UInt8.ofNat (image y x) := by
  have hlen := e.odd_length
  have hk : y / 2 < e.odd.length := by omega
  have hd := Decoder.drawField_line img (y := 1) hx hk
  rw [show 1 + 2 * (y / 2) = y by omega] at hd
  rw [hd]
  simp [ho.2 (y / 2) hk, show 2 * (y / 2) + 1 = y by omega]

end SpuEncoding

/-- The decoder goes through the even field, and through the odd one only if the last line of the
even field ended with the fill code. -/
theorem decompress_fields {spu : SpuItem} (e : SpuEncoding spu.w spu.h) (hw : 0 < spu.w) (hh : 0 < spu.h)
    (heven : FieldAt spu.byte spu.size spu.line1 e.even)
    (hodd : FieldAt spu.byte spu.size spu.line2 e.odd) :
    (e.FillsLast → demuxSpuDecompress spu =
      Decoder.drawField spu.w (Decoder.drawField spu.w (fun _ => 0) 0 e.even) 1 e.odd) ∧
    (¬ e.FillsLast → demuxSpuDecompress spu = Decoder.drawField spu.w (fun _ => 0) 0 e.even) := by
  have hel := e.even_length
  have hol := e.odd_length
  have hne : e.even ≠ [] := by
    intro hnil
    rw [hnil, List.length_nil] at hel
    omega
  have hdec : demuxSpuDecompress spu = if (e.even.getLast hne).fill.isSome then
      Decoder.drawField spu.w (Decoder.drawField spu.w (fun _ => 0) 0 e.even) 1 e.odd
      else Decoder.drawField spu.w (fun _ => 0) 0 e.even := by
    have hstart : ({ i := spu.line1, img := fun _ => 0 } : Decoder) = Decoder.reading (2 * spu.line1) 0 0 fun _ => 0 := by
      simp [Decoder.reading]
    have hleft : Decoder.left spu.size { i := spu.line1, img := fun _ => 0 } ≤ 4 * spu.size + 1 := by
      simp only [Decoder.left]
      split <;> omega
    unfold demuxSpuDecompress
    rw [Decoder.loop_eq_finish hleft, hstart,
      Decoder.finish_even _ heven hw rfl hne (by omega) (by omega)]
    split
    · exact Decoder.finish_odd _ hodd hw rfl (by omega) (by omega)
    · rfl
  have hfl : e.FillsLast ↔ (e.even.getLast hne).fill.isSome := by
    simp [SpuEncoding.FillsLast, List.getLast?_eq_some_getLast hne]
  constructor
  · intro hf
    rw [hdec, if_pos (hfl.mp hf)]
  · intro hf
    rw [hdec, if_neg (fun h => hf (hfl.mpr h))]

/-- The decoder undoes an encoding if and only if the last line of the even field ends with the
fill code or there is nothing to see in the odd one. -/
theorem decompress_undoes {spu : SpuItem} {image : Nat → Nat → Fin 4} {e : SpuEncoding spu.w spu.h} (ho : e.Of image)
    (hw : 0 < spu.w) (hh : 0 < spu.h)
    (heven : FieldAt spu.byte spu.size spu.line1 e.even)
    (hodd : FieldAt spu.byte spu.size spu.line2 e.odd) :
    (∀ y < spu.h, ∀ x < spu.w, demuxSpuDecompress spu (y * spu.w + x) = UInt8.ofNat (image y x)) ↔
      e.FillsLast ∨ ∀ y < spu.h, ∀ x < spu.w, y % 2 = 1 → image y x = 0 := by
  obtain ⟨hboth, hone⟩ := decompress_fields e hw hh heven hodd
  by_cases hf : e.FillsLast
  · refine ⟨fun _ => .inl hf, fun _ y hy x hx => ?_⟩
    rw [hboth hf]
    rcases Nat.mod_two_eq_zero_or_one y with h0 | h1
    · rw [Decoder.drawField_other hx (by omega)]
      exact ho.even_pixel hy hx h0
    · exact ho.odd_pixel hy hx h1
  · have hpix (y x : Nat) (hy : y < spu.h) (hx : x < spu.w) : demuxSpuDecompress spu (y * spu.w + x) =
        if y % 2 = 1 then 0 else UInt8.ofNat (image y x) := by
      rw [hone hf]
      split
      · exact Decoder.drawField_other hx (by omega)
      · exact ho.even_pixel hy hx (by omega)
    constructor
    · intro hall
      refine .inr fun y hy x hx h1 => ?_
      have he := hall y hy x hx
      rw [hpix y x hy hx, if_pos h1] at he
      generalize image y x = c at he ⊢
      revert he
      revert c
      decide
    · rintro (hfill | hzero) y hy x hx
      · exact absurd hfill hf
      · rw [hpix y x hy hx]
        split
        · rename_i h1
          rw [hzero y hy x hx h1]
          rfl
        · rfl

/-- A picture of two pixels, 1 above 2, both lines ended by the fill code. -/
def filledItem : SpuItem := { data := some [0x00, 0x01, 0x00, 0x02], size := 4, w := 1, h := 2, line1 := 0, line2 := 2 }

def filledEncoding : SpuEncoding 1 2 where
  even := [⟨[], some 1, by decide⟩]
  odd := [⟨[], some 2, by decide⟩]
  even_length := rfl
  odd_length := rfl

theorem decompress_undoes_filled : demuxSpuDecompress filledItem 0 = 1 ∧ demuxSpuDecompress filledItem 1 = 2 := by
  have hof : filledEncoding.Of fun y _ => if y = 0 then 1 else 2 := ⟨by decide, by decide⟩
  have hfield := @decompress_undoes filledItem _ filledEncoding hof (by decide) (by decide)
    ⟨2, by decide, ⟨0, rfl, by unfold CodeAt; decide, rfl⟩, trivial⟩
    ⟨4, by decide, ⟨4, rfl, by unfold CodeAt; decide, rfl⟩, trivial⟩
  have himg := hfield.mpr (.inl ⟨_, rfl, rfl⟩)
  exact ⟨himg 0 (by decide) 0 (by decide), himg 1 (by decide) 0 (by decide)⟩

/-- The same picture, both lines filled exactly by a run of one pixel. -/
def exactItem : SpuItem := { data := some [0x50, 0x60], size := 2, w := 1, h := 2, line1 := 0, line2 := 1 }

def exactEncoding : SpuEncoding 1 2 where
  even := [⟨[⟨1, 5, by simp [CodeOk], by decide⟩], none, by decide⟩]
  odd := [⟨[⟨1, 6, by simp [CodeOk], by decide⟩], none, by decide⟩]
  even_length := rfl
  odd_length := rfl

theorem exact_line_loses_field : ¬ ∀ (spu : SpuItem) (image : Nat → Nat → Fin 4) (e : SpuEncoding spu.w spu.h),
    e.Of image → 0 < spu.w → 0 < spu.h → FieldAt spu.byte spu.size spu.line1 e.even →
    FieldAt spu.byte spu.size spu.line2 e.odd →
    ∀ y < spu.h, ∀ x < spu.w, demuxSpuDecompress spu (y * spu.w + x) = UInt8.ofNat (image y x) := by
  intro h
  have hodd := h exactItem (fun y _ => if y = 0 then 1 else 2) exactEncoding ⟨by decide, by decide⟩ (by decide) (by decide)
    ⟨1, by decide, ⟨1, ⟨by unfold CodeAt; decide, rfl⟩, rfl⟩, trivial⟩
    ⟨2, by decide, ⟨3, ⟨by unfold CodeAt; decide, rfl⟩, rfl⟩, trivial⟩ 1 (by decide) 0 (by decide)
  exact absurd hodd (by decide)

end Mvpmc.Demux
