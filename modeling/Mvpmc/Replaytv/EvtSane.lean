import Mvpmc.Replaytv.EvtMarks

/-! Which event files have sane commercial blocks. -/
namespace Mvpmc.Replaytv.EvtFile
open Mvpmc.Lib

/-- The indices stay in the history and in the array of blocks. -/
def Inside (s : Segments) : Prop := (∀ i ∈ s.addUsed, i < 20) ∧ ∀ u ∈ s.blockUsed, 0 ≤ u.1 ∧ u.1 < u.2

/-- Each block lasts at most six minutes and starts after the one in front of it has stopped. -/
def SaneBlocks (blocks : List ProgSeg) : Prop :=
  (∀ b ∈ blocks, b.start ≤ b.stop ∧ b.stop - b.start ≤ 360000) ∧ blocks.IsChain fun b c => b.stop < c.start

/-- The blocks in front of the sanity check, told by the edit points. -/
def candidates (fresh : Nat → UInt32) (last : UInt32) (ms : List Mark) : List ProgSeg :=
  withEarlierEnd (addsOf ms) (withoutBogus (blocksOf fresh last 0 0 ms))

/-- What the edit points of a recording have to be like. -/
structure Tidy (adds : List UInt32) (blocks : List ProgSeg) : Prop where
  few : adds.length ≤ 20
  started : blocks = [] → earlierAdd adds = none
  apart : Apart tooLong blocks
  unwrapped : ∀ b ∈ blocks, tooLong b = false → b.start ≤ b.stop
  ordered : (blocks.filter fun b => !tooLong b).IsChain fun b c => b.stop < c.start

section Sweep

theorem tooLong_false_iff {b : ProgSeg} : tooLong b = false ↔ b.stop - b.start ≤ 360000 := by
  simp [tooLong]

/-- The sanity check leaves sane blocks if and only if it had not to be done twice. -/
theorem saneBlocks_sweep_iff (blocks : List ProgSeg) :
    SaneBlocks (sweep tooLong blocks) ↔ Apart tooLong blocks ∧ (∀ b ∈ blocks, tooLong b = false → b.start ≤ b.stop) ∧
      (blocks.filter fun b => !tooLong b).IsChain fun b c => b.stop < c.start := by
  have hmem (h : Apart tooLong blocks) (b : ProgSeg) : b ∈ sweep tooLong blocks ↔ b ∈ blocks ∧ tooLong b = false := by
    rw [sweep_eq_filter h, List.mem_filter, Bool.not_eq_true']
  constructor
  · rintro ⟨hb, hchain⟩
    have hapart : Apart tooLong blocks := apart_of_sweep fun b hmem => tooLong_false_iff.mpr (hb b hmem).2
    rw [sweep_eq_filter hapart] at hchain
    exact ⟨hapart, fun b hmem' hb' => (hb b ((hmem hapart b).mpr ⟨hmem', hb'⟩)).1, hchain⟩
  · rintro ⟨hapart, hle, hchain⟩
    refine ⟨fun b hb => ?_, by rwa [sweep_eq_filter hapart]⟩
    obtain ⟨hmem, hshort⟩ := (hmem hapart b).mp hb
    exact ⟨hle b hmem hshort, tooLong_false_iff.mp hshort⟩

end Sweep

section ThrowOut

def InRange (used : List (Int × Nat)) : Prop := ∀ u ∈ used, 0 ≤ u.1 ∧ u.1 < u.2

theorem inRange_cons {i : Int} {n : Nat} {used : List (Int × Nat)} :
    InRange ((i, n) :: used) ↔ (0 ≤ i ∧ i < n) ∧ InRange used := List.forall_mem_cons

theorem inRange_append {used used' : List (Int × Nat)} : InRange (used ++ used') ↔ InRange used ∧ InRange used' :=
  List.forall_mem_append

/-- The copies behind a block that is thrown out. -/
theorem inRange_moved (i n : Nat) : InRange (((List.range n).drop i).map fun j : Nat => ((j : Int), n)) := by
  intro u hu
  obtain ⟨j, hj, rfl⟩ := List.mem_map.mp hu
  have hlt := List.mem_range.mp (List.mem_of_mem_drop hj)
  exact ⟨Int.natCast_nonneg j, Int.ofNat_lt.mpr hlt⟩

theorem throwOut_of_le {i : Nat} {s : Segments} (h : s.blocks.length ≤ i) : throwOut i s = s := by
  rw [throwOut, dif_neg (Nat.not_lt.mpr h)]

/-- One turn of the loop. -/
theorem throwOut_step {front rest : List ProgSeg} {x : ProgSeg} {s : Segments} (h : s.blocks = front ++ x :: rest) :
    ∃ t : Segments, throwOut front.length s = throwOut (front.length + 1) t ∧
      t.blocks = (if tooLong x then front ++ rest else front ++ x :: rest) ∧ t.addUsed = s.addUsed ∧
      (InRange t.blockUsed ↔ InRange s.blockUsed) := by
  have hi : front.length < s.blocks.length := by simp [h]
  have hx : s.blocks[front.length] = x := by simp [h]
  have herase : s.blocks.eraseIdx front.length = front ++ rest := by
    rw [h, List.eraseIdx_append_of_length_le (Nat.le_refl _), Nat.sub_self, List.eraseIdx_cons_zero]
  have hused : (0 : Int) ≤ front.length ∧ (front.length : Int) < s.blocks.length := by omega
  rw [throwOut, dif_pos hi, hx]
  by_cases hbad : tooLong x = true
  · simp only [if_pos hbad]
    refine ⟨_, rfl, herase, rfl, ?_⟩
    simp only [inRange_append, inRange_cons, hused, inRange_moved, true_and, and_self]
  · simp only [if_neg hbad]
    refine ⟨_, rfl, h, rfl, ?_⟩
    simp only [inRange_cons, hused, true_and, and_self]

/-- The loop sweeps the blocks. -/
theorem throwOut_spec (front rest : List ProgSeg) {s : Segments} (h : s.blocks = front ++ rest) :
    (throwOut front.length s).blocks = front ++ sweep tooLong rest ∧
      (throwOut front.length s).addUsed = s.addUsed ∧
      (InRange (throwOut front.length s).blockUsed ↔ InRange s.blockUsed) := by
  induction rest using sweep.induct tooLong generalizing front s with
  | case1 =>
    rw [throwOut_of_le (by simp [h])]
    exact ⟨h, rfl, Iff.rfl⟩
  | case2 x hx =>
    obtain ⟨t, ht, hblocks, hadd, hrange⟩ := throwOut_step h
    rw [if_pos hx] at hblocks
    rw [ht, throwOut_of_le (by simp [hblocks]), sweep, if_pos hx]
    exact ⟨hblocks, hadd, hrange⟩
  | case3 x hx =>
    obtain ⟨t, ht, hblocks, hadd, hrange⟩ := throwOut_step h
    rw [if_neg hx] at hblocks
    rw [ht, throwOut_of_le (by simp [hblocks]), sweep, if_neg hx]
    exact ⟨hblocks, hadd, hrange⟩
  | case4 x y xs hx ih =>
    obtain ⟨t, ht, hblocks, hadd, hrange⟩ := throwOut_step h
    rw [if_pos hx] at hblocks
    obtain ⟨hb, ha, hr⟩ := ih (front ++ [y]) (s := t) (by rw [hblocks, List.append_assoc, List.singleton_append])
    rw [List.length_append, List.length_singleton] at hb ha hr
    rw [ht, hb, ha, hr, hadd, hrange, sweep, if_pos hx, List.append_assoc, List.singleton_append]
    exact ⟨rfl, rfl, Iff.rfl⟩
  | case5 x y xs hx ih =>
    obtain ⟨t, ht, hblocks, hadd, hrange⟩ := throwOut_step h
    rw [if_neg hx] at hblocks
    obtain ⟨hb, ha, hr⟩ := ih (front ++ [x]) (s := t) (by rw [hblocks, List.append_assoc, List.singleton_append])
    rw [List.length_append, List.length_singleton] at hb ha hr
    rw [ht, hb, ha, hr, hadd, hrange, sweep, if_neg hx, List.append_assoc, List.singleton_append]
    exact ⟨rfl, rfl, Iff.rfl⟩

end ThrowOut

section Run
variable (fresh : Nat → UInt32) {s : Segments}

theorem blocks_of_no_block (h : s.blocks = []) (ms : List Mark) (last : UInt32) :
    ((ms.foldl (Segments.mark fresh) s).withTime last).endLast.blocks = blocksOf fresh last 0 s.lastAdded ms := by
  induction ms generalizing s with
  | nil =>
    have hlast : (s.withTime last).blocks.getLast? = none := by rw [Segments.withTime, h]; rfl
    rw [List.foldl_nil, Segments.endLast, hlast]
    exact h
  | cons m ms ih =>
    rw [List.foldl_cons]
    cases m with
    | add time =>
      have hblocks : (s.mark fresh (.add time)).blocks = [] := (Segments.addPoint_blocks _).trans h
      rw [ih hblocks, Segments.mark, Segments.addPoint_lastAdded]
      rfl
    | start time =>
      have hblocks : (s.mark fresh (.start time)).blocks = [] ++ [⟨time, fresh ([] : List ProgSeg).length⟩] := by
        rw [Segments.mark, Segments.startBlock, if_neg (by simp [h]), Segments.pushBlock, h]
      rw [Segments.blocks_of_marks fresh hblocks, Segments.mark, Segments.startBlock_lastAdded]
      rfl

/-- The history holds the points added, unless it has overflowed. -/
structure History (s : Segments) (adds : List UInt32) : Prop where
  few : adds.length ≤ 20 → s.addcount = adds.length ∧ (∀ i < adds.length, adds[i]? = some (s.addpoint i)) ∧
    ∀ i ∈ s.addUsed, i < 20
  many : 20 < adds.length → 20 ∈ s.addUsed

theorem History.addPoint {adds : List UInt32} (h : History s adds) (h0 : s.lastAdded ≠ 0) :
    History s.addPoint (adds ++ [s.lastAdded]) := by
  rw [Segments.addPoint, if_pos h0]
  constructor
  · intro hlen
    rw [List.length_append, List.length_singleton] at hlen
    obtain ⟨hcount, hpoint, hused⟩ := h.few (by omega)
    have hcompact : s.compact = s := by rw [Segments.compact, if_neg (by omega)]
    simp only [hcompact, hcount, List.length_append, List.length_singleton]
    refine ⟨trivial, fun i hi => ?_, List.forall_mem_cons.mpr ⟨by omega, hused⟩⟩
    by_cases hlast : i = adds.length
    · rw [hlast, Function.update_self, List.getElem?_concat_length]
    · rw [Function.update_of_ne hlast, List.getElem?_append_left (by omega), hpoint i (by omega)]
  · intro hlen
    rw [List.length_append, List.length_singleton] at hlen
    rcases Nat.lt_or_ge 20 adds.length with hmany | hfew
    · have hcompact : 20 ∈ s.compact.addUsed := by
        rw [Segments.compact]
        split
        · exact List.mem_append_right _ (h.many hmany)
        · exact h.many hmany
      exact List.mem_cons_of_mem _ hcompact
    · obtain ⟨hcount, -, -⟩ := h.few hfew
      have hcompact : s.compact = s := by rw [Segments.compact, if_neg (by omega)]
      simp only [hcompact]
      exact List.mem_cons.mpr (.inl (by omega))

theorem history_marks (ms : List Mark) (h : History s []) : History (ms.foldl (Segments.mark fresh) s) (addsOf ms) := by
  induction ms using List.reverseRecOn with
  | nil => exact h
  | append_singleton ms m ih =>
    rw [List.foldl_concat, addsOf, List.filterMap_append, ← addsOf]
    cases m with
    | add time =>
      have hset : History { ms.foldl (Segments.mark fresh) s with lastAdded := time } (addsOf ms) := ⟨ih.few, ih.many⟩
      by_cases h0 : time = 0
      · have hnone : [Mark.add time].filterMap addTime = [] := by simp [addTime, h0]
        rw [hnone, List.append_nil, Segments.mark, Segments.addPoint, if_neg (by simp [h0])]
        exact hset
      · have hsome : [Mark.add time].filterMap addTime = [time] := by simp [addTime, h0]
        rw [hsome]
        exact hset.addPoint h0
    | start time =>
      have hnone : [Mark.start time].filterMap addTime = [] := rfl
      rw [hnone, List.append_nil, Segments.mark, Segments.startBlock]
      split <;> exact ⟨ih.few, ih.many⟩

theorem inRange_setStop {i : Int} (stop : UInt32) (hs : InRange s.blockUsed) (hi : 0 ≤ i ∧ i < s.blocks.length) :
    InRange (s.setStop i stop).blockUsed := inRange_cons.mpr ⟨hi, hs⟩

theorem inRange_marks (ms : List Mark) (hs : InRange s.blockUsed) : InRange (ms.foldl (Segments.mark fresh) s).blockUsed := by
  induction ms generalizing s with
  | nil => exact hs
  | cons m ms ih =>
    refine ih ?_
    cases m with
    | add time =>
      by_cases h0 : time = 0
      · simpa [Segments.mark, Segments.addPoint, h0] using hs
      · by_cases hfull : 20 < s.addcount <;> simpa [Segments.mark, Segments.addPoint, Segments.compact, h0, hfull] using hs
    | start time =>
      have hpush : InRange (s.pushBlock fresh time).blockUsed := inRange_cons.mpr ⟨by omega, hs⟩
      rw [Segments.mark, Segments.startBlock]
      split
      · next hc => exact inRange_setStop _ hpush (by simp only [Segments.pushBlock, List.length_append]; omega)
      · exact hpush

theorem length_setStop (s : Segments) (i : Int) (stop : UInt32) : (s.setStop i stop).blocks.length = s.blocks.length := by
  rw [Segments.setStop]
  dsimp only
  split
  · exact List.length_modify ..
  · rfl

theorem inRange_endLast (hs : InRange s.blockUsed) : InRange s.endLast.blockUsed := by
  rw [Segments.endLast]
  split
  · exact hs
  · next b hb =>
    have hpos : 0 < s.blocks.length := List.length_pos_of_mem (List.mem_of_getLast? hb)
    have hset : InRange (s.setStop ((s.blocks.length : Int) - 1) s.lasttime).blockUsed := inRange_setStop _ hs (by omega)
    have hlen := length_setStop s ((s.blocks.length : Int) - 1) s.lasttime
    have hread := inRange_cons.mpr (⟨⟨by omega, by omega⟩, hset⟩ :
      (0 ≤ (s.blocks.length : Int) - 1 ∧
        (s.blocks.length : Int) - 1 < ((s.setStop ((s.blocks.length : Int) - 1) s.lasttime).blocks.length : Nat)) ∧ _)
    dsimp only
    split
    · exact inRange_setStop _ hread (by simp only [hlen]; omega)
    · exact hread

theorem History.endLast {adds : List UInt32} (h : History s adds) : History s.endLast adds := by
  rw [Segments.endLast]
  split
  · exact h
  · dsimp only
    split <;> exact ⟨h.few, h.many⟩

theorem dropBogus_spec (s : Segments) :
    s.dropBogus.blocks = withoutBogus s.blocks ∧ (InRange s.blockUsed → InRange s.dropBogus.blockUsed) ∧
      ∀ adds, History s adds → History s.dropBogus adds := by
  rw [Segments.dropBogus]
  rcases List.eq_nil_or_concat s.blocks with hnil | ⟨front, last, hblocks⟩
  · simp [hnil, withoutBogus]
  rcases List.eq_nil_or_concat front with rfl | ⟨front, before, rfl⟩
  · simp [hblocks, withoutBogus]
  · have hlen : s.blocks.length = front.length + 2 := by simp [hblocks]
    have hlast : s.blocks[s.blocks.length - 1]? = some last := by rw [hlen, hblocks]; simp
    have hbefore : s.blocks[s.blocks.length - 2]? = some before := by rw [hlen, hblocks]; simp
    have hwithout : withoutBogus s.blocks = if last.start ≤ before.stop then s.blocks.dropLast else s.blocks := by
      rw [withoutBogus, hblocks]
      simp
    have hrange (hs : InRange s.blockUsed) : InRange (((s.blocks.length : Int) - 1, s.blocks.length) ::
        ((s.blocks.length : Int) - 2, s.blocks.length) :: s.blockUsed) := by
      rw [inRange_cons, inRange_cons]
      exact ⟨by omega, by omega, hs⟩
    rw [if_pos (by omega)]
    simp only [hlast, hbefore, hwithout]
    split
    · exact ⟨rfl, hrange, fun _ h => ⟨h.few, h.many⟩⟩
    · exact ⟨rfl, hrange, fun _ h => ⟨h.few, h.many⟩⟩

theorem setStop_last_blocks (s : Segments) (stop : UInt32) :
    (s.setStop ((s.blocks.length : Int) - 1) stop).blocks =
      s.blocks.modify (s.blocks.length - 1) fun b => { b with stop := stop } := by
  rw [Segments.setStop]
  rcases Nat.eq_zero_or_pos s.blocks.length with h0 | hpos
  · have hnil : s.blocks = [] := List.length_eq_zero_iff.mp h0
    simp [hnil]
  · have hi : 0 ≤ (s.blocks.length : Int) - 1 := by omega
    have hnat : ((s.blocks.length : Int) - 1).toNat = s.blocks.length - 1 := by omega
    simp only [if_pos hi, hnat]

/-- The last two points are the ones that `endEarlier` compares. -/
theorem History.lastTwo {adds front : List UInt32} {a b : UInt32} (h : History s adds) (hfew : adds.length ≤ 20)
    (hadds : adds = (front.concat b).concat a) :
    1 < s.addcount ∧ s.addpoint (s.addcount - 1) = a ∧ s.addpoint (s.addcount - 1 - 1) = b := by
  obtain ⟨hcount, hpoint, -⟩ := h.few hfew
  have hlen : adds.length = front.length + 2 := by simp [hadds]
  have hc : s.addcount - 1 = front.length + 1 := by omega
  have ha := hpoint (front.length + 1) (by omega)
  have hb := hpoint front.length (by omega)
  rw [hadds] at ha hb
  rw [hc, Nat.add_sub_cancel]
  exact ⟨by omega, by simpa using ha.symm, by simpa using hb.symm⟩

/-- Without a block there is none that could end earlier. -/
theorem endEarlier_spec {adds : List UInt32} (h : History s adds) (hfew : adds.length ≤ 20) :
    s.endEarlier.blocks = withEarlierEnd adds s.blocks ∧ (∀ i ∈ s.endEarlier.addUsed, i < 20) ∧
      (InRange s.endEarlier.blockUsed ↔ InRange s.blockUsed ∧ (s.blocks = [] → earlierAdd adds = none)) := by
  obtain ⟨hcount, -, hused⟩ := h.few hfew
  have hshort (hlen : ¬ 1 < s.addcount) (hnone : earlierAdd adds = none) :
      s.endEarlier.blocks = withEarlierEnd adds s.blocks ∧ (∀ i ∈ s.endEarlier.addUsed, i < 20) ∧
        (InRange s.endEarlier.blockUsed ↔ InRange s.blockUsed ∧ (s.blocks = [] → earlierAdd adds = none)) := by
    rw [Segments.endEarlier, if_neg hlen, withEarlierEnd, hnone]
    exact ⟨rfl, hused, by simp⟩
  rcases List.eq_nil_or_concat adds with rfl | ⟨front, a, hadds⟩
  · exact hshort (by simp [hcount]) rfl
  rcases List.eq_nil_or_concat front with rfl | ⟨front, b, rfl⟩
  · subst hadds
    exact hshort (by simp [hcount]) rfl
  obtain ⟨htwo, ha, hb⟩ := h.lastTwo hfew hadds
  have hearlier : earlierAdd adds = if 60000 < a - b then some b else none := by
    rw [earlierAdd, hadds]
    simp
  have hused2 : ∀ i ∈ [s.addcount - 1, s.addcount - 1 - 1] ++ s.addUsed, i < 20 := by
    rw [List.forall_mem_append]
    exact ⟨by simp; omega, hused⟩
  rw [Segments.endEarlier, if_pos htwo]
  simp only [ha, hb, withEarlierEnd, hearlier]
  by_cases hgap : 60000 < a - b
  · simp only [if_pos hgap]
    refine ⟨setStop_last_blocks _ b, List.forall_mem_cons.mpr ⟨by omega, hused2⟩, ?_⟩
    have hrange : InRange (((s.blocks.length : Int) - 1, s.blocks.length) :: s.blockUsed) ↔
        InRange s.blockUsed ∧ (s.blocks = [] → some b = none) := by
      rw [inRange_cons, and_comm]
      refine and_congr_right fun _ => ⟨fun h hnil => ?_, fun h => ?_⟩
      · simp only [hnil, List.length_nil] at h
        omega
      · have hpos : 0 < s.blocks.length := List.length_pos_of_ne_nil fun hnil => by cases h hnil
        omega
    exact hrange
  · simp only [if_neg hgap]
    exact ⟨trivial, hused2, by simp⟩

end Run

theorem mem_endEarlier {s : Segments} {i : Nat} (h : i ∈ s.addUsed) : i ∈ s.endEarlier.addUsed := by
  rw [Segments.endEarlier]
  split
  · dsimp only
    split
    · exact List.mem_cons_of_mem _ (List.mem_append_right _ h)
    · exact List.mem_append_right _ h
  · exact h

theorem withEarlierEnd_eq_nil {adds : List UInt32} {blocks : List ProgSeg} :
    withEarlierEnd adds blocks = [] ↔ blocks = [] := by
  rw [withEarlierEnd]
  split
  · rw [← List.length_eq_zero_iff, List.length_modify, List.length_eq_zero_iff]
  · rfl

/-- The blocks, the indices and the history in front of the last correction. -/
theorem segments_spec (fresh : Fresh) (progsegMin sceneMin : UInt32) (times : List UInt32) :
    let ms := marks progsegMin sceneMin 0 times
    let s := (times.foldl (Segments.edit progsegMin sceneMin fresh.stop) { addpoint := fresh.addpoint }).endLast.dropBogus
    s.blocks = withoutBogus (blocksOf fresh.stop (times.foldl lastAfter 0) 0 0 ms) ∧ InRange s.blockUsed ∧
      History s (addsOf ms) := by
  intro ms s
  have hempty : History { addpoint := fresh.addpoint } [] := ⟨fun _ => ⟨rfl, by simp, by simp⟩, by simp⟩
  have hmarks := history_marks fresh.stop ms hempty
  have hrange : InRange (ms.foldl (Segments.mark fresh.stop) { addpoint := fresh.addpoint }).blockUsed :=
    inRange_marks fresh.stop ms (by simp [InRange])
  have hblocks := blocks_of_no_block fresh.stop (s := { addpoint := fresh.addpoint }) rfl ms (times.foldl lastAfter 0)
  have hfold := Segments.foldl_edit fresh.stop progsegMin sceneMin { addpoint := fresh.addpoint } times
  obtain ⟨hdrop, hdroprange, hhistory⟩ := dropBogus_spec
    ((ms.foldl (Segments.mark fresh.stop) { addpoint := fresh.addpoint }).withTime (times.foldl lastAfter 0)).endLast
  have hs : s = ((ms.foldl (Segments.mark fresh.stop) { addpoint := fresh.addpoint }).withTime
      (times.foldl lastAfter 0)).endLast.dropBogus := congrArg (fun t => Segments.dropBogus (Segments.endLast t)) hfold
  have htimed : History ((ms.foldl (Segments.mark fresh.stop) { addpoint := fresh.addpoint }).withTime
      (times.foldl lastAfter 0)) (addsOf ms) := ⟨hmarks.few, hmarks.many⟩
  rw [hs]
  exact ⟨hdrop.trans (congrArg withoutBogus hblocks), hdroprange (inRange_endLast hrange), hhistory _ htimed.endLast⟩

/-- The second pass, for every list of fades. -/
theorem sane_segments_iff (fresh : Fresh) (progsegMin sceneMin : UInt32) (fades : List FadePt) :
    let ms := marks progsegMin sceneMin 0 (middles fades)
    let s := throwOut 0 (segments fresh progsegMin sceneMin fades)
    Inside s ∧ SaneBlocks s.blocks ↔ Tidy (addsOf ms) (candidates fresh.stop ((middles fades).foldl lastAfter 0) ms) := by
  intro ms s
  obtain ⟨hblocks, hrange, hhistory⟩ := segments_spec fresh progsegMin sceneMin (middles fades)
  obtain ⟨hswept, hadd, hused⟩ := throwOut_spec [] _ (List.nil_append (segments fresh progsegMin sceneMin fades).blocks).symm
  rw [List.nil_append, List.length_nil] at hswept
  by_cases hfew : (addsOf ms).length ≤ 20
  · obtain ⟨hearlier, hadds, hinside⟩ := endEarlier_spec hhistory hfew
    have hcandidates : (segments fresh progsegMin sceneMin fades).blocks =
        candidates fresh.stop ((middles fades).foldl lastAfter 0) ms := by
      rw [candidates, ← hblocks]
      exact hearlier
    have hstart : Inside s ↔ (candidates fresh.stop ((middles fades).foldl lastAfter 0) ms = [] →
        earlierAdd (addsOf ms) = none) := by
      rw [candidates, withEarlierEnd_eq_nil, ← hblocks]
      constructor
      · rintro ⟨-, hu⟩
        exact (hinside.mp (hused.mp hu)).2
      · intro hn
        refine ⟨?_, hused.mpr (hinside.mpr ⟨hrange, hn⟩)⟩
        rw [show s.addUsed = _ from hadd]
        exact hadds
    rw [show s.blocks = _ from hswept, hcandidates, saneBlocks_sweep_iff, hstart]
    constructor
    · rintro ⟨h1, h2, h3, h4⟩
      exact ⟨hfew, h1, h2, h3, h4⟩
    · rintro ⟨-, h1, h2, h3, h4⟩
      exact ⟨h1, h2, h3, h4⟩
  · have hmem : 20 ∈ s.addUsed := by
      rw [show s.addUsed = _ from hadd]
      exact mem_endEarlier (hhistory.many (Nat.lt_of_not_le hfew))
    constructor
    · rintro ⟨⟨hin, -⟩, -⟩
      exact absurd (hin 20 hmem) (by decide)
    · intro h
      exact absurd h.few hfew

/-- A file that is accepted has sane commercial blocks if and only if its edit points are tidy: at most 20 are added, there
is a block for the last of them to end where they are more than a minute apart, no two neighbouring blocks last more than
six minutes, and those that do not neither wrap around nor overlap. -/
theorem sane_iff_tidy (fresh : Fresh) (pSegMin sceneMin : UInt32) (file : List UInt8) :
    (∀ s ∈ parseEvtFile fresh pSegMin sceneMin file, Inside s ∧ SaneBlocks s.blocks) ↔
      ∀ recs ∈ evtRecords file,
        let times := middles (fadePoints recs)
        let ms := marks (pSegMin * 1000) (sceneMin * 1000) 0 times
        Tidy (addsOf ms) (candidates fresh.stop (times.foldl lastAfter 0) ms) := by
  rw [parseEvtFile]
  cases evtRecords file with
  | none => simp
  | some recs =>
    simp only [Option.map_some, Option.mem_some_iff, forall_eq']
    exact sane_segments_iff fresh (pSegMin * 1000) (sceneMin * 1000) (fadePoints recs)

/-- The event file of a recording whose picture is black at the given seconds. -/
def blackAt (seconds : List Nat) : List UInt8 :=
  List.replicate RTV_EVT_HDR_SZ 0 ++ seconds.flatMap fun t =>
    [t * 1000000000 / 2 ^ 32, t * 1000000000, 0, 2, 0, 0].flatMap fun x => toNetwork (UInt32.ofNat x)

/-- Two breaks, each of seven and a half minutes. -/
def twoLongBreaks : List UInt8 := blackAt [100, 250, 400, 550, 1000, 1150, 1300, 1450, 1600, 1750]

/-- Both breaks are in the array when the sanity check begins. -/
theorem segments_twoLongBreaks : (evtRecords twoLongBreaks).map (fun recs =>
    (segments ⟨fun _ => 0, fun _ => 0⟩ (180 * 1000) (3 * 1000) (fadePoints recs)).blocks) =
      some [⟨100000, 550000⟩, ⟨1000000, 1450000⟩] := by
  decide +kernel

/-- The second break takes the place of the first one and stays. -/
theorem longBreak_kept : ¬ ∀ s ∈ parseEvtFile ⟨fun _ => 0, fun _ => 0⟩ 180 3 twoLongBreaks, Inside s ∧ SaneBlocks s.blocks := by
  intro h
  obtain ⟨recs, hrecs, hblocks⟩ := Option.map_eq_some_iff.mp segments_twoLongBreaks
  have hsane := (h _ (by rw [parseEvtFile, hrecs]; rfl)).2
  have hswept := (throwOut_spec [] _ hblocks).1
  rw [List.length_nil, List.nil_append] at hswept
  rw [hswept] at hsane
  have hlast := (hsane.1 ⟨1000000, 1450000⟩ (List.mem_singleton.mpr rfl)).2
  exact absurd hlast (by decide)

end Mvpmc.Replaytv.EvtFile
