import Mvpmc.Replaytv.EvtSane

/-! Recordings whose fades come one after the other. -/
namespace Mvpmc.Replaytv.EvtFile
open Mvpmc.Lib

def Mark.time : Mark → UInt32
  | .add time => time
  | .start time => time

section Marks
variable {fresh : Nat → UInt32} {last : UInt32}

theorem classify_time {progsegMin sceneMin last time : UInt32} {m : Mark}
    (h : classify progsegMin sceneMin last time = some m) : m.time = time := by
  rw [classify] at h
  split at h
  · split at h <;> exact (Option.some.inj h) ▸ rfl
  · cases h

/-- The marks are fades, in their order. -/
theorem marks_sublist (progsegMin sceneMin last : UInt32) (times : List UInt32) :
    ((marks progsegMin sceneMin last times).map Mark.time).Sublist times := by
  induction times generalizing last with
  | nil => exact .slnil
  | cons time times ih =>
    rw [marks]
    cases hc : classify progsegMin sceneMin last time with
    | none => exact (ih _).cons _
    | some m =>
      have htime := classify_time hc
      subst htime
      exact (ih _).cons_cons _

/-- Marks in time order behind a point that has been added. -/
structure Later (added : UInt32) (ms : List Mark) : Prop where
  pos : 0 < added
  behind : ∀ m ∈ ms, added < m.time
  sorted : ms.Pairwise fun m m' => m.time < m'.time

theorem Later.add {added time : UInt32} {ms : List Mark} (h : Later added (.add time :: ms)) : Later time ms where
  pos := UInt32.lt_trans h.pos (h.behind _ List.mem_cons_self)
  behind := (List.pairwise_cons.mp h.sorted).1
  sorted := (List.pairwise_cons.mp h.sorted).2

theorem Later.tail {added : UInt32} {m : Mark} {ms : List Mark} (h : Later added (m :: ms)) : Later added ms where
  pos := h.pos
  behind m' hm := h.behind m' (List.mem_cons_of_mem _ hm)
  sorted := (List.pairwise_cons.mp h.sorted).2

/-- A block in front of another start ends before it. -/
theorem endOf_lt {added start time : UInt32} {k : Nat} {ms : List Mark} (h : Later added ms) (hs : .start time ∈ ms) :
    endOf fresh k start last added ms < time := by
  induction ms generalizing added with
  | nil => cases hs
  | cons m ms ih =>
    cases m with
    | add t =>
      rw [endOf]
      exact ih h.add ((List.mem_cons.mp hs).resolve_left nofun)
    | start t =>
      have hne : added ≠ 0 := fun h0 => absurd (h0 ▸ h.pos) (by decide)
      rw [endOf, if_neg hne]
      exact h.behind _ hs

theorem mem_blocksOf {b : ProgSeg} {k : Nat} {added : UInt32} {ms : List Mark} (h : b ∈ blocksOf fresh last k added ms) :
    .start b.start ∈ ms := by
  induction ms generalizing k added with
  | nil => cases h
  | cons m ms ih =>
    cases m with
    | add t => exact List.mem_cons_of_mem _ (ih h)
    | start t =>
      rw [blocksOf] at h
      rcases List.mem_cons.mp h with rfl | h
      · exact List.mem_cons_self
      · exact List.mem_cons_of_mem _ (ih h)

/-- Each block ends before all that come behind it. -/
theorem pairwise_blocksOf {k : Nat} {added : UInt32} {ms : List Mark} (h : Later added ms) :
    (blocksOf fresh last k added ms).Pairwise fun b c => b.stop < c.start := by
  induction ms generalizing k added with
  | nil => exact .nil
  | cons m ms ih =>
    cases m with
    | add t => exact ih h.add
    | start t => exact List.pairwise_cons.mpr ⟨fun c hc => endOf_lt h.tail (mem_blocksOf hc), ih h.tail⟩

end Marks

section Corrections
variable {blocks : List ProgSeg}

theorem withoutBogus_sublist : (withoutBogus blocks).Sublist blocks := by
  rw [withoutBogus]
  split
  · split
    · exact List.dropLast_sublist _
    · exact List.Sublist.refl _
  · exact List.Sublist.refl _

/-- Only the end of the last block is changed. -/
theorem withEarlierEnd_cases (blocks : List ProgSeg) (adds : List UInt32) : withEarlierEnd adds blocks = blocks ∨
    ∃ front b stop, blocks = front ++ [b] ∧ withEarlierEnd adds blocks = front ++ [⟨b.start, stop⟩] := by
  rw [withEarlierEnd]
  split
  · next time _ =>
    rcases List.eq_nil_or_concat blocks with rfl | ⟨front, b, rfl⟩
    · exact .inl rfl
    · rw [List.concat_eq_append]
      refine .inr ⟨front, b, time, rfl, ?_⟩
      rw [List.length_append, List.length_singleton, Nat.add_sub_cancel, Segments.modify_concat]
  · exact .inl rfl

theorem pairwise_withEarlierEnd (adds : List UInt32) (h : blocks.Pairwise fun b c => b.stop < c.start) :
    (withEarlierEnd adds blocks).Pairwise fun b c => b.stop < c.start := by
  rcases withEarlierEnd_cases blocks adds with heq | ⟨front, b, stop, hblocks, heq⟩
  · rwa [heq]
  · rw [hblocks, List.pairwise_append] at h
    rw [heq, List.pairwise_append]
    exact ⟨h.1, List.pairwise_singleton _ _, fun c hc d hd => by
      rw [List.mem_singleton.mp hd]
      exact h.2.2 c hc b List.mem_cons_self⟩

theorem start_withEarlierEnd {adds : List UInt32} {b : ProgSeg} (h : b ∈ withEarlierEnd adds blocks) :
    ∃ c ∈ blocks, c.start = b.start := by
  rcases withEarlierEnd_cases blocks adds with heq | ⟨front, c, stop, rfl, heq⟩
  · exact ⟨b, heq ▸ h, rfl⟩
  · rw [heq] at h
    rcases List.mem_append.mp h with h | h
    · exact ⟨b, List.mem_append_left _ h, rfl⟩
    · rw [List.mem_singleton.mp h]
      exact ⟨c, List.mem_append_right _ List.mem_cons_self, rfl⟩

/-- A block that ends before its start is too long, unless it starts in the last six minutes of the count. -/
theorem start_le_stop {b : ProgSeg} (hb : b.start < 4294607296) (h : tooLong b = false) : b.start ≤ b.stop := by
  rw [tooLong_false_iff] at h
  have hstart := b.start.toNat_lt
  have hstop := b.stop.toNat_lt
  simp only [UInt32.lt_iff_toNat_lt, UInt32.le_iff_toNat_le, UInt32.toNat_sub, UInt32.reduceToNat] at hb h ⊢
  omega

end Corrections

/-- Where the fades come one after the other, the first of them in the first minute, only three things can go wrong. -/
theorem tidy_iff_of_increasing (fresh : Nat → UInt32) (progsegMin sceneMin : UInt32) {first : UInt32} {times : List UInt32}
    (hsorted : (first :: times).Pairwise (· < ·)) (hpos : 0 < first) (hfirst : first < 60000)
    (hlast : ∀ time ∈ times, time < 4294607296) :
    let ms := marks progsegMin sceneMin 0 (first :: times)
    let blocks := candidates fresh ((first :: times).foldl lastAfter 0) ms
    Tidy (addsOf ms) blocks ↔
      (addsOf ms).length ≤ 20 ∧ (blocks = [] → earlierAdd (addsOf ms) = none) ∧ Apart tooLong blocks := by
  intro ms blocks
  have hne : first ≠ 0 := fun h0 => absurd (h0 ▸ hpos) (by decide)
  have hms : ms = .add first :: marks progsegMin sceneMin 0 times := by
    have hclass : classify progsegMin sceneMin 0 first = some (.add first) := by simp [classify, hfirst]
    have hafter : lastAfter 0 first = 0 := by simp [lastAfter, hfirst]
    show marks progsegMin sceneMin 0 (first :: times) = _
    rw [marks, hclass, hafter]
    rfl
  have hsub := marks_sublist progsegMin sceneMin 0 times
  obtain ⟨hbehind, htimes⟩ := List.pairwise_cons.mp hsorted
  have hlater : Later first (marks progsegMin sceneMin 0 times) :=
    ⟨hpos, fun m hm => hbehind _ (hsub.subset (List.mem_map_of_mem hm)), List.pairwise_map.mp (htimes.sublist hsub)⟩
  let found := blocksOf fresh ((first :: times).foldl lastAfter 0) 0 0 ms
  have hfound : found = blocksOf fresh ((first :: times).foldl lastAfter 0) 0 first (marks progsegMin sceneMin 0 times) := by
    show blocksOf fresh _ 0 0 ms = _
    rw [hms]
    rfl
  have hpairs : blocks.Pairwise fun b c => b.stop < c.start := by
    refine pairwise_withEarlierEnd _ (List.Pairwise.sublist withoutBogus_sublist ?_)
    show found.Pairwise _
    rw [hfound]
    exact pairwise_blocksOf hlater
  have hunwrapped (b : ProgSeg) (hb : b ∈ blocks) (hshort : tooLong b = false) : b.start ≤ b.stop := by
    obtain ⟨c, hc, hstart⟩ := start_withEarlierEnd hb
    have hmem : c ∈ found := withoutBogus_sublist.subset hc
    rw [hfound] at hmem
    have hmark := hsub.subset (List.mem_map_of_mem (mem_blocksOf hmem))
    exact start_le_stop (hstart ▸ hlast _ hmark) hshort
  constructor
  · intro h
    exact ⟨h.few, h.started, h.apart⟩
  · rintro ⟨hfew, hstarted, hapart⟩
    exact ⟨hfew, hstarted, hapart, hunwrapped, (hpairs.filter _).isChain⟩

end Mvpmc.Replaytv.EvtFile
