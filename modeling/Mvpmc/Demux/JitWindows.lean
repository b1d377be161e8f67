import Mvpmc.Demux.JitAtomic

/-! The windows of `demux_jit_write_audio`, whose bounds wrap at `2 ^ 32`. -/
namespace Mvpmc.Demux

/-- A window is what lies, modulo `2 ^ 32`, no further from its start than its end does. -/
theorem ptsInWindow_iff {windowStart windowEnd : UInt32} (h : windowStart ≠ windowEnd) (check : UInt32) :
    ptsInWindow windowStart windowEnd check = true ↔ check - windowStart ≤ windowEnd - windowStart := by
  have hne : windowStart.toNat ≠ windowEnd.toNat := fun he => h (UInt32.toNat_inj.mp he)
  have h1 := windowStart.toNat_lt
  have h2 := windowEnd.toNat_lt
  have h3 := check.toNat_lt
  unfold ptsInWindow
  split
  · rename_i hlt
    rw [UInt32.lt_iff_toNat_lt] at hlt
    simp only [Bool.and_eq_true, decide_eq_true_eq, UInt32.le_iff_toNat_le, UInt32.toNat_sub]
    omega
  · rename_i hlt
    rw [UInt32.lt_iff_toNat_lt] at hlt
    simp only [Bool.or_eq_true, decide_eq_true_eq, UInt32.le_iff_toNat_le, UInt32.toNat_sub]
    omega

theorem toInt_toInt32_of_lt {u : UInt32} (h : u.toNat < 2 ^ 31) : u.toInt32.toInt = u.toNat := by
  have hbv : u.toBitVec.toNat = u.toNat := rfl
  have hint : u.toInt32.toInt = u.toBitVec.toInt := rfl
  rw [hint, BitVec.toInt_eq_toNat_of_lt (by omega), hbv]

theorem toInt_toInt32_neg {u : UInt32} (h : 2 ^ 31 ≤ u.toNat) : u.toInt32.toInt < 0 := by
  have hbv : u.toBitVec.toNat = u.toNat := rfl
  have hint : u.toInt32.toInt = u.toBitVec.toInt := rfl
  have hlt := u.toNat_lt
  rw [hint, BitVec.toInt_eq_toNat_cond, hbv]
  split <;> omega

/-- Audio is brought in sync after a seek. -/
def AfterSeek (jit : JitAudioData) (mode : Nat) : Prop := mode % 2 = 1 ∧ jit.seekEndPts ≠ 0

instance (jit : JitAudioData) (mode : Nat) : Decidable (AfterSeek jit mode) := inferInstanceAs (Decidable (_ ∧ _))

/-- Audio is kept in sync at other times; the first packets after a seek are let past. -/
def InPlay (jit : JitAudioData) (mode : Nat) : Prop :=
  ¬ AfterSeek jit mode ∧ jit.ignoreFramePts ≤ 0 ∧ mode / 2 % 2 = 1

instance (jit : JitAudioData) (mode : Nat) : Decidable (InPlay jit mode) := inferInstanceAs (Decidable (_ ∧ _))

/-- The window bounds that are computed as a `double`. -/
def realBounds (jit : JitAudioData) (stc : UInt32) (mode : Nat) : List Int :=
  if AfterSeek jit mode then [seekWindowEnd jit] else if InPlay jit mode then [leadWindowEnd stc] else []

/-- The right decision on a packet with the time stamp `pts`. After a seek it is discarded, which it is as
long as `seek_end_pts` stays set, from 30 s to 0.3 s before that time. In play the video pauses for audio
from 20 s behind to 0.1 s ahead, and audio 2 s to 20 s ahead waits. -/
structure DecidesRight (cast : Int → UInt32) (jit : JitAudioData) (stc : UInt32) (mode : Nat) (pts : UInt32) : Prop where
  bounds : ∀ x ∈ realBounds jit stc mode, 0 ≤ x ∧ x < 2 ^ 32
  discards : AfterSeek jit mode → ((jitDecide cast jit stc mode pts).jit.seekEndPts ≠ 0 ↔
    3 * PTS_HZ / 10 ≤ (jit.seekEndPts - pts).toNat ∧ (jit.seekEndPts - pts).toNat ≤ 30 * PTS_HZ)
  pauses : InPlay jit mode → ((jitDecide cast jit stc mode pts).flags / 4 % 2 = 1 ↔
    (stc - pts).toNat ≤ 20 * PTS_HZ ∨ (pts - stc).toNat ≤ PTS_HZ / 10)
  duration : InPlay jit mode → (jitDecide cast jit stc mode pts).flags / 4 % 2 = 1 →
    (jitDecide cast jit stc mode pts).duration = min 500 ((stc + UInt32.ofNat (PTS_HZ / 10) - pts).toNat / PTS_kHz : Nat)
  stalls : InPlay jit mode → ((jitDecide cast jit stc mode pts).flags / 8 % 2 = 1 ↔
    2 * PTS_HZ ≤ (pts - stc).toNat ∧ (pts - stc).toNat ≤ 20 * PTS_HZ)

/-- The real-valued bounds fit an `unsigned int`. -/
def BoundsFit (jit : JitAudioData) (stc : UInt32) (mode : Nat) : Prop :=
  (AfterSeek jit mode → 3 * PTS_HZ / 10 ≤ jit.seekEndPts.toNat ∧ jit.seekEndPts.toNat < 2 ^ 31) ∧
    (InPlay jit mode → stc.toNat + PTS_HZ / 10 < 2 ^ 32)

section
variable {cast : Int → UInt32} {jit : JitAudioData} {stc pts : UInt32} {mode : Nat}

theorem realBounds_fit_iff : (∀ x ∈ realBounds jit stc mode, 0 ≤ x ∧ x < 2 ^ 32) ↔ BoundsFit jit stc mode := by
  by_cases hseek : AfterSeek jit mode
  · have hplay : ¬ InPlay jit mode := fun h => h.1 hseek
    have hb : realBounds jit stc mode = [seekWindowEnd jit] := if_pos hseek
    have hfit : BoundsFit jit stc mode ↔ 27000 ≤ jit.seekEndPts.toNat ∧ jit.seekEndPts.toNat < 2 ^ 31 :=
      ⟨fun h => h.1 hseek, fun h => ⟨fun _ => h, fun h' => absurd h' hplay⟩⟩
    rw [hb, hfit, List.forall_mem_singleton, seekWindowEnd]
    by_cases hbig : jit.seekEndPts.toNat < 2 ^ 31
    · rw [toInt_toInt32_of_lt hbig]
      omega
    · have hneg := toInt_toInt32_neg (not_lt.mp hbig)
      omega
  by_cases hplay : InPlay jit mode
  · have hb : realBounds jit stc mode = [leadWindowEnd stc] := (if_neg hseek).trans (if_pos hplay)
    have hfit : BoundsFit jit stc mode ↔ stc.toNat + 9000 < 2 ^ 32 :=
      ⟨fun h => h.2 hplay, fun h => ⟨fun h' => absurd h' hseek, fun _ => h⟩⟩
    rw [hb, hfit, List.forall_mem_singleton, leadWindowEnd]
    omega
  · have hb : realBounds jit stc mode = [] := (if_neg hseek).trans (if_neg hplay)
    rw [hb]
    exact iff_of_true (by simp) ⟨fun h => absurd h hseek, fun h => absurd h hplay⟩

variable (hcast : ∀ u : UInt32, cast u.toNat = u)
include hcast

theorem cast_seekWindowEnd (h : 27000 ≤ jit.seekEndPts.toNat) (h' : jit.seekEndPts.toNat < 2 ^ 31) :
    cast (seekWindowEnd jit) = jit.seekEndPts - 27000 := by
  rw [← hcast (jit.seekEndPts - 27000), seekWindowEnd, toInt_toInt32_of_lt h']
  congr 1
  have hc : (27000 : UInt32).toNat = 27000 := rfl
  rw [UInt32.toNat_sub, hc]
  omega

theorem cast_leadWindowEnd (h : stc.toNat + 9000 < 2 ^ 32) : cast (leadWindowEnd stc) = stc + 9000 := by
  have hsum : (stc + 9000).toNat = stc.toNat + 9000 := by
    rw [UInt32.toNat_add]
    exact Nat.mod_eq_of_lt h
  rw [← hcast (stc + 9000), hsum, leadWindowEnd]
  push_cast
  rfl

end

/-- From `far` to `near` before `t`. -/
theorem window_before (t pts far near : UInt32) (h : near < far) :
    ptsInWindow (t - far) (t - near) pts = true ↔ near.toNat ≤ (t - pts).toNat ∧ (t - pts).toNat ≤ far.toNat := by
  have hlt := UInt32.lt_iff_toNat_lt.mp h
  have h1 := far.toNat_lt
  have h2 := t.toNat_lt
  have h3 := pts.toNat_lt
  rw [ptsInWindow_iff, UInt32.le_iff_toNat_le]
  · simp only [UInt32.toNat_sub]
    omega
  · intro he
    have he := congrArg UInt32.toNat he
    simp only [UInt32.toNat_sub] at he
    omega

/-- From `behind` before `t` to `ahead` after it. -/
theorem window_around (t pts behind ahead : UInt32) (h : 0 < ahead) (hsum : behind.toNat + ahead.toNat < 2 ^ 32) :
    ptsInWindow (t - behind) (t + ahead) pts = true ↔
      (t - pts).toNat ≤ behind.toNat ∨ (pts - t).toNat ≤ ahead.toNat := by
  have hlt := UInt32.lt_iff_toNat_lt.mp h
  have h2 := t.toNat_lt
  have h3 := pts.toNat_lt
  have h0 : (0 : UInt32).toNat = 0 := rfl
  rw [h0] at hlt
  rw [ptsInWindow_iff, UInt32.le_iff_toNat_le]
  · simp only [UInt32.toNat_sub, UInt32.toNat_add]
    omega
  · intro he
    have he := congrArg UInt32.toNat he
    simp only [UInt32.toNat_sub, UInt32.toNat_add] at he
    omega

/-- From `near` to `far` after `t`. -/
theorem window_after (t pts near far : UInt32) (h : near < far) :
    ptsInWindow (t + near) (t + far) pts = true ↔ near.toNat ≤ (pts - t).toNat ∧ (pts - t).toNat ≤ far.toNat := by
  have hlt := UInt32.lt_iff_toNat_lt.mp h
  have h1 := far.toNat_lt
  have h2 := t.toNat_lt
  have h3 := pts.toNat_lt
  rw [ptsInWindow_iff, UInt32.le_iff_toNat_le]
  · simp only [UInt32.toNat_sub, UInt32.toNat_add]
    omega
  · intro he
    have he := congrArg UInt32.toNat he
    simp only [UInt32.toNat_add] at he
    omega

section
variable {cast : Int → UInt32} {jit : JitAudioData} {stc pts : UInt32} {mode : Nat}

/-- After a seek a packet is discarded if it is in the window. -/
theorem jitDecide_discards_iff (h : AfterSeek jit mode) :
    (jitDecide cast jit stc mode pts).jit.seekEndPts ≠ 0 ↔
      ptsInWindow (jit.seekEndPts - UInt32.ofNat (30 * PTS_HZ)) (cast (seekWindowEnd jit)) pts = true := by
  have hs : mode % 2 = 1 ∧ jit.seekEndPts ≠ 0 := h
  unfold jitDecide
  rw [if_pos hs]
  dsimp only
  split
  · rename_i hin
    exact iff_of_true h.2 hin
  · rename_i hin
    split <;> exact iff_of_false (fun h => h rfl) hin

theorem jitDecide_inPlay (h : InPlay jit mode) : jitDecide cast jit stc mode pts =
    if ptsInWindow (stc - UInt32.ofNat (20 * PTS_HZ)) (cast (leadWindowEnd stc)) pts then
      { jit := jit, flags := 4
        duration :=
          if (500 : Int) < ((cast (leadWindowEnd stc) - pts).toNat / PTS_kHz : Nat) then 500
          else ((cast (leadWindowEnd stc) - pts).toNat / PTS_kHz : Nat) }
    else if ptsInWindow (stc + UInt32.ofNat (2 * PTS_HZ)) (stc + UInt32.ofNat (20 * PTS_HZ)) pts then
      { jit := jit, flags := 8, duration := 10, stall := true }
    else { jit := jit } := by
  obtain ⟨hseek, hignore, hmode⟩ := h
  have hs : ¬ (mode % 2 = 1 ∧ jit.seekEndPts ≠ 0) := hseek
  unfold jitDecide
  rw [if_neg hs, if_neg (not_lt.mpr hignore), if_pos hmode]

theorem jitDecide_pauses_iff (h : InPlay jit mode) :
    (jitDecide cast jit stc mode pts).flags / 4 % 2 = 1 ↔
      ptsInWindow (stc - UInt32.ofNat (20 * PTS_HZ)) (cast (leadWindowEnd stc)) pts = true := by
  rw [jitDecide_inPlay h]
  split
  · rename_i hin
    exact iff_of_true (by simp) hin
  · rename_i hin
    split <;> exact iff_of_false (by simp) hin

theorem jitDecide_duration (h : InPlay jit mode) (hp : (jitDecide cast jit stc mode pts).flags / 4 % 2 = 1) :
    (jitDecide cast jit stc mode pts).duration = min 500 ((cast (leadWindowEnd stc) - pts).toNat / PTS_kHz : Nat) := by
  have hin := (jitDecide_pauses_iff h).mp hp
  rw [jitDecide_inPlay h, if_pos hin]
  dsimp only
  omega

theorem jitDecide_stalls_iff (h : InPlay jit mode) :
    (jitDecide cast jit stc mode pts).flags / 8 % 2 = 1 ↔
      ¬ ptsInWindow (stc - UInt32.ofNat (20 * PTS_HZ)) (cast (leadWindowEnd stc)) pts = true ∧
        ptsInWindow (stc + UInt32.ofNat (2 * PTS_HZ)) (stc + UInt32.ofNat (20 * PTS_HZ)) pts = true := by
  rw [jitDecide_inPlay h]
  split
  · rename_i hin
    exact iff_of_false (by simp) fun hn => hn.1 hin
  · rename_i hin
    split
    · rename_i hlead
      exact iff_of_true (by simp) ⟨hin, hlead⟩
    · rename_i hlead
      exact iff_of_false (by simp) fun hn => hlead hn.2

/-- The decisions are right exactly as long as the real-valued bounds fit an `unsigned int`. A `double` in the
range of that type is converted to its value. -/
theorem decidesRight_iff (hcast : ∀ u : UInt32, cast u.toNat = u) :
    DecidesRight cast jit stc mode pts ↔ BoundsFit jit stc mode := by
  refine ⟨fun h => realBounds_fit_iff.mp h.bounds, fun h => ?_⟩
  have hlead (hp : InPlay jit mode) : cast (leadWindowEnd stc) = stc + 9000 := cast_leadWindowEnd hcast (h.2 hp)
  have hpause (hp : InPlay jit mode) : ptsInWindow (stc - UInt32.ofNat (20 * PTS_HZ)) (cast (leadWindowEnd stc)) pts = true ↔
      (stc - pts).toNat ≤ 20 * PTS_HZ ∨ (pts - stc).toNat ≤ PTS_HZ / 10 := by
    rw [hlead hp]
    exact window_around stc pts (UInt32.ofNat (20 * PTS_HZ)) 9000 (by decide) (by decide)
  refine ⟨realBounds_fit_iff.mpr h, ?_, ?_, ?_, ?_⟩
  · intro hs
    obtain ⟨hge, hlt⟩ := h.1 hs
    rw [jitDecide_discards_iff hs, cast_seekWindowEnd hcast hge hlt]
    exact window_before jit.seekEndPts pts (UInt32.ofNat (30 * PTS_HZ)) 27000 (by decide)
  · intro hp
    rw [jitDecide_pauses_iff hp, hpause hp]
  · intro hp hflag
    rw [jitDecide_duration hp hflag, hlead hp]
    rfl
  · intro hp
    have hstall := window_after stc pts (UInt32.ofNat (2 * PTS_HZ)) (UInt32.ofNat (20 * PTS_HZ)) (by decide)
    rw [jitDecide_stalls_iff hp, hpause hp, hstall]
    -- the window in which audio waits does not meet the other one
    have h1 : (UInt32.ofNat (2 * PTS_HZ)).toNat = 180000 := by decide
    have h2 : (UInt32.ofNat (20 * PTS_HZ)).toNat = 1800000 := by decide
    rw [h1, h2]
    unfold PTS_HZ
    have h3 := stc.toNat_lt
    have h4 := pts.toNat_lt
    simp only [UInt32.toNat_sub]
    omega

end

/-- A conversion that takes what is below zero to zero. -/
def castClamp (x : Int) : UInt32 := UInt32.ofNat x.toNat

theorem castClamp_toNat (u : UInt32) : castClamp u.toNat = u := by
  rw [castClamp, Int.toNat_natCast, UInt32.ofNat_toNat]

/-- Half a second before the time sought a packet is discarded. -/
theorem decidesRight_half_second :
    (jitDecide castClamp { seekEndPts := 1000000 } 0 1 955000).jit.seekEndPts = 1000000 ∧
      (DecidesRight castClamp { seekEndPts := 1000000 } 0 1 955000 ↔ BoundsFit { seekEndPts := 1000000 } 0 1) :=
  ⟨by decide, decidesRight_iff castClamp_toNat⟩

/-- A seek to a time stamp from `2 ^ 31` on leaves a negative end of the window. -/
theorem bound_below_zero : ¬ ∀ (cast : Int → UInt32) (jit : JitAudioData) (stc : UInt32) (mode : Nat) (pts : UInt32),
    (∀ u : UInt32, cast u.toNat = u) → DecidesRight cast jit stc mode pts := by
  intro h
  have hb := (h castClamp { seekEndPts := 0x80000000 } 0 1 0 castClamp_toNat).bounds
  exact absurd hb (by decide)

end Mvpmc.Demux
