import Mvpmc.Av.VidKept

/-! Which event `vid_event_wait_next` hands out, at any clock value. -/
namespace Mvpmc.Av.Queue
open Mvpmc.Lib Mvpmc.Lib.Linked

variable {q : Queue} {a b c : Nat} {l as : List Nat} {now fuel : Nat}

/-- How far `pts` is, modulo `2 ^ 32`, from thirty seconds before `now`. -/
def lateness (now pts : Nat) : Nat := (pts + 2 ^ 32 - seekPts now) % 2 ^ 32

/-- An event at `pts` is due from thirty seconds after its time on, up to a frame before it. -/
def Due (now pts : Nat) : Prop := lateness now pts < ptsHz * 30 + ptsHz / 30

instance : Decidable (Due now b) := inferInstanceAs (Decidable (_ < _))

/-- The right outcome of a search among the events `as`: one of those due that come first, or none. -/
structure Picks (q : Queue) (as : List Nat) (now : Nat) (found : Option Nat) : Prop where
  isSome_iff : found.isSome = true ↔ ∃ a ∈ as, Due now (q.pts a)
  first : ∀ c, found = some c → c ∈ as ∧ Due now (q.pts c) ∧
    ∀ a ∈ as, Due now (q.pts a) → lateness now (q.pts c) ≤ lateness now (q.pts a)

/-- Where the two loops end: at the first event from `seek` on, or at the last event before it. -/
def Sought (q : Queue) (as : List Nat) (seek c : Nat) : Prop :=
  seek ≤ q.pts c ∧ (∀ z ∈ as, seek ≤ q.pts z → q.pts c ≤ q.pts z) ∨
    (∀ z ∈ as, q.pts z < seek) ∧ ∀ z ∈ as, q.pts z ≤ q.pts c

section Loops
variable {seek : Nat}

/-- A walk all the way round that meets no fall meets events of one time only. -/
theorem eq_of_no_fall (hr : IsRing q.next q.prev a l) (h : ∀ z ∈ l ++ [a], q.pts (q.prev z) ≤ q.pts z) :
    ∀ z ∈ a :: l, q.pts z = q.pts a := by
  have hall : ∀ p ∈ (a :: l).map q.pts, p = q.pts a := by
    refine eq_of_round ((List.IsChain.iff_mem_mem_tail.mp hr.chain).imp ?_)
    rintro y z ⟨-, hz, hyz⟩
    have := h z hz
    rwa [hyz.2] at this
  exact fun z hz => hall _ (List.mem_map_of_mem hz)

theorem eq_of_no_fall_next (hr : IsRing q.next q.prev a l) (h : ∀ z ∈ a :: l, q.pts z ≤ q.pts (q.next z)) :
    ∀ z ∈ a :: l, q.pts z = q.pts a := by
  refine eq_of_no_fall hr fun z hz => ?_
  have hz' : z ∈ a :: l.reverse := by simpa [or_comm] using hz
  have hprev : q.prev z ∈ a :: l := by simpa using hr.reverse.next_mem hz'
  have hnext : q.next (q.prev z) = z := hr.reverse.prev_next hz'
  have hle := h (q.prev z) hprev
  rwa [hnext] at hle

/-- The first loop ends before `seek`, or at the smallest time. -/
theorem before_spec (hr : IsRing q.next q.prev b l) (hs : ((b :: l).map q.pts).Pairwise (· ≤ ·)) (ha : a ∈ b :: l)
    (hw : q.before seek fuel a = some c) :
    c ∈ b :: l ∧ (q.pts c < seek ∨ ∀ z ∈ b :: l, seek ≤ q.pts z ∧ q.pts c ≤ q.pts z) := by
  obtain ⟨m, s, t, hr', hl, hm⟩ := hr.turn ha
  have hmem (z : Nat) : z ∈ a :: m ↔ z ∈ b :: l := by
    rw [hl, hm]
    exact List.perm_append_comm.mem_iff
  unfold before at hw
  split at hw
  · rename_i hstart
    obtain ⟨u, v, he, hstop, hu⟩ := hr'.reverse.walk (by simp) hw
    have hc : c ∈ b :: l := by
      refine (hmem c).mp ?_
      have hc : c ∈ m.reverse ++ [a] := by simp [he]
      simpa [or_comm] using hc
    refine ⟨hc, ?_⟩
    by_cases hlt : q.pts c < seek
    · exact .inl hlt
    refine .inr ?_
    by_cases hfall : q.pts c < q.pts (q.prev c)
    · -- `c` is where the order starts
      have hback : q.next (q.prev c) = c := hr.reverse.prev_next (by simpa using hc)
      have hmin := (hr.extremes_of_descent hs (c := q.prev c) ?_ (by rwa [hback])).1
      · rw [hback] at hmin
        exact fun z hz => ⟨(not_lt.mp hlt).trans (hmin z hz), hmin z hz⟩
      · have hp := hr.reverse.next_mem (b := c) (by simpa using hc)
        simpa using hp
    · -- the loop went all the way round
      obtain rfl : c = a := by
        simpa [hfall, not_lt.mp hlt] using hstop
      obtain rfl : u = m.reverse := hr'.reverse.round he
      have hsame := eq_of_no_fall hr' (fun z hz => by
        rcases List.mem_append.mp hz with hz | hz
        · have := hu z (List.mem_reverse.mpr hz)
          simp only [Bool.or_eq_false_iff, decide_eq_false_iff_not, not_lt] at this
          exact this.1.1
        · rw [List.mem_singleton.mp hz]
          exact not_lt.mp hfall)
      intro z hz
      rw [hsame z ((hmem z).mpr hz)]
      exact ⟨hstart, le_refl _⟩
  · rename_i hstart
    obtain rfl : a = c := Option.some.inj hw
    exact ⟨ha, .inl (not_le.mp hstart)⟩

/-- The second loop ends at the event sought. -/
theorem after_spec (hr : IsRing q.next q.prev b l) (hs : ((b :: l).map q.pts).Pairwise (· ≤ ·)) (ha : a ∈ b :: l)
    (hlow : q.pts a < seek ∨ ∀ z ∈ b :: l, seek ≤ q.pts z ∧ q.pts a ≤ q.pts z)
    (hw : q.after seek fuel a = some c) : c ∈ b :: l ∧ q.Sought (b :: l) seek c := by
  obtain ⟨m, s, t, hr', hl, hm⟩ := hr.turn ha
  have hmem (z : Nat) : z ∈ a :: m ↔ z ∈ b :: l := by
    rw [hl, hm]
    exact List.perm_append_comm.mem_iff
  unfold after at hw
  split at hw
  · rename_i hstart
    obtain ⟨u, v, he, hstop, hu⟩ := hr'.walk (by simp) hw
    have hc : c ∈ b :: l := by
      refine (hmem c).mp ?_
      have hc : c ∈ m ++ [a] := by simp [he]
      simpa [or_comm] using hc
    obtain ⟨w, p, hwp⟩ : ∃ w p, a :: u = w ++ [p] := ⟨_, _, (List.dropLast_append_getLast (List.cons_ne_nil a u)).symm⟩
    have hadj : Adjacent q.next q.prev p c := by
      refine hr'.adjacent (s := w) (t := v) ?_
      rw [he, ← List.cons_append, hwp]
      simp
    have hpass (z : Nat) (hz : z ∈ u) : q.pts z ≤ q.pts (q.next z) ∧ q.pts z < seek := by
      have := hu z hz
      simp only [Bool.or_eq_false_iff, decide_eq_false_iff_not, not_lt, Bool.not_eq_false', decide_eq_true_eq] at this
      exact ⟨this.1.1, this.2⟩
    refine ⟨hc, ?_⟩
    by_cases hreach : seek ≤ q.pts c
    · -- the event before `c` is before `seek`
      have hpu : p ∈ a :: u := by simp [hwp]
      have hp : q.pts p < seek := by
        rcases List.mem_cons.mp hpu with rfl | hp
        · exact hstart
        · exact (hpass p hp).2
      have hpm : p ∈ b :: l := by
        refine (hmem p).mp ?_
        rcases List.mem_cons.mp hpu with rfl | hp
        · exact List.mem_cons_self
        · have hp' : p ∈ m ++ [a] := by simp [he, hp]
          simpa [or_comm] using hp'
      have hgap := hr.gap_of_ascent hs hpm (by rw [hadj.1]; omega)
      rw [hadj.1] at hgap
      refine .inl ⟨hreach, ?_⟩
      intro z hz hzs
      exact (hgap z hz).resolve_left (by omega)
    · refine .inr ?_
      have hmax : ∀ z ∈ b :: l, q.pts z ≤ q.pts c := by
        by_cases hfall : q.pts (q.next c) < q.pts c
        · exact (hr.extremes_of_descent hs hc hfall).2
        · -- the loop went all the way round
          obtain rfl : c = a := by
            simpa [hfall, not_le.mp hreach] using hstop
          obtain rfl : u = m := hr'.round he
          have hsame := eq_of_no_fall_next hr' fun z hz => by
            rcases List.mem_cons.mp hz with rfl | hz
            · exact not_lt.mp hfall
            · exact (hpass z hz).1
          intro z hz
          exact (hsame z ((hmem z).mpr hz)).le
      exact ⟨fun z hz => (hmax z hz).trans_lt (not_le.mp hreach), hmax⟩
  · rename_i hstart
    obtain rfl : a = c := Option.some.inj hw
    have hall := hlow.resolve_left hstart
    exact ⟨ha, .inl ⟨not_lt.mp hstart, fun z hz _ => (hall z hz).2⟩⟩

/-- Both loops end. -/
theorem search_isSome (seek : Nat) (hr : IsRing q.next q.prev a l) (hf : l.length < fuel) :
    ∃ b c, q.before seek fuel a = some b ∧ q.after seek fuel b = some c := by
  obtain ⟨b, hb⟩ : ∃ b, q.before seek fuel a = some b := by
    unfold before
    split
    · exact hr.reverse.walk_isSome (by simp) (by rwa [List.length_reverse])
    · exact ⟨a, rfl⟩
  have hbm : b ∈ a :: l := by
    unfold before at hb
    split at hb
    · exact walk_mem hr List.mem_cons_self (by simp) (.inr hb)
    · exact (Option.some.inj hb) ▸ List.mem_cons_self
  obtain ⟨m, s, t, hr', hl, hm⟩ := hr.turn hbm
  have hlen : m.length = l.length := by
    have hp : (b :: m).Perm (a :: l) := by
      rw [hl, hm]
      exact List.perm_append_comm
    simpa using hp.length_eq
  obtain ⟨c, hc⟩ : ∃ c, q.after seek fuel b = some c := by
    unfold after
    split
    · exact hr'.walk_isSome (by simp) (by rwa [hlen])
    · exact ⟨b, rfl⟩
  exact ⟨b, c, hb, hc⟩

end Loops

theorem due_of_search (ha : q.pNextEvent = some a) (hb : q.before (seekPts now) fuel a = some b)
    (hc : q.after (seekPts now) fuel b = some c) : q.due fuel now = if isDue now (q.pts c) then some c else none := by
  have hdue : q.due fuel now = q.pNextEvent.bind fun start => (q.before (seekPts now) fuel start).bind fun c =>
      (q.after (seekPts now) fuel c).bind fun c => if isDue now (q.pts c) then some c else none := by
    unfold due
    rfl
  rw [hdue, ha, Option.bind_some, hb, Option.bind_some, hc, Option.bind_some]

/-- The search in a sorted ring. -/
theorem due_eq (now : Nat) (h : q.Ordered) (ha : q.pNextEvent = some a) (hr : IsRing q.next q.prev a l) (hf : l.length < fuel) :
    ∃ c ∈ a :: l, q.Sought (a :: l) (seekPts now) c ∧ q.due fuel now = if isDue now (q.pts c) then some c else none := by
  obtain ⟨b, l', hr', hm, hs⟩ := h a ha
  have hmem (z : Nat) : z ∈ b :: l' ↔ z ∈ a :: l := by
    obtain ⟨m, s, t, hr'', hl, hm'⟩ := hr'.turn hm
    obtain rfl := hr.unique hr''
    rw [hl, hm']
    exact List.perm_append_comm.mem_iff
  obtain ⟨x, c, hx, hc⟩ := search_isSome (seekPts now) hr hf
  obtain ⟨hxm, hlow⟩ := before_spec hr' hs hm hx
  obtain ⟨hcm, hsought⟩ := after_spec hr' hs hxm hlow hc
  simp only [Sought, hmem] at hsought
  refine ⟨c, (hmem c).mp hcm, hsought, ?_⟩
  exact due_of_search ha hx hc

/-- Less than a frame after `now`. -/
def maxPts (now : Nat) : Nat := (now + ptsHz / 30 - 1) % 2 ^ 32

/-- Forty seconds after `now`. -/
def maxSeekPts (now : Nat) : Nat := (now + ptsHz * 40) % 2 ^ 32

section Window
variable {p : Nat}

theorem lateness_of_le (hp : p < 2 ^ 32) (h : seekPts now ≤ p) : lateness now p = p - seekPts now := by
  unfold lateness
  omega

theorem lateness_of_lt (h : p < seekPts now) : lateness now p = p + 2 ^ 32 - seekPts now := by
  have hseek : seekPts now < 2 ^ 32 := Nat.mod_lt _ (by decide)
  unfold lateness
  omega

theorem isDue_eq : isDue now p = true ↔
    (¬ if maxSeekPts now < seekPts now then p < seekPts now ∧ maxSeekPts now < p
      else p < seekPts now ∨ maxSeekPts now < p) ∧
    (p ≤ maxPts now ∨ maxPts now < seekPts now ∧ seekPts now ≤ p) := by
  rw [isDue, decide_eq_true_eq]
  rfl

/-- The dispatch window wraps only together with the longer one around it. -/
theorem wraps (hn : now < 2 ^ 32) (h : maxPts now < seekPts now) :
    maxSeekPts now < seekPts now ∧ maxPts now ≤ maxSeekPts now := by
  simp only [seekPts, maxSeekPts, maxPts, ptsHz] at h ⊢
  omega

theorem isDue_iff_of_le (hn : now < 2 ^ 32) (hp : p < 2 ^ 32) (h : seekPts now ≤ p) : isDue now p = true ↔ Due now p := by
  rw [Due, lateness_of_le hp h]
  rw [isDue_eq]
  by_cases hw : maxSeekPts now < seekPts now
  · rw [if_pos hw]
    simp only [seekPts, maxSeekPts, maxPts, ptsHz] at h hw ⊢
    omega
  · rw [if_neg hw]
    simp only [seekPts, maxSeekPts, maxPts, ptsHz] at h hw ⊢
    omega

theorem isDue_iff_of_lt (h : p < seekPts now) :
    isDue now p = true ↔ maxSeekPts now < seekPts now ∧ p ≤ maxSeekPts now ∧ p ≤ maxPts now := by
  rw [isDue_eq]
  by_cases hw : maxSeekPts now < seekPts now
  · rw [if_pos hw]
    omega
  · rw [if_neg hw]
    omega

theorem due_iff_of_lt (hn : now < 2 ^ 32) (hp : p < 2 ^ 32) (h : p < seekPts now) : Due now p ↔ maxPts now < seekPts now ∧ p ≤ maxPts now := by
  rw [Due, lateness_of_lt h]
  simp only [seekPts, maxPts, ptsHz] at h ⊢
  omega

end Window

/-- No event is left up to the wrap of the times, and one of the first frames after it is due though the
last event is not the first of them, or the times up to forty seconds ahead wrap and all events are among
those that do. -/
def Astray (q : Queue) (as : List Nat) (now : Nat) : Prop :=
  as ≠ [] ∧ (∀ z ∈ as, q.pts z < seekPts now) ∧
    (maxPts now < seekPts now ∧ (∃ z ∈ as, q.pts z ≤ maxPts now) ∧ (∃ y ∈ as, ∃ z ∈ as, q.pts y ≠ q.pts z) ∨
      seekPts now ≤ maxPts now ∧ maxSeekPts now < seekPts now ∧ ∀ z ∈ as, q.pts z ≤ maxSeekPts now)

/-- The event that comes first of all is the right one to hand out if it is due. -/
theorem picks_of_least (hc : c ∈ as) (hle : ∀ z ∈ as, lateness now (q.pts c) ≤ lateness now (q.pts z))
    (hi : isDue now (q.pts c) = true ↔ Due now (q.pts c)) :
    q.Picks as now (if isDue now (q.pts c) then some c else none) := by
  split
  · rename_i hd
    refine ⟨⟨fun _ => ⟨c, hc, hi.mp hd⟩, fun _ => rfl⟩, ?_⟩
    intro d hcd
    obtain rfl : c = d := Option.some.inj hcd
    exact ⟨hc, hi.mp hd, fun a ha _ => hle a ha⟩
  · rename_i hd
    refine ⟨⟨fun h => absurd h (by simp), ?_⟩, fun d hd' => absurd hd' (by simp)⟩
    rintro ⟨a, ha, hda⟩
    exact absurd (hi.mpr ((hle a ha).trans_lt hda)) hd

/-- Without an event due, the outcome is right if none is handed out. -/
theorem picks_none_iff (h : ∀ a ∈ as, ¬ Due now (q.pts a)) :
    q.Picks as now (if isDue now (q.pts c) then some c else none) ↔ ¬ isDue now (q.pts c) = true := by
  refine ⟨fun hk hd => ?_, fun hd => ?_⟩
  · rw [if_pos hd] at hk
    obtain ⟨a, ha, hda⟩ := hk.isSome_iff.mp rfl
    exact h a ha hda
  · rw [if_neg hd]
    refine ⟨⟨fun h => absurd h (by simp), ?_⟩, fun d hd' => absurd hd' (by simp)⟩
    rintro ⟨a, ha, hda⟩
    exact absurd hda (h a ha)

/-- When an event from `seek` on is found, it is the right one. -/
theorem picks_of_from (hn : now < 2 ^ 32) (hp : ∀ z ∈ as, q.pts z < 2 ^ 32) (hc : c ∈ as)
    (hle : seekPts now ≤ q.pts c) (hmin : ∀ z ∈ as, seekPts now ≤ q.pts z → q.pts c ≤ q.pts z) :
    q.Picks as now (if isDue now (q.pts c) then some c else none) := by
  refine picks_of_least hc ?_ (isDue_iff_of_le hn (hp c hc) hle)
  intro z hz
  rw [lateness_of_le (hp c hc) hle]
  by_cases hzs : seekPts now ≤ q.pts z
  · rw [lateness_of_le (hp z hz) hzs]
    exact Nat.sub_le_sub_right (hmin z hz hzs) _
  · rw [lateness_of_lt (not_le.mp hzs)]
    have := hp c hc
    omega

/-- When all events are before `seek`, the last one is found; the window has to have wrapped for it to be
the right one. -/
theorem picks_last_iff (hn : now < 2 ^ 32) (hp : ∀ z ∈ as, q.pts z < 2 ^ 32) (hc : c ∈ as)
    (hlt : ∀ z ∈ as, q.pts z < seekPts now) (hmax : ∀ z ∈ as, q.pts z ≤ q.pts c) :
    q.Picks as now (if isDue now (q.pts c) then some c else none) ↔ ¬ q.Astray as now := by
  have hdue (z : Nat) (hz : z ∈ as) := due_iff_of_lt hn (hp z hz) (hlt z hz)
  have hisDue := isDue_iff_of_lt (hlt c hc)
  have hne : as ≠ [] := List.ne_nil_of_mem hc
  by_cases hw : maxPts now < seekPts now
  · obtain ⟨hw', hle'⟩ := wraps hn hw
    have hi : isDue now (q.pts c) = true ↔ Due now (q.pts c) := by
      rw [hisDue, hdue c hc]
      omega
    constructor
    · rintro hk ⟨-, -, ⟨-, ⟨z, hz, hzm⟩, x, hx, y, hy, hxy⟩ | ⟨hnw, -⟩⟩
      · -- the last event is handed out, so all are due and none is before it
        obtain ⟨d, hd⟩ := Option.isSome_iff_exists.mp (hk.isSome_iff.mpr ⟨z, hz, (hdue z hz).mpr ⟨hw, hzm⟩⟩)
        obtain ⟨-, hdd, hfirst⟩ := hk.first d hd
        obtain rfl : c = d := by
          split at hd
          · exact Option.some.inj hd
          · cases hd
        have hcm := ((hdue c hc).mp hdd).2
        have hsame (w : Nat) (hwm : w ∈ as) : q.pts w = q.pts c := by
          have hle := hfirst w hwm ((hdue w hwm).mpr ⟨hw, (hmax w hwm).trans hcm⟩)
          rw [lateness_of_lt (hlt c hc), lateness_of_lt (hlt w hwm)] at hle
          have := hmax w hwm
          have := hlt c hc
          have : seekPts now < 2 ^ 32 := Nat.mod_lt _ (by decide)
          omega
        exact hxy ((hsame x hx).trans (hsame y hy).symm)
      · exact absurd hw (not_lt.mpr hnw)
    · intro hna
      by_cases hz : ∃ z ∈ as, q.pts z ≤ maxPts now
      · refine picks_of_least hc ?_ hi
        intro y hy
        have hsame : q.pts c = q.pts y := by
          by_contra hcy
          exact hna ⟨hne, hlt, .inl ⟨hw, hz, c, hc, y, hy, hcy⟩⟩
        exact (congrArg (lateness now) hsame).le
      · have hnone (a : Nat) (ha : a ∈ as) : ¬ Due now (q.pts a) := fun hd => hz ⟨a, ha, ((hdue a ha).mp hd).2⟩
        rw [picks_none_iff hnone, hi]
        exact hnone c hc
  · have hnone (a : Nat) (ha : a ∈ as) : ¬ Due now (q.pts a) := fun hd => hw ((hdue a ha).mp hd).1
    rw [picks_none_iff hnone, hisDue]
    have hcs := hlt c hc
    refine not_congr ⟨?_, ?_⟩
    · rintro ⟨hs, hcm, -⟩
      exact ⟨hne, hlt, .inr ⟨not_lt.mp hw, hs, fun z hz => (hmax z hz).trans hcm⟩⟩
    · rintro ⟨-, -, ⟨hw', -⟩ | ⟨-, hs, hall⟩⟩
      · exact absurd hw' hw
      · exact ⟨hs, hall c hc, by omega⟩

/-- One pass of the search hands out an event just when one is due, and then one of those due that come
first, exactly as long as it is not led astray by the wrap of the times. -/
theorem search_picks_iff (h : q.Ordered) (hh : q.Holds as) (hp : ∀ a ∈ as, q.pts a < 2 ^ 32) (hn : now < 2 ^ 32)
    (hf : as.length < fuel) : q.Picks as now (q.due fuel now) ↔ ¬ q.Astray as now := by
  cases as with
  | nil =>
    have hnone : q.due fuel now = none := by
      have hempty : q.pNextEvent = none := hh
      rw [due, hempty]
      rfl
    rw [hnone]
    refine ⟨fun _ ha => ha.1 rfl, fun _ => ⟨by simp, by simp⟩⟩
  | cons a l =>
    obtain ⟨ha, hr⟩ := hh
    obtain ⟨c, hc, hsought, hdue⟩ := due_eq now h ha hr (Nat.lt_of_succ_lt hf)
    rw [hdue]
    rcases hsought with ⟨hle, hmin⟩ | ⟨hlt, hmax⟩
    · have hna : ¬ q.Astray (a :: l) now := fun hna => absurd (hna.2.1 c hc) (not_lt.mpr hle)
      exact iff_of_true (picks_of_from hn hp hc hle hmin) hna
    · exact picks_last_iff hn hp hc hlt hmax

/-- Events at 1000 and 2000. -/
def early : Queue := Queue.empty.addAll 3 [(1, 1000), (2, 2000)]

theorem early_ring : IsRing early.next early.prev 1 [2] := ⟨by decide, by decide⟩

theorem early_ordered : early.Ordered :=
  Ordered.of_cycSorted rfl early_ring List.mem_cons_self (CycSorted.of_pairwise (by decide))

/-- Thirty seconds after its time the second event is still handed out, the first no longer. -/
theorem search_picks_late : early.due 3 2702000 = some 2 ∧
    (early.Picks [1, 2] 2702000 (early.due 3 2702000) ↔ ¬ early.Astray [1, 2] 2702000) :=
  ⟨by decide, search_picks_iff early_ordered ⟨rfl, early_ring⟩ (by decide) (by decide) (by decide)⟩

/-- In the first thirty seconds of the clock the last event is taken for the first one. -/
theorem last_taken_for_first : ¬ ∀ (q : Queue) (as : List Nat) (now fuel : Nat), q.Ordered → q.Holds as →
    (∀ a ∈ as, q.pts a < 2 ^ 32) → now < 2 ^ 32 → as.length < fuel → q.Picks as now (q.due fuel now) := by
  intro h
  have hk := h early [1, 2] 2000 3 early_ordered ⟨rfl, early_ring⟩ (by decide) (by decide) (by decide)
  have hd : early.due 3 2000 = some 2 := by decide
  obtain ⟨-, -, hfirst⟩ := hk.first 2 hd
  exact absurd (hfirst 1 (by decide) (by decide)) (by decide)

end Mvpmc.Av.Queue
