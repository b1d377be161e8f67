import Mvpmc.Av.VidEvents

/-! The order of the video events. -/
namespace Mvpmc.Av
open Mvpmc.Lib Mvpmc.Lib.Linked

namespace Heap
variable (heap : Heap) (x p n : Nat)

theorem splice_next : (fun a => (heap.splice x p n a).pNext) =
    Function.update (Function.update (fun a => (heap a).pNext) x n) p x := by
  funext a
  simp only [splice, setNext, setPrev, Function.update_apply]
  split_ifs <;> simp_all

theorem splice_prev : (fun a => (heap.splice x p n a).pPrev) =
    Function.update (Function.update (fun a => (heap a).pPrev) x p) n x := by
  funext a
  simp only [splice, setNext, setPrev, Function.update_apply]
  split_ifs <;> simp_all

theorem splice_pts (a : Nat) : (heap.splice x p n a).pts = (heap a).pts := by
  simp only [splice, setNext, setPrev, Function.update_apply]
  split_ifs <;> simp_all

theorem join_next : (fun a => (heap.join p n a).pNext) = Function.update (fun a => (heap a).pNext) p n := by
  funext a
  simp only [join, setNext, setPrev, Function.update_apply]
  split_ifs <;> simp_all

theorem join_prev : (fun a => (heap.join p n a).pPrev) = Function.update (fun a => (heap a).pPrev) n p := by
  funext a
  simp only [join, setNext, setPrev, Function.update_apply]
  split_ifs <;> simp_all

theorem join_pts (a : Nat) : (heap.join p n a).pts = (heap a).pts := by
  simp only [join, setNext, setPrev, Function.update_apply]
  split_ifs <;> simp_all

end Heap

namespace Queue
variable {q q' : Queue} {a b c x : Nat} {l : List Nat}

/-- Following `pNext` from some event on visits all queued events in the order of their
times. That event has the smallest time. -/
def Ordered (q : Queue) : Prop :=
  ∀ a, q.pNextEvent = some a → ∃ b l, IsRing q.next q.prev b l ∧ a ∈ b :: l ∧ ((b :: l).map q.pts).Pairwise (· ≤ ·)

/-- Being ordered does not depend on where the ring is entered. -/
theorem cycSorted_turn {s t : List Nat} {b' : Nat} {m : List Nat} (h : CycSorted ((b :: l).map q.pts))
    (hl : b :: l = s ++ t) (hm : b' :: m = t ++ s) : CycSorted ((b' :: m).map q.pts) := by
  rw [hm, List.map_append]
  rw [hl, List.map_append] at h
  exact h.rotate

theorem Ordered.ring (h : q.Ordered) (ha : q.pNextEvent = some a) :
    ∃ l, IsRing q.next q.prev a l ∧ CycSorted ((a :: l).map q.pts) := by
  obtain ⟨b, l, hr, hm, hs⟩ := h a ha
  obtain ⟨m, s, t, hr', hl, hm'⟩ := hr.turn hm
  exact ⟨m, hr', cycSorted_turn (CycSorted.of_pairwise hs) hl hm'⟩

theorem Ordered.of_cycSorted (ha : q.pNextEvent = some a) (hr : IsRing q.next q.prev b l) (hm : a ∈ b :: l)
    (hs : CycSorted ((b :: l).map q.pts)) : q.Ordered := by
  intro a' ha'
  obtain rfl : a = a' := Option.some.inj (ha.symm.trans ha')
  obtain ⟨u, v, he, hs⟩ := hs
  obtain ⟨s, t, hst, rfl, rfl⟩ := List.map_eq_append_iff.mp he
  rw [← List.map_append] at hs
  cases t with
  | nil =>
    refine ⟨b, l, hr, hm, ?_⟩
    simpa [hst] using hs
  | cons d t =>
    cases s with
    | nil =>
      obtain ⟨rfl, rfl⟩ := List.cons.inj hst
      exact ⟨b, l, hr, hm, by simpa using hs⟩
    | cons b' s =>
      have hm' : a ∈ b' :: s ++ d :: t := hst ▸ hm
      obtain ⟨rfl, rfl⟩ := List.cons.inj hst
      refine ⟨d, t ++ b :: s, hr.rotate, ?_, hs⟩
      have hp : (b :: s ++ d :: t).Perm (d :: t ++ b :: s) := List.perm_append_comm
      exact hp.mem_iff.mp hm'

/-- A new event in front of `c` makes a ring of what was one. -/
theorem splice_isRing (hr : IsRing q.next q.prev c l) (hx : x ∉ c :: l) :
    IsRing ({ q with heap := q.heap.splice x (q.prev c) c } : Queue).next
      ({ q with heap := q.heap.splice x (q.prev c) c } : Queue).prev c (l ++ [x]) := by
  have hring := hr.insert hx
  have hn := q.heap.splice_next x (q.prev c) c
  have hv := q.heap.splice_prev x (q.prev c) c
  unfold next prev at hring hn hv ⊢
  dsimp only
  rw [hn, hv]
  exact hring

/-- A new event that fits between `c` and the event before it keeps the order. -/
theorem ordered_splice (ha : q.pNextEvent = some a) (hr : IsRing q.next q.prev a l)
    (hs : CycSorted ((a :: l).map q.pts)) (hc : c ∈ a :: l) (hx : x ∉ a :: l)
    (hf : CycSorted.Fits (q.pts x) (q.pts (q.prev c)) (q.pts c) ((a :: l).map q.pts)) :
    ({ q with heap := q.heap.splice x (q.prev c) c } : Queue).Ordered := by
  obtain ⟨m, s, t, hr', hl, hm⟩ := hr.turn hc
  have hmem (z : Nat) : z ∈ c :: m ↔ z ∈ a :: l := by
    rw [hl, hm]
    exact List.perm_append_comm.mem_iff
  obtain ⟨u, p, hp⟩ : ∃ u p, c :: m = u ++ [p] := ⟨_, _, (List.dropLast_append_getLast (List.cons_ne_nil c m)).symm⟩
  have hprev : q.prev c = p := hr'.prev_eq hp
  refine Ordered.of_cycSorted (b := c) (l := m ++ [x]) ha (splice_isRing hr' fun hxm => hx ((hmem x).mp hxm)) ?_ ?_
  · rw [← List.cons_append]
    exact List.mem_append_left _ ((hmem a).mpr List.mem_cons_self)
  · have hpts : (c :: (m ++ [x])).map ({ q with heap := q.heap.splice x (q.prev c) c } : Queue).pts =
        q.pts c :: m.map q.pts ++ [q.pts x] := by
      simp [pts, Heap.splice_pts]
    rw [hpts]
    rw [hprev] at hf
    refine CycSorted.insert (s := u.map q.pts) (x := q.pts p) (cycSorted_turn hs hl hm) ?_ ?_
    · rw [← List.map_cons, hp]
      simp
    · refine hf.imp id (Or.imp id ?_)
      intro hall z hz
      rw [← List.map_cons] at hz
      obtain ⟨w, hw, rfl⟩ := List.mem_map.mp hz
      exact hall _ (List.mem_map_of_mem ((hmem w).mp hw))

/-- The loop forwards ends where the new event belongs. -/
theorem forward_fits {start pts fuel : Nat} (hr : IsRing q.next q.prev start l) (hs : q.pts start ≤ pts)
    (hw : q.forward start pts fuel = some c) :
    c ∈ start :: l ∧ CycSorted.Fits pts (q.pts (q.prev c)) (q.pts c) ((start :: l).map q.pts) := by
  obtain ⟨m, t, he, hstop, hm⟩ := hr.walk (by simp) hw
  obtain ⟨s, p, hsp⟩ : ∃ s p, start :: m = s ++ [p] :=
    ⟨_, _, (List.dropLast_append_getLast (List.cons_ne_nil start m)).symm⟩
  have hadj : Adjacent q.next q.prev p c := by
    refine hr.adjacent (s := s) (t := t) ?_
    rw [he, ← List.cons_append, hsp]
    simp
  have hmem : c ∈ start :: l := by
    have hc : c ∈ l ++ [start] := by simp [he]
    simpa [or_comm] using hc
  refine ⟨hmem, ?_⟩
  rw [hadj.2]
  -- everything passed on the way is not after the new event
  have hpass : q.pts p ≤ pts := by
    have hp : p ∈ start :: m := by simp [hsp]
    rcases List.mem_cons.mp hp with rfl | hp
    · exact hs
    · have := hm p hp
      simp only [Bool.or_eq_false_iff, Bool.not_eq_false', decide_eq_true_eq] at this
      exact this.2
  by_cases hwrap : q.pts c < q.pts p
  · exact .inr (.inl ⟨hwrap, .inl hpass⟩)
  by_cases hafter : pts < q.pts c
  · exact .inl ⟨hpass, hafter.le⟩
  -- the loop went all the way round without finding a smaller time
  have hround : c = start := by
    simp only [hadj.2, Bool.or_eq_true, decide_eq_true_eq, hwrap, false_or, beq_iff_eq, Bool.not_eq_true',
      decide_eq_false_iff_not, hafter, not_le, or_false] at hstop
    exact hstop
  subst hround
  obtain rfl : m = l := hr.round he
  refine .inr (.inr (eq_of_round ?_))
  refine (List.IsChain.iff_mem_mem_tail.mp hr.chain).imp ?_
  rintro y z ⟨-, hz, hyz⟩
  rw [List.tail_cons, List.mem_append, List.mem_singleton] at hz
  rcases hz with hz | rfl
  · have := hm z hz
    simp only [Bool.or_eq_false_iff, decide_eq_false_iff_not, not_lt, hyz.2] at this
    exact this.1.1
  · obtain rfl : p = y := hadj.2.symm.trans hyz.2
    exact not_lt.mp hwrap

/-- Going back from `a` along `l`, the first event with another time than `a` is not after
`pts`, if there is one. -/
def Reaches (q : Queue) (pts a : Nat) (l : List Nat) : Prop :=
  ∀ s y t, l.reverse = s ++ y :: t → (∀ z ∈ s, q.pts z = q.pts a) → q.pts y ≠ q.pts a → q.pts y ≤ pts

/-- The loop backwards ends where the new event belongs, if the first event it finds with
another time is not after the new one. -/
theorem backward_fits {start pts fuel : Nat} (hr : IsRing q.next q.prev start l) (hs : pts < q.pts start)
    (hb : q.Reaches pts start l) (hw : q.backward start pts fuel = some c) :
    q.next c ∈ start :: l ∧ q.prev (q.next c) = c ∧
      CycSorted.Fits pts (q.pts c) (q.pts (q.next c)) ((start :: l).map q.pts) := by
  obtain ⟨m, t, he, hstop, hm⟩ := hr.reverse.walk (by simp) hw
  obtain ⟨s, y, hsy⟩ : ∃ s y, start :: m = s ++ [y] :=
    ⟨_, _, (List.dropLast_append_getLast (List.cons_ne_nil start m)).symm⟩
  have hadj : Adjacent q.prev q.next y c := by
    refine hr.reverse.adjacent (s := s) (t := t) ?_
    rw [he, ← List.cons_append, hsy]
    simp
  have hym : y ∈ start :: m := by simp [hsy]
  have hml : ∀ z ∈ m, z ∈ l := by
    intro z hz
    have hz' : z ∈ l.reverse ++ [start] := by simp [he, hz]
    rcases List.mem_append.mp hz' with hz' | hz'
    · exact List.mem_reverse.mp hz'
    · have := hm z hz
      simp [List.mem_singleton.mp hz'] at this
  have hyl : y ∈ start :: l := by
    rcases List.mem_cons.mp hym with rfl | hy
    · exact List.mem_cons_self
    · exact List.mem_cons_of_mem _ (hml y hy)
  have hpass (z : Nat) (hz : z ∈ start :: m) : pts < q.pts z := by
    rcases List.mem_cons.mp hz with rfl | hz
    · exact hs
    · have := hm z hz
      simp only [Bool.or_eq_false_iff, Bool.not_eq_false', decide_eq_true_eq] at this
      exact this.2
  rw [hadj.2]
  refine ⟨hyl, hadj.1, ?_⟩
  cases hfind : l.reverse.find? (fun y => q.pts y ≠ q.pts start) with
  | none =>
    -- all events have the same time
    have hall : ∀ z ∈ start :: l, q.pts z = q.pts start := by
      intro z hz
      rcases List.mem_cons.mp hz with rfl | hz
      · rfl
      · simpa using List.find?_eq_none.mp hfind z (List.mem_reverse.mpr hz)
    refine .inr (.inr ?_)
    intro z hz
    obtain ⟨w, hwl, rfl⟩ := List.mem_map.mp hz
    rw [hall w hwl, hall y hyl]
  | some w =>
    obtain ⟨hdiff, s₁, s₂, hl, hsame⟩ := List.find?_eq_some_iff_append.mp hfind
    have hsame' : ∀ z ∈ s₁, q.pts z = q.pts start := fun z hz => by simpa using hsame z hz
    have hwp : q.pts w ≤ pts := hb s₁ w s₂ hl hsame' (by simpa using hdiff)
    rw [hl, List.append_assoc] at he
    obtain rfl : c = w := by
      rcases List.append_eq_append_iff.mp he with ⟨s₃, hs₃, hs₄⟩ | ⟨s₃, hs₃, hs₄⟩
      · -- the loop cannot have gone past `w`
        cases s₃ with
        | nil => exact (List.cons.inj hs₄).1.symm
        | cons d s₃ =>
          obtain ⟨rfl, -⟩ := List.cons.inj hs₄
          exact absurd (hpass w (by simp [hs₃])) (not_lt.mpr hwp)
      · -- nor can it have stopped among the events with the time of `start`
        cases s₃ with
        | nil => exact (List.cons.inj hs₄).1
        | cons d s₃ =>
          obtain ⟨rfl, -⟩ := List.cons.inj hs₄
          have hc : q.pts c = q.pts start := hsame' c (by simp [hs₃])
          have hy : q.pts y = q.pts start := by
            rcases List.mem_cons.mp hym with rfl | hy
            · rfl
            · exact hsame' y (by simp [hs₃, hy])
          have hcl : c ∈ l := by
            rw [← List.mem_reverse, hl, hs₃]
            simp
          have hne : c ≠ start := by
            rintro rfl
            exact (List.nodup_cons.mp hr.nodup).1 hcl
          simp [hadj.2, hc, hy, hne, hs] at hstop
    exact .inl ⟨hwp, (hpass y hym).le⟩

/-- Where `vid_event_add` keeps the order: the new event is not before `pNextEvent`, or
going back from there the first event with another time is not after the new one. -/
def InPlace (q : Queue) (pts : Nat) : Prop :=
  ∀ a l, q.pNextEvent = some a → IsRing q.next q.prev a l → q.pts a ≤ pts ∨ q.Reaches pts a l

/-- What `malloc` returns is not an event of the queue. -/
def Fresh (q : Queue) (x : Nat) : Prop := ∀ a l, q.pNextEvent = some a → IsRing q.next q.prev a l → x ∉ a :: l

section Fill
variable {pts info : Nat} {type : EventType}

theorem fill_next : (q.fill x pts type info).next = q.next := by
  funext z
  by_cases hz : z = x <;> simp [next, fill, hz]

theorem fill_prev : (q.fill x pts type info).prev = q.prev := by
  funext z
  by_cases hz : z = x <;> simp [prev, fill, hz]

theorem fill_pts_self : (q.fill x pts type info).pts x = pts := by simp [Queue.pts, fill]

theorem fill_pts_of_ne {z : Nat} (hz : z ≠ x) : (q.fill x pts type info).pts z = q.pts z := by
  simp [Queue.pts, fill, hz]

theorem ordered_add {fuel : Nat} (h : q.Ordered) (hx : q.Fresh x) (hp : q.InPlace pts)
    (ha : q.add fuel x pts type info = some q') : q'.Ordered := by
  unfold add at ha
  dsimp only at ha
  have hsame : (q.fill x pts type info).pNextEvent = q.pNextEvent := rfl
  cases hn : q.pNextEvent with
  | none =>
    rw [hsame, hn] at ha
    obtain rfl := Option.some.inj ha
    refine Ordered.of_cycSorted (a := x) (b := x) (l := []) rfl ⟨by simp, ?_⟩ (by simp) ?_
    · simp [Adjacent, next, prev, Heap.setNext, Heap.setPrev]
    · exact CycSorted.of_pairwise (by simp)
  | some a =>
    rw [hsame, hn] at ha
    obtain ⟨l, hr, hs⟩ := h.ring hn
    have hxl := hx a l hn hr
    -- the links are the same, and so are the times of the events in the ring
    have hpts (z : Nat) (hz : z ∈ a :: l) : (q.fill x pts type info).pts z = q.pts z :=
      fill_pts_of_ne fun e => hxl (e ▸ hz)
    have hr₁ : IsRing (q.fill x pts type info).next (q.fill x pts type info).prev a l := by
      rwa [fill_next, fill_prev]
    have hs₁ : CycSorted ((a :: l).map (q.fill x pts type info).pts) := by rwa [List.map_congr_left hpts]
    have hnew : (q.fill x pts type info).pts x = pts := fill_pts_self
    dsimp only at ha
    split at ha
    · rename_i hle
      obtain ⟨c, hc, rfl⟩ := Option.map_eq_some_iff.mp ha
      obtain ⟨hm, hf⟩ := forward_fits hr₁ hle hc
      have hord := ordered_splice (x := x) (hsame.trans hn) hr₁ hs₁ hm hxl (by rwa [hnew])
      rwa [hsame, hn] at hord
    · rename_i hlt
      obtain ⟨c, hc, rfl⟩ := Option.map_eq_some_iff.mp ha
      have hb : (q.fill x pts type info).Reaches pts a l := by
        rcases hp a l hn hr with hle | hb
        · exact absurd ((hpts a List.mem_cons_self).le.trans hle) hlt
        · have hmem {u v : List Nat} {y : Nat} (he : l.reverse = u ++ y :: v) (z : Nat) (hz : z ∈ u ++ [y]) :
              z ∈ a :: l := by
            refine List.mem_cons_of_mem a (List.mem_reverse.mp ?_)
            rw [he, List.append_cons]
            exact List.mem_append_left v hz
          intro s y t he hs hy
          have hya := hpts y (hmem he y (by simp))
          have haa := hpts a List.mem_cons_self
          rw [hya]
          refine hb s y t he ?_ (by rwa [hya, haa] at hy)
          intro z hz
          rw [← hpts z (hmem he z (List.mem_append_left _ hz)), hs z hz, haa]
      obtain ⟨hm, hpc, hf⟩ := backward_fits hr₁ (not_le.mp hlt) hb hc
      have hord := ordered_splice (x := x) (hsame.trans hn) hr₁ hs₁ hm hxl (by rwa [hpc, hnew])
      rwa [hpc, hsame, hn] at hord

end Fill
/-- Both loops of `vid_event_add` end. -/
theorem loop_isSome {p fuel : Nat} (hr : IsRing q.next q.prev a l) (hf : l.length < fuel) :
    (∃ c, q.forward a p fuel = some c) ∧ ∃ c, q.backward a p fuel = some c := by
  refine ⟨hr.walk_isSome (by simp) hf, hr.reverse.walk_isSome (by simp) ?_⟩
  rwa [List.length_reverse]

/-- `vid_event_add` returns. -/
theorem add_isSome {pts info : Nat} {type : EventType}
    (h : ∀ a, q.pNextEvent = some a → ∃ l, IsRing q.next q.prev a l) : ∃ fuel q', q.add fuel x pts type info = some q' := by
  have hsame : (q.fill x pts type info).pNextEvent = q.pNextEvent := rfl
  cases hn : q.pNextEvent with
  | none =>
    simp only [add, hsame, hn]
    exact ⟨0, _, rfl⟩
  | some a =>
    obtain ⟨l, hr⟩ := h a hn
    have hr₁ : IsRing (q.fill x pts type info).next (q.fill x pts type info).prev a l := by
      rwa [fill_next, fill_prev]
    obtain ⟨⟨c, hc⟩, d, hd⟩ := loop_isSome hr₁ (Nat.lt_succ_self l.length) (p := pts)
    simp only [add, hsame, hn]
    refine ⟨l.length + 1, ?_⟩
    rw [hc, hd]
    split
    · exact ⟨_, rfl⟩
    · exact ⟨_, rfl⟩

/-- What a walk from an event of the ring finds is an event of the ring. -/
theorem walk_mem {stop : Nat → Bool} {fuel d : Nat} (hr : IsRing q.next q.prev a l) (hc : c ∈ a :: l)
    (hs : stop c = true) (hw : walk q.next stop fuel c = some d ∨ walk q.prev stop fuel c = some d) : d ∈ a :: l := by
  obtain ⟨m, s, t, hr', hl, hm⟩ := hr.turn hc
  have hmem (z : Nat) : z ∈ c :: m ↔ z ∈ a :: l := by
    rw [hl, hm]
    exact List.perm_append_comm.mem_iff
  refine (hmem d).mp ?_
  rcases hw with hw | hw
  · obtain ⟨s', t', he, -⟩ := hr'.walk hs hw
    have hd : d ∈ m ++ [c] := by simp [he]
    simpa [or_comm] using hd
  · obtain ⟨s', t', he, -⟩ := hr'.reverse.walk hs hw
    have hd : d ∈ m.reverse ++ [c] := by simp [he]
    simpa [or_comm] using hd

theorem due_mem {fuel now : Nat} (hr : IsRing q.next q.prev a l) (ha : q.pNextEvent = some a)
    (hd : q.due fuel now = some c) : c ∈ a :: l := by
  unfold due at hd
  rw [ha] at hd
  obtain ⟨b, hb, hd⟩ := Option.bind_eq_some_iff.mp hd
  obtain rfl : a = b := Option.some.inj hb
  obtain ⟨b, hb, hd⟩ := Option.bind_eq_some_iff.mp hd
  obtain ⟨d, hd, hc⟩ := Option.bind_eq_some_iff.mp hd
  have hbm : b ∈ a :: l := by
    unfold before at hb
    split at hb
    · exact walk_mem hr List.mem_cons_self (by simp) (.inr hb)
    · exact (Option.some.inj hb) ▸ List.mem_cons_self
  have hdm : d ∈ a :: l := by
    unfold after at hd
    split at hd
    · exact walk_mem hr hbm (by simp) (.inl hd)
    · exact (Option.some.inj hd) ▸ hbm
  split at hc
  · exact (Option.some.inj hc) ▸ hdm
  · exact absurd hc (Option.some_ne_none c).symm

/-- What is left without the event in front of `b` is a ring. -/
theorem join_isRing (hr : IsRing q.next q.prev c (b :: l)) (first : Option Nat) :
    IsRing (⟨q.heap.join (q.prev c) b, first⟩ : Queue).next (⟨q.heap.join (q.prev c) b, first⟩ : Queue).prev b l := by
  have hring := hr.remove
  have hn := q.heap.join_next (q.prev c) b
  have hv := q.heap.join_prev (q.prev c) b
  unfold next prev at hring hn hv ⊢
  dsimp only
  rw [hn, hv]
  exact hring

/-- And `pNextEvent` points into it. -/
theorem first_of_remove (ha : q.pNextEvent = some a) (hm : a ∈ c :: b :: l) :
    ∃ a', (if q.pNextEvent = some c then some b else q.pNextEvent) = some a' ∧ a' ∈ b :: l := by
  by_cases hac : a = c
  · exact ⟨b, by rw [if_pos (by rw [ha, hac])], List.mem_cons_self⟩
  · refine ⟨a, by rw [if_neg (by simp [ha, hac]), ha], ?_⟩
    exact (List.mem_cons.mp hm).resolve_left hac

/-- Taking an event out keeps the order. -/
theorem ordered_remove (ha : q.pNextEvent = some a) (hr : IsRing q.next q.prev a l)
    (hs : CycSorted ((a :: l).map q.pts)) (hc : c ∈ a :: l) : (q.remove c).Ordered := by
  obtain ⟨m, s, t, hr', hl, hm⟩ := hr.turn hc
  have hs' : CycSorted ((c :: m).map q.pts) := cycSorted_turn hs hl hm
  unfold remove
  split
  · intro b hb
    exact absurd hb (by simp)
  · rename_i hne
    cases m with
    | nil => exact absurd (List.isChain_pair.mp hr'.chain).1 hne
    | cons b m =>
      have hb : q.next c = b := hr'.next_eq
      have ham : a ∈ c :: b :: m := by
        rw [hm]
        exact List.perm_append_comm.mem_iff.mp (hl ▸ List.mem_cons_self)
      rw [hb]
      obtain ⟨a', ha', hmem⟩ := first_of_remove ha ham
      refine Ordered.of_cycSorted (b := b) (l := m) ha' (join_isRing hr' _) hmem ?_
      · have hp : (b :: m).map (⟨q.heap.join (q.prev c) b,
            if q.pNextEvent = some c then some b else q.pNextEvent⟩ : Queue).pts = (b :: m).map q.pts :=
          List.map_congr_left fun z _ => q.heap.join_pts (q.prev c) b z
        rw [hp]
        exact hs'.tail

theorem ordered_waitNext {fuel now : Nat} (h : q.Ordered) : (q.waitNext fuel now).Ordered := by
  unfold waitNext
  split
  · rename_i c hc
    cases hn : q.pNextEvent with
    | none =>
      rw [due, hn] at hc
      exact absurd hc (Option.some_ne_none c).symm
    | some a =>
      obtain ⟨l, hr, hs⟩ := h.ring hn
      exact ordered_remove hn hr hs (due_mem hr hn hc)
  · exact h

end Queue

/-- The calls on the queue. -/
inductive Op where
  | add (x pts : Nat) (type : EventType) (info : Nat)
  | waitNext (now : Nat)
  | clear

/-- A call that is allowed by a condition on the times added. -/
def Op.Runs (allowed : Queue → Nat → Prop) (q : Queue) : Op → Queue → Prop
  | add x pts type info, q' =>
    q.Fresh x ∧ pts < 2 ^ 32 ∧ allowed q pts ∧ ∃ fuel, q.add fuel x pts type info = some q'
  | waitNext now, q' => ∃ fuel, q' = q.waitNext fuel now
  | clear, q' => q' = { q with pNextEvent := none }

/-- The queues that calls lead to from the empty one. -/
def Queue.Reachable (allowed : Queue → Nat → Prop) : Queue → Prop :=
  Reach (fun q => q.pNextEvent = none) fun q (op : Op) q' => op.Runs allowed q q'

/-- As long as every event that is added is in place, the queue is in order. -/
theorem queue_ordered {q : Queue} (h : q.Reachable Queue.InPlace) : q.Ordered := by
  refine Reach.invariant ?_ ?_ h
  · intro q hq a ha
    simp [hq] at ha
  · intro q op q' hq hop
    cases op with
    | add x pts type info =>
      obtain ⟨hx, -, hp, fuel, hadd⟩ := hop
      exact Queue.ordered_add hq hx hp hadd
    | waitNext now =>
      obtain ⟨fuel, rfl⟩ := hop
      exact Queue.ordered_waitNext hq
    | clear =>
      obtain rfl := hop
      intro a ha
      simp at ha

namespace Queue
variable {q : Queue} {a : Nat} {l : List Nat}

theorem fresh_of_ring {x : Nat} (ha : q.pNextEvent = some a) (hr : IsRing q.next q.prev a l) (hx : x ∉ a :: l) :
    q.Fresh x := by
  intro a' l' ha' hr'
  obtain rfl : a = a' := Option.some.inj (ha.symm.trans ha')
  rwa [hr'.unique hr]

/-- No event has been queued yet. -/
def empty : Queue := ⟨fun _ => ⟨0, 0, 0, .aspect, 0⟩, none⟩

/-- Aspect events added at the given addresses and times. -/
def addAll (fuel : Nat) (q : Queue) (events : List (Nat × Nat)) : Queue :=
  events.foldl (fun q e => (q.add fuel e.1 e.2 .aspect 0).getD q) q

theorem Reachable.addAll {allowed : Queue → Nat → Prop} (fuel : Nat) (events : List (Nat × Nat)) (x pts : Nat)
    (h : (q.addAll fuel events).Reachable allowed) (hx : (q.addAll fuel events).Fresh x) (hp : pts < 2 ^ 32)
    (ha : allowed (q.addAll fuel events) pts)
    (hs : ((q.addAll fuel events).add fuel x pts .aspect 0).isSome = true) :
    (q.addAll fuel (events ++ [(x, pts)])).Reachable allowed := by
  obtain ⟨q', hq⟩ := Option.isSome_iff_exists.mp hs
  refine .next (.add x pts .aspect 0) h ⟨hx, hp, ha, fuel, ?_⟩
  simp only [Queue.addAll, List.foldl_append, List.foldl_cons, List.foldl_nil] at hq ⊢
  simp [hq]

end Queue

/-- Events at 10 and 20. -/
theorem queue_ordered_two : (Queue.empty.addAll 3 [(1, 10), (2, 20)]).Reachable Queue.InPlace ∧
    (Queue.empty.addAll 3 [(1, 10), (2, 20)]).Ordered := by
  have h₁ : (Queue.empty.addAll 3 [(1, 10)]).Reachable Queue.InPlace :=
    Queue.Reachable.addAll 3 [] 1 10 (.start rfl) (by simp [Queue.Fresh, Queue.empty, Queue.addAll]) (by decide)
      (by simp [Queue.InPlace, Queue.empty, Queue.addAll]) (by decide)
  have hr : IsRing (Queue.empty.addAll 3 [(1, 10)]).next (Queue.empty.addAll 3 [(1, 10)]).prev 1 [] :=
    ⟨by decide, by decide⟩
  have hfresh : (Queue.empty.addAll 3 [(1, 10)]).Fresh 2 := Queue.fresh_of_ring rfl hr (by decide)
  have h₂ : (Queue.empty.addAll 3 [(1, 10), (2, 20)]).Reachable Queue.InPlace := by
    refine Queue.Reachable.addAll 3 [(1, 10)] 2 20 h₁ hfresh (by decide) ?_ (by decide)
    intro a l ha _
    obtain rfl : 1 = a := Option.some.inj ha
    exact .inl (by decide)
  exact ⟨h₂, queue_ordered h₂⟩

/-- Events at 30, 20 and 10: the loop backwards takes every step to a smaller time for the
wrap, so the last event lands between 20 and 30. -/
theorem queue_falls_twice : ∃ q : Queue, q.Reachable (fun _ _ => True) ∧ ¬ q.Ordered := by
  have h₁ : (Queue.empty.addAll 4 [(1, 30)]).Reachable fun _ _ => True :=
    Queue.Reachable.addAll 4 [] 1 30 (.start rfl) (by simp [Queue.Fresh, Queue.empty, Queue.addAll]) (by decide)
      trivial (by decide)
  have hr₁ : IsRing (Queue.empty.addAll 4 [(1, 30)]).next (Queue.empty.addAll 4 [(1, 30)]).prev 1 [] :=
    ⟨by decide, by decide⟩
  have h₂ : (Queue.empty.addAll 4 [(1, 30), (2, 20)]).Reachable fun _ _ => True :=
    Queue.Reachable.addAll 4 [(1, 30)] 2 20 h₁ (Queue.fresh_of_ring rfl hr₁ (by decide)) (by decide) trivial (by decide)
  have hr₂ : IsRing (Queue.empty.addAll 4 [(1, 30), (2, 20)]).next (Queue.empty.addAll 4 [(1, 30), (2, 20)]).prev 1 [2] :=
    ⟨by decide, by decide⟩
  have h₃ : (Queue.empty.addAll 4 [(1, 30), (2, 20), (3, 10)]).Reachable fun _ _ => True :=
    Queue.Reachable.addAll 4 [(1, 30), (2, 20)] 3 10 h₂ (Queue.fresh_of_ring rfl hr₂ (by decide)) (by decide) trivial
      (by decide)
  refine ⟨_, h₃, fun hord => ?_⟩
  obtain ⟨b, l, hr, hm, hs⟩ := hord 1 rfl
  have hone : 2 = b := hr.next_eq_of_descent hs hm (by decide)
  have htwo : 3 = b := hr.next_eq_of_descent hs (hr.next_mem hm) (by decide)
  exact absurd (hone.trans htwo.symm) (by decide)

end Mvpmc.Av
