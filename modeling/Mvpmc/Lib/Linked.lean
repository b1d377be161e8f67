import Mathlib.Tactic

/-! Doubly linked rings, walks along them, and lists that are sorted up to rotation. -/
namespace Mvpmc.Lib.Linked

section Ring
variable {α : Type} {next prev : α → α} {a b : α} {l m : List α}

/-- In a list without repetitions a link never runs from the last element or to the first. -/
theorem isChain_inner {R : α → α → Prop} {s : List α} {p : α} (hnd : (a :: l).Nodup) (hs : a :: l = s ++ [p])
    (hc : (a :: l).IsChain R) : (a :: l).IsChain fun y z => y ∈ a :: l ∧ z ∈ a :: l ∧ y ≠ p ∧ z ≠ a ∧ R y z := by
  refine List.isChain_iff_forall_rel_of_append_cons_cons.mpr ?_
  intro y z l₁ l₂ he
  have hp : p ∈ z :: l₂ := by
    have hl : (l₁ ++ [y] ++ z :: l₂).getLast? = some p := by
      have he' : l₁ ++ [y] ++ z :: l₂ = s ++ [p] := by simp [← hs, he]
      simp [he']
    rw [List.getLast?_append_of_ne_nil _ (List.cons_ne_nil z l₂)] at hl
    exact List.mem_of_getLast? hl
  have ha : a ∈ l₁ ++ [y] := by
    cases l₁ with
    | nil => simp [(List.cons.inj he).1]
    | cons c l₁ => simp [(List.cons.inj he).1]
  have hsplit : (l₁ ++ [y] ++ z :: l₂).Nodup := by simpa [he] using hnd
  obtain ⟨-, -, hdis⟩ := List.nodup_append.mp hsplit
  refine ⟨by simp [he], by simp [he], ?_, ?_, ?_⟩
  · exact hdis y (by simp) p hp
  · exact fun e => hdis a ha z List.mem_cons_self e.symm
  · exact List.isChain_iff_forall_rel_of_append_cons_cons.mp hc he

/-- `b` follows `a`. -/
def Adjacent (next prev : α → α) (a b : α) : Prop := next a = b ∧ prev b = a

instance [DecidableEq α] : Decidable (Adjacent next prev a b) := inferInstanceAs (Decidable (next a = b ∧ prev b = a))

/-- Following `next` from `a` visits `a :: l` and comes back to `a`; `prev` leads the
other way round. -/
structure IsRing (next prev : α → α) (a : α) (l : List α) : Prop where
  nodup : (a :: l).Nodup
  chain : (a :: (l ++ [a])).IsChain (Adjacent next prev)

namespace IsRing

theorem adjacent (h : IsRing next prev a l) {s t : List α} {x y : α} (he : a :: (l ++ [a]) = s ++ x :: y :: t) :
    Adjacent next prev x y :=
  List.isChain_iff_forall_rel_of_append_cons_cons.mp h.chain he

/-- The ring seen from another of its elements. -/
theorem rotate {l₁ l₂ : List α} (h : IsRing next prev a (l₁ ++ b :: l₂)) : IsRing next prev b (l₂ ++ a :: l₁) where
  nodup := by
    have hp : (b :: l₂ ++ a :: l₁).Perm (a :: l₁ ++ b :: l₂) := List.perm_append_comm
    exact hp.nodup_iff.mpr h.nodup
  chain := by
    have hc : (a :: l₁ ++ b :: (l₂ ++ [a])).IsChain (Adjacent next prev) := by
      simpa [List.append_assoc] using h.chain
    obtain ⟨hl, hr⟩ := List.isChain_split.mp hc
    have hc' : (b :: l₂ ++ a :: (l₁ ++ [b])).IsChain (Adjacent next prev) := List.isChain_split.mpr ⟨hr, hl⟩
    simpa [List.append_assoc] using hc'

/-- The ring seen from any of its elements. -/
theorem turn (h : IsRing next prev a l) (hb : b ∈ a :: l) :
    ∃ m s t, IsRing next prev b m ∧ a :: l = s ++ t ∧ b :: m = t ++ s := by
  rcases List.mem_cons.mp hb with rfl | hb
  · exact ⟨l, [], b :: l, h, rfl, by simp⟩
  · obtain ⟨l₁, l₂, rfl⟩ := List.append_of_mem hb
    exact ⟨l₂ ++ a :: l₁, a :: l₁, b :: l₂, h.rotate, rfl, rfl⟩

/-- The ring walked backwards. -/
theorem reverse (h : IsRing next prev a l) : IsRing prev next a l.reverse where
  nodup := by
    have hp : (a :: l.reverse).Perm (a :: l) := List.Perm.cons a l.reverse_perm
    exact hp.nodup_iff.mpr h.nodup
  chain := by
    have he : a :: (l.reverse ++ [a]) = (a :: (l ++ [a])).reverse := by simp
    rw [he, List.isChain_reverse]
    exact h.chain.imp fun x y hxy => ⟨hxy.2, hxy.1⟩

theorem links (h : IsRing next prev a l) : (a :: l).IsChain (Adjacent next prev) := by
  have hc := h.chain
  rw [← List.cons_append] at hc
  exact hc.left_of_append

/-- The last element is the one before `a`. -/
theorem prev_eq {s : List α} {p : α} (h : IsRing next prev a l) (hs : a :: l = s ++ [p]) : prev a = p := by
  refine (h.adjacent (s := s) (t := []) (x := p) (y := a) ?_).2
  rw [← List.cons_append, hs, List.append_assoc]
  rfl

theorem next_eq (h : IsRing next prev a (b :: l)) : next a = b := by
  refine (h.adjacent (s := []) (x := a) (y := b) (t := l ++ [a]) ?_).1
  rfl

theorem eq_of_chain {c : α} {l' : List α} (h : (c :: (l ++ [a])).IsChain (Adjacent next prev))
    (h' : (c :: (l' ++ [a])).IsChain (Adjacent next prev)) (ha : a ∉ l) (ha' : a ∉ l') : l = l' := by
  induction l generalizing c l' with
  | nil =>
    have hc : next c = a := (List.isChain_pair.mp h).1
    cases l' with
    | nil => rfl
    | cons b l' =>
      obtain ⟨hb, -⟩ := List.isChain_cons_cons.mp h'
      exact absurd (hc.symm.trans hb.1 ▸ List.mem_cons_self) ha'
  | cons b l ih =>
    obtain ⟨hb, ht⟩ := List.isChain_cons_cons.mp h
    cases l' with
    | nil =>
      have hc : next c = a := (List.isChain_pair.mp h').1
      exact absurd (hc.symm.trans hb.1 ▸ List.mem_cons_self) ha
    | cons b' l' =>
      obtain ⟨hb', ht'⟩ := List.isChain_cons_cons.mp h'
      obtain rfl : b = b' := hb.1.symm.trans hb'.1
      rw [ih ht ht' (fun hl => ha (List.mem_cons_of_mem b hl)) fun hl => ha' (List.mem_cons_of_mem b hl)]

/-- The links determine the ring. -/
theorem unique {l' : List α} (h : IsRing next prev a l) (h' : IsRing next prev a l') : l = l' :=
  eq_of_chain h.chain h'.chain (List.nodup_cons.mp h.nodup).1 (List.nodup_cons.mp h'.nodup).1

/-- Following `next` stays in the ring. -/
theorem next_mem (h : IsRing next prev a l) (hb : b ∈ a :: l) : next b ∈ a :: l := by
  obtain ⟨m, s, t, hr, hl, hm⟩ := h.turn hb
  have hmem : next b ∈ b :: m := by
    cases m with
    | nil =>
      have hb' : next b = b := (List.isChain_pair.mp hr.chain).1
      simp [hb']
    | cons c m => simp [hr.next_eq]
  rw [hl]
  exact List.perm_append_comm.mem_iff.mp (hm ▸ hmem)

/-- In a ring `prev` undoes `next`. -/
theorem prev_next (h : IsRing next prev a l) (hb : b ∈ a :: l) : prev (next b) = b := by
  obtain ⟨m, s, t, hr, -, -⟩ := h.turn hb
  cases m with
  | nil =>
    obtain ⟨hn, hp⟩ := List.isChain_pair.mp hr.chain
    rw [hn]
    exact hp
  | cons c m =>
    obtain ⟨hn, hp⟩ := hr.adjacent (s := []) (x := b) (y := c) (t := m ++ [b]) rfl
    rw [hn]
    exact hp

variable [DecidableEq α]

/-- A new element between the last one and `a`. -/
theorem insert {x : α} (h : IsRing next prev a l) (hx : x ∉ a :: l) :
    IsRing (Function.update (Function.update next x a) (prev a) x)
      (Function.update (Function.update prev x (prev a)) a x) a (l ++ [x]) := by
  obtain ⟨s, p, hs⟩ : ∃ s p, a :: l = s ++ [p] := ⟨_, _, (List.dropLast_append_getLast (List.cons_ne_nil a l)).symm⟩
  have hxp : x ≠ p := fun e => hx (by simp [hs, e])
  have hxa : x ≠ a := fun e => hx (e ▸ List.mem_cons_self)
  rw [h.prev_eq hs]
  refine ⟨?_, ?_⟩
  · have hp : (a :: (l ++ [x])).Perm (x :: a :: l) := List.perm_append_singleton x (a :: l)
    exact hp.nodup_iff.mpr (List.nodup_cons.mpr ⟨hx, h.nodup⟩)
  · have hold : (a :: l).IsChain (Adjacent (Function.update (Function.update next x a) p x)
        (Function.update (Function.update prev x p) a x)) := by
      refine (isChain_inner h.nodup hs h.links).imp ?_
      rintro y z ⟨hy, hz, hyp, hza, hyz⟩
      have hyx : y ≠ x := fun e => hx (e ▸ hy)
      have hzx : z ≠ x := fun e => hx (e ▸ hz)
      simpa [Adjacent, hyp, hza, hyx, hzx] using hyz
    have hnew : Adjacent (Function.update (Function.update next x a) p x)
        (Function.update (Function.update prev x p) a x) p x := by simp [Adjacent, hxa]
    have hback : Adjacent (Function.update (Function.update next x a) p x)
        (Function.update (Function.update prev x p) a x) x a := by simp [Adjacent, hxp]
    rw [hs] at hold
    rw [List.append_assoc, ← List.cons_append, hs, List.append_assoc]
    exact List.isChain_append_cons_cons.mpr ⟨hold, hnew, List.isChain_pair.mpr hback⟩

/-- The ring without `a`. -/
theorem remove (h : IsRing next prev a (b :: m)) :
    IsRing (Function.update next (prev a) b) (Function.update prev b (prev a)) b m := by
  obtain ⟨s, p, hs⟩ : ∃ s p, b :: m = s ++ [p] := ⟨_, _, (List.dropLast_append_getLast (List.cons_ne_nil b m)).symm⟩
  have hprev : prev a = p := h.prev_eq (s := a :: s) (by rw [hs]; rfl)
  rw [hprev]
  have hnd : (b :: m).Nodup := (List.nodup_cons.mp h.nodup).2
  refine ⟨hnd, ?_⟩
  have hold : (b :: m).IsChain (Adjacent (Function.update next p b) (Function.update prev b p)) := by
    have hlinks : (b :: m).IsChain (Adjacent next prev) := h.links.tail
    refine (isChain_inner hnd hs hlinks).imp ?_
    rintro y z ⟨-, -, hyp, hzb, hyz⟩
    simpa [Adjacent, hyp, hzb] using hyz
  rw [hs] at hold
  rw [← List.cons_append, hs, List.append_assoc]
  exact List.isChain_append_cons_cons.mpr ⟨hold, by simp [Adjacent], List.isChain_singleton b⟩

end IsRing

/-- Step until `stop` holds; the element to start from is not tested. -/
def walk (step : α → α) (stop : α → Bool) : Nat → α → Option α
  | 0, _ => none
  | fuel + 1, a => if stop (step a) then some (step a) else walk step stop fuel (step a)

/-- Where a walk along `l` to a place `c` that stops it ends, if the fuel lasts. -/
theorem walk_chain {stop : α → Bool} {c : α} (l : List α) (hc : (a :: (l ++ [c])).IsChain (Adjacent next prev))
    (hs : stop c = true) (fuel : Nat) : fuel ≤ l.length ∨
      ∃ m d t, l ++ [c] = m ++ d :: t ∧ walk next stop fuel a = some d ∧ stop d = true ∧ ∀ z ∈ m, stop z = false := by
  induction l generalizing a fuel with
  | nil =>
    rcases Nat.eq_zero_or_pos fuel with rfl | hf
    · exact .inl (Nat.zero_le 0)
    · obtain ⟨n, rfl⟩ : ∃ n, fuel = n + 1 := ⟨fuel - 1, by omega⟩
      have hstep : next a = c := (List.isChain_pair.mp hc).1
      exact .inr ⟨[], c, [], rfl, by simp [walk, hstep, hs], hs, by simp⟩
  | cons b l ih =>
    rcases Nat.eq_zero_or_pos fuel with rfl | hf
    · exact .inl (Nat.zero_le _)
    · obtain ⟨n, rfl⟩ : ∃ n, fuel = n + 1 := ⟨fuel - 1, by omega⟩
      obtain ⟨hab, hc'⟩ := List.isChain_cons_cons.mp hc
      have hstep : next a = b := hab.1
      cases hb : stop b with
      | true => exact .inr ⟨[], b, l ++ [c], rfl, by simp [walk, hstep, hb], hb, by simp⟩
      | false =>
        rcases ih hc' n with hle | ⟨m, d, t, he, hw, hd, hm⟩
        · exact .inl (Nat.succ_le_succ hle)
        · refine .inr ⟨b :: m, d, t, by rw [List.cons_append, he]; rfl, by simp [walk, hstep, hb, hw], hd, ?_⟩
          intro z hz
          rcases List.mem_cons.mp hz with rfl | hz
          · exact hb
          · exact hm z hz

theorem walk_add {step : α → α} {stop : α → Bool} {fuel : Nat} (h : walk step stop fuel a = some b) (k : Nat) :
    walk step stop (fuel + k) a = some b := by
  induction fuel generalizing a with
  | zero => exact absurd h (by simp [walk])
  | succ fuel ih =>
    rw [Nat.succ_add, walk]
    rw [walk] at h
    split at h
    · rename_i hs
      rw [if_pos hs]
      exact h
    · rename_i hs
      rw [if_neg hs]
      exact ih h

/-- What stands before the first place in a ring that may end a walk. -/
theorem IsRing.round {m t : List α} (h : IsRing next prev a l) (he : l ++ [a] = m ++ a :: t) : m = l := by
  have ha : a ∉ l := (List.nodup_cons.mp h.nodup).1
  rcases List.append_eq_append_iff.mp he with ⟨s, rfl, hs⟩ | ⟨s, rfl, hs⟩
  · cases s with
    | nil => simp
    | cons b s => simp at hs
  · cases s with
    | nil => simp
    | cons b s =>
      obtain ⟨rfl, -⟩ := List.cons.inj hs
      simp at ha

/-- A walk around a ring ends at the latest where it started, if that may stop it. -/
theorem IsRing.walk {stop : α → Bool} (h : IsRing next prev a l) (hs : stop a = true) {fuel : Nat} {d : α}
    (hw : Linked.walk next stop fuel a = some d) :
    ∃ m t, l ++ [a] = m ++ d :: t ∧ stop d = true ∧ ∀ z ∈ m, stop z = false := by
  have hw' := walk_add hw (l.length + 1)
  rcases walk_chain l h.chain hs (fuel + (l.length + 1)) with hle | ⟨m, d', t, he, hd, hstop, hm⟩
  · omega
  · obtain rfl : d' = d := Option.some.inj (hd.symm.trans hw')
    exact ⟨m, t, he, hstop, hm⟩

theorem IsRing.walk_isSome {stop : α → Bool} (h : IsRing next prev a l) (hs : stop a = true) {fuel : Nat}
    (hf : l.length < fuel) : ∃ d, Linked.walk next stop fuel a = some d := by
  rcases walk_chain l h.chain hs fuel with hle | ⟨m, d, t, -, hd, -⟩
  · omega
  · exact ⟨d, hd⟩

end Ring

section Order
variable {β : Type} [LinearOrder β]

/-- A rotation of the list is sorted. -/
def CycSorted (l : List β) : Prop := ∃ u v, l = u ++ v ∧ (v ++ u).Pairwise (· ≤ ·)

namespace CycSorted

theorem rotate {u v : List β} (h : CycSorted (u ++ v)) : CycSorted (v ++ u) := by
  obtain ⟨u', v', he, hs⟩ := h
  rcases List.append_eq_append_iff.mp he with ⟨c, rfl, rfl⟩ | ⟨c, rfl, rfl⟩
  · exact ⟨c, v' ++ u, by simp, by simpa using hs⟩
  · exact ⟨v ++ u', c, by simp, by simpa using hs⟩

theorem of_pairwise {l : List β} (h : l.Pairwise (· ≤ ·)) : CycSorted l := ⟨[], l, rfl, by simpa using h⟩

theorem tail {y : β} {t : List β} (h : CycSorted (y :: t)) : CycSorted t := by
  obtain ⟨u, v, he, hs⟩ := h
  cases u with
  | nil =>
    obtain rfl : y :: t = v := he
    exact ⟨[], t, rfl, by simpa using (List.pairwise_cons.mp (by simpa using hs)).2⟩
  | cons y' u =>
    obtain ⟨rfl, rfl⟩ := List.cons.inj he
    refine ⟨u, v, rfl, hs.sublist ?_⟩
    exact (List.Sublist.refl v).append (List.sublist_cons_self y u)

/-- A place between the last element `x` and the first `y` where a new one keeps the order:
it lies between them, or the order starts over there, or all elements are equal. -/
def Fits (p x y : β) (l : List β) : Prop := x ≤ p ∧ p ≤ y ∨ y < x ∧ (x ≤ p ∨ p ≤ y) ∨ ∀ z ∈ l, z = y

/-- Either the list is sorted or it is two sorted parts, the second below the first. -/
theorem split {x y : β} {t s : List β} (h : CycSorted (y :: t)) (hx : y :: t = s ++ [x]) :
    (y :: t).Pairwise (· ≤ ·) ∨ ∃ u v, y :: t = u ++ v ∧ (v ++ u).Pairwise (· ≤ ·) ∧ (∀ z ∈ v, z ≤ x) ∧
      (∀ z ∈ u, y ≤ z) ∧ x ≤ y := by
  obtain ⟨u, v, he, hs⟩ := h
  cases u with
  | nil =>
    obtain rfl : y :: t = v := he
    exact .inl (by simpa using hs)
  | cons y' u =>
    rcases List.eq_nil_or_concat v with rfl | ⟨v, x', rfl⟩
    · rw [List.append_nil] at he
      exact .inl (by simpa [he] using hs)
    · rw [List.concat_eq_append] at he hs
      obtain ⟨rfl, -⟩ := List.cons.inj he
      obtain rfl : x = x' := by
        have hl := hx.symm.trans he
        rw [← List.append_assoc] at hl
        exact (List.append_singleton_inj.mp hl).2
      obtain ⟨hv, hu, hvu⟩ := List.pairwise_append.mp hs
      refine .inr ⟨y :: u, v ++ [x], he, hs, ?_, ?_, hvu x (by simp) y List.mem_cons_self⟩
      · intro z hz
        rcases List.mem_append.mp hz with hz | hz
        · exact (List.pairwise_append.mp hv).2.2 z hz x List.mem_cons_self
        · exact (List.mem_singleton.mp hz).le
      · intro z hz
        rcases List.mem_cons.mp hz with rfl | hz
        · exact le_refl z
        · exact (List.pairwise_cons.mp hu).1 z hz

theorem insert {x y p : β} {t s : List β} (h : CycSorted (y :: t)) (hx : y :: t = s ++ [x])
    (hp : Fits p x y (y :: t)) : CycSorted (y :: t ++ [p]) := by
  -- when the list itself is sorted, the new element goes to one of its ends
  have hsorted (hs : (y :: t).Pairwise (· ≤ ·)) (hor : x ≤ p ∨ p ≤ y) : CycSorted (y :: t ++ [p]) := by
    rcases hor with hle | hle
    · refine ⟨[], y :: t ++ [p], rfl, ?_⟩
      have hall : ∀ z ∈ y :: t, z ≤ x := by
        rw [hx] at hs ⊢
        intro z hz
        rcases List.mem_append.mp hz with hz | hz
        · exact (List.pairwise_append.mp hs).2.2 z hz x List.mem_cons_self
        · exact (List.mem_singleton.mp hz).le
      simp only [List.append_nil]
      refine List.pairwise_append.mpr ⟨hs, List.pairwise_singleton _ p, ?_⟩
      intro z hz w hw
      obtain rfl := List.mem_singleton.mp hw
      exact (hall z hz).trans hle
    · refine ⟨y :: t, [p], rfl, ?_⟩
      refine List.pairwise_cons.mpr ⟨?_, hs⟩
      intro z hz
      rcases List.mem_cons.mp hz with rfl | hz
      · exact hle
      · exact hle.trans ((List.pairwise_cons.mp hs).1 z hz)
  have hxm : x ∈ y :: t := by simp [hx]
  rcases hp with ⟨hxp, hpy⟩ | ⟨hyx, hor⟩ | hall
  · rcases h.split hx with hs | ⟨u, v, he, hs, hv, hu, -⟩
    · exact hsorted hs (.inl hxp)
    · refine ⟨u, v ++ [p], by rw [he, List.append_assoc], ?_⟩
      obtain ⟨h1, h2, h3⟩ := List.pairwise_append.mp hs
      rw [List.append_assoc]
      refine List.pairwise_append.mpr ⟨h1, List.pairwise_cons.mpr ⟨?_, h2⟩, ?_⟩
      · exact fun z hz => hpy.trans (hu z hz)
      · intro z hz w hw
        rcases List.mem_cons.mp hw with rfl | hw
        · exact (hv z hz).trans hxp
        · exact h3 z hz w hw
  · rcases h.split hx with hs | ⟨_, _, _, _, _, _, hxy⟩
    · exact hsorted hs hor
    · exact absurd hyx (not_lt.mpr hxy)
  · have hs : (y :: t).Pairwise (· ≤ ·) := by
      refine List.pairwise_of_forall_mem_list ?_
      intro z hz w hw
      rw [hall z hz, hall w hw]
    have hxy : x = y := hall x hxm
    exact hsorted hs (hxy ▸ le_total x p)

end CycSorted

/-- What never falls on the way round a ring is constant. -/
theorem eq_of_round {α : Type} {f : α → β} {a : α} {l : List α}
    (h : (a :: (l ++ [a])).IsChain fun y z => f y ≤ f z) : ∀ z ∈ (a :: l).map f, z = f a := by
  have hp : ((a :: (l ++ [a])).map f).Pairwise (· ≤ ·) := by
    rw [← List.isChain_iff_pairwise, List.isChain_map]
    exact h
  intro z hz
  obtain ⟨y, hy, rfl⟩ := List.mem_map.mp hz
  rcases List.mem_cons.mp hy with rfl | hy
  · rfl
  · simp only [List.map_cons, List.map_append, List.map_nil, List.pairwise_cons, List.pairwise_append] at hp
    have hle : f a ≤ f y := hp.1 (f y) (List.mem_append_left _ (List.mem_map_of_mem hy))
    have hge : f y ≤ f a := hp.2.2.2 (f y) (List.mem_map_of_mem hy) (f a) List.mem_cons_self
    exact le_antisymm hge hle

/-- A sorted ring falls only where it starts over. -/
theorem IsRing.next_eq_of_descent {α : Type} {next prev : α → α} {f : α → β} {a c : α} {l : List α}
    (h : IsRing next prev a l) (hs : ((a :: l).map f).Pairwise (· ≤ ·)) (hc : c ∈ a :: l) (hd : f (next c) < f c) :
    next c = a := by
  obtain ⟨s, t, he⟩ := List.append_of_mem hc
  cases t with
  | nil =>
    refine (h.adjacent (s := s) (t := []) ?_).1
    rw [← List.cons_append, he]
    simp
  | cons d t =>
    have hn : next c = d := by
      refine (h.adjacent (s := s) (t := t ++ [a]) ?_).1
      rw [← List.cons_append, he]
      simp
    rw [he, List.map_append, List.pairwise_append] at hs
    have hle : f c ≤ f d := (List.pairwise_cons.mp hs.2.1).1 (f d) List.mem_cons_self
    exact absurd (hn ▸ hd) (not_lt.mpr hle)

/-- The smallest element of a sorted ring stands where it falls, the largest in front of it. -/
theorem IsRing.extremes_of_descent {α : Type} {next prev : α → α} {f : α → β} {a c : α} {l : List α}
    (h : IsRing next prev a l) (hs : ((a :: l).map f).Pairwise (· ≤ ·)) (hc : c ∈ a :: l) (hd : f (next c) < f c) :
    (∀ z ∈ a :: l, f (next c) ≤ f z) ∧ ∀ z ∈ a :: l, f z ≤ f c := by
  have hn : next c = a := h.next_eq_of_descent hs hc hd
  obtain ⟨s, p, hp⟩ : ∃ s p, a :: l = s ++ [p] := ⟨_, _, (List.dropLast_append_getLast (List.cons_ne_nil a l)).symm⟩
  have hlast : c = p := by
    rw [← h.prev_next hc, hn, h.prev_eq hp]
  rw [List.pairwise_map] at hs
  refine ⟨?_, ?_⟩
  · intro z hz
    rw [hn]
    rcases List.mem_cons.mp hz with rfl | hz
    · exact le_refl (f z)
    · exact (List.pairwise_cons.mp hs).1 z hz
  · rw [hp] at hs ⊢
    intro z hz
    rw [hlast]
    rcases List.mem_append.mp hz with hz | hz
    · exact (List.pairwise_append.mp hs).2.2 z hz p (List.mem_singleton_self p)
    · exact (congrArg f (List.mem_singleton.mp hz)).le

/-- Nothing in a sorted ring lies between two neighbours where it rises. -/
theorem IsRing.gap_of_ascent {α : Type} {next prev : α → α} {f : α → β} {a c : α} {l : List α}
    (h : IsRing next prev a l) (hs : ((a :: l).map f).Pairwise (· ≤ ·)) (hc : c ∈ a :: l) (hd : f c < f (next c)) :
    ∀ z ∈ a :: l, f z ≤ f c ∨ f (next c) ≤ f z := by
  obtain ⟨s, t, he⟩ := List.append_of_mem hc
  rw [List.pairwise_map] at hs
  cases t with
  | nil =>
    -- behind the last element stands the first, which is not above it
    have hn : next c = a := by
      refine (h.adjacent (s := s) (t := []) ?_).1
      rw [← List.cons_append, he]
      simp
    have hle : f a ≤ f c := by
      rcases List.mem_cons.mp hc with rfl | hc
      · exact le_refl (f c)
      · exact (List.pairwise_cons.mp hs).1 c hc
    rw [hn] at hd
    exact absurd hd (not_lt.mpr hle)
  | cons d t =>
    have hn : next c = d := by
      refine (h.adjacent (s := s) (t := t ++ [a]) ?_).1
      rw [← List.cons_append, he]
      simp
    rw [he] at hs ⊢
    obtain ⟨-, htail, hs'⟩ := List.pairwise_append.mp hs
    rw [hn]
    intro z hz
    rcases List.mem_append.mp hz with hz | hz
    · exact .inl (hs' z hz c List.mem_cons_self)
    rcases List.mem_cons.mp hz with rfl | hz
    · exact .inl (le_refl (f z))
    rcases List.mem_cons.mp hz with rfl | hz
    · exact .inr (le_refl (f z))
    · exact .inr ((List.pairwise_cons.mp (List.pairwise_cons.mp htail).2).1 z hz)

end Order
end Mvpmc.Lib.Linked
