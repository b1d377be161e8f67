import Mvpmc.RefMem.Alloc
import Mvpmc.Lib.Reach
import Mathlib.Algebra.Order.BigOperators.Group.Finset
import Mathlib.Algebra.BigOperators.Group.Finset.Piecewise

/-! The counts of the blocks, the two totals and the references that exist agree in every state. -/
namespace Mvpmc.RefMem
open Mvpmc.Lib

namespace Heap

/-- The sum of `f` over the blocks in use. -/
def total (h : Heap) (f : RefCounter → Nat) : Nat := ∑ a ∈ h.live, f (h.block a)

theorem total_update {h h' : Heap} {p : Addr} {b : RefCounter} (hp : p ∈ h.live) (hlive : h'.live = h.live)
    (hblock : h'.block = Function.update h.block p b) (f : RefCounter → Nat) :
    h'.total f + f (h.block p) = h.total f + f b := by
  have hold := Finset.add_sum_erase h.live (fun a => f (h.block a)) hp
  have hnew := Finset.add_sum_erase h.live (fun a => f (h'.block a)) hp
  have hrest : ∑ a ∈ h.live.erase p, f (h'.block a) = ∑ a ∈ h.live.erase p, f (h.block a) := by
    refine Finset.sum_congr rfl fun a ha => ?_
    rw [hblock, Function.update_of_ne (Finset.ne_of_mem_erase ha)]
  have hself : h'.block p = b := by rw [hblock, Function.update_self]
  simp only [hself] at hnew
  unfold total
  rw [hlive]
  omega

theorem total_insert {h h' : Heap} {p : Addr} {b : RefCounter} (hp : p ∉ h.live)
    (hlive : h'.live = insert p h.live) (hblock : h'.block = Function.update h.block p b) (f : RefCounter → Nat) :
    h'.total f = h.total f + f b := by
  have hrest : ∑ a ∈ h.live, f (h'.block a) = ∑ a ∈ h.live, f (h.block a) := by
    refine Finset.sum_congr rfl fun a ha => ?_
    have hne : a ≠ p := fun e => hp (e ▸ ha)
    rw [hblock, Function.update_of_ne hne]
  have hself : h'.block p = b := by rw [hblock, Function.update_self]
  unfold total
  rw [hlive, Finset.sum_insert hp, hrest, hself]
  omega

theorem total_erase {h h' : Heap} {p : Addr} (hp : p ∈ h.live) (hlive : h'.live = h.live.erase p)
    (hblock : h'.block = h.block) (f : RefCounter → Nat) : h'.total f + f (h.block p) = h.total f := by
  unfold total
  rw [hlive, hblock]
  exact Finset.sum_erase_add h.live (fun a => f (h.block a)) hp

theorem le_total {h : Heap} {p : Addr} (hp : p ∈ h.live) (f : RefCounter → Nat) : f (h.block p) ≤ h.total f := by
  unfold total
  exact Finset.single_le_sum (f := fun a => f (h.block a)) (fun _ _ => Nat.zero_le _) hp

end Heap

/-- The references that belong to a block: those it stores, if it has a destroy function that has not
been called. -/
def RefCounter.held (b : RefCounter) : List Addr := if b.destroy ∧ b.refcount ≠ 0 then b.stored else []

namespace Sys

/-- The references to `a` that exist: the callers', the blocks', and those a destroy function is about to
release. -/
def refs (s : Sys) (a : Addr) : Nat :=
  s.owned.count a + s.heap.total (fun b => b.held.count a) + (s.calls.flatMap Prod.snd).count a

/-- The invariant, with references in `hand` that are on their way to `refRelease`. -/
structure Inv (sizeofRefcounter : Nat) (hand : List Addr) (s : Sys) : Prop where
  counts : ∀ a, (s.heap.block a).refcount = s.refs a + hand.count a
  bound : ∀ a, (s.heap.block a).refcount < word
  dead : ∀ a, a ∉ s.heap.live → (s.heap.block a).refcount = 0
  dying : ∀ a ∈ s.heap.live, (s.heap.block a).refcount = 0 ↔ a ∈ s.calls.map Prod.fst
  callsLive : ∀ a ∈ s.calls.map Prod.fst, a ∈ s.heap.live
  callsNodup : (s.calls.map Prod.fst).Nodup
  destroyed : ∀ a, (s.heap.block a).destroyed =
    if (s.heap.block a).destroy ∧ (s.heap.block a).refcount = 0 then 1 else 0
  totalRefs : s.heap.totalRefcount = s.heap.total RefCounter.refcount % word
  totalBytes : s.heap.totalBytecount = s.heap.total (fun b => sizeofRefcounter + b.length) % word

namespace Inv
variable {sizeofRefcounter : Nat} {hand : List Addr} {s s' : Sys} {p : Addr}

theorem start : Inv sizeofRefcounter [] Sys.start := by
  constructor <;> simp [Sys.start, Heap.empty, Sys.refs, Heap.total, word]

theorem mem_live (hs : Inv sizeofRefcounter hand s) (hp : (s.heap.block p).refcount ≠ 0) : p ∈ s.heap.live := by
  by_contra hn
  exact hp (hs.dead p hn)

theorem refcount_pos (hs : Inv sizeofRefcounter hand s) (hp : p ∈ s.owned) : (s.heap.block p).refcount ≠ 0 := by
  have hcount := hs.counts p
  have howned := Multiset.count_pos.mpr hp
  unfold Sys.refs at hcount
  omega

/-- A block is written: what holds of the others still does. -/
theorem forall_block {b : RefCounter} {P : RefCounter → Prop} (hblock : s'.heap.block = Function.update s.heap.block p b)
    (hb : P b) (h : ∀ a, P (s.heap.block a)) (a : Addr) : P (s'.heap.block a) := by
  rw [hblock]
  exact (Function.forall_update_iff s.heap.block fun _ c => P c).mpr ⟨hb, fun x _ => h x⟩ a

/-- The count of the destroy function's calls is right for a block. -/
def Counted (b : RefCounter) : Prop := b.destroyed = if b.destroy ∧ b.refcount = 0 then 1 else 0

/-- A block in use is rewritten, and stays in use. -/
theorem set (hs : Inv sizeofRefcounter hand s) (hp : (s.heap.block p).refcount ≠ 0) {b : RefCounter}
    {hand' : List Addr} (hlive : s'.heap.live = s.heap.live) (hblock : s'.heap.block = Function.update s.heap.block p b)
    (hcalls : s'.calls = s.calls) (hb : b.refcount ≠ 0) (hbound : b.refcount < word)
    (hlength : b.length = (s.heap.block p).length) (hdestroyed : b.destroyed = (s.heap.block p).destroyed)
    (hbytes : s'.heap.totalBytecount = s.heap.totalBytecount)
    (hrefs : s'.heap.totalRefcount =
      (s.heap.totalRefcount + (b.refcount + (word - (s.heap.block p).refcount))) % word)
    (hmove : ∀ a, s'.owned.count a + b.held.count a + hand'.count a + (if a = p then (s.heap.block p).refcount else 0) =
      s.owned.count a + (s.heap.block p).held.count a + hand.count a + (if a = p then b.refcount else 0)) :
    Inv sizeofRefcounter hand' s' := by
  have hmem := hs.mem_live hp
  have hother : ∀ a, a ≠ p → s'.heap.block a = s.heap.block a := by
    intro a ha
    rw [hblock, Function.update_of_ne ha]
  have hself : s'.heap.block p = b := by rw [hblock, Function.update_self]
  have hsum := Heap.total_update hmem hlive hblock
  constructor
  · intro a
    have hold := hs.counts a
    have hheld := hsum fun b => b.held.count a
    have hm := hmove a
    unfold Sys.refs at hold ⊢
    rw [hcalls]
    by_cases ha : a = p
    · subst ha
      rw [hself]
      simp only [if_true] at hm
      omega
    · rw [hother a ha]
      simp only [if_neg ha] at hm
      omega
  · exact forall_block (P := fun b => b.refcount < word) hblock hbound hs.bound
  · intro a hn
    rw [hlive] at hn
    have ha : a ≠ p := fun e => hn (e ▸ hmem)
    rw [hother a ha]
    exact hs.dead a hn
  · intro a hm
    rw [hlive] at hm
    rw [hcalls]
    by_cases ha : a = p
    · subst ha
      rw [hself]
      have := hs.dying a hm
      tauto
    · rw [hother a ha]
      exact hs.dying a hm
  · rw [hcalls, hlive]
    exact hs.callsLive
  · rw [hcalls]
    exact hs.callsNodup
  · refine forall_block (P := Counted) hblock ?_ hs.destroyed
    have hd := hs.destroyed p
    rw [if_neg (fun h => hp h.2)] at hd
    rw [Counted, if_neg (fun h => hb h.2), hdestroyed, hd]
  · have hrc := hsum RefCounter.refcount
    have hle := Heap.le_total hmem RefCounter.refcount
    have hlt := hs.bound p
    rw [hrefs, hs.totalRefs]
    unfold word at *
    omega
  · have hlen := hsum fun b => sizeofRefcounter + b.length
    rw [hbytes, hs.totalBytes]
    congr 1
    omega

/-- `malloc` answered with an unused address: the new block has one reference, the caller's. -/
theorem refAlloc (hs : Inv sizeofRefcounter hand s) (len : Nat) {ret : Option Addr}
    (hret : ∀ q ∈ ret, q ∉ s.heap.live) : Inv sizeofRefcounter hand (s.refAlloc sizeofRefcounter len ret) := by
  cases ret with
  | none => exact hs
  | some q =>
    have hq : q ∉ s.heap.live := hret q rfl
    let s' := s.refAlloc sizeofRefcounter len (some q)
    have hother : ∀ a, a ≠ q → s'.heap.block a = s.heap.block a := fun a ha => Function.update_of_ne ha _ _
    have hself : s'.heap.block q = ⟨1, len, false, [], 0⟩ := Function.update_self _ _ _
    have hsum : ∀ f, s'.heap.total f = s.heap.total f + f ⟨1, len, false, [], 0⟩ :=
      Heap.total_insert hq rfl rfl
    have hcall : q ∉ s.calls.map Prod.fst := fun h => hq (hs.callsLive q h)
    have hmem : ∀ a, a ∈ s'.heap.live ↔ a = q ∨ a ∈ s.heap.live := fun a => Finset.mem_insert
    have hcount : ∀ a, s'.owned.count a = s.owned.count a + if a = q then 1 else 0 :=
      fun a => Multiset.count_cons a q s.owned
    change Inv sizeofRefcounter hand s'
    constructor
    · intro a
      have hold := hs.counts a
      have hheld := hsum fun b => b.held.count a
      have hown := hcount a
      have hnil : RefCounter.held ⟨1, len, false, [], 0⟩ = [] := rfl
      rw [hnil, List.count_nil] at hheld
      have hcalls : s'.calls = s.calls := rfl
      unfold Sys.refs at hold ⊢
      rw [hcalls]
      by_cases ha : a = q
      · subst ha
        have := hs.dead a hq
        rw [hself]
        simp only [if_true] at hown ⊢
        omega
      · rw [hother a ha]
        simp only [if_neg ha] at hown
        omega
    · exact forall_block (P := fun b => b.refcount < word) rfl (Nat.one_lt_two_pow (by decide)) hs.bound
    · intro a hn
      rw [hmem, not_or] at hn
      rw [hother a hn.1]
      exact hs.dead a hn.2
    · intro a hm
      by_cases ha : a = q
      · subst ha
        rw [hself]
        exact iff_of_false Nat.one_ne_zero hcall
      · rw [hother a ha]
        exact hs.dying a (((hmem a).mp hm).resolve_left ha)
    · intro a hm
      exact (hmem a).mpr (Or.inr (hs.callsLive a hm))
    · exact hs.callsNodup
    · exact forall_block (P := Counted) rfl (by simp [Counted]) hs.destroyed
    · have hrc := hsum RefCounter.refcount
      have htot : s'.heap.totalRefcount = (s.heap.totalRefcount + 1) % word := rfl
      rw [htot, hrc, hs.totalRefs, Nat.mod_add_mod]
    · have hlen := hsum fun b => sizeofRefcounter + b.length
      have htot : s'.heap.totalBytecount = (s.heap.totalBytecount + (sizeofRefcounter + len)) % word := rfl
      rw [htot, hlen, hs.totalBytes, Nat.mod_add_mod]

/-- The last reference goes: what the block holds passes to the activation of its destroy function. -/
theorem lastRef (hs : Inv sizeofRefcounter (p :: hand) s) (hp : (s.heap.block p).refcount = 1) {b : RefCounter}
    (hlive : s'.heap.live = s.heap.live) (hblock : s'.heap.block = Function.update s.heap.block p b)
    (hcalls : s'.calls = (p, (s.heap.block p).held) :: s.calls) (hb : b.refcount = 0)
    (hlength : b.length = (s.heap.block p).length) (hdestroyed : b.destroyed = if b.destroy then 1 else 0)
    (hbytes : s'.heap.totalBytecount = s.heap.totalBytecount)
    (hrefs : s'.heap.totalRefcount = mvpAtomicDec s.heap.totalRefcount) (howned : s'.owned = s.owned) :
    Inv sizeofRefcounter hand s' := by
  have hmem := hs.mem_live (p := p) (by omega)
  have hother : ∀ a, a ≠ p → s'.heap.block a = s.heap.block a := by
    intro a ha
    rw [hblock, Function.update_of_ne ha]
  have hself : s'.heap.block p = b := by rw [hblock, Function.update_self]
  have hsum := Heap.total_update hmem hlive hblock
  have hnot : p ∉ s.calls.map Prod.fst := fun h => absurd ((hs.dying p hmem).mpr h) (by omega)
  constructor
  · intro a
    have hold := hs.counts a
    have hheld := hsum fun b => b.held.count a
    have hnil : b.held = [] := if_neg fun h => h.2 hb
    simp only [hnil, List.count_nil] at hheld
    unfold Sys.refs at hold ⊢
    rw [hcalls, howned, List.flatMap_cons, List.count_append]
    simp only [List.count_cons, beq_iff_eq] at hold ⊢
    by_cases ha : a = p
    · subst ha
      rw [hself]
      simp only [if_true] at hold
      omega
    · rw [hother a ha]
      rw [if_neg (fun e => ha e.symm)] at hold
      omega
  · exact forall_block (P := fun b => b.refcount < word) hblock (by rw [hb]; decide) hs.bound
  · intro a hn
    rw [hlive] at hn
    have ha : a ≠ p := fun e => hn (e ▸ hmem)
    rw [hother a ha]
    exact hs.dead a hn
  · intro a hm
    rw [hlive] at hm
    rw [hcalls, List.map_cons, List.mem_cons]
    by_cases ha : a = p
    · subst ha
      rw [hself]
      exact iff_of_true hb (Or.inl rfl)
    · rw [hother a ha, hs.dying a hm]
      exact ⟨Or.inr, fun h => h.resolve_left ha⟩
  · rw [hcalls, hlive]
    intro a hm
    rcases List.mem_cons.mp hm with rfl | hm
    · exact hmem
    · exact hs.callsLive a hm
  · rw [hcalls, List.map_cons, List.nodup_cons]
    exact ⟨hnot, hs.callsNodup⟩
  · exact forall_block (P := Counted) hblock (by rw [Counted, hdestroyed]; simp [hb]) hs.destroyed
  · have hrc := hsum RefCounter.refcount
    have hle := Heap.le_total hmem RefCounter.refcount
    rw [hrefs, mvpAtomicDec, hs.totalRefs]
    unfold word
    omega
  · have hlen := hsum fun b => sizeofRefcounter + b.length
    rw [hbytes, hs.totalBytes]
    congr 1
    omega

/-- `ref_release` gives the reference in hand back. -/
theorem refRelease (hs : Inv sizeofRefcounter (p :: hand) s) : Inv sizeofRefcounter hand (s.refRelease p) := by
  have hcount := hs.counts p
  rw [List.count_cons_self] at hcount
  have hlt := hs.bound p
  have hdec : mvpAtomicDec (s.heap.block p).refcount = (s.heap.block p).refcount - 1 := by
    unfold mvpAtomicDec word at *
    omega
  have hblock : (s.heap.dropRef p).block p = { s.heap.block p with refcount := (s.heap.block p).refcount - 1 } := by
    rw [← hdec]
    exact Function.update_self _ _ _
  unfold Sys.refRelease
  by_cases hone : (s.heap.block p).refcount = 1
  · have hzero : ((s.heap.dropRef p).block p).refcount = 0 := by
      rw [hblock, hone]
    have hdestroyed := hs.destroyed p
    rw [if_neg (fun h => absurd h.2 (by omega))] at hdestroyed
    rw [if_pos hzero]
    by_cases hd : ((s.heap.dropRef p).block p).destroy
    · rw [if_pos hd]
      have hd' : (s.heap.block p).destroy = true := by rwa [hblock] at hd
      refine hs.lastRef hone (b := { (s.heap.dropRef p).block p with destroyed := 1 }) rfl ?_ ?_ hzero ?_ ?_ rfl rfl rfl
      · simp only [Heap.callDestroy, Heap.set, hblock, hdestroyed, Nat.zero_add]
        simp only [Heap.dropRef, Heap.set, Function.update_idem]
      · rw [RefCounter.held, if_pos ⟨hd', by omega⟩, hblock]
      · rw [hblock]
      · rw [if_pos hd]
    · rw [if_neg hd]
      have hd' : (s.heap.block p).destroy = false := by
        rw [hblock] at hd
        simpa using hd
      refine hs.lastRef hone (b := (s.heap.dropRef p).block p) rfl ?_ ?_ hzero ?_ ?_ rfl rfl rfl
      · rw [hblock, ← hdec]
        rfl
      · rw [RefCounter.held, if_neg (by simp [hd'])]
      · rw [hblock]
      · rw [if_neg hd, hblock]
        exact hdestroyed
  · have hne : ((s.heap.dropRef p).block p).refcount ≠ 0 := by
      rw [hblock]
      simp only
      omega
    rw [if_neg hne]
    refine hs.set (p := p) (by omega) (b := { s.heap.block p with refcount := (s.heap.block p).refcount - 1 })
      rfl ?_ rfl ?_ ?_ rfl rfl rfl ?_ ?_
    · rw [← hdec]
      rfl
    · rwa [hblock] at hne
    · simp only
      omega
    · change mvpAtomicDec s.heap.totalRefcount = _
      have hstep : word - 1 = (s.heap.block p).refcount - 1 + (word - (s.heap.block p).refcount) := by omega
      rw [mvpAtomicDec, hstep]
    · intro a
      have hheld : RefCounter.held { s.heap.block p with refcount := (s.heap.block p).refcount - 1 } =
          (s.heap.block p).held := by
        unfold RefCounter.held
        refine if_congr ?_ rfl rfl
        simp only
        rw [hblock] at hne
        refine and_congr_right fun _ => iff_of_true hne (by omega)
      rw [hheld]
      simp only [List.count_cons, beq_iff_eq]
      by_cases ha : a = p
      · subst ha
        simp only [if_true]
        omega
      · simp only [if_neg ha, if_neg (Ne.symm ha), Nat.add_zero]

/-- The destroy function has returned: the block, to which no reference exists, is freed. -/
theorem free {calls : List (Addr × List Addr)} (hs : Inv sizeofRefcounter hand s) (hcalls : s.calls = (p, []) :: calls) :
    Inv sizeofRefcounter hand { s with heap := s.heap.free sizeofRefcounter p, calls := calls } := by
  have hfst : s.calls.map Prod.fst = p :: calls.map Prod.fst := by rw [hcalls, List.map_cons]
  have hmem : p ∈ s.heap.live := hs.callsLive p (hfst ▸ List.mem_cons_self)
  have hzero : (s.heap.block p).refcount = 0 := (hs.dying p hmem).mpr (hfst ▸ List.mem_cons_self)
  have hnodup := hs.callsNodup
  rw [hfst, List.nodup_cons] at hnodup
  have hsum : ∀ f, (s.heap.free sizeofRefcounter p).total f + f (s.heap.block p) = s.heap.total f :=
    Heap.total_erase hmem rfl rfl
  constructor
  · intro a
    have hold := hs.counts a
    have hheld := hsum fun b => b.held.count a
    have hnil : (s.heap.block p).held = [] := if_neg fun h => h.2 hzero
    simp only [hnil, List.count_nil] at hheld
    unfold Sys.refs at hold ⊢
    rw [hcalls, List.flatMap_cons, List.nil_append] at hold
    simp only [Heap.free] at hheld ⊢
    omega
  · exact hs.bound
  · intro a hn
    by_cases ha : a = p
    · exact ha ▸ hzero
    · exact hs.dead a fun h => hn (Finset.mem_erase.mpr ⟨ha, h⟩)
  · intro a hm
    obtain ⟨ha, hm⟩ := Finset.mem_erase.mp hm
    have hd := hs.dying a hm
    rw [hfst, List.mem_cons] at hd
    exact hd.trans ⟨fun h => h.resolve_left ha, Or.inr⟩
  · intro a hm
    have ha : a ≠ p := fun e => hnodup.1 (e ▸ hm)
    exact Finset.mem_erase.mpr ⟨ha, hs.callsLive a (hfst ▸ List.mem_cons_of_mem p hm)⟩
  · exact hnodup.2
  · exact hs.destroyed
  · have hrc := hsum RefCounter.refcount
    rw [hzero, Nat.add_zero] at hrc
    exact hs.totalRefs.trans (by rw [← hrc])
  · have hlen := hsum fun b => sizeofRefcounter + b.length
    have htot := hs.totalBytes
    change (s.heap.totalBytecount + (word - (sizeofRefcounter + (s.heap.block p).length) % word)) % word =
      (s.heap.free sizeofRefcounter p).total (fun b => sizeofRefcounter + b.length) % word
    rw [htot]
    unfold word at *
    omega

/-- A reference a destroy function has still to release is taken in hand. -/
theorem pending {a : Addr} {rest : List Addr} {calls : List (Addr × List Addr)} (hs : Inv sizeofRefcounter hand s)
    (hcalls : s.calls = (p, a :: rest) :: calls) :
    Inv sizeofRefcounter (a :: hand) { s with calls := (p, rest) :: calls } := by
  have hfst : ((p, rest) :: calls).map Prod.fst = s.calls.map Prod.fst := by rw [hcalls]; rfl
  refine ⟨fun b => ?_, hs.bound, hs.dead, ?_, ?_, ?_, hs.destroyed, hs.totalRefs, hs.totalBytes⟩
  · have hold := hs.counts b
    unfold Sys.refs at hold ⊢
    rw [hcalls] at hold
    simp only [List.flatMap_cons, List.count_append, List.count_cons] at hold ⊢
    omega
  · intro b hb
    rw [hfst]
    exact hs.dying b hb
  · rw [hfst]
    exact hs.callsLive
  · rw [hfst]
    exact hs.callsNodup

/-- A reference of the callers is taken in hand. -/
theorem takeOwned (hs : Inv sizeofRefcounter hand s) (hp : p ∈ s.owned) :
    Inv sizeofRefcounter (p :: hand) { s with owned := s.owned.erase p } := by
  refine ⟨fun b => ?_, hs.bound, hs.dead, hs.dying, hs.callsLive, hs.callsNodup, hs.destroyed, hs.totalRefs,
    hs.totalBytes⟩
  have hold := hs.counts b
  have hown : s.owned.count b = (s.owned.erase p).count b + if b = p then 1 else 0 := by
    rw [← Multiset.count_cons, Multiset.cons_erase hp]
  unfold Sys.refs at hold ⊢
  simp only [List.count_cons, beq_iff_eq, eq_comm (a := p)]
  omega

theorem resume (hs : Inv sizeofRefcounter hand s) : Inv sizeofRefcounter hand (s.resume sizeofRefcounter) := by
  unfold Sys.resume
  split
  · exact hs
  next p a rest calls hcalls => exact (hs.pending hcalls).refRelease
  next p calls hcalls => exact hs.free hcalls

theorem refHold (hs : Inv sizeofRefcounter hand s) (hp : (s.heap.block p).refcount ≠ 0)
    (hmax : (s.heap.block p).refcount ≠ word - 1) :
    Inv sizeofRefcounter hand { s with heap := s.heap.refHold p, owned := p ::ₘ s.owned } := by
  have hlt := hs.bound p
  have hinc : mvpAtomicInc (s.heap.block p).refcount = (s.heap.block p).refcount + 1 := by
    unfold mvpAtomicInc word at *
    omega
  refine hs.set hp (b := { s.heap.block p with refcount := (s.heap.block p).refcount + 1 }) rfl ?_ rfl ?_ ?_ rfl rfl
    rfl ?_ fun a => ?_
  · rw [← hinc]
    rfl
  · exact Nat.succ_ne_zero _
  · simp only
    omega
  · change mvpAtomicInc s.heap.totalRefcount = _
    have hstep : (s.heap.block p).refcount + 1 + (word - (s.heap.block p).refcount) = 1 + word := by omega
    rw [hstep, ← Nat.add_assoc, Nat.add_mod_right]
    rfl
  · have hheld : RefCounter.held { s.heap.block p with refcount := (s.heap.block p).refcount + 1 } =
        (s.heap.block p).held := by
      unfold RefCounter.held
      refine if_congr ?_ rfl rfl
      exact and_congr_right fun _ => iff_of_true (Nat.succ_ne_zero _) hp
    rw [hheld]
    simp only [Multiset.count_cons]
    split <;> omega

/-- A block in use gets other contents, and references move between it and the callers. -/
theorem rewrite (hs : Inv sizeofRefcounter hand s) (hp : (s.heap.block p).refcount ≠ 0) {b : RefCounter}
    {o : Multiset Addr} (hcount : b.refcount = (s.heap.block p).refcount) (hlength : b.length = (s.heap.block p).length)
    (hdestroyed : b.destroyed = (s.heap.block p).destroyed)
    (hmove : ∀ a, o.count a + b.held.count a = s.owned.count a + (s.heap.block p).held.count a) :
    Inv sizeofRefcounter hand { s with heap := s.heap.set p b, owned := o } := by
  have hlt := hs.bound p
  refine hs.set hp rfl rfl rfl (hcount ▸ hp) (hcount ▸ hlt) hlength hdestroyed rfl ?_ fun a => ?_
  · change s.heap.totalRefcount = _
    have hstep : b.refcount + (word - (s.heap.block p).refcount) = word := by omega
    rw [hstep, Nat.add_mod_right, hs.totalRefs, Nat.mod_mod]
  · have hm := hmove a
    rw [hcount]
    simp only
    omega

theorem held_eq {b : RefCounter} (hb : b.refcount ≠ 0) : b.held = if b.destroy then b.stored else [] :=
  if_congr (and_iff_left hb) rfl rfl

theorem refSetDestroy (hs : Inv sizeofRefcounter hand s) (func : Bool)
    (hc : s.Allowed (.refSetDestroy p func)) : Inv sizeofRefcounter hand (s.call sizeofRefcounter (.refSetDestroy p func)) := by
  obtain ⟨hp, hgive⟩ := hc
  have hpos := hs.refcount_pos hp
  refine hs.rewrite hpos rfl rfl rfl fun a => ?_
  rw [held_eq hpos, held_eq (b := { s.heap.block p with destroy := func }) hpos]
  cases hd : (s.heap.block p).destroy <;> cases func
  · rfl
  · have hle := Multiset.count_le_of_le a (hgive rfl hd)
    rw [Multiset.coe_count] at hle
    simp only [Multiset.count_sub, Multiset.coe_count, if_true, Bool.false_eq_true, if_false, List.count_nil]
    omega
  · simp only [Multiset.count_add, Multiset.coe_count, if_true, Bool.false_eq_true, if_false, List.count_nil]
    omega
  · rfl

theorem store {a : Addr} (hs : Inv sizeofRefcounter hand s) (hc : s.Allowed (.store p a)) :
    Inv sizeofRefcounter hand (s.call sizeofRefcounter (.store p a)) := by
  obtain ⟨hp, ha⟩ := hc
  have hpos := hs.refcount_pos hp
  refine hs.rewrite hpos rfl rfl rfl fun x => ?_
  rw [held_eq hpos, held_eq (b := { s.heap.block p with stored := a :: (s.heap.block p).stored }) hpos]
  have hown : s.owned.count x = (s.owned.erase a).count x + if x = a then 1 else 0 := by
    rw [← Multiset.count_cons, Multiset.cons_erase ha]
  by_cases hd : (s.heap.block p).destroy
  · simp only [if_pos hd, List.count_cons, beq_iff_eq, eq_comm (a := a)]
    omega
  · simp only [if_neg hd]

theorem take {a : Addr} (hs : Inv sizeofRefcounter hand s) (hc : s.Allowed (.take p a)) :
    Inv sizeofRefcounter hand (s.call sizeofRefcounter (.take p a)) := by
  obtain ⟨hp, ha⟩ := hc
  have hpos := hs.refcount_pos hp
  refine hs.rewrite hpos rfl rfl rfl fun x => ?_
  rw [held_eq hpos, held_eq (b := { s.heap.block p with stored := (s.heap.block p).stored.erase a }) hpos]
  have hstored := (List.perm_cons_erase ha).count_eq x
  rw [List.count_cons] at hstored
  by_cases hd : (s.heap.block p).destroy
  · simp only [if_pos hd, Multiset.count_cons]
    simp only [beq_iff_eq, eq_comm (a := a)] at hstored
    omega
  · simp only [if_neg hd]

/-- The copy made by `ref_realloc` holds no reference, if the old block has no destroy function or stores
none. -/
theorem copyBlock {q : Addr} (hs : Inv sizeofRefcounter hand s) (hq : (s.heap.block q).refcount ≠ 0)
    (hfresh : (s.heap.block q).destroy = false) (hp : (s.heap.block p).destroy = false ∨ (s.heap.block p).stored = []) :
    Inv sizeofRefcounter hand (s.copyBlock p q) := by
  have hcopy : Inv sizeofRefcounter hand
      { s with heap := s.heap.set q { s.heap.block q with stored := (s.heap.block p).stored } } := by
    refine hs.rewrite (o := s.owned) hq rfl rfl rfl fun a => ?_
    rw [held_eq hq, held_eq (b := { s.heap.block q with stored := (s.heap.block p).stored }) hq]
    simp only [hfresh, Bool.false_eq_true, if_false]
  have hself : (s.heap.set q { s.heap.block q with stored := (s.heap.block p).stored }).block q =
      { s.heap.block q with stored := (s.heap.block p).stored } := Function.update_self _ _ _
  refine hcopy.rewrite (o := s.owned) (p := q) ?_ rfl rfl rfl fun a => ?_
  · rw [hself]
    exact hq
  · rw [held_eq (by rw [hself]; exact hq), held_eq (by rw [hself]; exact hq), hself]
    rcases hp with hp | hp
    · simp only [hp, hfresh]
    · simp only [hp, hfresh, ite_self]

theorem refRealloc {len : Nat} {ret : Option Addr} (hs : Inv sizeofRefcounter hand s) {p : Option Addr}
    (hc : s.Allowed (.refRealloc p len ret))
    (hcopy : ∀ a ∈ p, ret.isSome → (s.heap.block a).destroy = false ∨ (s.heap.block a).stored = []) :
    Inv sizeofRefcounter hand (s.refRealloc sizeofRefcounter p len ret) := by
  obtain ⟨hp, hret⟩ := hc
  have halloc := hs.refAlloc len hret
  cases p with
  | none => exact halloc
  | some p =>
    obtain ⟨howned, -⟩ := hp p rfl
    cases ret with
    | none => exact (halloc.takeOwned howned).refRelease
    | some q =>
      have hq : q ∉ s.heap.live := hret q rfl
      have hne : p ≠ q := fun e => hq (e ▸ hs.mem_live (hs.refcount_pos howned))
      have hself : (s.refAlloc sizeofRefcounter len (some q)).heap.block q = ⟨1, len, false, [], 0⟩ :=
        Function.update_self _ _ _
      have hother : (s.refAlloc sizeofRefcounter len (some q)).heap.block p = s.heap.block p :=
        Function.update_of_ne hne _ _
      have hcopied := halloc.copyBlock (p := p) (q := q) (by rw [hself]; exact Nat.one_ne_zero) (by rw [hself])
        (by rw [hother]; exact hcopy p rfl rfl)
      exact (hcopied.takeOwned (Multiset.mem_cons_of_mem howned)).refRelease

end Inv

/-- The calls that keep the references apart: a hold finds room in the counter, and `ref_realloc` copies a
block with no destroy function or with no reference stored in it. -/
def Apart (s : Sys) : Call → Prop
  | .refHold p => ∀ a ∈ p, (s.heap.block a).refcount ≠ word - 1
  | .refRealloc p _ ret => ∀ a ∈ p, ret.isSome → (s.heap.block a).destroy = false ∨ (s.heap.block a).stored = []
  | _ => True

theorem Inv.step {sizeofRefcounter : Nat} {s s' : Sys} {c : Call} (hs : Inv sizeofRefcounter [] s)
    (hc : s.Step sizeofRefcounter c s') (hapart : s.Apart c) : Inv sizeofRefcounter [] s' := by
  obtain ⟨hallowed, rfl⟩ := hc
  cases c with
  | refAlloc len ret => exact hs.refAlloc len hallowed
  | refStrdup str ret =>
    cases str with
    | none => exact hs
    | some str => exact hs.refAlloc _ hallowed
  | refHold p =>
    cases p with
    | none => exact hs
    | some p => exact hs.refHold (hallowed p rfl).2 (hapart p rfl)
  | refRelease p =>
    cases p with
    | none => exact hs
    | some p => exact (hs.takeOwned (hallowed p rfl)).refRelease
  | refRealloc p len ret => exact hs.refRealloc hallowed hapart
  | refSetDestroy p func => exact hs.refSetDestroy func hallowed
  | store p a => exact hs.store hallowed
  | take p a => exact hs.take hallowed
  | resume => exact hs.resume

/-- What is left of the releases under way: every reference counts twice, for the activation its release
may start. -/
def work (s : Sys) : Nat := 2 * s.heap.total RefCounter.refcount + s.calls.length

/-- `ref_release` rewrites the header of its block and starts at most one activation. -/
theorem refRelease_spec (s : Sys) (p : Addr) :
    (s.refRelease p).heap.live = s.heap.live ∧ (s.refRelease p).calls.length ≤ s.calls.length + 1 ∧
      ∃ b : RefCounter, (s.refRelease p).heap.block = Function.update s.heap.block p b ∧
        b.refcount = mvpAtomicDec (s.heap.block p).refcount := by
  have hself : ((s.heap.dropRef p).block p).refcount = mvpAtomicDec (s.heap.block p).refcount := by
    simp only [Heap.dropRef, Heap.set, Function.update_self]
  unfold Sys.refRelease
  simp only
  split
  · split
    · refine ⟨rfl, Nat.le_refl _, { (s.heap.dropRef p).block p with
        destroyed := ((s.heap.dropRef p).block p).destroyed + 1 }, ?_, hself⟩
      simp only [Heap.callDestroy, Heap.dropRef, Heap.set, Function.update_idem]
    · exact ⟨rfl, Nat.le_refl _, _, rfl, rfl⟩
  · exact ⟨rfl, Nat.le_succ _, _, rfl, rfl⟩

theorem Inv.refRelease_work {sizeofRefcounter : Nat} {hand : List Addr} {s : Sys} {p : Addr}
    (hs : Inv sizeofRefcounter (p :: hand) s) : (s.refRelease p).work < s.work := by
  obtain ⟨hlive, hlength, b, hblock, hb⟩ := s.refRelease_spec p
  have hcount := hs.counts p
  rw [List.count_cons_self] at hcount
  have hlt := hs.bound p
  have hsum := Heap.total_update (hs.mem_live (by omega)) hlive hblock RefCounter.refcount
  unfold mvpAtomicDec at hb
  unfold Sys.work
  unfold word at hb hlt
  omega

theorem Inv.work_lt {sizeofRefcounter : Nat} {s : Sys} (hs : Inv sizeofRefcounter [] s) (hcalls : s.calls ≠ []) :
    (s.resume sizeofRefcounter).work < s.work := by
  unfold Sys.resume
  split
  next hnil => exact absurd hnil hcalls
  next p a rest calls hcalls =>
    have hsame : work { s with calls := (p, rest) :: calls } = s.work := by
      unfold work
      rw [hcalls]
      rfl
    exact hsame ▸ (hs.pending hcalls).refRelease_work
  next p calls hcalls =>
    have hmem : p ∈ s.heap.live := hs.callsLive p (by rw [hcalls]; exact List.mem_cons_self)
    have hlive : (s.heap.free sizeofRefcounter p).live = s.heap.live.erase p := rfl
    have hsum : (s.heap.free sizeofRefcounter p).total RefCounter.refcount + (s.heap.block p).refcount =
        s.heap.total RefCounter.refcount :=
      Heap.total_erase hmem hlive rfl RefCounter.refcount
    unfold work
    rw [hcalls, List.length_cons]
    simp only
    omega

/-- The releases under way return. -/
theorem Inv.returns {sizeofRefcounter : Nat} {s : Sys} (hs : Inv sizeofRefcounter [] s) :
    ∃ n, ((Sys.resume sizeofRefcounter)^[n] s).calls = [] := by
  induction h : s.work using Nat.strong_induction_on generalizing s with
  | _ k ih =>
    by_cases hcalls : s.calls = []
    · exact ⟨0, hcalls⟩
    · obtain ⟨n, hn⟩ := ih _ (h ▸ hs.work_lt hcalls) hs.resume rfl
      exact ⟨n + 1, hn⟩

/-- The two totals are the sums over the blocks in use; the destroy function of a block has been called
once if the count of the block has reached zero and not at all before; a block that has been freed, or
never allocated, has a count of zero. -/
structure Balanced (sizeofRefcounter : Nat) (s : Sys) : Prop where
  refs : s.heap.totalRefcount = (∑ a ∈ s.heap.live, (s.heap.block a).refcount) % word
  bytes : s.heap.totalBytecount = (∑ a ∈ s.heap.live, (sizeofRefcounter + (s.heap.block a).length)) % word
  destroyed : ∀ a, (s.heap.block a).destroyed =
    if (s.heap.block a).destroy ∧ (s.heap.block a).refcount = 0 then 1 else 0
  freed : ∀ a, a ∉ s.heap.live → (s.heap.block a).refcount = 0

/-- In every state reached, destroy functions under way included, the counts balance; and the releases
under way return. -/
theorem references_balance {sizeofRefcounter : Nat} {s : Sys}
    (hs : Reach (· = start) (fun s c s' => s.Step sizeofRefcounter c s' ∧ s.Apart c) s) :
    s.Balanced sizeofRefcounter ∧ ∃ n, ((resume sizeofRefcounter)^[n] s).calls = [] := by
  have hinv : Inv sizeofRefcounter [] s := by
    refine Reach.invariant ?_ ?_ hs
    · rintro s rfl
      exact Inv.start
    · intro s c s' hs hc
      exact hs.step hc.1 hc.2
  exact ⟨⟨hinv.totalRefs, hinv.totalBytes, hinv.destroyed, hinv.dead⟩, hinv.returns⟩

/-- A string is duplicated, a second block with a destroy function takes the reference, and the release of
the second block releases and frees both. -/
theorem references_balance_nested : ∃ s : Sys, s.heap.live = ∅ ∧ (s.heap.block 2).destroyed = 1 ∧
    s.Balanced 24 ∧ ∃ n, ((resume 24)^[n] s).calls = [] := by
  have h0 : Reach (· = start) (fun s c s' => s.Step 24 c s' ∧ s.Apart c) start := .start rfl
  have h1 := h0.next (.refStrdup (some [65, 66]) (some 1)) ⟨⟨by decide, rfl⟩, by trivial⟩
  have h2 := h1.next (.refAlloc 16 (some 2)) ⟨⟨by decide, rfl⟩, by trivial⟩
  have h3 := h2.next (.refSetDestroy 2 true) ⟨⟨by decide, rfl⟩, by trivial⟩
  have h4 := h3.next (.store 2 1) ⟨⟨by decide, rfl⟩, by trivial⟩
  have h5 := h4.next (.refRelease (some 2)) ⟨⟨by decide, rfl⟩, by trivial⟩
  have h6 := h5.next .resume ⟨⟨by decide, rfl⟩, by trivial⟩
  have h7 := h6.next .resume ⟨⟨by decide, rfl⟩, by trivial⟩
  have h8 := h7.next .resume ⟨⟨by decide, rfl⟩, by trivial⟩
  exact ⟨_, by decide, by decide, references_balance h8⟩

/-- A block with a destroy function, which stores a reference, is reallocated: the old block's destroy
function releases the reference, the copy's releases it again, and the total is off by one. -/
theorem realloc_unbalances : ¬ ∀ s : Sys, Reach (· = start) (Step 24) s → s.Balanced 24 := by
  intro h
  have h0 : Reach (· = start) (Step 24) start := .start rfl
  have h1 := h0.next (.refAlloc 16 (some 1)) ⟨by decide, rfl⟩
  have h2 := h1.next (.refAlloc 16 (some 2)) ⟨by decide, rfl⟩
  have h3 := h2.next (.refSetDestroy 2 true) ⟨by decide, rfl⟩
  have h4 := h3.next (.store 2 1) ⟨by decide, rfl⟩
  have h5 := h4.next (.refRealloc (some 2) 32 (some 3)) ⟨by decide, rfl⟩
  -- the old block's destroy function releases the string, then both are freed
  have h6 := h5.next .resume ⟨by decide, rfl⟩
  have h7 := h6.next .resume ⟨by decide, rfl⟩
  have h8 := h7.next .resume ⟨by decide, rfl⟩
  have h9 := h8.next (.refRelease (some 3)) ⟨by decide, rfl⟩
  have h10 := h9.next .resume ⟨by decide, rfl⟩
  exact absurd (h _ h10).refs (by decide)

end Sys
end Mvpmc.RefMem
