import Mvpmc.Av.VidOrder
import Mathlib.Data.Multiset.AddSub

/-! No video event is lost or duplicated, in whatever order the times are added. -/
namespace Mvpmc.Av
open Mvpmc.Lib Mvpmc.Lib.Linked

/-- What the caller of `vid_event_add` gives. -/
structure Event where
  pts : Nat
  type : EventType
  info : Nat
  deriving DecidableEq, Repr

namespace Queue

/-- The event at an address. -/
def event (q : Queue) (a : Nat) : Event := ⟨(q.heap a).pts, (q.heap a).type, (q.heap a).info⟩

/-- The loop of `vid_event_clear` from `cur` on: the addresses freed, in order. -/
def freed (q : Queue) (first : Nat) : Nat → Nat → Option (List Nat)
  | 0, _ => none
  | fuel + 1, cur => if q.next cur = first then some [cur] else (q.freed first fuel (q.next cur)).map (cur :: ·)

/-- `vid_event_clear`, with the addresses freed; without enough fuel it does not return. -/
def clear (fuel : Nat) (q : Queue) : Option (Queue × List Nat) :=
  match q.pNextEvent with
  | none => some (q, [])
  | some first => (q.freed first fuel first).map fun as => ({ q with pNextEvent := none }, as)

/-- The queued elements are `as`: following `pNext` from `pNextEvent` visits each of them once and comes
back, and `pPrev` leads the other way round. -/
def Holds (q : Queue) : List Nat → Prop
  | [] => q.pNextEvent = none
  | a :: l => q.pNextEvent = some a ∧ IsRing q.next q.prev a l

section
variable {q q' : Queue} {a b c x : Nat} {l as : List Nat}

theorem Holds.of_some (h : q.Holds as) (ha : q.pNextEvent = some a) : ∃ l, as = a :: l ∧ IsRing q.next q.prev a l := by
  cases as with
  | nil =>
    have hn : q.pNextEvent = none := h
    rw [hn] at ha
    cases ha
  | cons b l =>
    obtain ⟨hb, hr⟩ := h
    obtain rfl : b = a := Option.some.inj (hb.symm.trans ha)
    exact ⟨l, rfl, hr⟩

theorem Holds.of_none (h : q.Holds as) (ha : q.pNextEvent = none) : as = [] := by
  cases as with
  | nil => rfl
  | cons b l =>
    rw [h.1] at ha
    cases ha

/-- A ring that `pNextEvent` points into, seen from there. -/
theorem Holds.of_ring (hr : IsRing q.next q.prev b l) (ha : q.pNextEvent = some a) (hm : a ∈ b :: l) :
    ∃ as, q.Holds as ∧ as.Perm (b :: l) := by
  obtain ⟨m, s, t, hr', hl, hm'⟩ := hr.turn hm
  refine ⟨a :: m, ⟨ha, hr'⟩, ?_⟩
  rw [hl, hm']
  exact List.perm_append_comm

theorem splice_event (x p n z : Nat) : ({ q with heap := q.heap.splice x p n } : Queue).event z = q.event z := by
  simp only [event, Heap.splice, Heap.setNext, Heap.setPrev, Function.update_apply]
  split_ifs <;> simp_all

theorem join_event (p n z : Nat) (first : Option Nat) : (⟨q.heap.join p n, first⟩ : Queue).event z = q.event z := by
  simp only [event, Heap.join, Heap.setNext, Heap.setPrev, Function.update_apply]
  split_ifs <;> simp_all

theorem remove_event (q : Queue) (c : Nat) : (q.remove c).event = q.event := by
  funext z
  unfold remove
  split
  · rfl
  · exact join_event (q.prev c) (q.next c) z _

/-- A new element in front of `c`. -/
theorem splice_holds (hr : IsRing q.next q.prev a l) (ha : q.pNextEvent = some a) (hc : c ∈ a :: l) (hx : x ∉ a :: l) :
    ∃ as, ({ q with heap := q.heap.splice x (q.prev c) c } : Queue).Holds as ∧ as.Perm (x :: a :: l) := by
  obtain ⟨m, s, t, hr', hl, hm⟩ := hr.turn hc
  have hperm : (c :: m).Perm (a :: l) := by
    rw [hl, hm]
    exact List.perm_append_comm
  have hnew := splice_isRing hr' fun hxm => hx (hperm.mem_iff.mp hxm)
  have ham : a ∈ c :: (m ++ [x]) := by
    rw [← List.cons_append]
    exact List.mem_append_left _ (hperm.mem_iff.mpr List.mem_cons_self)
  obtain ⟨as, hh, hp⟩ := Holds.of_ring hnew ha ham
  refine ⟨as, hh, hp.trans ?_⟩
  rw [← List.cons_append]
  exact (List.perm_append_singleton x (c :: m)).trans (hperm.cons x)

/-- An element taken out. -/
theorem remove_holds (hr : IsRing q.next q.prev a l) (ha : q.pNextEvent = some a) (hc : c ∈ a :: l) :
    ∃ as, (q.remove c).Holds as ∧ (c :: as).Perm (a :: l) := by
  obtain ⟨m, s, t, hr', hl, hm⟩ := hr.turn hc
  have hperm : (c :: m).Perm (a :: l) := by
    rw [hl, hm]
    exact List.perm_append_comm
  unfold remove
  cases m with
  | nil =>
    have hself : q.next c = c := (List.isChain_pair.mp hr'.chain).1
    rw [if_pos hself]
    exact ⟨[], rfl, hperm⟩
  | cons b m =>
    have hb : q.next c = b := hr'.next_eq
    have hne : q.next c ≠ c := by
      rw [hb]
      rintro rfl
      exact (List.nodup_cons.mp hr'.nodup).1 List.mem_cons_self
    rw [if_neg hne, hb]
    obtain ⟨a', ha', hmem⟩ := first_of_remove ha (hperm.mem_iff.mpr List.mem_cons_self)
    have hnew := join_isRing hr' (if q.pNextEvent = some c then some b else q.pNextEvent)
    obtain ⟨as, hh, hp⟩ := Holds.of_ring hnew ha' hmem
    exact ⟨as, hh, (hp.cons c).trans hperm⟩

/-- The loop of `vid_event_clear` frees the rest of the ring, each element once. -/
theorem freed_eq {fuel : Nat} (hc : (c :: (l ++ [a])).IsChain (Adjacent q.next q.prev)) (ha : a ∉ l) :
    q.freed a fuel c = if l.length < fuel then some (c :: l) else none := by
  induction l generalizing c fuel with
  | nil =>
    cases fuel with
    | zero => rfl
    | succ fuel =>
      have hstep : q.next c = a := (List.isChain_pair.mp hc).1
      simp [freed, hstep]
  | cons b l ih =>
    cases fuel with
    | zero => rfl
    | succ fuel =>
      obtain ⟨hcb, hrest⟩ := List.isChain_cons_cons.mp hc
      have hstep : q.next c = b := hcb.1
      have hba : b ≠ a := fun he => ha (he ▸ List.mem_cons_self)
      have hih : q.freed a fuel b = if l.length < fuel then some (b :: l) else none :=
        ih hrest fun hl => ha (List.mem_cons_of_mem b hl)
      rw [freed, hstep, if_neg hba, hih]
      by_cases hf : l.length < fuel
      · rw [if_pos hf, if_pos (by rw [List.length_cons]; omega)]
        rfl
      · rw [if_neg hf, if_neg (by rw [List.length_cons]; omega)]
        rfl

theorem Holds.inverse (h : q.Holds as) (hc : c ∈ as) : q.prev (q.next c) = c ∧ q.next (q.prev c) = c := by
  cases as with
  | nil => simp at hc
  | cons a l => exact ⟨h.2.prev_next hc, h.2.reverse.prev_next (by simpa using hc)⟩

section Fill
variable {pts info fuel : Nat} {type : EventType}

theorem fill_event_self : (q.fill x pts type info).event x = ⟨pts, type, info⟩ := by simp [event, fill]

theorem fill_event_of_ne {z : Nat} (hz : z ≠ x) : (q.fill x pts type info).event z = q.event z := by
  simp [event, fill, hz]

theorem Holds.fill (h : q.Holds as) : (q.fill x pts type info).Holds as := by
  cases as with
  | nil => exact h
  | cons a l =>
    refine ⟨h.1, ?_⟩
    rw [fill_next, fill_prev]
    exact h.2

theorem Holds.fresh (h : q.Holds as) (hx : q.Fresh x) : x ∉ as := by
  cases as with
  | nil => simp
  | cons a l => exact hx a l h.1 h.2

/-- `vid_event_add` puts the event at `x` into the ring; the others stay. -/
theorem Holds.add (h : q.Holds as) (hx : q.Fresh x) (ha : q.add fuel x pts type info = some q') :
    ∃ as', q'.Holds as' ∧ as'.Perm (x :: as) ∧ ∀ z, q'.event z = (q.fill x pts type info).event z := by
  have hxas := h.fresh hx
  have hf : (q.fill x pts type info).Holds as := h.fill
  unfold Queue.add at ha
  dsimp only at ha
  cases hn : (q.fill x pts type info).pNextEvent with
  | none =>
    rw [hn] at ha
    obtain rfl := Option.some.inj ha
    obtain rfl := hf.of_none hn
    refine ⟨[x], ⟨rfl, by simp, ?_⟩, List.Perm.refl [x], ?_⟩
    · simp [Adjacent, next, prev, Heap.setNext, Heap.setPrev]
    · intro z
      by_cases hz : z = x <;> simp [event, Heap.setNext, Heap.setPrev, hz]
  | some a =>
    rw [hn] at ha
    obtain ⟨l, rfl, hr⟩ := hf.of_some hn
    dsimp only at ha
    split at ha
    · obtain ⟨c, hc, rfl⟩ := Option.map_eq_some_iff.mp ha
      have hcm := walk_mem hr List.mem_cons_self (by simp) (.inl hc)
      obtain ⟨as', hh, hp⟩ := splice_holds hr hn hcm hxas
      rw [hn] at hh
      exact ⟨as', hh, hp, splice_event x _ c⟩
    · obtain ⟨c, hc, rfl⟩ := Option.map_eq_some_iff.mp ha
      have hcm := walk_mem hr List.mem_cons_self (by simp) (.inr hc)
      obtain ⟨as', hh, hp⟩ := splice_holds hr hn (hr.next_mem hcm) hxas
      rw [hr.prev_next hcm, hn] at hh
      exact ⟨as', hh, hp, splice_event x c _⟩

/-- The queued events after `vid_event_add`. -/
theorem Holds.add_events (h : q.Holds as) (hx : q.Fresh x) (ha : q.add fuel x pts type info = some q') :
    ∃ as', q'.Holds as' ∧ (as'.map q'.event : Multiset Event) = ⟨pts, type, info⟩ ::ₘ (as.map q.event : Multiset Event) := by
  obtain ⟨as', hh, hp, he⟩ := h.add hx ha
  refine ⟨as', hh, ?_⟩
  have hsame : as.map (q.fill x pts type info).event = as.map q.event :=
    List.map_congr_left fun z hz => fill_event_of_ne fun e => h.fresh hx (e ▸ hz)
  rw [funext he, ← hsame, Multiset.cons_coe, Multiset.coe_eq_coe, ← fill_event_self (q := q) (x := x), ← List.map_cons]
  exact hp.map _

theorem Holds.add_isSome (h : q.Holds as) (x pts info : Nat) (type : EventType) : ∃ fuel q', q.add fuel x pts type info = some q' := by
  refine Queue.add_isSome fun a ha => ?_
  obtain ⟨l, -, hr⟩ := h.of_some ha
  exact ⟨l, hr⟩

end Fill

/-- The queued events without the one that `vid_event_wait_next` hands out. -/
theorem Holds.waitNext {fuel now : Nat} (h : q.Holds as) (hd : q.due fuel now = some c) :
    ∃ as', (q.remove c).Holds as' ∧
      (as.map q.event : Multiset Event) = q.event c ::ₘ (as'.map (q.remove c).event : Multiset Event) := by
  cases hn : q.pNextEvent with
  | none =>
    rw [due, hn] at hd
    exact absurd hd (Option.some_ne_none c).symm
  | some a =>
    obtain ⟨l, rfl, hr⟩ := h.of_some hn
    obtain ⟨as', hh, hp⟩ := remove_holds hr hn (due_mem hr hn hd)
    refine ⟨as', hh, ?_⟩
    rw [remove_event, Multiset.cons_coe, Multiset.coe_eq_coe, ← List.map_cons]
    exact (hp.map _).symm

/-- `vid_event_clear` frees every queued element once and leaves none. -/
theorem Holds.clear {fuel : Nat} {gone : List Nat} (h : q.Holds as) (hc : q.clear fuel = some (q', gone)) :
    q'.Holds [] ∧ gone = as := by
  unfold Queue.clear at hc
  split at hc
  · rename_i hn
    obtain ⟨rfl, rfl⟩ := Prod.mk.inj (Option.some.inj hc)
    exact ⟨hn, (h.of_none hn).symm⟩
  · rename_i a hn
    obtain ⟨l, rfl, hr⟩ := h.of_some hn
    obtain ⟨bs, hbs, he⟩ := Option.map_eq_some_iff.mp hc
    obtain ⟨rfl, rfl⟩ := Prod.mk.inj he
    rw [freed_eq hr.chain (List.nodup_cons.mp hr.nodup).1] at hbs
    split at hbs
    · exact ⟨rfl, (Option.some.inj hbs).symm⟩
    · cases hbs

theorem Holds.clear_isSome (h : q.Holds as) : ∃ fuel q' gone, q.clear fuel = some (q', gone) := by
  unfold Queue.clear
  cases hn : q.pNextEvent with
  | none => exact ⟨0, _, _, rfl⟩
  | some a =>
    obtain ⟨l, rfl, hr⟩ := h.of_some hn
    refine ⟨l.length + 1, { q with pNextEvent := none }, a :: l, ?_⟩
    dsimp only
    rw [freed_eq hr.chain (List.nodup_cons.mp hr.nodup).1, if_pos (Nat.lt_succ_self l.length)]
    rfl

end
end Queue

/-- The queue, and all events added to it and taken out of it so far. -/
structure Ledger where
  queue : Queue
  added : Multiset Event
  gone : Multiset Event

/-- `malloc` gives a new element for an event; its time is an `unsigned int`. -/
def Op.Allowed (q : Queue) : Op → Prop
  | .add x pts _ _ => q.Fresh x ∧ pts < 2 ^ 32
  | .waitNext _ => True
  | .clear => True

/-- What a call leaves: `vid_event_wait_next` takes out the event it hands out, `vid_event_clear` the
elements it frees. -/
def Ledger.Calls (s : Ledger) : Op → Ledger → Prop
  | .add x pts type info, s' => ∃ fuel q, s.queue.add fuel x pts type info = some q ∧
      s' = ⟨q, ⟨pts, type, info⟩ ::ₘ s.added, s.gone⟩
  | .waitNext now, s' => ∃ fuel, s' = match s.queue.due fuel now with
      | some c => ⟨s.queue.waitNext fuel now, s.added, s.queue.event c ::ₘ s.gone⟩
      | none => s
  | .clear, s' => ∃ fuel q as, s.queue.clear fuel = some (q, as) ∧ s' = ⟨q, s.added, as.map s.queue.event + s.gone⟩

/-- The queue is a ring of the events that were added and not taken out. -/
def Ledger.Balanced (s : Ledger) : Prop :=
  ∃ as, s.queue.Holds as ∧ s.added = s.gone + (as.map s.queue.event : Multiset Event)

section
variable {s s' : Ledger} {op : Op}

theorem Ledger.Balanced.call (h : s.Balanced) (ha : op.Allowed s.queue) (hop : s.Calls op s') : s'.Balanced := by
  obtain ⟨as, hh, hb⟩ := h
  cases op with
  | add x pts type info =>
    obtain ⟨fuel, q, hq, rfl⟩ := hop
    obtain ⟨as', hh', he⟩ := hh.add_events ha.1 hq
    refine ⟨as', hh', ?_⟩
    rw [he, Multiset.add_cons, hb]
  | waitNext now =>
    obtain ⟨fuel, rfl⟩ := hop
    cases hd : s.queue.due fuel now with
    | none => exact ⟨as, hh, hb⟩
    | some c =>
      obtain ⟨as', hh', he⟩ := hh.waitNext hd
      have hw : s.queue.waitNext fuel now = s.queue.remove c := by rw [Queue.waitNext, hd]
      dsimp only
      rw [hw]
      refine ⟨as', hh', ?_⟩
      dsimp only
      rw [hb, he, Multiset.add_cons, Multiset.cons_add]
  | clear =>
    obtain ⟨fuel, q, bs, hc, rfl⟩ := hop
    obtain ⟨hh', rfl⟩ := hh.clear hc
    refine ⟨[], hh', ?_⟩
    rw [hb, Multiset.add_comm]
    simp

/-- Every call returns. -/
theorem Ledger.Balanced.returns (h : s.Balanced) (op : Op) : ∃ s', s.Calls op s' := by
  obtain ⟨as, hh, -⟩ := h
  cases op with
  | add x pts type info =>
    obtain ⟨fuel, q, hq⟩ := hh.add_isSome x pts info type
    exact ⟨_, fuel, q, hq, rfl⟩
  | waitNext now => exact ⟨_, 0, rfl⟩
  | clear =>
    obtain ⟨fuel, q, bs, hc⟩ := hh.clear_isSome
    exact ⟨_, fuel, q, bs, hc, rfl⟩

/-- The states that calls lead to from an empty queue. -/
def Ledger.Reachable : Ledger → Prop :=
  Reach (fun s => s.queue.pNextEvent = none ∧ s.added = 0 ∧ s.gone = 0) fun s (op : Op) s' =>
    op.Allowed s.queue ∧ s.Calls op s'

theorem Ledger.Reachable.balanced (h : s.Reachable) : s.Balanced := by
  refine Reach.invariant ?_ ?_ h
  · rintro s ⟨hn, ha, hg⟩
    exact ⟨[], hn, by simp [ha, hg]⟩
  · rintro s op s' hs ⟨ha, hop⟩
    exact hs.call ha hop

end

/-- Following `pNext` from `pNextEvent` visits every queued element once and comes back, `pPrev` undoes
`pNext`, and the queued events are the added ones without those handed out or cleared. -/
theorem queue_keeps_events {s : Ledger} (h : s.Reachable) :
    ∃ as, s.queue.Holds as ∧ (s.queue.pNextEvent = none ↔ as = []) ∧
      (∀ a ∈ as, s.queue.prev (s.queue.next a) = a ∧ s.queue.next (s.queue.prev a) = a) ∧
      s.gone ≤ s.added ∧ (as.map s.queue.event : Multiset Event) = s.added - s.gone := by
  obtain ⟨as, hh, hb⟩ := h.balanced
  refine ⟨as, hh, ⟨hh.of_none, ?_⟩, fun a ha => hh.inverse ha, ?_, ?_⟩
  · rintro rfl
    exact hh
  · rw [hb]
    exact Multiset.le_add_right s.gone _
  · rw [hb, Multiset.add_comm, Multiset.add_sub_cancel_right]

/-- Two events, of which the first is handed out at its time. -/
theorem queue_keeps_events_two :
    ∃ s : Ledger, s.Reachable ∧ s.gone = {⟨3000000, .aspect, 0⟩} ∧
      ∃ as, s.queue.Holds as ∧ (s.queue.pNextEvent = none ↔ as = []) ∧
        (∀ a ∈ as, s.queue.prev (s.queue.next a) = a ∧ s.queue.next (s.queue.prev a) = a) ∧
        s.gone ≤ s.added ∧ (as.map s.queue.event : Multiset Event) = s.added - s.gone := by
  let s₁ : Ledger := ⟨Queue.empty.addAll 3 [(1, 3000000)], {⟨3000000, .aspect, 0⟩}, 0⟩
  let s₂ : Ledger := ⟨Queue.empty.addAll 3 [(1, 3000000), (2, 3100000)], {⟨3100000, .aspect, 0⟩, ⟨3000000, .aspect, 0⟩}, 0⟩
  have h₀ : Ledger.Reachable ⟨Queue.empty, 0, 0⟩ := .start ⟨rfl, rfl, rfl⟩
  have h₁ : s₁.Reachable :=
    .next (.add 1 3000000 .aspect 0) h₀ ⟨⟨by simp [Queue.Fresh, Queue.empty], by decide⟩, 3, s₁.queue, rfl, rfl⟩
  have hr : IsRing s₁.queue.next s₁.queue.prev 1 [] := ⟨by decide, by decide⟩
  have h₂ : s₂.Reachable :=
    .next (.add 2 3100000 .aspect 0) h₁ ⟨⟨Queue.fresh_of_ring rfl hr (by decide), by decide⟩, 3, s₂.queue, rfl, rfl⟩
  have hd : s₂.queue.due 3 3000000 = some 1 := by decide
  have h₃ : Ledger.Reachable ⟨s₂.queue.remove 1, s₂.added, {⟨3000000, .aspect, 0⟩}⟩ := by
    refine .next (.waitNext 3000000) h₂ ⟨trivial, 3, ?_⟩
    rw [hd, Queue.waitNext, hd]
    rfl
  exact ⟨_, h₃, rfl, queue_keeps_events h₃⟩

end Mvpmc.Av
