import Mvpmc.Demux.Steps
import Mvpmc.Lib.Fifo

/-! The queue of decoded subpictures of a stream, against a queue of the most recent ones. -/
namespace Mvpmc.Demux
open Mvpmc.Lib Mvpmc.Lib.Circular

/-- `demux_spu_get_next`. -/
def demuxSpuGetNext (h : Handle) : Handle × Option SpuItem :=
  if h.spuCurrent < 0 then (h, none)
  else
    let s := h.spu h.spuCurrent.toNat
    if (s.item 0).data.isSome then
      let item := fun j => if j < 31 then s.item (j + 1) else if j = 31 then {} else s.item j
      ({ h with spu := Function.update h.spu h.spuCurrent.toNat { s with item := item } }, some (s.item 0))
    else (h, none)

/-- The queue holds `q`, oldest first, in the first slots. A slot is free when its data pointer is NULL. -/
structure Spu.Holds (s : Spu) (q : List SpuItem) : Prop where
  length : q.length ≤ 32
  item : ∀ j (hj : j < q.length), s.item j = q[j]
  data : ∀ it ∈ q, it.data.isSome
  free : ∀ j, q.length ≤ j → j < 32 → (s.item j).data = none

/-- The queues and the in-use flags agree. -/
structure SameQueue (s s' : Spu) : Prop where
  item : s'.item = s.item
  inuse : s'.inuse = s.inuse

namespace Spu
variable {s s' : Spu} {q : List SpuItem} {it : SpuItem}

theorem Holds.same (hh : s.Holds q) (hs : SameQueue s s') : s'.Holds q :=
  ⟨hh.length, by rw [hs.item]; exact hh.item, hh.data, by rw [hs.item]; exact hh.free⟩

theorem push_same (hs : SameQueue s s') (it : SpuItem) : SameQueue (s.push it) (s'.push it) := by
  refine ⟨?_, hs.inuse⟩
  unfold push
  simp only [hs.item, hs.inuse]

theorem Holds.occupied (hh : s.Holds q) {j : Nat} (hj : j < 32) : (s.item j).data.isSome = true ↔ j < q.length := by
  rcases Nat.lt_or_ge j q.length with hlt | hge
  · have hd := hh.data _ (List.getElem_mem hlt)
    rw [← hh.item j hlt] at hd
    exact ⟨fun _ => hlt, fun _ => hd⟩
  · rw [hh.free j hge hj]
    simp [Nat.not_lt.mpr hge]

/-- What a queue holds is determined. -/
theorem Holds.unique {q' : List SpuItem} (hh : s.Holds q) (hh' : s.Holds q') : q = q' := by
  have hlen : q.length = q'.length := by
    rcases Nat.lt_trichotomy q.length q'.length with hlt | heq | hgt
    · have := (hh.occupied (Nat.lt_of_lt_of_le hlt hh'.length)).mp ((hh'.occupied (Nat.lt_of_lt_of_le hlt hh'.length)).mpr hlt)
      omega
    · exact heq
    · have := (hh'.occupied (Nat.lt_of_lt_of_le hgt hh.length)).mp ((hh.occupied (Nat.lt_of_lt_of_le hgt hh.length)).mpr hgt)
      omega
  apply List.ext_getElem hlen
  intro j h₁ h₂
  rw [← hh.item j h₁, ← hh'.item j h₂]

/-- The oldest item has been freed, so the shift ends in front of the slot behind the queue. -/
theorem Holds.shift (hh : s.Holds q) {last : Nat} (hl : last < 32) (n : Nat) :
    spuShift (Function.update s.item 0 { s.item 0 with data := none }) last n = min n (min last (q.length - 1)) := by
  induction n with
  | zero => simp [spuShift]
  | succ n ih =>
    rw [spuShift, ih, Function.update_of_ne (Nat.succ_ne_zero n)]
    split
    · rename_i hc
      obtain ⟨-, hlt, hsome⟩ := hc
      have := (hh.occupied (show n + 1 < 32 by omega)).mp hsome
      omega
    · rename_i hc
      by_cases hn : n < last ∧ n + 1 < q.length
      · have := (hh.occupied (show n + 1 < 32 by omega)).mpr hn.2
        exact absurd ⟨by omega, hn.1, this⟩ hc
      · omega

/-- The oldest item goes for every new one, also when there is room. -/
theorem Holds.push (hh : s.Holds q) (hl : q.length ≤ 4) (hd : it.data.isSome) : (s.push it).Holds (q.tail ++ [it]) := by
  have hlast : (if s.inuse then SPU_MAX - 1 else 3) < 32 := by
    split <;> decide
  have hk := hh.shift hlast (if s.inuse then SPU_MAX - 1 else 3)
  have hk' : spuShift (Function.update s.item 0 { s.item 0 with data := none }) (if s.inuse then SPU_MAX - 1 else 3)
      (if s.inuse then SPU_MAX - 1 else 3) = q.tail.length := by
    rw [hk, List.length_tail]
    have hmax : SPU_MAX = 32 := rfl
    split <;> omega
  have hitem (j : Nat) : (s.push it).item j =
      if j < q.tail.length then s.item (j + 1) else if j = q.tail.length then it else
        Function.update s.item 0 { s.item 0 with data := none } j := by
    simp only [Spu.push, hk', Function.update_of_ne (Nat.succ_ne_zero j)]
  have htail := List.length_tail (l := q)
  constructor
  · simp only [List.length_append, List.length_singleton]
    omega
  · intro j hj
    simp only [List.length_append, List.length_singleton] at hj
    rw [hitem]
    split
    · rename_i hlt
      rw [List.getElem_append_left hlt, List.getElem_tail, hh.item (j + 1) (by omega)]
    · rw [if_pos (by omega), List.getElem_append_right (by omega)]
      simp
  · intro x hx
    rcases List.mem_append.mp hx with ht | hs
    · exact hh.data x (List.mem_of_mem_tail ht)
    · rw [List.mem_singleton.mp hs]
      exact hd
  · intro j hj hlt
    simp only [List.length_append, List.length_singleton] at hj
    rw [hitem, if_neg (by omega), if_neg (by omega), Function.update_of_ne (by omega)]
    exact hh.free j (by omega) hlt

end Spu

/-- The item made of a complete subpicture, if it is well formed. -/
def spuItem? (p : Nat → UInt8) (size dataSize : Nat) (start : UInt32) : Option SpuItem :=
  match spuCommands p size start size (dataSize + 4) {} with
  | none => none
  | some c =>
    if c.w = 0 ∨ c.h = 0 then none
    else some ⟨some (slice p 0 dataSize), dataSize, c.x, c.y, c.w, c.h, c.start, c.finish, c.color, c.alpha,
      c.line1, c.line2⟩

/-- The start time in the header of a subpicture packet. -/
def spuStart (mem : Nat → UInt8) : UInt32 :=
  ((mem 7).toUInt32 >>> 1) ||| ((mem 6).toUInt32 <<< 7) ||| (((mem 5).toUInt32 >>> 1) <<< 14) |||
    ((mem 4).toUInt32 <<< 22) ||| ((((mem 3).toUInt32 >>> 1) &&& 7) <<< 29)

/-- The subpicture that a packet completes: the stream and the item. -/
def spuArrived (h : Handle) (mem : Nat → UInt8) (len : Nat) : Option (Nat × SpuItem) :=
  let id := u32 ((byteAt mem (byteAt mem 2 + 3) : Int) - 32)
  let header := byteAt mem 2 + 4
  let p : Nat → UInt8 := fun i => mem (header + i)
  let body : Int := (len : Int) - header
  let s := h.spu id
  if 31 < id ∨ len = 0 then none
  else if s.size = 0 then
    -- all of it in one packet
    let size := byteAt p 0 * 256 + byteAt p 1
    let dataSize := byteAt p 2 * 256 + byteAt p 3
    if size ≤ len then (spuItem? p size dataSize (spuStart mem)).map (id, ·) else none
  else if s.len + body = s.size then
    -- the last of several packets
    (spuItem? (blit (s.buf.getD fun _ => 0) s.len.toNat (slice p 0 body.toNat)) s.size.toNat s.dataSize (spuStart mem)).map (id, ·)
  else none

theorem spuItem?_data {p : Nat → UInt8} {size dataSize : Nat} {start : UInt32} {it : SpuItem}
    (h : spuItem? p size dataSize start = some it) : it.data.isSome := by
  unfold spuItem? at h
  split at h
  · cases h
  · split at h
    · cases h
    · cases h
      rfl

theorem spuArrived_data {h : Handle} {mem : Nat → UInt8} {len k : Nat} {it : SpuItem}
    (ha : spuArrived h mem len = some (k, it)) : it.data.isSome := by
  unfold spuArrived at ha
  dsimp only at ha
  split at ha
  · cases ha
  · split at ha
    · split at ha
      · obtain ⟨x, hx, he⟩ := Option.map_eq_some_iff.mp ha
        cases he
        exact spuItem?_data hx
      · cases ha
    · split at ha
      · obtain ⟨x, hx, he⟩ := Option.map_eq_some_iff.mp ha
        cases he
        exact spuItem?_data hx
      · cases ha

/-- What a call does to the queues: the item that has arrived, if one has, is stored in its own. -/
def Queued (arrived : Option (Nat × SpuItem)) (h h' : Handle) : Prop :=
  ∀ k, SameQueue (match arrived with
    | some (id, it) => if k = id then (h.spu k).push it else h.spu k
    | none => h.spu k) (h'.spu k)

theorem spuComplete_queued (h : Handle) (id : Nat) (p : Nat → UInt8) (size dataSize : Nat) (start : UInt32) :
    Queued ((spuItem? p size dataSize start).map (id, ·)) h (spuComplete h id p size dataSize start).1 := by
  have hs (k : Nat) : SameQueue (h.spu k)
      (Function.update h.spu id { h.spu id with len := 0, size := 0 } k) := by
    by_cases hk : k = id
    · subst hk
      rw [Function.update_self]
      exact ⟨rfl, rfl⟩
    · rw [Function.update_of_ne hk]
      exact ⟨rfl, rfl⟩
  intro k
  unfold spuComplete spuItem?
  dsimp only
  cases spuCommands p size start size (dataSize + 4) {} with
  | none => exact hs k
  | some c =>
    by_cases hz : c.w = 0 ∨ c.h = 0
    · simp only [if_pos hz]
      exact hs k
    · simp only [if_neg hz, Option.map_some]
      by_cases hk : k = id
      · subst hk
        simp only [if_true, Function.update_self]
        have hp : SameQueue (h.spu k) { h.spu k with len := 0, size := 0 } := ⟨rfl, rfl⟩
        exact Spu.push_same hp _
      · simp only [if_neg hk, Function.update_of_ne hk]
        exact ⟨rfl, rfl⟩

theorem Queued.after {arrived : Option (Nat × SpuItem)} {h g h' : Handle} (hg : ∀ k, SameQueue (h.spu k) (g.spu k))
    (hq : Queued arrived g h') : Queued arrived h h' := by
  intro k
  have hk := hq k
  match arrived with
  | none => exact ⟨hk.item.trans (hg k).item, hk.inuse.trans (hg k).inuse⟩
  | some (id, it) =>
    dsimp only at hk ⊢
    split
    · rename_i he
      rw [if_pos he] at hk
      have hp := Spu.push_same (hg k) it
      exact ⟨hk.item.trans hp.item, hk.inuse.trans hp.inuse⟩
    · rename_i he
      rw [if_neg he] at hk
      exact ⟨hk.item.trans (hg k).item, hk.inuse.trans (hg k).inuse⟩

theorem update_sameQueue (h : Handle) (id : Nat) (s : Spu) (hs : SameQueue (h.spu id) s) (k : Nat) :
    SameQueue (h.spu k) (Function.update h.spu id s k) := by
  by_cases hk : k = id
  · subst hk
    rw [Function.update_self]
    exact hs
  · rw [Function.update_of_ne hk]
    exact ⟨rfl, rfl⟩

/-- A subpicture packet stores what it completes, and touches the queues in no other way. -/
theorem parseSpuFrame_queued (h : Handle) (mem : Nat → UInt8) (len : Nat) :
    Queued (spuArrived h mem len) h (parseSpuFrame h mem len).1 := by
  have hsame (g : Handle) (hg : ∀ k, SameQueue (h.spu k) (g.spu k)) : Queued none h g := hg
  unfold parseSpuFrame spuArrived
  dsimp only
  generalize u32 ((byteAt mem (byteAt mem 2 + 3) : Int) - 32) = id
  by_cases hid : 31 < id
  · rw [if_pos hid, if_pos (.inl hid)]
    exact hsame h fun k => ⟨rfl, rfl⟩
  by_cases hlen : len = 0
  · rw [if_neg hid, if_pos hlen, if_pos (.inr hlen)]
    exact hsame h fun k => ⟨rfl, rfl⟩
  rw [if_neg hid, if_neg hlen, if_neg (not_or.mpr ⟨hid, hlen⟩)]
  have hupd := update_sameQueue h id
  by_cases hsz : (h.spu id).size = 0
  · rw [if_pos hsz, if_pos hsz]
    split
    · refine Queued.after (hupd _ ?_) (spuComplete_queued _ _ _ _ _ _)
      exact ⟨rfl, rfl⟩
    · exact hsame { h with spu := _ } (hupd _ ⟨rfl, rfl⟩)
  rw [if_neg hsz, if_neg hsz]
  by_cases hlast : (h.spu id).len + ((len : Int) - (byteAt mem 2 + 4 : Nat)) = (h.spu id).size
  · rw [if_pos hlast, if_neg (by omega), if_neg (not_not.mpr hlast)]
    refine Queued.after (hupd _ ?_) (spuComplete_queued _ _ _ _ _ _)
    exact ⟨rfl, rfl⟩
  · rw [if_neg hlast]
    split
    · exact hsame { h with spu := _ } (hupd _ ⟨rfl, rfl⟩)
    · exact hsame { h with spu := _ } (hupd _ ⟨rfl, rfl⟩)

/-- What happens to the queues between two selections. -/
inductive SpuEvent where
  | packet (mem : Nat → UInt8) (len : Nat)
  | getNext

namespace SpuEvent

def run (h : Handle) : SpuEvent → Handle × Option SpuItem
  | packet mem len => ((parseSpuFrame h mem len).1, none)
  | getNext => demuxSpuGetNext h

/-- The item that arrives on stream `id`. -/
def arrival (h : Handle) (id : Nat) : SpuEvent → Option SpuItem
  | packet mem len =>
    match spuArrived h mem len with
    | some (k, it) => if k = id then some it else none
    | none => none
  | getNext => none

/-- The event takes the next item of stream `id`. -/
def fetches (h : Handle) (id : Nat) : SpuEvent → Bool
  | packet _ _ => false
  | getNext => decide (h.spuCurrent = id)

end SpuEvent

section
variable {cap : Nat}

/-- What is to be queued after an event: the most recent items not fetched yet, `cap` at most. -/
def recent (h : Handle) (id : Nat) (q : Fifo SpuItem cap) (e : SpuEvent) : Fifo SpuItem cap :=
  match e.arrival h id with
  | some it => q.arrive it
  | none => if e.fetches h id then q.pop 1 else q

/-- In every state of the run the queue of stream `id` holds what it is to hold, and every fetch
gets the oldest item of it. -/
def KeepsRecent (id : Nat) : Handle → Fifo SpuItem cap → List SpuEvent → Prop
  | h, q, [] => (h.spu id).Holds q.items
  | h, q, e :: es => (h.spu id).Holds q.items ∧ (e.fetches h id = true → (e.run h).2 = q.items.head?) ∧
      KeepsRecent id (e.run h).1 (recent h id q e) es

end

/-- Every subpicture that arrives on stream `id` finds its queue empty. -/
def FindsEmpty (id : Nat) : Handle → List SpuEvent → Prop
  | _, [] => True
  | h, e :: es => ((e.arrival h id).isSome → ((h.spu id).item 0).data = none) ∧ FindsEmpty id (e.run h).1 es

/-- Fetching takes the oldest item off the current queue, and touches no other. -/
theorem demuxSpuGetNext_holds {h : Handle} {id : Nat} {q : List SpuItem} (hq : (h.spu id).Holds q) :
    (h.spuCurrent = id → (demuxSpuGetNext h).2 = q.head? ∧ ((demuxSpuGetNext h).1.spu id).Holds q.tail) ∧
      (h.spuCurrent ≠ id → ((demuxSpuGetNext h).1.spu id).Holds q) := by
  constructor
  · intro hc
    have hid : h.spuCurrent.toNat = id := by omega
    have hneg : ¬ h.spuCurrent < 0 := by omega
    unfold demuxSpuGetNext
    rw [if_neg hneg, hid]
    cases q with
    | nil =>
      have hfree : ((h.spu id).item 0).data = none := hq.free 0 (by simp) (by decide)
      simp only [hfree, Option.isSome_none, Bool.false_eq_true, if_false]
      exact ⟨rfl, hq⟩
    | cons a q =>
      have h0 : (h.spu id).item 0 = a := hq.item 0 (by simp)
      have hd : a.data.isSome := hq.data a List.mem_cons_self
      have hlen := hq.length
      simp only [List.length_cons] at hlen
      simp only [h0, hd, if_true, Function.update_self]
      refine ⟨rfl, by rw [List.tail_cons]; omega, ?_, ?_, ?_⟩
      · intro j hj
        rw [List.tail_cons] at hj
        simp only [List.tail_cons]
        rw [if_pos (by omega), hq.item (j + 1) (by simpa using hj), List.getElem_cons_succ]
      · intro it hit
        exact hq.data it (List.mem_cons_of_mem a hit)
      · intro j hj hlt
        rw [List.tail_cons] at hj
        dsimp only
        by_cases hj31 : j < 31
        · rw [if_pos hj31]
          exact hq.free (j + 1) (by simpa using hj) (by omega)
        · rw [if_neg hj31, if_pos (by omega)]
  · intro hc
    unfold demuxSpuGetNext
    dsimp only
    split
    · exact hq
    · split
      · have hne : id ≠ h.spuCurrent.toNat := by omega
        simp only [Function.update_of_ne hne]
        exact hq
      · exact hq

/-- A packet that completes nothing for the stream leaves its queue alone. -/
theorem packet_holds_of_none {h : Handle} {id len : Nat} {mem : Nat → UInt8} {q : List SpuItem}
    (hq : (h.spu id).Holds q) (ha : (SpuEvent.packet mem len).arrival h id = none) :
    ((parseSpuFrame h mem len).1.spu id).Holds q := by
  have hp := parseSpuFrame_queued h mem len id
  simp only [SpuEvent.arrival] at ha
  match hs : spuArrived h mem len with
  | none =>
    rw [hs] at hp
    exact hq.same hp
  | some (k, it) =>
    rw [hs] at hp ha
    have hne : ¬ id = k := by
      intro he
      rw [he] at ha
      simp at ha
    simp only [if_neg hne] at hp
    exact hq.same hp

/-- A packet that completes an item for the stream drops the oldest one, whatever room there is. -/
theorem packet_holds_of_some {h : Handle} {id len : Nat} {mem : Nat → UInt8} {q : List SpuItem} {it : SpuItem}
    (hq : (h.spu id).Holds q) (hl : q.length ≤ 4) (ha : (SpuEvent.packet mem len).arrival h id = some it) :
    ((parseSpuFrame h mem len).1.spu id).Holds (q.tail ++ [it]) := by
  have hp := parseSpuFrame_queued h mem len id
  simp only [SpuEvent.arrival] at ha
  match hs : spuArrived h mem len with
  | none =>
    rw [hs] at ha
    cases ha
  | some (k, x) =>
    rw [hs] at hp ha
    have he : k = id ∧ x = it := by simpa [Option.ite_none_right_eq_some] using ha
    obtain ⟨rfl, rfl⟩ := he
    simp only [if_true] at hp
    exact (hq.push hl (spuArrived_data hs)).same hp

theorem recent_unique {id : Nat} {h : Handle} {cap : Nat} {q : Fifo SpuItem cap} {es : List SpuEvent}
    (hk : KeepsRecent id h q es) : (h.spu id).Holds q.items := by
  cases es with
  | nil => exact hk
  | cons e es => exact hk.1

theorem parseSpuFrame_inuse (h : Handle) (mem : Nat → UInt8) (len k : Nat) :
    ((parseSpuFrame h mem len).1.spu k).inuse = (h.spu k).inuse := by
  have hp := (parseSpuFrame_queued h mem len k).inuse
  rw [hp]
  split
  · split <;> rfl
  · rfl

/-- The queue of a stream holds the most recent items in every state of a run, and every fetch
gets the oldest, if and only if nothing arrives at a queue that is not empty. -/
theorem keepsRecent_iff {id cap : Nat} {h : Handle} {q : Fifo SpuItem cap} (hq : (h.spu id).Holds q.items)
    (hl : q.items.length ≤ 1) (hcap : cap = if (h.spu id).inuse then 32 else 4) (es : List SpuEvent) :
    KeepsRecent id h q es ↔ FindsEmpty id h es := by
  have hlt : 1 < cap := by
    rw [hcap]
    split <;> decide
  clear hcap
  induction es generalizing h q with
  | nil => exact ⟨fun _ => trivial, fun _ => hq⟩
  | cons e es ih =>
    have hfirst : ((h.spu id).item 0).data = none ↔ q.items = [] := by
      have ho := hq.occupied (show 0 < 32 by decide)
      rw [← Option.not_isSome_iff_eq_none, ho, ← List.length_eq_zero_iff]
      omega
    simp only [KeepsRecent, FindsEmpty]
    rw [and_iff_right hq, hfirst]
    cases e with
    | packet mem len =>
      have hf : (SpuEvent.packet mem len).fetches h id = false := rfl
      rw [hf, and_iff_right (by simp)]
      cases ha : (SpuEvent.packet mem len).arrival h id with
      | none =>
        have hn := packet_holds_of_none hq ha
        have hr : recent h id q (.packet mem len) = q := by simp [recent, ha, hf]
        rw [hr, and_iff_right (by simp)]
        exact ih hn hl
      | some it =>
        have hn := packet_holds_of_some hq (by omega) ha
        have hr : recent h id q (.packet mem len) = q.arrive it := by simp [recent, ha]
        have hitems := q.items_arrive it (by omega)
        rw [hr]
        simp only [Option.isSome_some, true_imp_iff]
        by_cases hnil : q.items = []
        · rw [and_iff_right hnil]
          rw [hnil] at hn hitems
          refine ih (q := q.arrive it) ?_ ?_
          · rw [hitems]
            exact hn
          · rw [hitems]
            simp
        · refine ⟨fun hk => ?_, fun hk => absurd hk.1 hnil⟩
          -- the new item has pushed the old one out
          have hu := (recent_unique hk).unique hn
          have hlen := congrArg List.length hu
          rw [hitems] at hlen
          simp only [List.length_append, List.length_tail, List.length_singleton] at hlen
          have hpos := List.length_pos_of_ne_nil hnil
          omega
    | getNext =>
      obtain ⟨hcur, hother⟩ := demuxSpuGetNext_holds hq
      have ha : SpuEvent.getNext.arrival h id = none := rfl
      rw [ha, and_iff_right (show ((none : Option SpuItem).isSome = true → q.items = []) by simp)]
      by_cases hc : h.spuCurrent = id
      · have hf : SpuEvent.getNext.fetches h id = true := decide_eq_true hc
        have hr : recent h id q .getNext = q.pop 1 := by simp [recent, ha, hf]
        have hfetch : SpuEvent.getNext.fetches h id = true → (SpuEvent.getNext.run h).2 = q.items.head? :=
          fun _ => (hcur hc).1
        rw [hr, and_iff_right hfetch]
        refine ih (q := q.pop 1) ?_ ?_
        · rw [Fifo.items_pop, List.drop_one]
          exact (hcur hc).2
        · rw [Fifo.items_pop, List.length_drop]
          omega
      · have hf : SpuEvent.getNext.fetches h id = false := decide_eq_false hc
        have hr : recent h id q .getNext = q := by simp [recent, ha, hf]
        rw [hr, hf, and_iff_right (by simp)]
        exact ih (hother hc) hl

/-- A packet of stream 0 with a complete subpicture of two by two pixels. -/
def spuPacket : SpuEvent :=
  .packet (fun i => [0x80, 0x80, 5, 0x21, 0, 1, 0, 1, 0x20, 0, 16, 0, 4, 0, 0, 0, 4, 5, 0, 0, 1, 0, 0, 1, 0xff].getD i 0) 25

/-- A handle with stream 0 selected and nothing queued. -/
def spuSelected : Handle :=
  { demuxInit 100 (fun _ => 0) with spu := Function.update (fun _ => {}) 0 { inuse := true }, spuCurrent := 0 }

theorem spuSelected_holds : (spuSelected.spu 0).Holds [] :=
  ⟨by decide, fun j hj => absurd hj (Nat.not_lt_zero j), fun it hit => absurd hit List.not_mem_nil, fun _ _ _ => rfl⟩

theorem keepsRecent_fetched : KeepsRecent 0 spuSelected (Fifo.empty : Fifo SpuItem 32) [spuPacket, .getNext, spuPacket] := by
  refine (keepsRecent_iff spuSelected_holds (Nat.zero_le _) (by decide) _).mpr ⟨fun _ => ?_, ?_, fun _ => ?_, ?_⟩
  · decide
  · exact fun h => absurd h (by decide)
  · decide
  · trivial

/-- The second of two subpictures drops the first, though 32 have room. -/
theorem second_subpicture_drops_first : ¬ ∀ (id : Nat) (h : Handle) (es : List SpuEvent), id < 32 → (h.spu id).Holds [] →
    if (h.spu id).inuse then KeepsRecent id h (Fifo.empty : Fifo SpuItem 32) es
      else KeepsRecent id h (Fifo.empty : Fifo SpuItem 4) es := by
  intro hall
  have hk : KeepsRecent 0 spuSelected (Fifo.empty : Fifo SpuItem 32) [spuPacket, spuPacket] :=
    hall 0 spuSelected [spuPacket, spuPacket] (by decide) spuSelected_holds
  have hocc := (hk.2.2.2.2.occupied (j := 1) (by decide)).mpr (by decide)
  exact absurd hocc (by decide +kernel)

end Mvpmc.Demux
