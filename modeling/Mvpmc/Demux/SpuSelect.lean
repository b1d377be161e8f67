import Mvpmc.Demux.SpuQueue

/-! `demux_spu_set_id`: what selecting a subpicture stream touches. -/
namespace Mvpmc.Demux
open Mvpmc.Lib

/-- An element of `spu[]`, or of the `item[]` of one of them, that is read or written. -/
inductive SpuAccess where
  | spu (k : Int)
  | item (k : Int) (j : Nat)
  deriving DecidableEq, Repr

/-- The element exists. -/
def SpuAccess.InRange : SpuAccess → Prop
  | spu k => 0 ≤ k ∧ k < 32
  | item k j => 0 ≤ k ∧ k < 32 ∧ j < 32

/-- `while ((i < 32) && item[i].data) i++`, with the rounds left. -/
def spuCount (item : Nat → SpuItem) : Nat → Nat → Nat
  | 0, i => i
  | rounds + 1, i => if (item i).data.isSome then spuCount item rounds (i + 1) else i

/-- The old stream is no longer in use, and its oldest item goes. -/
def Spu.release (s : Spu) : Spu :=
  let i := spuCount s.item 32 0
  { s with inuse := false, item := fun j => if j < i then s.item (j + 1) else s.item j }

/-- What `Spu.release` reads and writes of stream `k`. -/
def Spu.releaseAccesses (s : Spu) (k : Int) : List SpuAccess :=
  let i := spuCount s.item 32 0
  .spu k :: ((List.range (min (i + 1) 32)).map (.item k) ++
    (List.range i).flatMap fun j => [.item k j, .item k (j + 1)])

/-- `demux_spu_set_id`, with the array elements that it touches. `spu[-1].inuse` is the word in
front of the array; where pointers and integers have one size that is `bytes`. -/
def demuxSpuSetId (h : Handle) (id : Int) : Handle × Int × List SpuAccess :=
  if id < -1 ∨ 31 < id then (h, -1, [])
  else if id = h.spuCurrent then (h, 0, [])
  else
    let old := h.spuCurrent
    let r : Handle × List SpuAccess :=
      if old = -1 then (h, [])
      else
        ({ h with spu := Function.update h.spu old.toNat (h.spu old.toNat).release },
          (h.spu old.toNat).releaseAccesses old)
    let g := { r.1 with spuCurrent := id }
    if id = -1 then ({ g with bytes := 1 }, 0, r.2 ++ [.spu (-1)])
    else
      ({ g with spu := Function.update g.spu id.toNat { g.spu id.toNat with inuse := true } }, 0, r.2 ++ [.spu id])

/-- The call touches only what it is to touch, and leaves the selected stream as the one in use. -/
structure SelectsOnly (h : Handle) (id : Int) : Prop where
  inRange : ∀ a ∈ (demuxSpuSetId h id).2.2, a.InRange
  handle : (demuxSpuSetId h id).1 =
    { h with spu := (demuxSpuSetId h id).1.spu, spuCurrent := (demuxSpuSetId h id).1.spuCurrent }
  other : ∀ k : Nat, (k : Int) ≠ h.spuCurrent → (k : Int) ≠ id → (demuxSpuSetId h id).1.spu k = h.spu k
  new : ∀ k : Nat, (k : Int) ≠ h.spuCurrent → (k : Int) = id →
    (demuxSpuSetId h id).1.spu k = { h.spu k with inuse := true }
  old : ∀ k : Nat, (k : Int) = h.spuCurrent → (demuxSpuSetId h id).1.spu k =
    { h.spu k with inuse := ((demuxSpuSetId h id).1.spu k).inuse, item := ((demuxSpuSetId h id).1.spu k).item }
  inuse : ∀ k < 32, ((demuxSpuSetId h id).1.spu k).inuse = true ↔ (k : Int) = (demuxSpuSetId h id).1.spuCurrent

/-- What holds of the subpicture streams between two calls. -/
structure SpuOk (h : Handle) : Prop where
  lower : -1 ≤ h.spuCurrent
  upper : h.spuCurrent ≤ 31
  inuse : ∀ k < 32, (h.spu k).inuse = true ↔ (k : Int) = h.spuCurrent
  queue : ∀ k, ∃ q : List SpuItem, q.length ≤ 1 ∧ (h.spu k).Holds q

theorem SpuOk.of_same {h h' : Handle} (ho : SpuOk h) (hs : h'.spu = h.spu) (hc : h'.spuCurrent = h.spuCurrent) : SpuOk h' :=
  ⟨by rw [hc]; exact ho.lower, by rw [hc]; exact ho.upper, by rw [hs, hc]; exact ho.inuse, by rw [hs]; exact ho.queue⟩

namespace Spu
variable {s : Spu} {q : List SpuItem}

/-- The scan stops behind the queue. -/
theorem Holds.count (hh : s.Holds q) {rounds i : Nat} (hi : i ≤ q.length) (hr : i + rounds = 32) :
    spuCount s.item rounds i = q.length := by
  induction rounds generalizing i with
  | zero =>
    have := hh.length
    rw [spuCount]
    omega
  | succ rounds ih =>
    rw [spuCount]
    have ho := hh.occupied (show i < 32 by omega)
    split
    · rename_i hd
      exact ih (ho.mp hd) (by omega)
    · rename_i hd
      by_contra hne
      exact hd (ho.mpr (by omega))

/-- Releasing a stream drops the oldest item of a queue that is not full. -/
theorem Holds.release (hh : s.Holds q) (hl : q.length < 32) : s.release.Holds q.tail := by
  have hc := hh.count (Nat.zero_le _) (show 0 + 32 = 32 by decide)
  have hitem (j : Nat) : s.release.item j = if j < q.length then s.item (j + 1) else s.item j := by
    simp only [Spu.release, hc]
  have htail := List.length_tail (l := q)
  constructor
  · omega
  · intro j hj
    rw [hitem, if_pos (by omega), hh.item (j + 1) (by omega), List.getElem_tail]
  · exact fun it hit => hh.data it (List.mem_of_mem_tail hit)
  · intro j hj hlt
    rw [hitem]
    split
    · exact hh.free (j + 1) (by omega) (by omega)
    · exact hh.free j (by omega) hlt

/-- The copy stays inside the items as long as the queue is not full. -/
theorem Holds.accesses (hh : s.Holds q) (hl : q.length < 32) {k : Int} (h0 : 0 ≤ k) (h31 : k ≤ 31) :
    ∀ a ∈ s.releaseAccesses k, a.InRange := by
  have hc := hh.count (Nat.zero_le _) (show 0 + 32 = 32 by decide)
  intro a ha
  simp only [Spu.releaseAccesses, hc, List.mem_cons, List.mem_append, List.mem_map, List.mem_range, List.mem_flatMap,
    List.not_mem_nil, or_false] at ha
  rcases ha with rfl | ⟨j, hj, rfl⟩ | ⟨j, hj, rfl | rfl⟩
  · exact ⟨h0, by omega⟩
  · exact ⟨h0, by omega, by omega⟩
  · exact ⟨h0, by omega, by omega⟩
  · exact ⟨h0, by omega, by omega⟩

end Spu

section
variable {h : Handle} {id : Int}

/-- A call that changes the selection, taken apart: the old stream is released and the new one is in use. -/
theorem setId_spu (ho : SpuOk h) (h1 : -1 ≤ id) (h31 : id ≤ 31) (hne : id ≠ h.spuCurrent) (k : Nat) :
    (demuxSpuSetId h id).1.spu k =
      if (k : Int) = id then { h.spu k with inuse := true } else
        if (k : Int) = h.spuCurrent then (h.spu k).release else h.spu k := by
  have hlow := ho.lower
  have hold (s : Spu) (he : h.spuCurrent ≠ -1) : Function.update h.spu h.spuCurrent.toNat s k =
      if (k : Int) = h.spuCurrent then s else h.spu k := by
    by_cases hk : (k : Int) = h.spuCurrent
    · rw [if_pos hk, show h.spuCurrent.toNat = k by omega, Function.update_self]
    · rw [if_neg hk, Function.update_of_ne (by omega)]
  unfold demuxSpuSetId
  rw [if_neg (by omega), if_neg hne]
  by_cases hm : id = -1
  · subst hm
    rw [if_neg (show ¬ (k : Int) = -1 by omega)]
    simp only [if_true]
    rw [if_neg (show ¬ h.spuCurrent = -1 by omega)]
    dsimp only
    rw [hold _ (by omega)]
    split
    · rename_i hk
      rw [show h.spuCurrent.toNat = k by omega]
    · rfl
  · simp only [if_neg hm]
    by_cases hk : (k : Int) = id
    · have hid : id.toNat = k := by omega
      rw [if_pos hk, hid, Function.update_self]
      by_cases hc : h.spuCurrent = -1
      · simp only [if_pos hc]
      · simp only [if_neg hc]
        rw [hold _ hc, if_neg (by omega)]
    · rw [if_neg hk, Function.update_of_ne (show k ≠ id.toNat by omega)]
      by_cases hc : h.spuCurrent = -1
      · simp only [if_pos hc]
        rw [if_neg (by omega)]
      · simp only [if_neg hc]
        rw [hold _ hc]
        split
        · rename_i he
          rw [show h.spuCurrent.toNat = k by omega]
        · rfl

theorem setId_current (h1 : -1 ≤ id) (h31 : id ≤ 31) : (demuxSpuSetId h id).1.spuCurrent = id := by
  unfold demuxSpuSetId
  rw [if_neg (by omega)]
  dsimp only
  split
  · rename_i he
    exact he.symm
  · split <;> rfl

theorem setId_inuse (ho : SpuOk h) (h1 : -1 ≤ id) (h31 : id ≤ 31) :
    ∀ k < 32, ((demuxSpuSetId h id).1.spu k).inuse = true ↔ (k : Int) = (demuxSpuSetId h id).1.spuCurrent := by
  intro k hk
  rw [setId_current h1 h31]
  by_cases hne : id = h.spuCurrent
  · have hsame : (demuxSpuSetId h id).1 = h := by
      unfold demuxSpuSetId
      rw [if_neg (by omega), if_pos hne]
    rw [hsame, hne]
    exact ho.inuse k hk
  · rw [setId_spu ho h1 h31 hne k]
    have hu := ho.inuse k hk
    split
    · rename_i he
      simp [he]
    · rename_i he
      split
      · rename_i hc
        simp [Spu.release, he]
      · rename_i hc
        rw [hu]
        simp [hc, he]

/-- Every selection keeps the streams in order, also the one that writes in front of the array. -/
theorem setId_ok (ho : SpuOk h) (id : Int) : SpuOk (demuxSpuSetId h id).1 := by
  by_cases hr : id < -1 ∨ 31 < id
  · have hsame : (demuxSpuSetId h id).1 = h := by
      unfold demuxSpuSetId
      rw [if_pos hr]
    rw [hsame]
    exact ho
  have h1 : -1 ≤ id := by omega
  have h31 : id ≤ 31 := by omega
  refine ⟨by rw [setId_current h1 h31]; exact h1, by rw [setId_current h1 h31]; exact h31, setId_inuse ho h1 h31, ?_⟩
  intro k
  obtain ⟨q, hl, hq⟩ := ho.queue k
  by_cases hne : id = h.spuCurrent
  · have hsame : (demuxSpuSetId h id).1 = h := by
      unfold demuxSpuSetId
      rw [if_neg hr, if_pos hne]
    rw [hsame]
    exact ⟨q, hl, hq⟩
  · rw [setId_spu ho h1 h31 hne k]
    split
    · exact ⟨q, hl, hq.length, hq.item, hq.data, hq.free⟩
    · split
      · exact ⟨q.tail, by rw [List.length_tail]; omega, hq.release (by omega)⟩
      · exact ⟨q, hl, hq⟩

/-- A call does what it is to do unless it selects no stream while one is selected. -/
theorem selectsOnly_iff (ho : SpuOk h) (h1 : -1 ≤ id) (h31 : id ≤ 31) :
    SelectsOnly h id ↔ ¬ (id = -1 ∧ h.spuCurrent ≠ -1) := by
  have hlow := ho.lower
  have hup := ho.upper
  constructor
  · rintro hs ⟨rfl, hc⟩
    have hmem : SpuAccess.spu (-1) ∈ (demuxSpuSetId h (-1)).2.2 := by
      unfold demuxSpuSetId
      rw [if_neg (by omega), if_neg (Ne.symm hc)]
      simp only [if_true]
      exact List.mem_append_right _ List.mem_cons_self
    exact absurd (hs.inRange _ hmem).1 (by decide)
  · intro hn
    by_cases hne : id = h.spuCurrent
    · have hsame : demuxSpuSetId h id = (h, 0, []) := by
        unfold demuxSpuSetId
        rw [if_neg (by omega), if_pos hne]
      constructor
      · rw [hsame]
        exact fun a ha => absurd ha List.not_mem_nil
      · rw [hsame]
      · rw [hsame]
        exact fun _ _ _ => rfl
      · exact fun k hk he => absurd (he.trans hne) hk
      · rw [hsame]
        exact fun _ _ => rfl
      · rw [hsame]
        exact ho.inuse
    · have hid : id ≠ -1 := fun he => hn ⟨he, fun hc => hne (he.trans hc.symm)⟩
      have hspu := setId_spu ho h1 h31 hne
      constructor
      · intro a ha
        unfold demuxSpuSetId at ha
        rw [if_neg (by omega), if_neg hne] at ha
        simp only [if_neg hid, List.mem_append, List.mem_singleton] at ha
        rcases ha with ha | rfl
        · split at ha
          · exact absurd ha List.not_mem_nil
          · obtain ⟨q, hl, hq⟩ := ho.queue h.spuCurrent.toNat
            exact hq.accesses (by omega) (by omega) hup a ha
        · exact ⟨by omega, by omega⟩
      · unfold demuxSpuSetId
        rw [if_neg (by omega), if_neg hne]
        simp only [if_neg hid]
        split <;> rfl
      · intro k hk hk'
        rw [hspu, if_neg hk', if_neg hk]
      · intro k _ hk'
        rw [hspu, if_pos hk']
      · intro k hk
        rw [hspu, if_neg (fun he => hne (he.symm.trans hk)), if_pos hk]
        rfl
      · exact setId_inuse ho h1 h31

end

theorem setStream_spu (h : Handle) (sid : StreamId) (s : Stream) :
    (h.setStream sid s).spu = h.spu ∧ (h.setStream sid s).spuCurrent = h.spuCurrent := by
  cases sid <;> exact ⟨rfl, rfl⟩

/-- `stream_add` does not touch the subpicture streams. -/
theorem streamAdd_spu (h : Handle) (sid : StreamId) (data : List UInt8) (force : Bool) :
    (streamAdd h sid data force).1.spu = h.spu ∧ (streamAdd h sid data force).1.spuCurrent = h.spuCurrent := by
  have parser (g : Handle) (w : Bool) (stop : Nat) :
      (runParser g w stop).spu = g.spu ∧ (runParser g w stop).spuCurrent = g.spuCurrent := by
    have hv := (runParser_only g w stop).1
    exact ⟨hv.field Handle.spu, hv.field Handle.spuCurrent⟩
  unfold streamAdd
  dsimp only
  split
  · exact ⟨rfl, rfl⟩
  · split
    · exact ⟨rfl, rfl⟩
    · split
      · exact setStream_spu ..
      · rw [(setStream_spu ..).1, (setStream_spu ..).2]
        split
        · rw [(parser ..).1, (parser ..).2]
          exact setStream_spu ..
        · exact setStream_spu ..

/-- A packet stores at most one item, in a queue that has held at most one. -/
theorem parseSpuFrame_ok {h : Handle} (ho : SpuOk h) (mem : Nat → UInt8) (len : Nat) : SpuOk (parseSpuFrame h mem len).1 := by
  have hcur : (parseSpuFrame h mem len).1.spuCurrent = h.spuCurrent := by
    rw [parseSpuFrame_only]
  refine ⟨by rw [hcur]; exact ho.lower, by rw [hcur]; exact ho.upper, ?_, ?_⟩
  · intro k hk
    rw [hcur, parseSpuFrame_inuse]
    exact ho.inuse k hk
  · intro k
    obtain ⟨q, hl, hq⟩ := ho.queue k
    cases ha : (SpuEvent.packet mem len).arrival h k with
    | none => exact ⟨q, hl, packet_holds_of_none hq ha⟩
    | some it =>
      refine ⟨q.tail ++ [it], ?_, packet_holds_of_some hq (by omega) ha⟩
      simp only [List.length_append, List.length_tail, List.length_singleton]
      omega

theorem demuxPut_ok {h : Handle} (ho : SpuOk h) (buf : List UInt8) (past : Nat → UInt8) : SpuOk (demuxPut h buf past).1 := by
  have hk : Carried SpuOk := by
    constructor
    · exact fun ho _ hs hc => ho.of_same hs hc
    · exact fun sid data ho => ho.of_same (streamAdd_spu ..).1 (streamAdd_spu ..).2
    · exact fun mem len ho => parseSpuFrame_ok ho mem len
  exact hk.demuxPut (fun _ ho => ho.of_same rfl rfl) buf past ho

theorem getNext_ok {h : Handle} (ho : SpuOk h) : SpuOk (demuxSpuGetNext h).1 := by
  have hcur : (demuxSpuGetNext h).1.spuCurrent = h.spuCurrent := by
    unfold demuxSpuGetNext
    dsimp only
    split
    · rfl
    · split <;> rfl
  have huse (k : Nat) : ((demuxSpuGetNext h).1.spu k).inuse = (h.spu k).inuse := by
    unfold demuxSpuGetNext
    dsimp only
    split
    · rfl
    · split
      · by_cases hk : k = h.spuCurrent.toNat
        · subst hk
          simp only [Function.update_self]
        · simp only [Function.update_of_ne hk]
      · rfl
  refine ⟨by rw [hcur]; exact ho.lower, by rw [hcur]; exact ho.upper, ?_, ?_⟩
  · intro k hk
    rw [hcur, huse]
    exact ho.inuse k hk
  · intro k
    obtain ⟨q, hl, hq⟩ := ho.queue k
    obtain ⟨htake, hkeep⟩ := demuxSpuGetNext_holds hq
    by_cases hc : h.spuCurrent = k
    · exact ⟨q.tail, by rw [List.length_tail]; omega, (htake hc).2⟩
    · exact ⟨q, hl, hkeep hc⟩

/-- All calls on a handle, the ones on subpictures included. -/
inductive SpuCall where
  | base (c : AnyCall)
  | setId (id : Int)
  | getNext

def SpuCall.run (h : Handle) : SpuCall → Handle
  | base c => c.run h
  | setId id => (demuxSpuSetId h id).1
  | getNext => (demuxSpuGetNext h).1

/-- The handles reached from `demux_init` by any calls. -/
def SpuReached (size : Nat) : Handle → Prop :=
  Reach (fun h => ∃ junk, h = demuxInit size junk) fun h (c : SpuCall) h' => h' = c.run h

theorem setStream_ok {h : Handle} (ho : SpuOk h) (sid : StreamId) (s : Stream) : SpuOk (h.setStream sid s) :=
  ho.of_same (setStream_spu h sid s).1 (setStream_spu h sid s).2

theorem SpuOk.of_reset {h : Handle} (hs : h.spu = fun _ => {}) (hc : h.spuCurrent = -1) : SpuOk h := by
  refine ⟨by omega, by omega, fun k _ => ?_, fun k => ⟨[], by simp, ?_⟩⟩
  · rw [hs, hc]
    simp
  · rw [hs]
    exact ⟨by simp, fun j hj => absurd hj (Nat.not_lt_zero j), fun it hit => absurd hit List.not_mem_nil, fun _ _ _ => rfl⟩

theorem anyCall_ok {h : Handle} (ho : SpuOk h) (c : AnyCall) : SpuOk (c.run h) := by
  cases c with
  | base c =>
    cases c with
    | put buf past => exact demuxPut_ok ho buf past
    | get sid max =>
      simp only [AnyCall.run, Call.run, demuxGet]
      split
      · exact ho
      · exact setStream_ok ho sid _
    | write sid max first second => exact setStream_ok ho sid _
    | jit data => exact ho.of_same rfl rfl
    | select sid id =>
      simp only [AnyCall.run, Call.run, demuxSetStream]
      split
      · exact ho
      · split
        · exact setStream_ok ho sid _
        · exact ho
    | seek => exact ho.of_same rfl rfl
    | flush => exact ho.of_same rfl rfl
  | reset => exact .of_reset rfl rfl
  | attrReset => exact ho.of_same rfl rfl

theorem SpuReached.ok {size : Nat} {h : Handle} (hr : SpuReached size h) : SpuOk h := by
  refine Reach.invariant ?_ ?_ hr
  · rintro _ ⟨junk, rfl⟩
    exact .of_reset rfl rfl
  · rintro h c _ ho rfl
    cases c with
    | base c => exact anyCall_ok ho c
    | setId id => exact setId_ok ho id
    | getNext => exact getNext_ok ho

/-- Every selection of the sequence touches only what it is to touch. -/
def SelectOnly : Handle → List Int → Prop
  | _, [] => True
  | h, id :: ids => SelectsOnly h id ∧ SelectOnly (demuxSpuSetId h id).1 ids

/-- Selections touch nothing else, from every reachable handle, if and only if none of them selects
no stream right after a stream. -/
theorem selections_touch_iff {size : Nat} {h : Handle} (hr : SpuReached size h) {ids : List Int}
    (hids : ∀ id ∈ ids, -1 ≤ id ∧ id ≤ 31) :
    SelectOnly h ids ↔ List.IsChain (fun old id => id = -1 → old = -1) (h.spuCurrent :: ids) := by
  have ho := hr.ok
  clear hr
  induction ids generalizing h with
  | nil => exact ⟨fun _ => .singleton _, fun _ => trivial⟩
  | cons id ids ih =>
    obtain ⟨h1, h31⟩ := hids id List.mem_cons_self
    have hrest := ih (fun x hx => hids x (List.mem_cons_of_mem id hx)) (setId_ok ho id)
    rw [setId_current h1 h31] at hrest
    have hcond : ¬ (id = -1 ∧ h.spuCurrent ≠ -1) ↔ (id = -1 → h.spuCurrent = -1) := by
      rw [not_and, not_not]
    rw [List.isChain_cons_cons, ← hcond]
    exact and_congr (selectsOnly_iff ho h1 h31) hrest

/-- Stream 3 is selected, then stream 5. -/
theorem selections_touch_two : SelectOnly (demuxInit 100 fun _ => 0) [3, 5] :=
  (selections_touch_iff (.start ⟨_, rfl⟩ : SpuReached 100 _) (by decide)).mpr (by decide)

/-- Selecting none behind stream 3 writes in front of `spu[]`. -/
theorem select_none_writes_outside : ¬ ∀ (size : Nat) (h : Handle), SpuReached size h → ∀ ids : List Int,
    (∀ id ∈ ids, -1 ≤ id ∧ id ≤ 31) → SelectOnly h ids := by
  intro hall
  have hs := (hall 100 (demuxInit 100 fun _ => 0) (.start ⟨_, rfl⟩) [3, -1] (by decide)).2.1
  exact absurd (hs.inRange (.spu (-1)) (by decide)).1 (by decide)

end Mvpmc.Demux
