import Mvpmc.Lib.Path
import Mvpmc.Playlist.Randomize
import Mathlib.Algebra.Group.End
import Mathlib.Data.List.Perm.Subperm

/-! Shuffling a playlist moves its tracks and nothing else. -/
namespace Mvpmc.Playlist
open Mvpmc.Lib.Path

def nextOf (heap : List Node) (a : Nat) : Option Nat := heap[a]?.bind Node.next

def trackAt (heap : List Node) (a : Nat) : Option Track := heap[a]?.map Node.track

def keyAt (heap : List Node) (a : Nat) : Option Nat := heap[a]?.map Node.key

/-- What the menu has of an item. -/
def shownAt (heap : List Node) (a : Nat) : Option (List UInt8 × Nat) := heap[a]?.map fun n => (n.track.label, n.key)

def Node.links (n : Node) : Option Nat × Option Nat := (n.next, n.prev)

/-- The items in memory that the list from `head` on is made of. -/
structure Linked (heap : List Node) (head : Option Nat) (addrs : List Nat) : Prop where
  leads : Leads (nextOf heap) head addrs
  inside : ∀ a ∈ addrs, a < heap.length

/-- A playlist as it is built: the keys count the items, and the menu shows them all and has one of them highlighted. -/
structure Built (s : Player) (addrs : List Nat) : Prop where
  linked : Linked s.heap s.head addrs
  keys : addrs.map (keyAt s.heap) = (List.range addrs.length).map some
  menu : s.menu.map some = addrs.map (shownAt s.heap)
  current : addrs ≠ [] → s.current < addrs.length

/-- The same items in the same order with the same tracks among them, numbered from the first on; the current item is
one of them and has the track that was highlighted. -/
structure NothingLost (addrs : List Nat) (s s' : Player) : Prop where
  head : s'.head = s.head
  links : s'.heap.map Node.links = s.heap.map Node.links
  others : ∀ a, a ∉ addrs → s'.heap[a]? = s.heap[a]?
  tracks : (addrs.map (trackAt s'.heap)).Perm (addrs.map (trackAt s.heap))
  keys : addrs.map (keyAt s'.heap) = (List.range addrs.length).map some
  playlist : addrs ≠ [] → ∃ a ∈ addrs, ∃ track, s'.playlist = some a ∧ trackAt s'.heap a = some track ∧
    hilitedTrack s = some track
  hilited : hilitedTrack s' = hilitedTrack s

section Walks
variable {heap : List Node} {head p : Option Nat} {addrs l : List Nat} {a : Nat}

theorem exists_node (ha : a < heap.length) : ∃ n, heap[a]? = some n := ⟨heap[a], List.getElem?_eq_getElem ha⟩

theorem nextOf_node {n : Node} (hn : heap[a]? = some n) : nextOf heap a = n.next := by
  unfold nextOf
  rw [hn]
  rfl

theorem Linked.length_le (h : Linked heap head addrs) : addrs.length ≤ heap.length := by
  have hsub : addrs ⊆ List.range heap.length := fun a ha => List.mem_range.mpr (h.inside a ha)
  have hle := (List.subperm_of_subset h.leads.nodup hsub).length_le
  rwa [List.length_range] at hle

theorem at_of_map {heap' : List Node} {β : Type} {f : Node → β} (h : heap'.map f = heap.map f) (a : Nat) :
    heap'[a]?.map f = heap[a]?.map f := by
  have hat : (heap'.map f)[a]? = (heap.map f)[a]? := congrArg (fun values => values[a]?) h
  rwa [List.getElem?_map, List.getElem?_map] at hat

theorem nextOf_of_links {heap' : List Node} (h : heap'.map Node.links = heap.map Node.links) (a : Nat) :
    nextOf heap' a = nextOf heap a := by
  have hat := congrArg (Option.bind · fun links : Option Nat × Option Nat => links.1) (at_of_map h a)
  simpa [nextOf, Option.bind_map, Function.comp_def, Node.links] using hat

/-- The links alone make the list. -/
theorem Linked.of_links {heap' : List Node} (h : heap'.map Node.links = heap.map Node.links) (hl : Linked heap head addrs) :
    Linked heap' head addrs where
  leads := hl.leads.congr fun a _ => nextOf_of_links h a
  inside a ha := by
    have hlen := congrArg List.length h
    rw [List.length_map, List.length_map] at hlen
    rw [hlen]
    exact hl.inside a ha

/-- What is found at a place of a list whose numbers start at `i`. -/
def placed (l : List Nat) (i k : Nat) : Option Nat := if i ≤ k then l[k - i]? else none

theorem placed_cons (a : Nat) (l : List Nat) (i k : Nat) :
    placed (a :: l) i k = if k = i then some a else placed l (i + 1) k := by
  unfold placed
  rcases Nat.lt_trichotomy k i with hlt | rfl | hgt
  · rw [if_neg (by omega), if_neg (by omega), if_neg (by omega)]
  · simp
  · obtain ⟨d, rfl⟩ : ∃ d, k = i + 1 + d := ⟨k - (i + 1), by omega⟩
    have hsub : i + 1 + d - i = d + 1 := by omega
    have hsub' : i + 1 + d - (i + 1) = d := by omega
    rw [if_pos (by omega), if_neg (by omega), if_pos (by omega), hsub, hsub', List.getElem?_cons_succ]

theorem placed_zero (l : List Nat) (k : Nat) : placed l 0 k = l[k]? := if_pos (Nat.zero_le k)

/-- The first loop finds the item with the number `old`, and counts. -/
theorem countLoop_eq (h : Leads (nextOf heap) p l) (hin : ∀ a ∈ l, a < heap.length) {fuel : Nat} (hf : l.length ≤ fuel)
    (old : Nat) (hilite : Option Nat) (count : Nat) :
    countLoop heap old fuel p hilite count = some ((placed l count old).or hilite, count + l.length) := by
  induction l generalizing p fuel hilite count with
  | nil =>
    obtain rfl : p = none := h
    have hnone : placed [] count old = none := by simp [placed]
    rw [hnone]
    cases fuel <;> rfl
  | cons a l ih =>
    obtain ⟨rfl, hrest⟩ := h
    obtain ⟨ha, hin⟩ := List.forall_mem_cons.mp hin
    obtain ⟨n, hn⟩ := exists_node ha
    obtain ⟨f, rfl⟩ : ∃ f, fuel = f + 1 := ⟨fuel - 1, by simp only [List.length_cons] at hf; omega⟩
    rw [nextOf_node hn] at hrest
    have hloop : countLoop heap old (f + 1) (some a) hilite count =
        countLoop heap old f n.next (if old = count then some a else hilite) (count + 1) := by
      simp only [countLoop, hn]
      rfl
    rw [hloop, ih hrest hin (by simp only [List.length_cons] at hf; omega), placed_cons, List.length_cons]
    by_cases he : old = count
    · have hnone : placed l (count + 1) old = none := if_neg (by omega)
      rw [if_pos he, if_pos he, hnone]
      simp
      omega
    · rw [if_neg he, if_neg he]
      simp
      omega

/-- With keys that count the items, a key leads to the item at its place. -/
theorem selectKey_eq (h : Leads (nextOf heap) p l) {i : Nat} (hk : l.map (keyAt heap) = (List.range' i l.length).map some)
    {fuel : Nat} (hf : l.length ≤ fuel) (key : Nat) : selectKey heap key fuel p = placed l i key := by
  induction l generalizing p fuel i with
  | nil =>
    obtain rfl : p = none := h
    have hnone : placed [] i key = none := by simp [placed]
    rw [hnone]
    cases fuel <;> rfl
  | cons a l ih =>
    obtain ⟨rfl, hrest⟩ := h
    rw [List.map_cons, List.length_cons, List.range'_succ, List.map_cons] at hk
    obtain ⟨hkey, hk⟩ := List.cons.inj hk
    obtain ⟨n, hn, rfl⟩ := Option.map_eq_some_iff.mp hkey
    obtain ⟨f, rfl⟩ : ∃ f, fuel = f + 1 := ⟨fuel - 1, by simp only [List.length_cons] at hf; omega⟩
    rw [nextOf_node hn] at hrest
    have hwalk : selectKey heap key (f + 1) (some a) = if n.key = key then some a else selectKey heap key f n.next := by
      simp only [selectKey, hn]
      rfl
    rw [hwalk, ih hrest hk (by simp only [List.length_cons] at hf; omega), placed_cons]
    simp only [eq_comm]

/-- From any item of the list one comes to another. -/
theorem advance_mem {first : Nat} (h : Linked heap (some first) addrs) (ha : a ∈ addrs) (r : Nat) :
    ∃ b ∈ addrs, advance heap first r a = some b := by
  induction r generalizing a with
  | zero => exact ⟨a, ha, rfl⟩
  | succ r ih =>
    obtain ⟨n, hn⟩ := exists_node (h.inside a ha)
    have hnext : n.next.getD first ∈ addrs := by
      cases hx : n.next with
      | none => exact List.mem_of_head? h.leads.head.symm
      | some b => exact h.leads.next_mem ha ((nextOf_node hn).trans hx)
    obtain ⟨b, hb, hadv⟩ := ih hnext
    refine ⟨b, hb, ?_⟩
    simp only [advance, hn]
    exact hadv

end Walks

section Swaps
variable {heap heap' heap'' : List Node} {head : Option Nat} {addrs l : List Nat} {σ τ : Equiv.Perm Nat}

/-- All of an item but its track. -/
def Node.frame (n : Node) : Nat × Option Nat × Option Nat := (n.key, n.next, n.prev)

/-- The tracks of some items have changed places. -/
structure Moved (addrs : List Nat) (heap heap' : List Node) (σ : Equiv.Perm Nat) : Prop where
  frame : heap'.map Node.frame = heap.map Node.frame
  tracks : ∀ a, trackAt heap' a = trackAt heap (σ a)
  fixed : ∀ a, a ∉ addrs → σ a = a

namespace Moved

theorem refl : Moved addrs heap heap 1 := ⟨rfl, fun _ => rfl, fun _ _ => rfl⟩

theorem trans (h : Moved addrs heap heap' σ) (h' : Moved addrs heap' heap'' τ) : Moved addrs heap heap'' (σ * τ) where
  frame := h'.frame.trans h.frame
  tracks a := (h'.tracks a).trans (h.tracks (τ a))
  fixed a ha := (congrArg σ (h'.fixed a ha)).trans (h.fixed a ha)

theorem links (h : Moved addrs heap heap' σ) : heap'.map Node.links = heap.map Node.links := by
  have hsnd := congrArg (List.map Prod.snd) h.frame
  rwa [List.map_map, List.map_map] at hsnd

theorem linked (h : Moved addrs heap heap' σ) (hl : Linked heap head addrs) : Linked heap' head addrs := hl.of_links h.links

theorem nextOf_eq (h : Moved addrs heap heap' σ) (a : Nat) : nextOf heap' a = nextOf heap a := nextOf_of_links h.links a

theorem others (h : Moved addrs heap heap' σ) {a : Nat} (ha : a ∉ addrs) : heap'[a]? = heap[a]? := by
  have htrack := h.tracks a
  have hframe := at_of_map h.frame a
  rw [h.fixed a ha] at htrack
  unfold trackAt at htrack
  cases hn : heap[a]? with
  | none =>
    rw [hn] at hframe
    exact Option.map_eq_none_iff.mp hframe
  | some n =>
    rw [hn] at hframe htrack
    obtain ⟨n', hn', hf⟩ := Option.map_eq_some_iff.mp hframe
    rw [hn'] at htrack ⊢
    obtain ⟨track, key, next, prev⟩ := n
    obtain ⟨track', key', next', prev'⟩ := n'
    obtain rfl : track' = track := Option.some.inj htrack
    obtain ⟨rfl, rfl, rfl⟩ : key' = key ∧ next' = next ∧ prev' = prev := by simpa [Node.frame] using hf
    rfl

end Moved

/-- A swap of two items. -/
theorem swapTracks_moves {cur swap : Nat} (hcur : cur ∈ addrs) (hswap : swap ∈ addrs) (hc : cur < heap.length)
    (hs : swap < heap.length) :
    ∃ heap', swapTracks heap cur swap = some heap' ∧ Moved addrs heap heap' (Equiv.swap cur swap) := by
  obtain ⟨c, hc'⟩ := exists_node hc
  obtain ⟨s, hs'⟩ := exists_node hs
  have hat : ∀ a, ((heap.set cur { c with track := s.track }).set swap { s with track := c.track })[a]? =
      if a = swap then some { s with track := c.track } else if a = cur then some { c with track := s.track } else heap[a]? := by
    intro a
    simp only [List.getElem?_set, List.length_set, eq_comm (b := a), hc, hs, if_true]
  refine ⟨_, by simp only [swapTracks, hc', hs']; rfl, ?_, fun a => ?_, fun a ha => ?_⟩
  · refine List.ext_getElem? fun a => ?_
    rw [List.getElem?_map, List.getElem?_map, hat]
    split
    · next h => subst h; rw [hs']; rfl
    · split
      · next h => subst h; rw [hc']; rfl
      · rfl
  · unfold trackAt
    rw [hat]
    split
    · next h =>
      subst h
      rw [Equiv.swap_apply_right, hc']
      rfl
    · split
      · next h =>
        subst h
        rw [Equiv.swap_apply_left, hs']
        rfl
      · next hns hnc => rw [Equiv.swap_apply_of_ne_of_ne hnc hns]
  · exact Equiv.swap_apply_of_ne_of_ne (fun h => ha (h ▸ hcur)) fun h => ha (h ▸ hswap)

/-- The highlighted item is followed through a swap. -/
theorem swap_hilite {cur swap hilite : Nat} :
    (if cur = hilite then swap else if swap = hilite then cur else hilite) = Equiv.swap cur swap hilite := by
  rw [Equiv.swap_apply_def]
  simp only [eq_comm]

/-- One round of the second loop. -/
theorem swapLoop_succ (rand : Nat → Nat) (count n i hilite : Nat) {first cur : Nat}
    (h : Linked heap (some first) addrs) (hcur : cur ∈ addrs) : ∃ heap' hilite' σ, Moved addrs heap heap' σ ∧ σ hilite' = hilite ∧
      swapLoop rand first count (n + 1) i (some cur) heap hilite =
        swapLoop rand first count n (i + 1) (nextOf heap cur) heap' hilite' := by
  obtain ⟨swap, hswap, hadv⟩ := advance_mem h hcur (rand i % count)
  by_cases hne : swap = cur
  · obtain ⟨c, hc⟩ := exists_node (h.inside cur hcur)
    refine ⟨heap, hilite, 1, Moved.refl, rfl, ?_⟩
    rw [nextOf_node hc]
    simp [swapLoop, hadv, hne, hc]
  · obtain ⟨heap', hsw, hm⟩ := swapTracks_moves hcur hswap (h.inside cur hcur) (h.inside swap hswap)
    obtain ⟨c, hc⟩ := exists_node ((hm.linked h).inside cur hcur)
    refine ⟨heap', Equiv.swap cur swap hilite, Equiv.swap cur swap, hm, Equiv.swap_apply_self cur swap hilite, ?_⟩
    rw [← hm.nextOf_eq cur, nextOf_node hc, ← swap_hilite]
    simp [swapLoop, hadv, hne, hsw, hc]

/-- The second loop moves tracks and follows the highlighted one. -/
theorem swapLoop_moves (rand : Nat → Nat) (count i hilite : Nat) {first : Nat} {p : Option Nat}
    (h : Linked heap (some first) addrs) (hl : Leads (nextOf heap) p l) (hsub : ∀ a ∈ l, a ∈ addrs) :
    ∃ heap' hilite' σ, swapLoop rand first count l.length i p heap hilite = some (heap', hilite') ∧
      Moved addrs heap heap' σ ∧ σ hilite' = hilite := by
  induction l generalizing heap i p hilite with
  | nil => exact ⟨heap, hilite, 1, rfl, Moved.refl, rfl⟩
  | cons a l ih =>
    obtain ⟨rfl, hrest⟩ := hl
    obtain ⟨ha, hsub⟩ := List.forall_mem_cons.mp hsub
    obtain ⟨heap₁, hilite₁, σ, hm, hσ, hloop⟩ := swapLoop_succ rand count l.length i hilite h ha
    obtain ⟨heap₂, hilite₂, τ, hrun, hm', hτ⟩ := ih (i + 1) hilite₁ (hm.linked h)
      (hrest.congr fun a _ => hm.nextOf_eq a) hsub
    refine ⟨heap₂, hilite₂, σ * τ, ?_, hm.trans hm', ?_⟩
    · rw [List.length_cons, hloop]
      exact hrun
    · exact (congrArg σ hτ).trans hσ

end Swaps

section Renumber
variable {heap : List Node} {l : List Nat}

/-- All of an item but its key. -/
def Node.content (n : Node) : Track × Option Nat × Option Nat := (n.track, n.next, n.prev)

theorem content_links {heap' : List Node} (h : heap'.map Node.content = heap.map Node.content) :
    heap'.map Node.links = heap.map Node.links := by
  have hsnd := congrArg (List.map Prod.snd) h
  rwa [List.map_map, List.map_map] at hsnd

section Rekey
variable {a : Nat} {n : Node} (hn : heap[a]? = some n) (i : Nat)
include hn

theorem rekey_at (b : Nat) :
    (heap.set a { n with key := i })[b]? = if b = a then some { n with key := i } else heap[b]? := by
  obtain ⟨ha, -⟩ := List.getElem?_eq_some_iff.mp hn
  simp only [List.getElem?_set, eq_comm (b := b), ha, if_true]

theorem rekey_content : (heap.set a { n with key := i }).map Node.content = heap.map Node.content := by
  refine List.ext_getElem? fun b => ?_
  rw [List.getElem?_map, List.getElem?_map, rekey_at hn]
  split
  · next hb =>
    rw [hb, hn]
    rfl
  · rfl

theorem rekey_nextOf (b : Nat) : nextOf (heap.set a { n with key := i }) b = nextOf heap b :=
  nextOf_of_links (content_links (rekey_content hn i)) b

/-- One round of the last loop. -/
theorem renumber_succ (hilite k old : Nat) (menu : List (List UInt8 × Nat)) :
    renumber hilite (k + 1) i (some a) heap menu old =
      renumber hilite k (i + 1) (nextOf heap a) (heap.set a { n with key := i }) (menu ++ [(n.track.label, i)])
        (if hilite = a then i else old) := by
  rw [nextOf_node hn]
  simp [renumber, hn]

end Rekey

/-- The place of the highlighted item, found in the round of that item or in a later one. -/
theorem hilite_place {a : Nat} (ha : a ∉ l) (hilite i old : Nat) :
    (if hilite ∈ l then i + 1 + l.idxOf hilite else if hilite = a then i else old) =
      if hilite ∈ a :: l then i + (a :: l).idxOf hilite else old := by
  by_cases hx : hilite = a
  · subst hx
    rw [if_neg ha, if_pos rfl, if_pos List.mem_cons_self, List.idxOf_cons_self]
    rfl
  · rw [if_neg hx, List.idxOf_cons_ne l (Ne.symm hx)]
    simp only [List.mem_cons, hx, false_or]
    split
    · omega
    · rfl

/-- The last loop numbers the items, shows them, and finds the place of the highlighted one. -/
theorem renumber_spec (hilite i : Nat) {p : Option Nat} (h : Leads (nextOf heap) p l) (hin : ∀ a ∈ l, a < heap.length)
    (menu : List (List UInt8 × Nat)) (old : Nat) : ∃ heap' items,
      renumber hilite l.length i p heap menu old =
        some (heap', menu ++ items, if hilite ∈ l then i + l.idxOf hilite else old) ∧
      heap'.map Node.content = heap.map Node.content ∧ (∀ a, a ∉ l → heap'[a]? = heap[a]?) ∧
      l.map (keyAt heap') = (List.range' i l.length).map some ∧ items.map some = l.map (shownAt heap') := by
  induction l generalizing heap i p menu old with
  | nil => exact ⟨heap, [], by simp [renumber], rfl, fun _ _ => rfl, rfl, rfl⟩
  | cons a l ih =>
    have hnd := h.nodup
    obtain ⟨rfl, hrest⟩ := h
    obtain ⟨hal, -⟩ := List.nodup_cons.mp hnd
    obtain ⟨ha, hin⟩ := List.forall_mem_cons.mp hin
    obtain ⟨n, hn⟩ := exists_node ha
    obtain ⟨heap', items, hrun, hcontent, hothers, hkeys, hitems⟩ := ih (i + 1) (hrest.congr fun b _ => rekey_nextOf hn i b)
      (fun b hb => by rw [List.length_set]; exact hin b hb) (menu ++ [(n.track.label, i)]) (if hilite = a then i else old)
    have hself : heap'[a]? = some { n with key := i } := by rw [hothers a hal, rekey_at hn, if_pos rfl]
    refine ⟨heap', (n.track.label, i) :: items, ?_, hcontent.trans (rekey_content hn i), ?_, ?_, ?_⟩
    · rw [List.length_cons, renumber_succ hn, hrun, hilite_place hal, List.append_assoc]
      rfl
    · intro b hb
      obtain ⟨hba, hbl⟩ := not_or.mp (List.mem_cons.not.mp hb)
      rw [hothers b hbl, rekey_at hn, if_neg hba]
    · rw [List.map_cons, hkeys, List.length_cons, List.range'_succ, List.map_cons]
      exact congrArg (· :: _) (congrArg (Option.map Node.key) hself)
    · rw [List.map_cons, List.map_cons, hitems]
      exact congrArg (· :: _) (congrArg (Option.map fun n : Node => (n.track.label, n.key)) hself).symm

/-- With keys that count the items of the menu, a key highlights the item at its place. -/
theorem menuHiliteItem_eq {menu : List (List UInt8 × Nat)} {i n key : Nat} (hk : menu.map Prod.snd = List.range' i n)
    (hkey : i ≤ key ∧ key < i + n) (current : Nat) : menuHiliteItem key menu i current = key := by
  have hkeep : ∀ (menu : List (List UInt8 × Nat)) (i n current : Nat), menu.map Prod.snd = List.range' i n → key < i →
      menuHiliteItem key menu i current = current := by
    intro menu
    induction menu with
    | nil => exact fun _ _ _ _ _ => rfl
    | cons item menu ih =>
      intro i n current hk hlt
      cases n with
      | zero => exact absurd hk nofun
      | succ n =>
        obtain ⟨hitem, hk⟩ := List.cons.inj hk
        have hother : item.2 ≠ key := by omega
        rw [menuHiliteItem, if_neg hother]
        exact ih (i + 1) n current hk (by omega)
  induction menu generalizing i n current with
  | nil =>
    have hn : n = 0 := by simpa using (congrArg List.length hk).symm
    omega
  | cons item menu ih =>
    cases n with
    | zero => omega
    | succ n =>
      obtain ⟨hitem, hk⟩ := List.cons.inj hk
      rw [menuHiliteItem]
      by_cases he : item.2 = key
      · rw [if_pos he, hkeep menu (i + 1) n i hk (by omega)]
        exact hitem.symm.trans he
      · rw [if_neg he]
        exact ih hk (by omega) current

end Renumber

section Whole
variable {s : Player} {addrs : List Nat}

theorem menu_keys {heap : List Node} {menu : List (List UInt8 × Nat)} {keys : List Nat}
    (hm : menu.map some = addrs.map (shownAt heap)) (hk : addrs.map (keyAt heap) = keys.map some) :
    menu.map Prod.snd = keys := by
  have hkey : ∀ a, (shownAt heap a).map Prod.snd = keyAt heap a := by
    intro a
    rw [shownAt, Option.map_map]
    rfl
  refine List.map_injective_iff.mpr (Option.some_injective Nat) ?_
  calc (menu.map Prod.snd).map some = (menu.map some).map (Option.map Prod.snd) := by simp
    _ = (addrs.map (shownAt heap)).map (Option.map Prod.snd) := by rw [hm]
    _ = addrs.map (keyAt heap) := by
      rw [List.map_map]
      exact List.map_congr_left fun a _ => hkey a
    _ = keys.map some := hk

/-- The highlighted item of the menu stands for the item at its place. -/
theorem Built.hilited (h : Built s addrs) {a : Nat} (ha : addrs[s.current]? = some a) :
    menuGetHilite s = some s.current ∧ hilitedTrack s = trackAt s.heap a := by
  obtain ⟨hlt, -⟩ := List.getElem?_eq_some_iff.mp ha
  have hkeys : s.menu.map Prod.snd = List.range addrs.length := menu_keys h.menu h.keys
  have hget : menuGetHilite s = some s.current := by
    rw [menuGetHilite, ← List.getElem?_map, hkeys, List.getElem?_range hlt]
  have hselect : selectKey s.heap s.current s.heap.length s.head = some a := by
    have hrange := h.keys
    rw [List.range_eq_range'] at hrange
    rw [selectKey_eq h.linked.leads hrange h.linked.length_le, placed_zero, ha]
  refine ⟨hget, ?_⟩
  unfold hilitedTrack
  rw [hget]
  simp only [Option.bind_eq_bind, Option.bind_some, hselect]
  rfl

/-- `playlist_randomize` loses nothing, and leaves a playlist as one is built. -/
theorem Built.randomize (rand : Nat → Nat) (h : Built s addrs) :
    ∃ s', playlistRandomize rand s = some s' ∧ NothingLost addrs s s' ∧ Built s' addrs := by
  cases addrs with
  | nil =>
    have hhead : s.head = none := h.linked.leads
    refine ⟨s, ?_, ⟨rfl, rfl, fun _ _ => rfl, .rfl, h.keys, fun hne => absurd rfl hne, rfl⟩, h⟩
    unfold playlistRandomize
    rw [hhead]
  | cons first l =>
    have hcur := h.current (List.cons_ne_nil first l)
    obtain ⟨b, hb⟩ : ∃ b, (first :: l)[s.current]? = some b := ⟨_, List.getElem?_eq_getElem hcur⟩
    obtain ⟨hget, htrack⟩ := h.hilited hb
    have hhead : s.head = some first := h.linked.leads.1
    have hlinked : Linked s.heap (some first) (first :: l) := hhead ▸ h.linked
    have hcount := countLoop_eq hlinked.leads hlinked.inside hlinked.length_le s.current none 0
    rw [placed_zero, hb, Nat.zero_add] at hcount
    obtain ⟨heap₁, hilite, σ, hswap, hm, hσ⟩ := swapLoop_moves rand (first :: l).length 0 b hlinked
      hlinked.leads fun _ ha => ha
    have hmem : hilite ∈ first :: l := by
      by_contra hout
      have hsame : hilite = b := (hm.fixed hilite hout).symm.trans hσ
      exact hout (hsame ▸ List.mem_of_getElem? hb)
    have hlinked₁ := hm.linked hlinked
    obtain ⟨heap₂, menu, hrenumber, hcontent, hothers, hkeys, hmenu⟩ := renumber_spec hilite 0 hlinked₁.leads
      hlinked₁.inside [] s.current
    rw [if_pos hmem, Nat.zero_add, List.nil_append] at hrenumber
    rw [← List.range_eq_range'] at hkeys
    have hplace : (first :: l).idxOf hilite < (first :: l).length := List.idxOf_lt_length_of_mem hmem
    have hcurrent : menuHiliteItem ((first :: l).idxOf hilite) menu 0 0 = (first :: l).idxOf hilite := by
      have hnumbers := menu_keys hmenu hkeys
      rw [List.range_eq_range'] at hnumbers
      exact menuHiliteItem_eq hnumbers (by omega) 0
    have htracks : ∀ a, trackAt heap₂ a = trackAt s.heap (σ a) := by
      intro a
      rw [← hm.tracks a]
      have hfst := congrArg (Option.map Prod.fst) (at_of_map hcontent a)
      rwa [Option.map_map, Option.map_map] at hfst
    let s' : Player := ⟨heap₂, some first, some hilite, menu, (first :: l).idxOf hilite⟩
    have hbuilt : Built s' (first :: l) := ⟨hlinked₁.of_links (content_links hcontent), hkeys, hmenu, fun _ => hplace⟩
    have hhilited : hilitedTrack s' = hilitedTrack s := by
      rw [(hbuilt.hilited (List.getElem?_idxOf hmem)).2, htrack, ← hσ]
      exact htracks hilite
    obtain ⟨n, hn⟩ := exists_node (hlinked.inside b (List.mem_of_getElem? hb))
    have hfound : hilitedTrack s = some n.track := htrack.trans (congrArg (Option.map Node.track) hn)
    have hlinks : heap₂.map Node.links = s.heap.map Node.links := (content_links hcontent).trans hm.links
    refine ⟨s', ?_, ⟨hhead.symm, hlinks, ?_, ?_, hkeys, fun _ => ⟨hilite, hmem, n.track, rfl, ?_, hfound⟩, hhilited⟩, hbuilt⟩
    · unfold playlistRandomize
      rw [hhead]
      simp only [hget, hcount, Option.bind_eq_bind, Option.bind_some, Option.or_none, hswap, hrenumber, hcurrent]
      rfl
    · exact fun a ha => (hothers a ha).trans (hm.others ha)
    · exact map_perm hlinked.leads.nodup hm.fixed htracks
    · rw [htracks, hσ, ← htrack]
      exact hfound

/-- Shuffling loses nothing of a playlist, whatever the random numbers are. -/
theorem playlistRandomize_nothing_lost (rand : Nat → Nat) (h : Built s addrs) :
    ∃ s', playlistRandomize rand s = some s' ∧ NothingLost addrs s s' := by
  obtain ⟨s', hrun, hlost, -⟩ := h.randomize rand
  exact ⟨s', hrun, hlost⟩

end Whole

/-- Two tracks, with the second one highlighted. -/
def twoTracks : Player where
  heap := nodesOf [⟨[97], none, [97], -1⟩, ⟨[98], none, [98], -1⟩]
  head := some 0
  playlist := some 0
  menu := [([97], 0), ([98], 1)]
  current := 1

theorem twoTracks_nothing_lost : ∃ s', playlistRandomize (fun i => 1 - i) twoTracks = some s' ∧
    NothingLost [0, 1] twoTracks s' :=
  playlistRandomize_nothing_lost (fun i => 1 - i) ⟨⟨by decide, by decide⟩, by decide, by decide, fun _ => by decide⟩

example : (playlistRandomize (fun i => 1 - i) twoTracks).map (fun s => (s.playlist, s.menu)) =
    some (some 0, [([98], 0), ([97], 1)]) := by decide

end Mvpmc.Playlist
