import Mvpmc.Lib.Sweep
import Mvpmc.Widget.MenuMoves

/-! The items of a menu over a run of calls and keys: when they are those added and not deleted. -/
namespace Mvpmc.Widget
open Mvpmc.Lib

/-- An item in the array is the one that was added. Without attributes nothing is said of them. -/
def Stores (y : MenuItem) (x : Added) : Prop :=
  y.label = x.label ∧ y.key = x.key ∧ ∀ a ∈ x.attr, y.select = a.select ∧ y.selectable = a.selectable

namespace Op

/-- The items there should be. -/
def after (items : List Added) : Op → List Added
  | .add x => items ++ [x]
  | .delete key => items.filter fun x => !(x.key == key)
  | .press _ => items

/-- What the call should return. -/
def returns (items : List Added) : Op → Nat
  | .delete key => items.countP fun x => x.key == key
  | _ => 0

end Op

/-- A call or key leaves the items that it should, the highlight on one of them, and returns what it should. -/
structure Kept (items : List Added) (op : Op) (r : Outcome) : Prop where
  stored : List.Forall₂ Stores r.menu.stored (op.after items)
  fits : r.menu.nitems ≤ r.menu.items.length
  current : 0 < r.menu.nitems → 0 ≤ r.menu.current ∧ r.menu.current < r.menu.nitems
  rc : r.rc = op.returns items

/-- Every call of a run returns, with all its accesses inside the array, and keeps the items. -/
def RunKept : List Added → Menu → List Op → Prop
  | _, _, [] => True
  | items, s, op :: ops => ∃ fuel r, s.exec fuel op = some r ∧ Kept items op r ∧ RunKept (op.after items) r.menu ops

namespace Menu
variable (s : Menu)

/-- The search of a key finds something, and the callback that it calls is there. -/
def Answers : Key → Prop
  | .up | .down => s.CanSelect
  | .blue => ∀ x ∈ s.stored.head?, x.label = parentLabel → x.select ≠ none
  | _ => True

/-- No two items next to each other are deleted, an array with one to delete is not full, and one is left. -/
structure Deletes (key : Nat) : Prop where
  apart : Apart (fun x => x.key == key) s.stored
  room : (∃ x ∈ s.stored, x.key = key) → s.nitems < s.items.length
  left : ∃ x ∈ s.stored, x.key ≠ key

/-- The condition on a call or key, in the state before it. -/
def Allowed : Op → Prop
  | .add _ => True
  | .delete key => s.Deletes key
  | .press c => s.nitems = 0 ∨ s.Answers c

end Menu

/-- Every call of a run is allowed where it is made. -/
def RunAllowed : Menu → List Op → Prop
  | _, [] => True
  | s, op :: ops => s.Allowed op ∧ ∀ fuel r, s.exec fuel op = some r → RunAllowed r.menu ops

/-- The widget of an item does not matter. -/
theorem forall₂_bare_iff {ys : List MenuItem} {items : List Added} :
    List.Forall₂ Stores (ys.map MenuItem.bare) items ↔ List.Forall₂ Stores ys items :=
  List.forall₂_map_left_iff

theorem forall₂_of_bare {ys zs : List MenuItem} {items : List Added} (h : zs.map MenuItem.bare = ys.map MenuItem.bare)
    (hys : List.Forall₂ Stores ys items) : List.Forall₂ Stores zs items := by
  rw [← forall₂_bare_iff, h, forall₂_bare_iff]
  exact hys

theorem Stores.key_eq {y : MenuItem} {x : Added} (h : Stores y x) : y.key = x.key := h.2.1

theorem forall_key_ne {ys : List MenuItem} {items : List Added} {k : Nat} (h : List.Forall₂ Stores ys items)
    (hitems : ∀ x ∈ items, x.key ≠ k) : ∀ y ∈ ys, y.key ≠ k := by
  induction h with
  | nil => exact fun _ hy => absurd hy List.not_mem_nil
  | cons hyx _ ih =>
    obtain ⟨hx, hrest⟩ := List.forall_mem_cons.mp hitems
    exact List.forall_mem_cons.mpr ⟨hyx.key_eq ▸ hx, ih hrest⟩

namespace Menu
variable {s : Menu}

/-- With more fuel a call does the same. -/
theorem exec_mono {f f' : Nat} (hle : f ≤ f') {op : Op} {r : Outcome} (h : s.exec f op = some r) :
    s.exec f' op = some r := by
  cases op with
  | add x => exact h
  | delete key => exact h
  | press c =>
    simp only [exec, key] at h ⊢
    by_cases hn : s.nitems = 0
    · rwa [if_pos hn] at h ⊢
    rw [if_neg hn] at h ⊢
    cases c with
    | up =>
      obtain ⟨t, ht, rfl⟩ := Option.map_eq_some_iff.mp h
      obtain ⟨i, hi, hmove⟩ := Option.bind_eq_some_iff.mp ht
      exact Option.map_eq_some_iff.mpr ⟨t, Option.bind_eq_some_iff.mpr ⟨i, seek_mono hle hi, hmove⟩, rfl⟩
    | down =>
      obtain ⟨t, ht, rfl⟩ := Option.map_eq_some_iff.mp h
      obtain ⟨i, hi, hmove⟩ := Option.bind_eq_some_iff.mp ht
      exact Option.map_eq_some_iff.mpr ⟨t, Option.bind_eq_some_iff.mpr ⟨i, seek_mono hle hi, hmove⟩, rfl⟩
    | _ => exact h

theorem exec_inj {f f' : Nat} {op : Op} {r r' : Outcome} (h : s.exec f op = some r) (h' : s.exec f' op = some r') :
    r = r' :=
  Option.some.inj ((exec_mono (le_max_left f f') h).symm.trans (exec_mono (le_max_right f f') h'))

/-- A key that the condition allows returns, and leaves the items. -/
theorem key_keeps (hs : s.Sound) {c : Key} (h : s.nitems = 0 ∨ s.Answers c) :
    ∃ f r, s.key f c = some r ∧ r.rc = 0 ∧ r.menu.Sound ∧ r.menu.stored.map MenuItem.bare = s.stored.map MenuItem.bare := by
  have hbelow := hs.below
  have hfits := hs.fits
  by_cases hempty : s.nitems = 0
  · exact ⟨0, { menu := s }, by simp only [key, if_pos hempty], rfl, hs, rfl⟩
  have hn : 0 < s.nitems := by omega
  have hanswers := h.resolve_left hempty
  simp only [key, if_neg hempty]
  cases c with
  | chanUp | red =>
    obtain ⟨t, ht, hkeeps⟩ := chanUp_keeps hs hn
    exact ⟨0, { menu := t }, by rw [ht]; rfl, rfl, hkeeps⟩
  | chanDown | yellow =>
    obtain ⟨t, ht, hkeeps⟩ := chanDown_keeps hs hn
    exact ⟨0, { menu := t }, by rw [ht]; rfl, rfl, hkeeps⟩
  | up =>
    obtain ⟨f, t, ht, hkeeps⟩ := up_keeps hs hanswers
    exact ⟨f, { menu := t }, by rw [ht]; rfl, rfl, hkeeps⟩
  | down =>
    obtain ⟨f, t, ht, hkeeps⟩ := down_keeps hs hanswers
    exact ⟨f, { menu := t }, by rw [ht]; rfl, rfl, hkeeps⟩
  | blue =>
    obtain ⟨x, hx⟩ := item_of_lt (s := s) (le_refl 0) (by omega)
    by_cases hlabel : x.label = parentLabel
    · obtain ⟨select, hselect⟩ := Option.ne_none_iff_exists'.mp (hanswers x (by rw [head?_stored hn, hx]; rfl) hlabel)
      refine ⟨0, { menu := s, called := some (select, x.label, x.key) }, ?_, rfl, hs, rfl⟩
      simp only [blue, hx, Option.bind_eq_bind, Option.bind_some, if_pos hlabel, hselect]
      rfl
    · refine ⟨0, { menu := s }, ?_, rfl, hs, rfl⟩
      simp only [blue, hx, Option.bind_eq_bind, Option.bind_some, if_neg hlabel]
      rfl
  | ok =>
    obtain ⟨x, hx⟩ := item_of_lt (s := s) hs.nonneg (by omega)
    refine ⟨0, { menu := s, called := if x.selectable then x.select.map fun f => (f, x.label, x.key) else none }, ?_,
      rfl, hs, rfl⟩
    rw [ok, if_pos (by omega), hx]
    rfl
  | other => exact ⟨0, { menu := s }, rfl, rfl, hs, rfl⟩

/-- A key that returns was allowed. -/
theorem answers_of_key (hs : s.Sound) {c : Key} {f : Nat} {r : Outcome} (h : s.key f c = some r) :
    s.nitems = 0 ∨ s.Answers c := by
  have hbelow := hs.below
  have hnonneg := hs.nonneg
  by_cases hempty : s.nitems = 0
  · exact .inl hempty
  have hfound {j : Int} (hj : 0 ≤ j ∧ j < s.nitems ∧ ∃ x, s.item j = some x ∧ x.selectable = true) : s.CanSelect := by
    obtain ⟨h0, hlt, x, hx, hsel⟩ := hj
    exact ⟨x, mem_stored_iff.mpr ⟨j.toNat, by omega, by rwa [Int.toNat_of_nonneg h0]⟩, hsel⟩
  refine .inr ?_
  simp only [key, if_neg hempty] at h
  cases c with
  | up =>
    obtain ⟨t, ht, -⟩ := Option.map_eq_some_iff.mp h
    obtain ⟨i, hi, -⟩ := Option.bind_eq_some_iff.mp ht
    exact hfound (seekUp_inside (by omega) hi)
  | down =>
    obtain ⟨t, ht, -⟩ := Option.map_eq_some_iff.mp h
    obtain ⟨i, hi, -⟩ := Option.bind_eq_some_iff.mp ht
    exact hfound (seekDown_inside (by omega) hi)
  | blue =>
    intro x hx hlabel hselect
    rw [head?_stored (by omega), Option.mem_def] at hx
    simp [blue, hx, hlabel, hselect] at h
  | chanUp | red | chanDown | yellow | ok | other => trivial

theorem stored_grow (hs : s.Sound) : s.grow.stored = s.stored := by
  rw [grow]
  split_ifs with hfull
  · rw [stored, stored, List.take_append_of_le_length hs.fits]
  · rfl

theorem stores_fill {y : MenuItem} {x : Added} {w : Option Nat} : Stores (y.fill x.label x.key x.attr w) x := by
  cases hattr : x.attr with
  | none => exact ⟨rfl, rfl, by rw [hattr]; exact nofun⟩
  | some a =>
    refine ⟨rfl, rfl, fun b hb => ?_⟩
    rw [hattr] at hb
    obtain rfl := Option.some.inj hb
    exact ⟨rfl, rfl⟩

/-- There is room for one more item, and then a text widget for it or for one before it. -/
theorem rowWidget_spec (hs : s.Sound) :
    ∃ w u, s.grow.measure.rowWidget = (w, u) ∧ u.stored = s.stored ∧ u.nitems = s.nitems ∧ u.nitems < u.items.length ∧
      u.current = s.current ∧ 0 ≤ u.rows ∧ 1 ≤ u.fit ∧ 0 < u.widgets := by
  have hfits := hs.fits
  have hrows := hs.rows
  have hfit := hs.fit
  have hshown := hs.shown
  have hgrown : s.grow.nitems = s.nitems ∧ s.grow.nitems < s.grow.items.length ∧ s.grow.current = s.current ∧
      s.grow.rows = s.rows ∧ s.grow.fit = s.fit ∧ s.grow.widgets = s.widgets := by
    rw [grow]
    split_ifs with hfull
    · exact ⟨rfl, by simp only [List.length_append, List.length_replicate]; omega, rfl, rfl, rfl, rfl⟩
    · exact ⟨rfl, by omega, rfl, rfl, rfl, rfl⟩
  obtain ⟨hn, hroom, hcurrent, hr, hf, hw⟩ := hgrown
  have hmeasured : s.grow.measure = { s.grow with rows := s.grow.measure.rows } ∧ 1 ≤ s.grow.measure.rows := by
    rw [measure]
    split_ifs with hzero
    · exact ⟨rfl, by dsimp only; omega⟩
    · exact ⟨rfl, by omega⟩
  obtain ⟨heq, hone⟩ := hmeasured
  have hstored := stored_grow hs
  generalize s.grow.measure.rows = rows at heq hone
  rw [heq, rowWidget]
  dsimp only
  split_ifs with hout hhas
  · exact ⟨_, _, rfl, hstored, hn, hroom, hcurrent, by dsimp only; omega, by dsimp only; omega, by dsimp only; omega⟩
  · exact ⟨_, _, rfl, hstored, hn, hroom, hcurrent, by dsimp only; omega, by dsimp only; omega, by dsimp only; omega⟩
  · exact ⟨_, _, rfl, hstored, hn, hroom, hcurrent, by dsimp only; omega, by dsimp only; omega, Nat.succ_pos _⟩

theorem addMenuItem_keeps (hs : s.Sound) (x : Added) :
    ∃ r y, s.addMenuItem x.label x.key x.attr = some r ∧ r.rc = 0 ∧ r.menu.Sound ∧ Stores y x ∧
      r.menu.stored = s.stored ++ [y] := by
  obtain ⟨w, u, hu, hstored, hn, hroom, hcurrent, hrows, hfit, hwidgets⟩ := rowWidget_spec hs
  obtain ⟨old, hold⟩ := item_of_lt (s := u) (Int.natCast_nonneg u.nitems) (by omega)
  have hbelow := hs.below
  have hnonneg := hs.nonneg
  have hlen := length_stored hs.fits
  simp only [addMenuItem, hu, hold, Option.bind_eq_bind, Option.bind_some]
  refine ⟨_, old.fill x.label x.key x.attr w, rfl, rfl, ⟨?_, ?_, ?_, hrows, hfit, fun _ => hwidgets⟩, stores_fill, ?_⟩
  · simp only [List.length_set]
    omega
  · simp only [hcurrent]
    exact hnonneg
  · simp only [hcurrent]
    omega
  · rw [← hstored, stored, stored, List.take_add_one, List.take_set_of_le (le_refl _)]
    simp [hroom]

theorem shiftWidgets_spec (i n : Nat) (h : i + n < s.items.length) : ∃ t, shiftWidgets i n s = some t ∧ t.bare = s.bare := by
  induction n generalizing s with
  | zero => exact ⟨s, rfl, rfl⟩
  | succ n ih =>
    obtain ⟨x, hx⟩ := item_of_lt (s := s) (Int.natCast_nonneg (i + n)) (by omega)
    obtain ⟨u, hu, hbareu⟩ := setWidget_spec (s := s) (i := i + n + 1) (by omega) x.widget
    obtain ⟨t, ht, hbare⟩ := ih (s := u) (by rw [length_of_bare hbareu]; omega)
    refine ⟨t, ?_, hbare.trans hbareu⟩
    simp only [shiftWidgets, hx, hu, Option.bind_eq_bind, Option.bind_some, ht]

section
variable {i : Nat} (hfits : s.nitems ≤ s.items.length) (hi : i < s.nitems)
include hfits hi

theorem length_moveDown : (s.moveDown i).items.length = s.items.length := by
  simp only [moveDown, List.length_append, List.length_take, List.length_drop]
  omega

theorem stored_moveDown : (s.moveDown i).stored = s.stored.eraseIdx i := by
  have hfront : (s.items.take i ++ (s.items.drop (i + 1)).take (s.nitems - 1 - i)).length = s.nitems - 1 := by
    simp only [List.length_append, List.length_take, List.length_drop]
    omega
  rw [stored, moveDown]
  dsimp only
  rw [List.take_append_of_le_length (le_of_eq hfront.symm), List.take_of_length_le (le_of_eq hfront), stored,
    List.eraseIdx_eq_take_drop_succ, List.take_take, min_eq_left hi.le, List.drop_take]
  congr 2
  omega

end

/-- Of a full array the item behind the last one is outside. -/
theorem remove_of_full {i : Nat} (hi : i < s.nitems) (hfull : s.nitems = s.items.length) : s.remove i = none := by
  obtain ⟨u, hu, hbare⟩ := shiftWidgets_spec (s := s) i (s.nitems - 1 - i) (by omega)
  have hn := nitems_of_bare hbare
  have hlen := length_of_bare hbare
  have hout : (u.moveDown i).item ((u.moveDown i).nitems + 1 : Nat) = none := by
    rw [item_natCast, List.getElem?_eq_none]
    rw [length_moveDown (by omega) (by omega), moveDown]
    dsimp only
    omega
  simp only [remove, hu, hout, Option.bind_eq_bind, Option.bind_some, Option.bind_none]

/-- What the removal of items leaves alone. -/
def frame (s : Menu) : Menu := { s with items := List.replicate s.items.length {}, nitems := 0 }

theorem length_of_frame {t : Menu} (h : t.frame = s.frame) : t.items.length = s.items.length := by
  simpa [frame] using congrArg (fun u : Menu => u.items.length) h

/-- An item is taken out of an array that is not full. -/
theorem remove_spec {front rest : List MenuItem} {x : MenuItem} (hroom : s.nitems < s.items.length)
    (hstored : s.stored.map MenuItem.bare = front ++ x :: rest) :
    ∃ t, s.remove front.length = some t ∧ t.stored.map MenuItem.bare = front ++ rest ∧ t.nitems + 1 = s.nitems ∧
      t.frame = s.frame := by
  have hlen : s.nitems = front.length + (rest.length + 1) := by
    rw [← length_stored hroom.le, ← List.length_map (f := MenuItem.bare), hstored, List.length_append, List.length_cons]
  obtain ⟨u, hu, hbare⟩ := shiftWidgets_spec (s := s) front.length (s.nitems - 1 - front.length) (by omega)
  have hn := nitems_of_bare hbare
  have hitems := length_of_bare hbare
  have hmoved := length_moveDown (s := u) (i := front.length) (by omega) (by omega)
  obtain ⟨y, hy⟩ := item_of_lt (s := u.moveDown front.length)
    (Int.natCast_nonneg ((u.moveDown front.length).nitems + 1)) (by rw [hmoved, moveDown]; dsimp only; omega)
  refine ⟨u.moveDown front.length, ?_, ?_, ?_, ?_⟩
  · simp only [remove, hu, hy, Option.bind_eq_bind, Option.bind_some]
    rfl
  · rw [stored_moveDown (by omega) (by omega), ← List.eraseIdx_map, stored_of_bare hbare, hstored,
      List.eraseIdx_append_of_length_le (le_refl _), Nat.sub_self, List.eraseIdx_cons_zero]
  · rw [moveDown]
    dsimp only
    omega
  · have hframe : u.frame = s.frame := by
      rw [frame, frame, hitems]
      exact congrArg (fun v : Menu => { v with items := List.replicate s.items.length {}, nitems := 0 }) hbare
    rw [← hframe, frame, frame, hmoved, moveDown]

section
variable {k : Nat}

theorem item_of_stored {front rest : List MenuItem} {x : MenuItem} (hstored : s.stored.map MenuItem.bare = front ++ x :: rest) :
    front.length < s.nitems ∧ ∃ y, s.item front.length = some y ∧ y.key = x.key := by
  have hget : (s.stored.map MenuItem.bare)[front.length]? = some x := by
    rw [hstored, List.getElem?_append_right (le_refl _), Nat.sub_self, List.getElem?_cons_zero]
  rw [List.getElem?_map, stored, List.getElem?_take] at hget
  split_ifs at hget with hlt
  · obtain ⟨y, hy, rfl⟩ := Option.map_eq_some_iff.mp hget
    exact ⟨hlt, y, by rw [item_natCast, hy], rfl⟩
  · simp at hget

theorem deleteFrom_of_le {fuel i count : Nat} (h : s.nitems ≤ i) : deleteFrom k fuel i count s = some (count, s) := by
  cases fuel with
  | zero => rfl
  | succ fuel => rw [deleteFrom, if_pos h]

/-- One pass of the loop. -/
theorem deleteFrom_step {front rest : List MenuItem} {x : MenuItem} (fuel count : Nat)
    (hstored : s.stored.map MenuItem.bare = front ++ x :: rest) (hroom : x.key = k → s.nitems < s.items.length) :
    ∃ c t, deleteFrom k (fuel + 1) front.length count s = deleteFrom k fuel (front.length + 1) c t ∧
      t.stored.map MenuItem.bare = (if (x.key == k) = true then front ++ rest else front ++ x :: rest) ∧
      c + t.nitems = count + s.nitems ∧ t.nitems ≤ s.nitems ∧ t.frame = s.frame := by
  obtain ⟨hlt, y, hy, hkey⟩ := item_of_stored hstored
  by_cases hx : x.key = k
  · obtain ⟨t, ht, hbare, hn, hframe⟩ := remove_spec (hroom hx) hstored
    refine ⟨count + 1, t, ?_, by rw [if_pos (beq_iff_eq.mpr hx), hbare], by omega, by omega, hframe⟩
    simp only [deleteFrom, if_neg (not_le.mpr hlt), hy, if_pos (hkey.trans hx), ht, Option.bind_eq_bind, Option.bind_some]
  · refine ⟨count, s, ?_, by rw [if_neg (mt beq_iff_eq.mp hx), hstored], rfl, le_refl _, rfl⟩
    simp only [deleteFrom, if_neg (not_le.mpr hlt), hy, if_neg (fun h => hx (hkey.symm.trans h)), Option.bind_eq_bind,
      Option.bind_some]

theorem nitems_of_stored {front rest : List MenuItem} (hfits : s.nitems ≤ s.items.length)
    (hstored : s.stored.map MenuItem.bare = front ++ rest) : s.nitems = front.length + rest.length := by
  rw [← length_stored hfits, ← List.length_map (f := MenuItem.bare), hstored, List.length_append]

/-- The loop sweeps the items, and counts those that are gone. -/
theorem deleteFrom_spec (front rest : List MenuItem) (fuel count : Nat) (hfits : s.nitems ≤ s.items.length)
    (hstored : s.stored.map MenuItem.bare = front ++ rest) (hfuel : rest.length ≤ fuel)
    (hroom : (∃ x ∈ rest, x.key = k) → s.nitems < s.items.length) :
    ∃ c t, deleteFrom k fuel front.length count s = some (c, t) ∧
      t.stored.map MenuItem.bare = front ++ sweep (fun x => x.key == k) rest ∧ c + t.nitems = count + s.nitems ∧
      t.nitems ≤ s.nitems ∧ t.frame = s.frame := by
  induction rest using sweep.induct (fun x : MenuItem => x.key == k) generalizing front fuel count s with
  | case1 =>
    have hn := nitems_of_stored hfits hstored
    exact ⟨count, s, deleteFrom_of_le (by simpa using hn.le), hstored, rfl, le_refl _, rfl⟩
  | case2 x hx | case3 x hx =>
    obtain ⟨fuel, rfl⟩ : ∃ k, fuel = k + 1 := ⟨fuel - 1, by simp at hfuel; omega⟩
    obtain ⟨c, t, hpass, hbare, hcount, hle, hframe⟩ :=
      deleteFrom_step fuel count hstored fun hkey => hroom ⟨x, List.mem_singleton_self x, hkey⟩
    have hn := nitems_of_stored hfits hstored
    rw [List.length_singleton] at hn
    refine ⟨c, t, by rw [hpass, deleteFrom_of_le (by omega)], ?_, hcount, hle, hframe⟩
    rw [hbare, sweep]
    split_ifs
    rfl
  | case4 x y xs hx ih =>
    obtain ⟨fuel, rfl⟩ : ∃ k, fuel = k + 1 := ⟨fuel - 1, by simp at hfuel; omega⟩
    obtain ⟨c, u, hpass, hbare, hcount, hle, hframe⟩ :=
      deleteFrom_step fuel count hstored fun hkey => hroom ⟨x, List.mem_cons_self, hkey⟩
    rw [if_pos hx] at hbare
    have hlen := length_of_frame hframe
    obtain ⟨c', t, ht, hswept, hcount', hle', hframe'⟩ := ih (front ++ [y]) (s := u) fuel c
      (by have := nitems_of_stored hfits hstored; omega) (by rw [hbare, List.append_assoc, List.singleton_append])
      (by simp at hfuel; omega) fun _ => by
        have := hroom ⟨x, List.mem_cons_self, beq_iff_eq.mp hx⟩
        omega
    refine ⟨c', t, ?_, ?_, by omega, by omega, hframe'.trans hframe⟩
    · rw [hpass, ← ht, List.length_append, List.length_singleton]
    · rw [hswept, sweep, if_pos hx, List.append_assoc, List.singleton_append]
  | case5 x y xs hx ih =>
    obtain ⟨fuel, rfl⟩ : ∃ k, fuel = k + 1 := ⟨fuel - 1, by simp at hfuel; omega⟩
    obtain ⟨c, u, hpass, hbare, hcount, hle, hframe⟩ :=
      deleteFrom_step fuel count hstored fun hkey => hroom ⟨x, List.mem_cons_self, hkey⟩
    rw [if_neg hx] at hbare
    have hlen := length_of_frame hframe
    obtain ⟨c', t, ht, hswept, hcount', hle', hframe'⟩ := ih (front ++ [x]) (s := u) fuel c
      (by omega) (by rw [hbare, List.append_assoc, List.singleton_append]) (by simp at hfuel ⊢; omega) fun hkey => by
        obtain ⟨z, hz, hkey⟩ := hkey
        have := hroom ⟨z, List.mem_cons_of_mem _ hz, hkey⟩
        omega
    refine ⟨c', t, ?_, ?_, by omega, by omega, hframe'.trans hframe⟩
    · rw [hpass, ← ht, List.length_append, List.length_singleton]
    · rw [hswept, sweep, if_neg hx, List.append_assoc, List.singleton_append]

/-- An item to delete in a full array leads outside. -/
theorem deleteFrom_of_full (front rest : List MenuItem) (fuel count : Nat) (hfull : s.nitems = s.items.length)
    (hstored : s.stored.map MenuItem.bare = front ++ rest) (hfuel : rest.length ≤ fuel) (hkey : ∃ x ∈ rest, x.key = k) :
    deleteFrom k fuel front.length count s = none := by
  induction rest generalizing front fuel count with
  | nil => simp at hkey
  | cons x rest ih =>
    obtain ⟨fuel, rfl⟩ : ∃ k, fuel = k + 1 := ⟨fuel - 1, by simp at hfuel; omega⟩
    obtain ⟨hlt, y, hy, hykey⟩ := item_of_stored hstored
    by_cases hx : x.key = k
    · simp only [deleteFrom, if_neg (not_le.mpr hlt), hy, if_pos (hykey.trans hx), remove_of_full hlt hfull,
        Option.bind_eq_bind, Option.bind_some, Option.bind_none]
    · have hrest := ih (front ++ [x]) fuel count (by rw [hstored, List.append_assoc, List.singleton_append])
        (by simpa using hfuel) (by simpa [hx] using hkey)
      rw [List.length_append, List.length_singleton] at hrest
      simp only [deleteFrom, if_neg (not_le.mpr hlt), hy, if_neg (fun h => hx (hykey.symm.trans h)), hrest,
        Option.bind_eq_bind, Option.bind_some]

theorem clampCurrent_sound {t : Menu} (hs : s.Sound) (hframe : t.frame = s.frame) (hle : t.nitems ≤ s.nitems)
    (hpos : 0 < t.nitems) : t.clampCurrent.Sound ∧ t.clampCurrent.stored = t.stored := by
  have hlen := length_of_frame hframe
  have hfits := hs.fits
  have hnonneg := hs.nonneg
  have hcurrent : t.current = s.current := show t.frame.current = s.frame.current from congrArg Menu.current hframe
  have hrows : t.rows = s.rows := show t.frame.rows = s.frame.rows from congrArg Menu.rows hframe
  have hfit : t.fit = s.fit := show t.frame.fit = s.frame.fit from congrArg Menu.fit hframe
  have hwidgets : t.widgets = s.widgets := show t.frame.widgets = s.frame.widgets from congrArg Menu.widgets hframe
  have hshown : 0 < t.nitems → 0 < t.widgets := fun _ => hwidgets ▸ hs.shown (by omega)
  have hbounds : 0 ≤ t.rows ∧ 1 ≤ t.fit := ⟨hrows ▸ hs.rows, hfit ▸ hs.fit⟩
  rw [clampCurrent]
  split_ifs with hbehind
  · exact ⟨⟨by dsimp only; omega, by dsimp only; omega, by dsimp only; omega, hbounds.1, hbounds.2, hshown⟩, rfl⟩
  · exact ⟨⟨by omega, by omega, by omega, hbounds.1, hbounds.2, hshown⟩, rfl⟩

/-- Behind the loop the highlight goes to an item in use, unless there is none. -/
theorem deleteMenuItem_cases (hs : s.Sound) (hroom : (∃ x ∈ s.stored, x.key = k) → s.nitems < s.items.length) :
    ∃ (c : Nat) (t : Menu), t.stored.map MenuItem.bare = sweep (fun x => x.key == k) (s.stored.map MenuItem.bare) ∧
      c + t.nitems = s.nitems ∧ t.nitems ≤ t.items.length ∧ (t.nitems = 0 → s.deleteMenuItem k = none) ∧
      (0 < t.nitems → ∃ r, s.deleteMenuItem k = some r ∧ r.rc = c ∧ r.menu.Sound ∧
        r.menu.stored.map MenuItem.bare = t.stored.map MenuItem.bare) := by
  obtain ⟨c, t, ht, hswept, hcount, hle, hframe⟩ := deleteFrom_spec (k := k) [] (s.stored.map MenuItem.bare)
    s.nitems 0 hs.fits rfl (by rw [List.length_map, length_stored hs.fits]) fun ⟨x, hx, hkey⟩ => by
      obtain ⟨y, hy, rfl⟩ := List.mem_map.mp hx
      exact hroom ⟨y, hy, hkey⟩
  have hlen := length_of_frame hframe
  have hfits := hs.fits
  rw [List.length_nil] at ht
  refine ⟨c, t, hswept, by omega, by omega, fun hzero => ?_, fun hpos => ?_⟩
  · have hcurrent : t.current = s.current := show t.frame.current = s.frame.current from congrArg Menu.current hframe
    have hclamped : t.clampCurrent = { t with current := -1 } := by
      rw [clampCurrent, if_pos (by rw [hzero, hcurrent]; exact hs.nonneg), hzero]
      rfl
    have hitem : { t with current := -1 }.item (-1) = none := if_pos (by decide)
    simp only [deleteMenuItem, ht, hclamped, hiliteItem, hitem, Option.bind_eq_bind, Option.bind_some, Option.bind_none]
  · obtain ⟨hsound, hstored⟩ := clampCurrent_sound hs hframe hle hpos
    have hbelow := hsound.below
    have hn : t.clampCurrent.nitems = t.nitems := by
      rw [clampCurrent]
      split_ifs
      · rfl
      · rfl
    obtain ⟨v, hv, hbare⟩ := hiliteItem_spec hsound hsound.nonneg (by omega) true
    refine ⟨{ menu := v, rc := c }, ?_, rfl, hsound.of_bare hbare, by rw [stored_of_bare hbare, hstored]⟩
    simp only [deleteMenuItem, ht, hv, Option.bind_eq_bind, Option.bind_some]
    rfl

/-- A call that the condition allows deletes the items with the key, and returns their number. -/
theorem deleteMenuItem_keeps (hs : s.Sound) (hd : s.Deletes k) :
    ∃ r, s.deleteMenuItem k = some r ∧ r.menu.Sound ∧
      r.menu.stored.map MenuItem.bare = (s.stored.map MenuItem.bare).filter (fun x => !(x.key == k)) ∧
      r.rc = s.stored.countP fun x => x.key == k := by
  obtain ⟨c, t, hswept, hcount, hfits, -, hreturns⟩ := deleteMenuItem_cases hs hd.room
  have hapart : Apart (fun x : MenuItem => x.key == k) (s.stored.map MenuItem.bare) :=
    (List.isChain_map _).mpr hd.apart
  rw [sweep_eq_filter hapart] at hswept
  have hlen : t.nitems = s.stored.countP fun x => !(x.key == k) := by
    rw [← length_stored hfits, ← List.length_map (f := MenuItem.bare), hswept, ← List.countP_eq_length_filter,
      List.countP_map]
    rfl
  have hpos : 0 < t.nitems := by
    obtain ⟨x, hx, hkey⟩ := hd.left
    rw [hlen, List.countP_pos_iff]
    exact ⟨x, hx, by simpa using hkey⟩
  obtain ⟨r, hr, hrc, hsound, hstored⟩ := hreturns hpos
  refine ⟨r, hr, hsound, hstored.trans hswept, ?_⟩
  have hsplit := List.length_eq_countP_add_countP (fun x : MenuItem => x.key == k) (l := s.stored)
  rw [length_stored hs.fits] at hsplit
  simp only [Bool.not_eq_true, Bool.decide_eq_false] at hsplit
  omega

/-- A call that deletes the items with the key was allowed. -/
theorem deletes_of_kept (hs : s.Sound) {r : Outcome} (h : s.deleteMenuItem k = some r)
    (hgone : ∀ x ∈ r.menu.stored, x.key ≠ k) : s.Deletes k := by
  have hroom : (∃ x ∈ s.stored, x.key = k) → s.nitems < s.items.length := by
    intro hkey
    by_contra hfull
    have hfits := hs.fits
    have hnone := deleteFrom_of_full (k := k) [] (s.stored.map MenuItem.bare) s.nitems 0 (by omega) rfl
      (by rw [List.length_map, length_stored hs.fits]) (by
        obtain ⟨x, hx, hkey⟩ := hkey
        exact ⟨x.bare, List.mem_map_of_mem hx, hkey⟩)
    rw [List.length_nil] at hnone
    simp [deleteMenuItem, hnone] at h
  obtain ⟨c, t, hswept, hcount, hfits, hempty, hreturns⟩ := deleteMenuItem_cases hs hroom
  have hpos : 0 < t.nitems := by
    by_contra hzero
    rw [hempty (by omega)] at h
    exact absurd h nofun
  obtain ⟨r', hr', -, -, hstored⟩ := hreturns hpos
  obtain rfl := Option.some.inj (hr'.symm.trans h)
  rw [hswept] at hstored
  have hleft : ∀ x ∈ sweep (fun x => x.key == k) (s.stored.map MenuItem.bare), (x.key == k) = false := by
    intro x hx
    rw [← hstored] at hx
    obtain ⟨y, hy, rfl⟩ := List.mem_map.mp hx
    exact beq_false_of_ne (hgone y hy)
  have hapart := apart_of_sweep hleft
  refine ⟨(List.isChain_map _).mp hapart, hroom, ?_⟩
  rw [sweep_eq_filter hapart] at hswept
  have hnonempty : t.stored.map MenuItem.bare ≠ [] := by
    rw [← List.length_pos_iff, List.length_map, length_stored hfits]
    exact hpos
  obtain ⟨x, hx⟩ := List.exists_mem_of_ne_nil _ hnonempty
  rw [hswept, List.mem_filter] at hx
  obtain ⟨y, hy, rfl⟩ := List.mem_map.mp hx.1
  have hkey : y.bare.key ≠ k := by simpa using hx.2
  exact ⟨y, hy, hkey⟩

end

/-- A menu that nothing has been added to. -/
def create (fit : Int) : Menu := { fit := fit }

theorem create_sound {fit : Int} (hfit : 1 ≤ fit) : (create fit).Sound :=
  ⟨le_refl 0, le_refl 0, le_refl 0, le_refl 0, hfit, nofun⟩

/-- One call keeps the items as the condition says. -/
theorem exec_keeps (hs : s.Sound) {items : List Added} (hitems : List.Forall₂ Stores s.stored items) {op : Op}
    (h : s.Allowed op) : ∃ f r, s.exec f op = some r ∧ Kept items op r ∧ r.menu.Sound := by
  have hkept {r : Outcome} (hsound : r.menu.Sound) (hstored : List.Forall₂ Stores r.menu.stored (op.after items))
      (hrc : r.rc = op.returns items) : Kept items op r :=
    ⟨hstored, hsound.fits, fun _ => ⟨hsound.nonneg, by have := hsound.below; omega⟩, hrc⟩
  cases op with
  | add x =>
    obtain ⟨r, y, hr, hrc, hsound, hstores, hstored⟩ := addMenuItem_keeps hs x
    refine ⟨0, r, hr, hkept hsound ?_ hrc, hsound⟩
    rw [hstored]
    exact List.rel_append hitems (.cons hstores .nil)
  | delete key =>
    obtain ⟨r, hr, hsound, hstored, hrc⟩ := deleteMenuItem_keeps hs h
    refine ⟨0, r, hr, hkept hsound ?_ ?_, hsound⟩
    · rw [← forall₂_bare_iff, hstored]
      exact List.rel_filter (fun y x hyx => by simp [hyx.key_eq]) (forall₂_bare_iff.mpr hitems)
    · have hgone := List.rel_filter (p := fun y => y.key == key) (q := fun x => x.key == key)
        (fun y x hyx => by simp [hyx.key_eq]) hitems
      rw [hrc, List.countP_eq_length_filter, hgone.length_eq, ← List.countP_eq_length_filter]
      rfl
  | press c =>
    obtain ⟨f, r, hr, hrc, hsound, hstored⟩ := key_keeps hs h
    exact ⟨f, r, hr, hkept hsound (forall₂_of_bare hstored hitems) hrc, hsound⟩

/-- A call that keeps the items was allowed. -/
theorem allowed_of_kept (hs : s.Sound) {items : List Added} {op : Op} {f : Nat} {r : Outcome}
    (h : s.exec f op = some r) (hk : Kept items op r) : s.Allowed op := by
  cases op with
  | add x => trivial
  | delete key =>
    refine deletes_of_kept hs h (forall_key_ne hk.stored fun x hx => ?_)
    simpa using (List.mem_filter.mp hx).2
  | press c => exact answers_of_key hs h

end Menu

/-- From a menu that holds the items a run keeps them exactly if its calls are allowed. -/
theorem runKept_iff {s : Menu} (hs : s.Sound) {items : List Added} (hitems : List.Forall₂ Stores s.stored items)
    (ops : List Op) : RunKept items s ops ↔ RunAllowed s ops := by
  induction ops generalizing s items with
  | nil => exact Iff.rfl
  | cons op ops ih =>
    constructor
    · rintro ⟨f, r, hr, hkept, hrest⟩
      have hallowed := Menu.allowed_of_kept hs hr hkept
      obtain ⟨f', r', hr', -, hsound⟩ := Menu.exec_keeps hs hitems hallowed
      obtain rfl := Menu.exec_inj hr hr'
      refine ⟨hallowed, fun g q hq => ?_⟩
      obtain rfl := Menu.exec_inj hr hq
      exact (ih hsound hkept.stored).mp hrest
    · rintro ⟨hallowed, hrest⟩
      obtain ⟨f, r, hr, hkept, hsound⟩ := Menu.exec_keeps hs hitems hallowed
      exact ⟨f, r, hr, hkept, (ih hsound hkept.stored).mpr (hrest f r hr)⟩

/-- A run of calls and keys on a menu with a row keeps its items, and every access inside the array, exactly if its calls
are allowed. -/
theorem menu_keeps_iff {fit : Int} (hfit : 1 ≤ fit) (ops : List Op) :
    RunKept [] (Menu.create fit) ops ↔ RunAllowed (Menu.create fit) ops :=
  runKept_iff (Menu.create_sound hfit) .nil ops

/-- Of two items the first is deleted. -/
theorem menu_keeps_two :
    RunKept [] (Menu.create 4) [.add ⟨[65], 1, some ⟨none, true⟩⟩, .add ⟨[66], 2, none⟩, .press .ok, .delete 1] := by
  refine (menu_keeps_iff (by decide) _).mpr ⟨trivial, fun _ r hr => ?_⟩
  obtain rfl := Option.some.inj hr
  refine ⟨trivial, fun _ r hr => ?_⟩
  obtain rfl := Option.some.inj hr
  refine ⟨.inr trivial, fun _ r hr => ?_⟩
  obtain rfl := Option.some.inj hr
  refine ⟨⟨?_, fun _ => ?_, ?_⟩, fun _ _ _ => trivial⟩
  · unfold Apart
    decide
  · decide
  · decide

/-- Of two items with the key that are added one behind the other the second stays. -/
theorem second_item_stays :
    ¬ RunKept [] (Menu.create 4) [.add ⟨[65], 1, none⟩, .add ⟨[66], 1, none⟩, .add ⟨[67], 2, none⟩, .delete 1] := by
  rintro ⟨_, r, hr, -, _, r', hr', -, _, r'', hr'', -, _, q, hq, hkept, -⟩
  obtain rfl := Option.some.inj hr
  obtain rfl := Option.some.inj hr'
  obtain rfl := Option.some.inj hr''
  obtain rfl := Option.some.inj hq
  exact absurd hkept.rc (by decide)

end Mvpmc.Widget
