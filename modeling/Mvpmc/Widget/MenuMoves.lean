import Mvpmc.Widget.Menu

/-! What moves the highlight of a menu leaves its items as they are, but for the text widgets that show them. -/
namespace Mvpmc.Widget

/-- The item without its text widget. -/
def MenuItem.bare (x : MenuItem) : MenuItem := { x with widget := none }

namespace Menu

/-- The menu without the places of its items on the screen. -/
def bare (s : Menu) : Menu := { s with items := s.items.map MenuItem.bare }

/-- The items in use. -/
def stored (s : Menu) : List MenuItem := s.items.take s.nitems

/-- The highlight is on an item in use, and a menu with items has a text widget. -/
structure Sound (s : Menu) : Prop where
  fits : s.nitems ≤ s.items.length
  nonneg : 0 ≤ s.current
  below : s.current ≤ (s.nitems - 1 : Nat)
  rows : 0 ≤ s.rows
  fit : 1 ≤ s.fit
  shown : 0 < s.nitems → 0 < s.widgets

/-- Item `i` has a text widget. -/
def Visible (s : Menu) (i : Int) : Prop := ∃ x w, s.item i = some x ∧ x.widget = some w

/-- A loop every pass of which succeeds and keeps an invariant. -/
theorem foldlM_keeps {σ β : Type} {P : σ → Prop} {f : σ → β → Option σ} {l : List β}
    (hpass : ∀ s, P s → ∀ b ∈ l, ∃ t, f s b = some t ∧ P t) {s : σ} (hs : P s) : ∃ t, l.foldlM f s = some t ∧ P t := by
  induction l generalizing s with
  | nil => exact ⟨s, rfl, hs⟩
  | cons b l ih =>
    obtain ⟨t, ht, hpt⟩ := hpass s hs b List.mem_cons_self
    obtain ⟨u, hu, hpu⟩ := ih (fun s hs b hb => hpass s hs b (List.mem_cons_of_mem _ hb)) hpt
    exact ⟨u, by rw [List.foldlM_cons, ht]; exact hu, hpu⟩

variable {s t : Menu}

theorem length_of_bare (h : t.bare = s.bare) : t.items.length = s.items.length := by
  simpa [bare] using congrArg (fun u : Menu => u.items.length) h

theorem nitems_of_bare (h : t.bare = s.bare) : t.nitems = s.nitems :=
  show t.bare.nitems = s.bare.nitems from congrArg Menu.nitems h

theorem widgets_of_bare (h : t.bare = s.bare) : t.widgets = s.widgets :=
  show t.bare.widgets = s.bare.widgets from congrArg Menu.widgets h

theorem current_of_bare (h : t.bare = s.bare) : t.current = s.current :=
  show t.bare.current = s.bare.current from congrArg Menu.current h

theorem stored_of_bare (h : t.bare = s.bare) : t.stored.map MenuItem.bare = s.stored.map MenuItem.bare := by
  rw [stored, stored, List.map_take, List.map_take, nitems_of_bare h]
  exact congrArg (List.take s.nitems) (congrArg Menu.items h)

theorem Sound.of_bare (hs : s.Sound) (h : t.bare = s.bare) : t.Sound := by
  have hn := nitems_of_bare h
  refine ⟨?_, ?_, ?_, ?_, ?_, ?_⟩
  · rw [hn, length_of_bare h]
    exact hs.fits
  · rw [current_of_bare h]
    exact hs.nonneg
  · rw [hn, current_of_bare h]
    exact hs.below
  · exact (congrArg Menu.rows h).symm ▸ hs.rows
  · exact (congrArg Menu.fit h).symm ▸ hs.fit
  · rw [hn, widgets_of_bare h]
    exact hs.shown

/-- The highlight goes to another item in use. -/
theorem Sound.at_current (hs : s.Sound) {c : Int} (h0 : 0 ≤ c) (hc : c < s.nitems) : { s with current := c }.Sound :=
  ⟨hs.fits, h0, by dsimp only; omega, hs.rows, hs.fit, hs.shown⟩

theorem item_of_lt {i : Int} (h0 : 0 ≤ i) (hi : i < s.items.length) : ∃ x, s.item i = some x := by
  rw [item, if_neg (not_lt.mpr h0)]
  exact ⟨_, List.getElem?_eq_getElem (by omega)⟩

theorem item_natCast (i : Nat) : s.item i = s.items[i]? := by
  rw [item, if_neg (by omega), Int.toNat_natCast]

theorem length_stored (hs : s.nitems ≤ s.items.length) : s.stored.length = s.nitems := by
  rw [stored, List.length_take, min_eq_left hs]

theorem mem_stored_iff {x : MenuItem} : x ∈ s.stored ↔ ∃ p : Nat, p < s.nitems ∧ s.item p = some x := by
  rw [stored, List.mem_iff_getElem?]
  refine exists_congr fun p => ?_
  rw [List.getElem?_take, item_natCast]
  split_ifs with hp
  · exact (and_iff_right hp).symm
  · exact ⟨nofun, fun h => absurd h.1 hp⟩

theorem head?_stored (hn : 0 < s.nitems) : s.stored.head? = s.item 0 := by
  rw [stored, List.head?_take, if_neg (by omega), List.head?_eq_getElem?]
  exact (item_natCast 0).symm

theorem setWidget_spec {i : Nat} (hi : i < s.items.length) (w : Option Nat) :
    ∃ t, s.setWidget i w = some t ∧ t.bare = s.bare := by
  refine ⟨_, if_pos hi, ?_⟩
  have hitems : (s.items.modify i fun x => { x with widget := w }).map MenuItem.bare = s.items.map MenuItem.bare := by
    refine List.ext_getElem (by simp) fun k _ _ => ?_
    simp only [List.getElem_map, List.getElem_modify]
    split_ifs <;> rfl
  simp only [bare, hitems]

/-- A widget is on no item in place of none. -/
theorem Visible.setWidget {i k w : Nat} (hk : s.Visible k ∨ k = i) (ht : s.setWidget i (some w) = some t) :
    t.Visible k := by
  rw [Menu.setWidget] at ht
  split_ifs at ht with hi
  obtain rfl := Option.some.inj ht
  by_cases hik : i = k
  · subst hik
    refine ⟨{ s.items[i] with widget := some w }, w, ?_, rfl⟩
    rw [item_natCast]
    simp [hi]
  · obtain ⟨x, v, hx, hv⟩ := hk.resolve_right (Ne.symm hik)
    refine ⟨x, v, ?_, hv⟩
    rw [item_natCast] at hx ⊢
    exact (List.getElem?_modify_ne _ _ hik).trans hx

/-- The widgets are given to items in use, the first of them to item `first`. -/
theorem showItems_spec (first : Nat) (ws : List Nat) (hfits : s.nitems ≤ s.items.length) :
    ∃ t, ws.foldlM (fun s w => s.showItem first w) s = some t ∧ t.bare = s.bare ∧
      (first < s.nitems → s.Visible first ∨ 0 ∈ ws → t.Visible first) := by
  induction ws generalizing s with
  | nil => exact ⟨s, rfl, rfl, fun _ h => h.resolve_right List.not_mem_nil⟩
  | cons w ws ih =>
    by_cases hout : s.nitems ≤ first + w
    · obtain ⟨t, ht, hbare, hvis⟩ := ih hfits
      refine ⟨t, by rw [List.foldlM_cons, showItem, if_pos hout]; exact ht, hbare, fun hfirst h => hvis hfirst ?_⟩
      rw [List.mem_cons] at h
      exact h.imp_right fun h => h.resolve_left (by omega)
    · obtain ⟨u, hu, hbareu⟩ := setWidget_spec (by omega : first + w < s.items.length) (some w)
      have hn := nitems_of_bare hbareu
      obtain ⟨t, ht, hbare, hvis⟩ := ih (by rw [hn, length_of_bare hbareu]; exact hfits)
      refine ⟨t, by rw [List.foldlM_cons, showItem, if_neg hout, hu]; exact ht, hbare.trans hbareu, fun hfirst h => ?_⟩
      refine hvis (by omega) ?_
      by_cases hw : w = 0
      · exact .inl (Visible.setWidget (.inr (by omega)) hu)
      · rw [List.mem_cons] at h
        exact h.imp (fun hv => Visible.setWidget (.inl hv) hu) fun h => h.resolve_left (Ne.symm hw)

theorem changeItems_spec (first : Int) (hfits : s.nitems ≤ s.items.length) :
    ∃ t, s.changeItems first = some t ∧ t.bare = s.bare ∧
      (0 ≤ first → first < s.nitems → 0 < s.widgets → t.Visible first) := by
  obtain ⟨u, hu, hbareu⟩ := foldlM_keeps (s := s) (P := fun u => u.bare = s.bare) (l := List.range s.nitems)
    (f := fun s i => s.setWidget i none) (fun u hbare i hi => by
      have hlt := List.mem_range.mp hi
      obtain ⟨v, hv, hbarev⟩ := setWidget_spec (s := u) (i := i) (by rw [length_of_bare hbare]; omega) none
      exact ⟨v, hv, hbarev.trans hbare⟩) rfl
  have hn := nitems_of_bare hbareu
  obtain ⟨t, ht, hbare, hvis⟩ := showItems_spec first.toNat (List.range u.widgets)
    (by rw [hn, length_of_bare hbareu]; exact hfits)
  refine ⟨t, by rw [changeItems, hu]; exact ht, hbare.trans hbareu, fun h0 hfirst hw => ?_⟩
  have hshown := hvis (by omega) (.inr (List.mem_range.mpr (by rw [widgets_of_bare hbareu]; exact hw)))
  rwa [Int.toNat_of_nonneg h0] at hshown

theorem hiliteItem_spec (hs : s.Sound) {which : Int} (h0 : 0 ≤ which) (hw : which < s.nitems) (hilite : Bool) :
    ∃ t, s.hiliteItem which hilite = some t ∧ t.bare = s.bare := by
  have hfits := hs.fits
  obtain ⟨x, hx⟩ := item_of_lt (s := s) h0 (by omega)
  by_cases hskip : x.widget = none ∧ hilite = false
  · exact ⟨s, by simp [hiliteItem, hx, hskip], rfl⟩
  -- Behind the second test the item has a widget.
  have hvisible : ∃ t, (if x.widget = none then s.changeItems which else some s) = some t ∧ t.bare = s.bare ∧
      t.Visible which := by
    cases hwidget : x.widget with
    | none =>
      obtain ⟨t, ht, hbare, hvis⟩ := changeItems_spec which hs.fits
      exact ⟨t, by rw [if_pos rfl, ht], hbare, hvis h0 hw (hs.shown (by omega))⟩
    | some w => exact ⟨s, if_neg nofun, rfl, x, w, hx, hwidget⟩
  obtain ⟨t, ht, hbare, y, w, hy, hyw⟩ := hvisible
  refine ⟨t, ?_, hbare⟩
  simp only [hiliteItem, hx, Option.bind_eq_bind, Option.bind_some, if_neg hskip, ht, hy, hyw]
  split_ifs <;> rfl

theorem firstShown_spec (j : Nat) (hj : j ≤ s.items.length) : ∃ k, s.firstShown j = some k := by
  induction j with
  | zero => exact ⟨0, rfl⟩
  | succ j ih =>
    obtain ⟨x, hx⟩ := item_of_lt (s := s) (Int.natCast_nonneg j) (by omega)
    rw [firstShown, hx]
    by_cases hwidget : x.widget = none
    · exact ⟨j + 1, if_pos hwidget⟩
    · obtain ⟨k, hk⟩ := ih (by omega)
      exact ⟨k, (if_neg hwidget).trans hk⟩

/-- The highlight can go to every item in use. -/
theorem moveTo_spec (hs : s.Sound) {next : Int} (h0 : 0 ≤ next) (hnext : next < s.nitems)
    {first : Menu → Option (Option Int)}
    (hfirst : ∀ t : Menu, t.bare = { s with current := next }.bare → ∃ j, first t = some j) :
    ∃ t, s.moveTo next first = some t ∧ t.bare = { s with current := next }.bare := by
  have hbelow := hs.below
  obtain ⟨u, hu, hbareu⟩ := hiliteItem_spec hs hs.nonneg (by omega) false
  have hmoved : { u with current := next }.bare = { s with current := next }.bare :=
    congrArg (fun v : Menu => { v with current := next }) hbareu
  have hsound := (hs.at_current h0 hnext).of_bare hmoved
  obtain ⟨j, hj⟩ := hfirst _ hmoved
  have hscrolled : ∃ v, j.elim (some { u with current := next }) { u with current := next }.changeItems = some v ∧
      v.bare = { s with current := next }.bare := by
    cases j with
    | none => exact ⟨_, rfl, hmoved⟩
    | some j =>
      obtain ⟨v, hv, hbare, -⟩ := changeItems_spec j hsound.fits
      exact ⟨v, hv, hbare.trans hmoved⟩
  obtain ⟨v, hv, hbarev⟩ := hscrolled
  obtain ⟨t, ht, hbare⟩ := hiliteItem_spec ((hs.at_current h0 hnext).of_bare hbarev) h0
    (by rw [nitems_of_bare hbarev]; exact hnext) true
  refine ⟨t, ?_, hbare.trans hbarev⟩
  simp only [moveTo, hu, Option.bind_eq_bind, Option.bind_some, hj, hv, ht]

section
variable {outside : Int → Bool} {restart dir : Int}

/-- More rounds find the same item. -/
theorem seek_mono {f f' : Nat} (hle : f ≤ f') {i j : Int} (h : s.seek outside restart dir f i = some j) :
    s.seek outside restart dir f' i = some j := by
  induction f generalizing f' i with
  | zero => exact absurd h nofun
  | succ f ih =>
    obtain ⟨f', rfl⟩ : ∃ k, f' = k + 1 := ⟨f' - 1, by omega⟩
    rw [seek] at h ⊢
    by_cases hout : outside i = true
    · rw [if_pos hout] at h ⊢
      exact ih (by omega) h
    · rw [if_neg hout] at h ⊢
      obtain ⟨x, hx, hrest⟩ := Option.bind_eq_some_iff.mp h
      rw [hx, Option.bind_eq_bind, Option.bind_some]
      by_cases hsel : x.selectable = true
      · rwa [if_pos hsel] at hrest ⊢
      · rw [if_neg hsel] at hrest ⊢
        exact ih (by omega) hrest

/-- What is found can be selected, and lies where the search goes. -/
theorem seek_found {P : Int → Prop} (hrestart : P restart) (hdir : ∀ i, P i → outside i = false → P (i + dir)) {f : Nat}
    {i j : Int} (hi : P i) (h : s.seek outside restart dir f i = some j) :
    P j ∧ outside j = false ∧ ∃ x, s.item j = some x ∧ x.selectable = true := by
  induction f generalizing i with
  | zero => exact absurd h nofun
  | succ f ih =>
    rw [seek] at h
    by_cases hout : outside i = true
    · rw [if_pos hout] at h
      exact ih hrestart h
    · rw [if_neg hout] at h
      have hin := Bool.eq_false_iff.mpr hout
      obtain ⟨x, hx, hrest⟩ := Option.bind_eq_some_iff.mp h
      by_cases hsel : x.selectable = true
      · rw [if_pos hsel] at hrest
        obtain rfl := Option.some.inj hrest
        exact ⟨hi, hin, x, hx, hsel⟩
      · rw [if_neg hsel] at hrest
        exact ih (hdir i hi hin) hrest

/-- Over items that are there the search comes to its end, if it does from behind them. -/
theorem seek_walk (n : Nat) {i : Int}
    (hin : ∀ k : Nat, k < n → outside (i + k * dir) = false ∧ ∃ x, s.item (i + k * dir) = some x)
    (hend : ∃ f j, s.seek outside restart dir f (i + n * dir) = some j) :
    ∃ f j, s.seek outside restart dir f i = some j := by
  induction n generalizing i with
  | zero => simpa using hend
  | succ n ih =>
    have hshift (k : Nat) : i + dir + k * dir = i + (k + 1 : Nat) * dir := by push_cast; ring
    obtain ⟨f, j, hj⟩ := ih (i := i + dir)
      (fun k hk => by rw [hshift]; exact hin (k + 1) (by omega)) (by rw [hshift]; exact hend)
    obtain ⟨hinside, x, hx⟩ := hin 0 (by omega)
    simp only [Nat.cast_zero, zero_mul, add_zero] at hinside hx
    by_cases hsel : x.selectable = true
    · exact ⟨1, i, by simp [seek, hinside, hx, hsel]⟩
    · exact ⟨f + 1, j, by simpa [seek, hinside, hx, hsel] using hj⟩

end

/-- Some item in use can be selected. -/
def CanSelect (s : Menu) : Prop := ∃ x ∈ s.stored, x.selectable = true

theorem seekUp_returns (hs : s.Sound) (hsel : s.CanSelect) : ∃ f i, s.seekUp f (s.current - 1) = some i := by
  obtain ⟨x, hmem, hsel⟩ := hsel
  obtain ⟨p, hp, hx⟩ := mem_stored_iff.mp hmem
  have hfits := hs.fits
  have hnonneg := hs.nonneg
  have hbelow := hs.below
  -- From the last item down to the one that can be selected, and before that down to the first one.
  have hlast : ∃ f i, s.seekUp f (s.nitems - 1) = some i := by
    refine seek_walk (s.nitems - 1 - p) (fun k hk => ⟨by simp; omega, item_of_lt (by omega) (by omega)⟩) ⟨1, p, ?_⟩
    have hend : (s.nitems : Int) - 1 + (s.nitems - 1 - p : Nat) * -1 = p := by omega
    rw [hend]
    simp [seek, hx, hsel]
  refine seek_walk s.current.toNat (fun k hk => ⟨by simp; omega, item_of_lt (by omega) (by omega)⟩) ?_
  obtain ⟨f, i, hi⟩ := hlast
  have hend : s.current - 1 + s.current.toNat * -1 = -1 := by omega
  exact ⟨f + 1, i, by rw [hend, seek, if_pos (by decide)]; exact hi⟩

theorem seekDown_returns (hs : s.Sound) (hsel : s.CanSelect) : ∃ f i, s.seekDown f (s.current + 1) = some i := by
  obtain ⟨x, hmem, hsel⟩ := hsel
  obtain ⟨p, hp, hx⟩ := mem_stored_iff.mp hmem
  have hfits := hs.fits
  have hnonneg := hs.nonneg
  have hbelow := hs.below
  have hfirst : ∃ f i, s.seekDown f 0 = some i := by
    refine seek_walk p (fun k hk => ⟨by simp; omega, item_of_lt (by omega) (by omega)⟩) ⟨1, p, ?_⟩
    have hin : ¬ s.nitems ≤ p := by omega
    simp [seek, hin, hx, hsel]
  refine seek_walk (s.nitems - 1 - s.current.toNat) (fun k hk => ⟨by simp; omega, item_of_lt (by omega) (by omega)⟩) ?_
  obtain ⟨f, i, hi⟩ := hfirst
  have hend : s.current + 1 + (s.nitems - 1 - s.current.toNat : Nat) * 1 = s.nitems := by omega
  exact ⟨f + 1, i, by rw [hend, seek, if_pos (by simp)]; exact hi⟩

theorem seekUp_inside {f : Nat} {i j : Int} (hi : i < s.nitems) (h : s.seekUp f i = some j) :
    0 ≤ j ∧ j < s.nitems ∧ ∃ x, s.item j = some x ∧ x.selectable = true := by
  obtain ⟨hj, hout, hx⟩ := seek_found (P := (· < (s.nitems : Int))) (by omega) (fun i hi _ => by omega) hi h
  exact ⟨by simpa using hout, hj, hx⟩

theorem seekDown_inside {f : Nat} {i j : Int} (hi : 0 ≤ i) (h : s.seekDown f i = some j) :
    0 ≤ j ∧ j < s.nitems ∧ ∃ x, s.item j = some x ∧ x.selectable = true := by
  obtain ⟨hj, hout, hx⟩ := seek_found (P := (0 ≤ ·)) (le_refl 0) (fun i hi _ => by omega) hi h
  exact ⟨hj, by simpa using hout, hx⟩

/-- What a move of the highlight keeps. -/
theorem moveTo_keeps (hs : s.Sound) {next : Int} (h0 : 0 ≤ next) (hnext : next < s.nitems)
    {first : Menu → Option (Option Int)}
    (hfirst : ∀ t : Menu, t.nitems = s.nitems → t.items.length = s.items.length → ∃ j, first t = some j) :
    ∃ t, s.moveTo next first = some t ∧ t.Sound ∧ t.stored.map MenuItem.bare = s.stored.map MenuItem.bare := by
  obtain ⟨t, ht, hbare⟩ := moveTo_spec hs h0 hnext fun t hbare =>
    hfirst t (nitems_of_bare (s := { s with current := next }) hbare)
      (length_of_bare (s := { s with current := next }) hbare)
  exact ⟨t, ht, (hs.at_current h0 hnext).of_bare hbare, stored_of_bare (s := { s with current := next }) hbare⟩

section
variable (hs : s.Sound) (hn : 0 < s.nitems)
include hs hn

theorem chanUp_keeps : ∃ t, s.chanUp = some t ∧ t.Sound ∧ t.stored.map MenuItem.bare = s.stored.map MenuItem.bare := by
  have hrows := hs.rows
  have hbelow := hs.below
  have hfits := hs.fits
  rw [chanUp]
  split_ifs with hcurrent
  · refine moveTo_keeps hs (le_max_right _ _) (by omega) fun t htn htl => ?_
    obtain ⟨k, hk⟩ := firstShown_spec (s := t) s.current.toNat (by omega)
    exact ⟨_, by rw [hk]; rfl⟩
  · exact moveTo_keeps hs (by omega) (by omega) fun t _ _ => ⟨_, rfl⟩

theorem chanDown_keeps :
    ∃ t, s.chanDown = some t ∧ t.Sound ∧ t.stored.map MenuItem.bare = s.stored.map MenuItem.bare := by
  have hrows := hs.rows
  have hnonneg := hs.nonneg
  have hbelow := hs.below
  have hfits := hs.fits
  rw [chanDown]
  split_ifs with hcurrent
  · refine moveTo_keeps hs (by omega) (by omega) fun t htn htl => ?_
    obtain ⟨k, hk⟩ := firstShown_spec (s := t) s.current.toNat (by omega)
    exact ⟨_, by rw [hk]; rfl⟩
  · exact moveTo_keeps hs (le_refl 0) (by omega) fun t _ _ => ⟨_, rfl⟩

end

/-- The widgets are moved only to show the item. -/
theorem moveTo_reveals (hs : s.Sound) {i : Int} (h0 : 0 ≤ i) (hi : i < s.nitems) (first : Menu → Int) :
    ∃ t, (s.moveTo i fun t => do
        let x ← t.item i
        return if x.widget = none then some (first t) else none) = some t ∧
      t.Sound ∧ t.stored.map MenuItem.bare = s.stored.map MenuItem.bare := by
  have hfits := hs.fits
  refine moveTo_keeps hs h0 hi fun t htn htl => ?_
  obtain ⟨x, hx⟩ := item_of_lt (s := t) h0 (by omega)
  exact ⟨_, by rw [hx]; rfl⟩

theorem up_keeps (hs : s.Sound) (hsel : s.CanSelect) :
    ∃ f t, s.up f = some t ∧ t.Sound ∧ t.stored.map MenuItem.bare = s.stored.map MenuItem.bare := by
  have hbelow := hs.below
  obtain ⟨f, i, hi⟩ := seekUp_returns hs hsel
  obtain ⟨h0, hlt, -⟩ := seekUp_inside (by omega) hi
  refine ⟨f, ?_⟩
  rw [up, hi, Option.bind_eq_bind, Option.bind_some]
  exact moveTo_reveals hs h0 hlt fun t => min i (t.nitems - t.rows)

theorem down_keeps (hs : s.Sound) (hsel : s.CanSelect) :
    ∃ f t, s.down f = some t ∧ t.Sound ∧ t.stored.map MenuItem.bare = s.stored.map MenuItem.bare := by
  have hnonneg := hs.nonneg
  obtain ⟨f, i, hi⟩ := seekDown_returns hs hsel
  obtain ⟨h0, hlt, -⟩ := seekDown_inside (by omega) hi
  refine ⟨f, ?_⟩
  rw [down, hi, Option.bind_eq_bind, Option.bind_some]
  exact moveTo_reveals hs h0 hlt fun t => max (i - t.rows + 1) 0

end Menu
end Mvpmc.Widget
