import Mvpmc.Lib.Double
import Mathlib.Data.Nat.ModEq

/-! The browser of album covers: its keys in the local menu (`mclient_localmenu_callback`, `curses2ir`), the replies that
give the number of albums (`cli_parse_response`), and the loading of six albums (`mclient_browse_by_cover`). What is drawn
and what is played is left out. -/
namespace Mvpmc.Mclient

def IDLE_COVERART : Nat := 0
def GET_1ST_ALBUM_COVERART : Nat := 1
def DISPLAY_1ST_COVER_COVERART : Nat := 13
def DISPLAY_6TH_COVER_COVERART : Nat := 18
def LAST_STATE_COVERART : Nat := 20

/-- Of `cli_data` what belongs to the browser, with the menus of `remote_buttons`. -/
structure Browser where
  /-- `album_start_index_for_cover_art` -/
  start : BitVec 32
  /-- `album_max_index_for_cover_art` -/
  max : BitVec 32
  row : BitVec 32
  col : BitVec 32
  state : Nat
  pending : Bool
  trigger : Bool
  localMenu : Bool
  localMenuBrowse : Bool
  deriving DecidableEq, Repr

/-- `cli_init` and `mclient_local_init`. -/
def initBrowser : Browser where
  start := 0
  max := 1
  row := 0
  col := 0
  state := IDLE_COVERART
  pending := false
  trigger := false
  localMenu := false
  localMenuBrowse := false

inductive Key where
  | digit (d : Fin 10)
  | down
  | up
  | left
  | right
  | ffwd
  | rewind
  | ok (hilite : Nat)
  | menu
  | exit
  | other
  deriving DecidableEq, Repr

/-- The constants of the digit keys, `.10` to `.90`, in double precision. -/
def tenth : Fin 10 → Nat × Nat
  | 0 => (0, 0)
  | 1 => (0x1999999999999A, 56)
  | 2 => (0x1999999999999A, 55)
  | 3 => (0x13333333333333, 54)
  | 4 => (0x1999999999999A, 54)
  | 5 => (0x10000000000000, 53)
  | 6 => (0x13333333333333, 53)
  | 7 => (0x16666666666666, 53)
  | 8 => (0x1999999999999A, 53)
  | 9 => (0x1CCCCCCCCCCCCD, 53)

namespace Browser

/-- A digit key: so many tenths into the collection. -/
def jump (s : Browser) (d : Fin 10) : Browser :=
  { s with start := BitVec.ofNat 32 (Lib.Double.scale (tenth d).1 (tenth d).2 s.max.toNat), trigger := true }

/-- Six albums forward; `none` is a remainder by zero. -/
def forward (s : Browser) : Option Browser :=
  let s := { s with start := s.start + 6, trigger := true }
  if s.start ≥ s.max then
    if s.max = 0 then none else some { s with start := s.start % s.max }
  else some s

/-- Six albums back. -/
def back (s : Browser) : Browser :=
  { s with start := if s.start ≥ 6 then s.start - 6 else s.max - (6 - s.start), trigger := true }

/-- `curses2ir` in the local menu. -/
def curses2ir (s : Browser) : Key → Option Browser
  | .digit d => some (s.jump d)
  | .down => some { s with row := if s.row + 1 ≥ 2 then 0 else s.row + 1 }
  | .up => some { s with row := if s.row ≤ 0 then 1 else s.row - 1 }
  | .left =>
    if s.row = 2 then some s.back
    else
      let s := { s with col := s.col - 1 }
      if s.col ≥ 3 then some { s with col := 0 }.back else some s
  | .right =>
    if s.row = 2 then s.forward
    else
      let s := { s with col := s.col + 1 }
      if s.col ≥ 3 then { s with col := 2 }.forward else some s
  | .ffwd => s.forward
  | .rewind => some s.back
  | _ => some s

/-- `mclient_localmenu_callback`. -/
def localmenuCallback (s : Browser) : Key → Option Browser
  | .menu | .exit => some { s with localMenu := false, localMenuBrowse := false }
  | .ok hilite =>
    if s.localMenuBrowse then
      if s.localMenu ∧ s.row * 3 + s.col < 6 then some { s with localMenu := false, localMenuBrowse := false } else some s
    else if hilite ≠ 2 then some { s with state := GET_1ST_ALBUM_COVERART, pending := true, localMenuBrowse := true }
    else some s
  | key => s.curses2ir key

/-- The indices of the six albums that are loaded. -/
def albumIndex (s : Browser) (i : Nat) : BitVec 32 :=
  let index := s.start + BitVec.ofNat 32 i
  if index ≥ s.max then index % s.max else index

/-- `mclient_browse_by_cover`, with whether another command is waiting to be sent: the albums that are to be loaded, if
this is the state for it. `none` is a remainder or a division by zero. -/
def browseByCover (s : Browser) (waiting : Bool) : Option (Browser × Option (List (BitVec 32))) :=
  let next (s : Browser) : Browser :=
    if s.state ≠ IDLE_COVERART then
      { s with state := if s.state + 1 ≥ LAST_STATE_COVERART then IDLE_COVERART else s.state + 1 }
    else s
  if waiting then some (next s, none)
  else if s.state = GET_1ST_ALBUM_COVERART then
    if s.max = 0 then none else some (next s, some ((List.range 6).map s.albumIndex))
  else if DISPLAY_1ST_COVER_COVERART ≤ s.state ∧ s.state ≤ DISPLAY_6TH_COVER_COVERART then
    some (next { s with pending := true }, none)
  else some (next s, none)

/-- The part of the main loop that loads the covers, with whether a reply is outstanding. -/
def mainLoop (s : Browser) (outstanding waiting : Bool) : Option (Browser × Option (List (BitVec 32))) :=
  if s.pending then
    if outstanding then some (s, none)
    else
      let s := { s with pending := false }
      let s := if s.trigger then { s with trigger := false, state := GET_1ST_ALBUM_COVERART } else s
      s.browseByCover waiting
  else if ¬ outstanding ∧ s.trigger then some ({ s with pending := true }, none)
  else some (s, none)

end Browser

/-- What happens to the browser. -/
inductive BrowserEvent where
  /-- A key while the local menu is shown. -/
  | key (k : Key)
  /-- The menu key that shows the local menu. -/
  | enter
  /-- A reply to `info total albums ?`. -/
  | info (count : BitVec 32)
  /-- A reply about an album or a title. -/
  | reply
  | loop (outstanding waiting : Bool)
  deriving DecidableEq, Repr

/-- One step, with the albums that are to be loaded. -/
def Browser.step (s : Browser) : BrowserEvent → Option (Browser × Option (List (BitVec 32)))
  | .key k => if s.localMenu then (s.localmenuCallback k).map fun t => (t, none) else some (s, none)
  | .enter => some ({ s with localMenu := true }, none)
  | .info count => some ({ s with max := count, pending := true }, none)
  | .reply => some ({ s with pending := true }, none)
  | .loop outstanding waiting => s.mainLoop outstanding waiting

namespace Browser

/-- A step that does not divide by zero, that after a key in the local menu leaves the start inside of the collection,
and that loads the six albums from the start on, round the end of the collection. -/
def Sane (s : Browser) (e : BrowserEvent) : Prop :=
  ∃ t r, s.step e = some (t, r) ∧
    (s.localMenu = true → (∃ k, e = .key k) → 0 < t.max → t.start < t.max) ∧
    ∀ l, r = some l → l.map BitVec.toNat = (List.range 6).map fun i => (s.start.toNat + i) % s.max.toNat

/-- All steps of a run are sane. -/
def AllSane (s : Browser) : List BrowserEvent → Prop
  | [] => True
  | e :: es => s.Sane e ∧ ∀ t r, s.step e = some (t, r) → AllSane t es

/-- Keys that go forward by a page. -/
def PagesForward (s : Browser) : Key → Prop
  | .ffwd => True
  | .right => s.row = 2 ∨ s.col + 1 ≥ 3
  | _ => False

/-- Keys that go back by a page. -/
def PagesBack (s : Browser) : Key → Prop
  | .rewind => True
  | .left => s.row = 2 ∨ s.col - 1 ≥ 3
  | _ => False

def Jumps : Key → Prop
  | .digit _ => True
  | _ => False

/-- The round of the main loop loads the covers of a page. -/
def Loads (s : Browser) (outstanding waiting : Bool) : Prop :=
  s.pending = true ∧ outstanding = false ∧ waiting = false ∧ (s.trigger = true ∨ s.state = GET_1ST_ALBUM_COVERART)

/-- What a key must find: a page forward some album, a page back enough of them, and every other key but a digit a start
inside of the collection. -/
structure KeySafe (s : Browser) (k : Key) : Prop where
  forward : s.PagesForward k → s.max ≠ 0
  back : s.PagesBack k → 0 < s.max →
    if s.start < 6 then 6 ≤ s.max.toNat + s.start.toNat else s.start.toNat < s.max.toNat + 6
  other : ¬ s.PagesForward k → ¬ s.PagesBack k → ¬ Jumps k → 0 < s.max → s.start < s.max

def Safe (s : Browser) : BrowserEvent → Prop
  | .key k => s.localMenu = true → s.KeySafe k
  | .loop outstanding waiting =>
    s.Loads outstanding waiting → s.max ≠ 0 ∧ (s.start.toNat + 5 < 2 ^ 32 ∨ s.max.toNat ∣ 2 ^ 32)
  | _ => True

def AllSafe (s : Browser) : List BrowserEvent → Prop
  | [] => True
  | e :: es => s.Safe e ∧ ∀ t r, s.step e = some (t, r) → AllSafe t es

/-- The start is inside of the collection, if there is one. -/
def Inside (s : Browser) : Prop := 0 < s.max → s.start < s.max

section
variable {s : Browser}

/-- Every digit stands for less than the whole collection. -/
theorem tenth_lt (d : Fin 10) : (tenth d).1 * (2 ^ 52 + 1) < 2 ^ (tenth d).2 * 2 ^ 52 := by
  revert d
  decide

theorem jump_inside (d : Fin 10) : (s.jump d).Inside := by
  intro h
  have hpos : 0 < s.max := h
  have hn : 0 < s.max.toNat := by bv_omega
  have hlt := s.max.isLt
  have hscale := Lib.Double.scale_lt (tenth_lt d) hn
  simp only [jump, BitVec.lt_def, BitVec.toNat_ofNat]
  omega

/-- A page forward divides by zero exactly where there is no album. -/
theorem forward_none : s.forward = none ↔ s.max = 0 := by
  rw [forward]
  dsimp only
  by_cases h : s.max = 0
  · simp [h]
  · rw [if_neg h]
    split <;> exact ⟨fun hn => (nomatch hn), fun hz => absurd hz h⟩

theorem forward_inside {t : Browser} (h : s.forward = some t) : t.Inside := by
  rw [forward] at h
  dsimp only at h
  split at h
  · split at h
    · cases h
    · cases h
      intro hpos
      simp only [BitVec.lt_def, BitVec.toNat_umod] at hpos ⊢
      exact Nat.mod_lt _ hpos
  · cases h
    intro _
    exact BitVec.not_le.mp ‹¬ _ ≥ _›

theorem back_inside_iff :
    s.back.Inside ↔ (0 < s.max →
      if s.start < 6 then 6 ≤ s.max.toNat + s.start.toNat else s.start.toNat < s.max.toNat + 6) := by
  have hlt := s.max.isLt
  simp only [Inside, back]
  refine imp_congr_right fun hpos => ?_
  split
  · rw [if_neg (by bv_omega)]
    bv_omega
  · rw [if_pos (by bv_omega)]
    bv_omega

theorem keySafe_of_forward (k : Key) (hf : s.PagesForward k) (hb : ¬ s.PagesBack k) : s.KeySafe k ↔ s.max ≠ 0 :=
  ⟨fun h => h.forward hf, fun h => ⟨fun _ => h, fun hb' => absurd hb' hb, fun hf' => absurd hf hf'⟩⟩

theorem keySafe_of_back (k : Key) (hf : ¬ s.PagesForward k) (hb : s.PagesBack k) : s.KeySafe k ↔ s.back.Inside := by
  rw [back_inside_iff]
  exact ⟨fun h => h.back hb, fun h => ⟨fun hf' => absurd hf' hf, fun _ => h, fun _ hb' => absurd hb hb'⟩⟩

theorem keySafe_of_kept (k : Key) (hf : ¬ s.PagesForward k) (hb : ¬ s.PagesBack k) (hj : ¬ Jumps k) :
    s.KeySafe k ↔ s.Inside :=
  ⟨fun h => h.other hf hb hj, fun h => ⟨fun hf' => absurd hf' hf, fun hb' => absurd hb' hb, fun _ _ _ => h⟩⟩

theorem forward_some_iff : (∃ t, s.forward = some t ∧ t.Inside) ↔ s.max ≠ 0 := by
  rw [Ne, ← forward_none]
  constructor
  · rintro ⟨t, ht, -⟩ hn
    exact absurd (ht.symm.trans hn) (by simp)
  · intro h
    obtain ⟨t, ht⟩ := Option.ne_none_iff_exists'.mp h
    exact ⟨t, ht, forward_inside ht⟩

/-- A key in the local menu leaves the start inside of the collection, without a division by zero, exactly where it is
safe. -/
theorem keySafe_iff (k : Key) : s.KeySafe k ↔ ∃ t, s.localmenuCallback k = some t ∧ t.Inside := by
  cases k with
  | digit d =>
    exact iff_of_true ⟨False.elim, False.elim, fun _ _ h => absurd trivial h⟩ ⟨s.jump d, rfl, jump_inside d⟩
  | ffwd => rw [keySafe_of_forward .ffwd trivial id, ← forward_some_iff]; rfl
  | rewind => rw [keySafe_of_back .rewind id trivial]; simp [localmenuCallback, curses2ir]
  | left =>
    by_cases hrow : s.row = 2
    · rw [keySafe_of_back .left id (.inl hrow)]
      simp [localmenuCallback, curses2ir, hrow]
    · by_cases hcol : s.col - 1 ≥ 3
      · rw [keySafe_of_back .left id (.inr hcol)]
        simp only [localmenuCallback, curses2ir, if_neg hrow, if_pos hcol, Option.some.injEq, exists_eq_left']
        rfl
      · rw [keySafe_of_kept .left id (not_or.mpr ⟨hrow, hcol⟩) id]
        simp only [localmenuCallback, curses2ir, if_neg hrow, if_neg hcol, Option.some.injEq, exists_eq_left']
        rfl
  | right =>
    by_cases hrow : s.row = 2
    · rw [keySafe_of_forward .right (.inl hrow) id, ← forward_some_iff]
      simp [localmenuCallback, curses2ir, hrow]
    · by_cases hcol : s.col + 1 ≥ 3
      · rw [keySafe_of_forward .right (.inr hcol) id]
        have hmax : ({ s with col := 2 } : Browser).max = s.max := rfl
        rw [← hmax, ← forward_some_iff]
        simp only [localmenuCallback, curses2ir, if_neg hrow, if_pos hcol]
      · rw [keySafe_of_kept .right (not_or.mpr ⟨hrow, hcol⟩) id id]
        simp only [localmenuCallback, curses2ir, if_neg hrow, if_neg hcol, Option.some.injEq, exists_eq_left']
        rfl
  | ok hilite =>
    rw [keySafe_of_kept (.ok hilite) id id id, localmenuCallback]
    split <;> split <;> simp [Inside]
  | down | up | menu | exit | other =>
    rw [keySafe_of_kept _ id id id]
    simp [localmenuCallback, curses2ir, Inside]

theorem browseByCover_first (h : s.state = GET_1ST_ALBUM_COVERART) :
    s.max = 0 ∧ s.browseByCover false = none ∨
      s.max ≠ 0 ∧ ∃ t, s.browseByCover false = some (t, some ((List.range 6).map s.albumIndex)) := by
  rw [browseByCover]
  by_cases hmax : s.max = 0
  · exact .inl ⟨hmax, by simp [h, hmax]⟩
  · rw [if_neg Bool.false_ne_true, if_pos h, if_neg hmax]
    exact .inr ⟨hmax, _, rfl⟩

theorem browseByCover_other {waiting : Bool} (h : waiting = true ∨ s.state ≠ GET_1ST_ALBUM_COVERART) :
    ∃ t, s.browseByCover waiting = some (t, none) := by
  rw [browseByCover]
  rcases h with rfl | h
  · exact ⟨_, rfl⟩
  · rw [if_neg h]
    split
    · exact ⟨_, rfl⟩
    · split <;> exact ⟨_, rfl⟩

/-- A page is loaded only in the state for it, and that divides by zero exactly where there is no album. -/
theorem mainLoop_cases (outstanding waiting : Bool) :
    (s.Loads outstanding waiting ∧
      (s.max = 0 ∧ s.mainLoop outstanding waiting = none ∨
        s.max ≠ 0 ∧ ∃ t, s.mainLoop outstanding waiting = some (t, some ((List.range 6).map s.albumIndex)))) ∨
    (¬ s.Loads outstanding waiting ∧ ∃ t, s.mainLoop outstanding waiting = some (t, none)) := by
  rw [mainLoop]
  by_cases hp : s.pending = true
  case neg =>
    refine .inr ⟨fun hl => hp hl.1, ?_⟩
    rw [if_neg hp]
    split <;> exact ⟨_, rfl⟩
  rw [if_pos hp]
  cases outstanding with
  | true => exact .inr ⟨fun hl => (nomatch hl.2.1), _, rfl⟩
  | false =>
    dsimp only
    rw [if_neg Bool.false_ne_true]
    by_cases hload : waiting = false ∧ (s.trigger = true ∨ s.state = GET_1ST_ALBUM_COVERART)
    · obtain ⟨rfl, hstate⟩ := hload
      refine .inl ⟨⟨hp, rfl, rfl, hstate⟩, ?_⟩
      split
      case isTrue ht => exact browseByCover_first (s := { s with pending := false, trigger := false, state := _ }) rfl
      case isFalse ht =>
        exact browseByCover_first (s := { s with pending := false }) (hstate.resolve_left ht)
    · refine .inr ⟨fun hl => hload hl.2.2, ?_⟩
      split
      case isTrue ht =>
        have hw : waiting = true := by
          by_contra hw
          exact hload ⟨by simpa using hw, .inl ht⟩
        exact browseByCover_other (.inl hw)
      case isFalse ht =>
        refine browseByCover_other ?_
        by_cases hw : waiting = true
        · exact .inl hw
        · exact .inr fun hst => hload ⟨by simpa using hw, .inr hst⟩

theorem albumIndex_toNat {i : Nat} (hi : i < 6) :
    (s.albumIndex i).toNat = (s.start.toNat + i) % 2 ^ 32 % s.max.toNat := by
  have hindex : (s.start + BitVec.ofNat 32 i).toNat = (s.start.toNat + i) % 2 ^ 32 := by
    rw [BitVec.toNat_add, BitVec.toNat_ofNat, Nat.mod_eq_of_lt (by omega : i < 2 ^ 32)]
  rw [albumIndex]
  split
  · rw [BitVec.toNat_umod, hindex]
  · rw [← hindex, Nat.mod_eq_of_lt (BitVec.lt_def.mp (BitVec.not_le.mp ‹_›))]

/-- The six albums are those from the start on, round the end of the collection, unless the numbers overflow. -/
theorem albumIndex_iff :
    (((List.range 6).map s.albumIndex).map BitVec.toNat = (List.range 6).map fun i => (s.start.toNat + i) % s.max.toNat) ↔
      (s.start.toNat + 5 < 2 ^ 32 ∨ s.max.toNat ∣ 2 ^ 32) := by
  have hlist : (((List.range 6).map s.albumIndex).map BitVec.toNat =
      (List.range 6).map fun i => (s.start.toNat + i) % s.max.toNat) ↔
        ∀ i < 6, (s.start.toNat + i) % 2 ^ 32 % s.max.toNat = (s.start.toNat + i) % s.max.toNat := by
    rw [List.map_map, List.map_inj_left]
    constructor
    · intro h i hi
      rw [← albumIndex_toNat hi]
      exact h i (List.mem_range.mpr hi)
    · intro h i hi
      rw [Function.comp_apply, albumIndex_toNat (List.mem_range.mp hi), h i (List.mem_range.mp hi)]
  rw [hlist]
  have hlt := s.start.isLt
  constructor
  · intro h
    by_contra hover
    rw [not_or, Nat.not_lt] at hover
    -- the last of the six is past the overflow
    have hlast := h 5 (by decide)
    have hwrap : (s.start.toNat + 5) % 2 ^ 32 = s.start.toNat + 5 - 2 ^ 32 := by omega
    rw [hwrap] at hlast
    have hdvd := (Nat.modEq_iff_dvd' (Nat.sub_le _ _)).mp hlast
    rw [Nat.sub_sub_self hover.1] at hdvd
    exact hover.2 hdvd
  · rintro (hsmall | hdvd) i hi
    · rw [Nat.mod_eq_of_lt (by omega : s.start.toNat + i < 2 ^ 32)]
    · exact Nat.mod_mod_of_dvd _ hdvd

/-- One step is sane exactly where it is safe. -/
theorem sane_iff_safe (e : BrowserEvent) : s.Sane e ↔ s.Safe e := by
  have hquiet : ∀ t, s.step e = some (t, none) → (∀ k, e ≠ .key k) → s.Sane e := fun t ht hk =>
    ⟨t, none, ht, fun _ hkey => absurd hkey.choose_spec (hk _), fun _ hl => nomatch hl⟩
  cases e with
  | key k =>
    constructor
    · rintro ⟨t, r, hstep, hin, -⟩ hmenu
      simp only [step, hmenu, if_true, Option.map_eq_some_iff] at hstep
      obtain ⟨u, hu, hut⟩ := hstep
      obtain ⟨rfl, rfl⟩ := Prod.mk.inj hut
      exact (keySafe_iff k).mpr ⟨u, hu, hin hmenu ⟨k, rfl⟩⟩
    · intro h
      by_cases hmenu : s.localMenu = true
      · obtain ⟨t, ht, hin⟩ := (keySafe_iff k).mp (h hmenu)
        exact ⟨t, none, by simp [step, hmenu, ht], fun _ _ => hin, fun _ hl => nomatch hl⟩
      · exact ⟨s, none, by simp [step, hmenu], fun hm => absurd hm hmenu, fun _ hl => nomatch hl⟩
  | enter => exact iff_of_true (hquiet _ rfl nofun) trivial
  | info count => exact iff_of_true (hquiet _ rfl nofun) trivial
  | reply => exact iff_of_true (hquiet _ rfl nofun) trivial
  | loop outstanding waiting =>
    rcases s.mainLoop_cases outstanding waiting with ⟨hload, ⟨hmax, hnone⟩ | ⟨hmax, t, ht⟩⟩ | ⟨hload, t, ht⟩
    · refine iff_of_false ?_ fun h => (h hload).1 hmax
      rintro ⟨t, r, hstep, -⟩
      exact absurd (hstep.symm.trans hnone) (by simp)
    · constructor
      · rintro ⟨u, r, hstep, -, hlist⟩ -
        obtain ⟨-, rfl⟩ := Prod.mk.inj (Option.some.inj (hstep.symm.trans ht))
        exact ⟨hmax, albumIndex_iff.mp (hlist _ rfl)⟩
      · intro h
        refine ⟨t, _, ht, fun _ ⟨_, hk⟩ => (nomatch hk), fun l hl => ?_⟩
        obtain rfl := Option.some.inj hl
        exact albumIndex_iff.mpr (h hload).2
    · exact iff_of_true (hquiet t ht nofun) fun hl => absurd hl hload

/-- A whole run, from any state on. -/
theorem allSane_iff (events : List BrowserEvent) : s.AllSane events ↔ s.AllSafe events := by
  induction events generalizing s with
  | nil => rfl
  | cons e events ih =>
    rw [AllSane, AllSafe, sane_iff_safe]
    exact and_congr_right fun _ => forall₂_congr fun t r => imp_congr_right fun _ => ih

/-- A collection of a page at least, with the start inside of it. -/
structure Large (s : Browser) : Prop where
  page : 6 ≤ s.max.toNat
  count : s.max.toNat < 2 ^ 31
  inside : s.start.toNat < s.max.toNat

/-- The numbers of albums that are told never get smaller, and are numbers of an `int`. -/
def Growing (count : BitVec 32) : List BrowserEvent → Prop
  | [] => True
  | .info c :: es => count ≤ c ∧ c.toNat < 2 ^ 31 ∧ Growing c es
  | _ :: es => Growing count es

theorem Large.safe (h : s.Large) (e : BrowserEvent) : s.Safe e := by
  obtain ⟨hpage, hcount, hin⟩ := h
  have hne : s.max ≠ 0 := by
    intro hz
    rw [hz] at hpage
    exact absurd hpage (by decide)
  cases e with
  | key k => exact fun _ => ⟨fun _ => hne, fun _ _ => by split <;> omega, fun _ _ _ _ => BitVec.lt_def.mpr hin⟩
  | loop outstanding waiting => exact fun _ => ⟨hne, .inl (by omega)⟩
  | enter | info | reply => trivial

theorem localmenuCallback_max {t : Browser} {k : Key} (h : s.localmenuCallback k = some t) : t.max = s.max := by
  cases k <;> grind [localmenuCallback, curses2ir, forward, back, jump]

theorem mainLoop_kept {t : Browser} {r : Option (List (BitVec 32))} {outstanding waiting : Bool}
    (h : s.mainLoop outstanding waiting = some (t, r)) : t.max = s.max ∧ t.start = s.start := by
  grind [mainLoop, browseByCover]

/-- A collection that is large stays so as long as it does not shrink. -/
theorem Large.step (h : s.Large) {e : BrowserEvent} {es : List BrowserEvent} (hg : Growing s.max (e :: es))
    {t : Browser} {r : Option (List (BitVec 32))} (hs : s.step e = some (t, r)) : t.Large ∧ Growing t.max es := by
  cases e with
  | key k =>
    obtain ⟨u, v, hu, hin, -⟩ := (sane_iff_safe (.key k)).mpr (h.safe (.key k))
    obtain ⟨rfl, rfl⟩ := Prod.mk.inj (Option.some.inj (hs.symm.trans hu))
    by_cases hmenu : s.localMenu = true
    · simp only [Browser.step, hmenu, if_true, Option.map_eq_some_iff] at hs
      obtain ⟨w, hw, hwt⟩ := hs
      obtain ⟨rfl, -⟩ := Prod.mk.inj hwt
      have hmax := localmenuCallback_max hw
      have hpos : 0 < w.max := by
        rw [hmax]
        exact BitVec.lt_def.mpr (Nat.lt_of_lt_of_le (by decide) h.page)
      rw [hmax]
      exact ⟨⟨hmax ▸ h.page, hmax ▸ h.count, BitVec.lt_def.mp (hin hmenu ⟨k, rfl⟩ hpos)⟩, hg⟩
    · simp only [Browser.step, hmenu, Bool.false_eq_true, if_false, Option.some.injEq, Prod.mk.injEq] at hs
      obtain ⟨rfl, -⟩ := hs
      exact ⟨h, hg⟩
  | info c =>
    obtain ⟨rfl, -⟩ := Prod.mk.inj (Option.some.inj hs)
    have hle := BitVec.le_def.mp hg.1
    exact ⟨⟨h.page.trans hle, hg.2.1, h.inside.trans_le hle⟩, hg.2.2⟩
  | enter | reply =>
    obtain ⟨rfl, -⟩ := Prod.mk.inj (Option.some.inj hs)
    exact ⟨⟨h.page, h.count, h.inside⟩, hg⟩
  | loop outstanding waiting =>
    obtain ⟨hmax, hstart⟩ := mainLoop_kept hs
    rw [hmax]
    exact ⟨⟨hmax ▸ h.page, hmax ▸ h.count, hmax ▸ hstart ▸ h.inside⟩, hg⟩

/-- With a page of albums at least, and never fewer than before, no run goes wrong. -/
theorem Large.allSane (h : s.Large) {events : List BrowserEvent} (hg : Growing s.max events) : s.AllSane events := by
  induction events generalizing s with
  | nil => trivial
  | cons e events ih =>
    refine ⟨(sane_iff_safe e).mpr (h.safe e), fun t r ht => ?_⟩
    obtain ⟨hlarge, hgrow⟩ := h.step hg ht
    exact ih hlarge hgrow

end

/-- Every run is sane exactly if each of its steps is safe: a page forward and the loading of a page find some album, a
page back finds enough of them, any other key but a digit finds the start inside of the collection, and no page is
loaded where the numbers of its albums overflow. -/
theorem allSane_iff_allSafe (events : List BrowserEvent) :
    initBrowser.AllSane events ↔ initBrowser.AllSafe events :=
  allSane_iff events

/-- Three albums and a page back from the first of them: the start is -3 as an unsigned number. No album and a page
forward: a remainder by zero. -/
theorem small_collections_fail :
    ¬ initBrowser.AllSane [.info 3, .enter, .key .rewind] ∧ ¬ initBrowser.AllSane [.info 0, .enter, .key .ffwd] := by
  rw [allSane_iff, allSane_iff]
  constructor
  · intro h
    have := (((h.2 _ _ rfl).2 _ _ rfl).1 rfl).back trivial (by decide)
    exact absurd this (by decide)
  · intro h
    exact (((h.2 _ _ rfl).2 _ _ rfl).1 rfl).forward trivial rfl

end Browser

end Mvpmc.Mclient
