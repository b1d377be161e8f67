import Mvpmc.Mclient.CliDecode
import Mvpmc.Lib.CString

/-! The titles that a radio station played last (`title_history`, `mclient_cli.c`). Memory is counted from the beginning of
the table. What the menu shows of it is left out. -/
namespace Mvpmc.Mclient
open Mvpmc.Lib.Circular Mvpmc.Lib.CString

/-- The text `-no history-`. -/
def noHistory : List UInt8 := [45, 110, 111, 32, 104, 105, 115, 116, 111, 114, 121, 45]

/-- Where an entry of the table begins. -/
def titleHistory (k : Nat) : Nat := 50 * k

/-- The loop of `mclient_local_init` over the table. -/
def initHistory (m : Nat → UInt8) : Nat → UInt8 :=
  (List.range CLI_MAX_TRACKS).foldl (fun m i => strcpy m (titleHistory i) noHistory) m

/-- The loop of `cli_parse_display` that moves the entries, from the last round on. -/
def moveHistory : Nat → (Nat → UInt8) → Nat → UInt8
  | 0, m => m
  | i + 1, m => moveHistory i (strncpy m (titleHistory (i + 2)) (stringAt m (titleHistory i) 49) 49)

/-- The new title at the top. -/
def storeTitle (m : Nat → UInt8) (title : List UInt8) : Nat → UInt8 :=
  if 49 ≤ title.length then Function.update (strncpy m (titleHistory 0) title 49) (titleHistory 0 + 49) 0
  else strcpy m (titleHistory 0) title

/-- `cli_parse_display` on a reply whose first line begins with `Now playing` and whose second is the title. -/
def nowPlaying (m : Nat → UInt8) (title : List UInt8) : Nat → UInt8 :=
  if title.take 49 ≠ stringAt m (titleHistory 0) 49 then storeTitle (moveHistory CLI_MAX_TRACKS m) title
  else strcpy m (titleHistory 0) title

/-- The string of an entry, as far as the entry goes. -/
def entry (m : Nat → UInt8) (k : Nat) : List UInt8 := stringAt m (titleHistory k) 50

/-- The titles that were current, each cut to 49 characters, the last one first. -/
def recent (titles : List (List UInt8)) : List (List UInt8) :=
  titles.foldl (fun past title => if past.head? = some (title.take 49) then past else title.take 49 :: past) []

/-- The table is the history of the titles so far, and every entry ends inside of its bytes. -/
def IsHistory (titles : List (List UInt8)) (m : Nat → UInt8) : Prop :=
  ∀ k < 10, entry m k = (recent titles).getD k noHistory ∧ (entry m k).length < 50

/-- All titles are one, short enough or cut when it first came, and not the text of an empty history. -/
def OneTitle : List (List UInt8) → Prop
  | [] => True
  | first :: rest => first.take 49 ≠ noHistory ∧ ∀ title ∈ rest, title = first.take 49

/-- One title at the top and nothing under it. -/
structure Single (m : Nat → UInt8) (title : List UInt8) : Prop where
  top : entry m 0 = title
  under : ∀ k, 1 ≤ k → k < 10 → entry m k = noHistory

section
variable {m : Nat → UInt8}

theorem noHistory_zero : 0 ∉ noHistory := by decide

/-- What is copied into one entry changes no other. -/
theorem entry_blit_of_ne {j k : Nat} {xs : List UInt8} (hx : xs.length ≤ 50) (hjk : j ≠ k) :
    entry (blit m (titleHistory j) xs) k = entry m k := by
  refine stringAt_blit_of_disjoint m ?_
  simp only [titleHistory]
  omega

theorem entry_strncpy_of_ne {j k : Nat} (src : List UInt8) (hjk : j ≠ k) :
    entry (strncpy m (titleHistory j) src 49) k = entry m k :=
  entry_blit_of_ne (by rw [strncpy_length]; omega) hjk

theorem entry_strcpy_of_ne {j k : Nat} {src : List UInt8} (hs : src.length < 50) (hjk : j ≠ k) :
    entry (strcpy m (titleHistory j) src) k = entry m k :=
  entry_blit_of_ne (by simpa using hs) hjk

/-- The string that is compared and moved. -/
theorem stringAt_entry (k : Nat) : stringAt m (titleHistory k) 49 = (entry m k).take 49 := by
  have hslice : slice m (titleHistory k) 49 = (slice m (titleHistory k) 50).take 49 := by
    simp [slice, ← List.map_take, List.take_range]
  rw [stringAt, hslice, entry, stringAt, List.take_takeWhile]

/-- Every title that is moved goes two entries down, past the one under the top. -/
theorem entry_moveHistory {i : Nat} (h : ∀ j < i, (entry m j).length < 49) (k : Nat) :
    entry (moveHistory i m) k = if 2 ≤ k ∧ k < i + 2 then entry m (k - 2) else entry m k := by
  induction i generalizing m with
  | zero => rw [if_neg (by omega)]; rfl
  | succ i ih =>
    have hkept : ∀ j, j ≠ i + 2 → entry (strncpy m (titleHistory (i + 2)) (stringAt m (titleHistory i) 49) 49) j =
        entry m j := fun j hj => entry_strncpy_of_ne _ hj.symm
    have hmoved : entry (strncpy m (titleHistory (i + 2)) (stringAt m (titleHistory i) 49) 49) (i + 2) = entry m i := by
      have hi := h i (Nat.lt_succ_self i)
      rw [stringAt_entry, List.take_of_length_le hi.le]
      exact stringAt_strncpy m _ (zero_not_mem_stringAt _ _ _) hi (hi.trans (by decide))
    have hshort : ∀ j < i, (entry (strncpy m (titleHistory (i + 2)) (stringAt m (titleHistory i) 49) 49) j).length < 49 := by
      intro j hj
      rw [hkept j (by omega)]
      exact h j (by omega)
    rw [moveHistory, ih hshort]
    by_cases hk : k = i + 2
    · subst hk
      rw [if_neg (by omega), if_pos (by omega), hmoved]
      rfl
    · by_cases hin : 2 ≤ k ∧ k < i + 2
      · rw [if_pos hin, if_pos (by omega), hkept _ (by omega)]
      · rw [if_neg hin, if_neg (by omega), hkept _ hk]

/-- The entry under the top is never written to. -/
theorem entry_moveHistory_one (i : Nat) : entry (moveHistory i m) 1 = entry m 1 := by
  induction i generalizing m with
  | zero => rfl
  | succ i ih => rw [moveHistory, ih, entry_strncpy_of_ne _ (by omega)]

/-- A new title is stored cut to 49 characters. -/
theorem storeTitle_eq (title : List UInt8) : storeTitle m title = strcpy m (titleHistory 0) (title.take 49) := by
  rw [storeTitle]
  split
  case isTrue h =>
    have hlen : (title.take 49).length = 49 := by rw [List.length_take]; omega
    rw [strcpy, blit_append, blit_cons, blit_nil, strncpy, Nat.sub_eq_zero_of_le h, List.replicate_zero,
      List.append_nil, hlen]
  case isFalse h => rw [List.take_of_length_le (by omega)]

theorem take_zero_not_mem {title : List UInt8} (hz : 0 ∉ title) : 0 ∉ title.take 49 :=
  fun h => hz (List.mem_of_mem_take h)

theorem entry_storeTitle {title : List UInt8} (hz : 0 ∉ title) (k : Nat) :
    entry (storeTitle m title) k = if k = 0 then title.take 49 else entry m k := by
  have hlen : (title.take 49).length < 50 := by rw [List.length_take]; omega
  rw [storeTitle_eq]
  split
  case isTrue h => subst h; exact stringAt_strcpy m _ (take_zero_not_mem hz) hlen
  case isFalse h => exact entry_strcpy_of_ne hlen (Ne.symm h)

theorem entry_initHistory (k : Nat) :
    entry (initHistory m) k = if k < CLI_MAX_TRACKS then noHistory else entry m k := by
  have hloop : ∀ n, entry ((List.range n).foldl (fun m i => strcpy m (titleHistory i) noHistory) m) k =
      if k < n then noHistory else entry m k := by
    intro n
    induction n with
    | zero => rfl
    | succ n ih =>
      rw [List.range_succ, List.foldl_append, List.foldl_cons, List.foldl_nil]
      by_cases hk : n = k
      · subst hk
        rw [if_pos (Nat.lt_succ_self n)]
        exact stringAt_strcpy _ _ noHistory_zero (by decide)
      · rw [entry_strcpy_of_ne (by decide) hk, ih]
        have : k < n ↔ k < n + 1 := by omega
        simp [this]
  exact hloop CLI_MAX_TRACKS

theorem recent_concat (titles : List (List UInt8)) (title : List UInt8) :
    recent (titles ++ [title]) =
      if (recent titles).head? = some (title.take 49) then recent titles else title.take 49 :: recent titles := by
  rw [recent, List.foldl_append]
  rfl

/-- The first title, unless it is the text of an empty history, stands above empty entries. -/
theorem single_first {title : List UInt8} (hz : 0 ∉ title) (hne : title.take 49 ≠ noHistory) :
    Single (nowPlaying (initHistory m) title) (title.take 49) := by
  have htop : stringAt (initHistory m) (titleHistory 0) 49 = noHistory := by
    rw [stringAt_entry, entry_initHistory]
    rfl
  have hshort : ∀ j < CLI_MAX_TRACKS, (entry (initHistory m) j).length < 49 := by
    intro j hj
    rw [entry_initHistory, if_pos hj]
    decide
  rw [nowPlaying, if_pos (by rwa [htop])]
  constructor
  · rw [entry_storeTitle hz, if_pos rfl]
  · intro k hk hk'
    rw [entry_storeTitle hz, if_neg (by omega), entry_moveHistory hshort]
    have hsize : CLI_MAX_TRACKS = 8 := rfl
    split
    · rw [entry_initHistory, if_pos (by omega)]
    · rw [entry_initHistory, if_pos (by omega)]

/-- Where there has been one title, a reply leaves the history of the titles behind exactly if it is that title once
more. -/
theorem isHistory_concat_iff {titles : List (List UInt8)} {title current : List UInt8} (h : Single m current)
    (hc : current.length ≤ 49) (hr : recent titles = [current]) (hne : current ≠ noHistory) (hz : 0 ∉ title) :
    IsHistory (titles ++ [title]) (nowPlaying m title) ↔ title = current := by
  have htop : stringAt m (titleHistory 0) 49 = current := by
    rw [stringAt_entry, h.top, List.take_of_length_le hc]
  by_cases hsame : title.take 49 = current
  · have hrec : recent (titles ++ [title]) = [current] := by
      rw [recent_concat, hr, if_pos (by simp [hsame])]
    have hplay : nowPlaying m title = strcpy m (titleHistory 0) title := by
      rw [nowPlaying, if_neg (by rw [hsame, htop]; simp)]
    constructor
    · intro hh
      -- a longer title with the same beginning is copied past its entry
      by_contra hlong
      have hlen : 49 < title.length := by
        by_contra hle
        exact hlong (by rwa [List.take_of_length_le (by omega)] at hsame)
      have h0 := (hh 0 (by decide)).2
      have hfull : entry (strcpy m (titleHistory 0) title) 0 = title.take 50 := by
        have htake : (title ++ [0]).take 50 = title.take 50 := List.take_append_of_le_length hlen
        rw [entry, strcpy, stringAt_blit_take m _ (by rw [htake]; exact fun h => hz (List.mem_of_mem_take h))
          (by rw [List.length_append]; omega), htake]
      rw [hplay, hfull, List.length_take] at h0
      omega
    · rintro rfl k hk
      rw [hplay, hrec]
      cases k with
      | zero =>
        have : entry (strcpy m (titleHistory 0) title) 0 = title := stringAt_strcpy m _ hz (by omega)
        rw [this]
        exact ⟨rfl, by omega⟩
      | succ k =>
        rw [entry_strcpy_of_ne (by omega) (by omega), h.under (k + 1) (by omega) hk]
        exact ⟨rfl, by decide⟩
  · have hrec : recent (titles ++ [title]) = [title.take 49, current] := by
      rw [recent_concat, hr, if_neg (by simpa using Ne.symm hsame)]
    have hplay : nowPlaying m title = storeTitle (moveHistory CLI_MAX_TRACKS m) title := by
      rw [nowPlaying, if_pos (by rwa [htop])]
    constructor
    · intro hh
      have h1 := (hh 1 (by decide)).1
      rw [hplay, hrec, entry_storeTitle hz, if_neg (by decide), entry_moveHistory_one,
        h.under 1 (le_refl _) (by decide)] at h1
      exact absurd h1.symm hne
    · rintro rfl
      exact absurd (List.take_of_length_le hc) hsame

theorem single_isHistory {titles : List (List UInt8)} {current : List UInt8} (h : Single m current)
    (hc : current.length ≤ 49) (hr : recent titles = [current]) : IsHistory titles m := by
  intro k hk
  rw [hr]
  cases k with
  | zero => exact ⟨h.top, by rw [h.top]; omega⟩
  | succ k =>
    rw [h.under (k + 1) (by omega) hk]
    exact ⟨rfl, by decide⟩

theorem single_again {current : List UInt8} (h : Single m current) (hc : current.length ≤ 49) (hz : 0 ∉ current) :
    Single (nowPlaying m current) current := by
  have htop : stringAt m (titleHistory 0) 49 = current := by
    rw [stringAt_entry, h.top, List.take_of_length_le hc]
  rw [nowPlaying, if_neg (by rw [htop, List.take_of_length_le hc]; simp)]
  constructor
  · exact stringAt_strcpy m _ hz (by omega)
  · intro k hk hk'
    rw [entry_strcpy_of_ne (by omega) (by omega), h.under k hk hk']

/-- The first reply leaves a right history unless it brings the text of an empty one: two entries were never filled
with that. -/
theorem isHistory_first_iff (hm : ∀ i < 500, m i = 0) {first : List UInt8} (hz : 0 ∉ first) :
    IsHistory [first] (nowPlaying (initHistory m) first) ↔ first.take 49 ≠ noHistory := by
  constructor
  · intro hh hempty
    have hlen : first.length < 49 := by
      have := congrArg List.length hempty
      rw [List.length_take] at this
      have hno : noHistory.length = 12 := rfl
      omega
    have htop : stringAt (initHistory m) (titleHistory 0) 49 = noHistory := by
      rw [stringAt_entry, entry_initHistory]
      rfl
    have hzero : entry m 8 = [] := by
      have hslice : slice m (titleHistory 8) 50 = List.replicate 50 0 := by
        refine List.ext_getElem (by simp) fun i hi _ => ?_
        rw [slice_length] at hi
        simp only [slice, List.getElem_map, List.getElem_range, List.getElem_replicate]
        exact hm _ (by simp only [titleHistory]; omega)
      rw [entry, stringAt, hslice]
      rfl
    have h8 : _ = noHistory := (hh 8 (by decide)).1
    rw [nowPlaying, if_neg (by rw [hempty, htop]; simp), entry_strcpy_of_ne (by omega) (by decide), entry_initHistory,
      if_neg (by decide), hzero] at h8
    exact absurd h8 (by decide)
  · intro hne
    exact single_isHistory (single_first hz hne) (by rw [List.length_take]; omega) rfl

/-- One title all along stays alone in the history. -/
theorem single_replies {first : List UInt8} (hz : 0 ∉ first) (hne : first.take 49 ≠ noHistory) {rest : List (List UInt8)}
    (hrest : ∀ title ∈ rest, title = first.take 49) :
    Single ((first :: rest).foldl nowPlaying (initHistory m)) (first.take 49) ∧
      recent (first :: rest) = [first.take 49] := by
  have hc : (first.take 49).length ≤ 49 := by rw [List.length_take]; omega
  induction rest using List.reverseRecOn with
  | nil => exact ⟨single_first hz hne, rfl⟩
  | append_singleton rest title ih =>
    obtain ⟨hs, hr⟩ := ih fun t ht => hrest t (by simp [ht])
    obtain rfl : title = first.take 49 := hrest title (by simp)
    rw [← List.cons_append]
    constructor
    · rw [List.foldl_append]
      exact single_again hs hc (take_zero_not_mem hz)
    · rw [recent_concat, hr, if_pos (by simp [List.take_take])]

end

/-- The history is right after every reply exactly if the title never changes, is not sent again with more than 49
characters, and is not the text of an empty history. -/
theorem isHistory_iff_oneTitle (m : Nat → UInt8) (hm : ∀ i < 500, m i = 0) (titles : List (List UInt8))
    (hz : ∀ title ∈ titles, 0 ∉ title) :
    (∀ replies, replies <+: titles → replies ≠ [] → IsHistory replies (replies.foldl nowPlaying (initHistory m))) ↔
      OneTitle titles := by
  cases titles with
  | nil => simp [OneTitle]
  | cons first rest =>
    have hzf : 0 ∉ first := hz first List.mem_cons_self
    have hc : (first.take 49).length ≤ 49 := by rw [List.length_take]; omega
    constructor
    · intro h
      have hne := (isHistory_first_iff hm hzf).mp (h [first] (by simp) (by simp))
      -- the replies up to some place, by induction on that place
      have hall : ∀ past, past <+: rest → ∀ title ∈ past, title = first.take 49 := by
        intro past
        induction past using List.reverseRecOn with
        | nil => exact fun _ _ ht => absurd ht List.not_mem_nil
        | append_singleton past title ih =>
          intro hp
          have hpast := ih ((List.prefix_append _ _).trans hp)
          obtain ⟨hs, hr⟩ := single_replies (m := m) hzf hne hpast
          have hh := h (first :: past ++ [title]) (by simpa using hp) (by simp)
          rw [List.foldl_append] at hh
          have htitle := (isHistory_concat_iff hs hc hr hne
            (hz title (List.mem_cons_of_mem _ (hp.subset (by simp))))).mp hh
          intro t ht
          rcases List.mem_append.mp ht with ht | ht
          · exact hpast t ht
          · rw [List.mem_singleton.mp ht, htitle]
      exact ⟨hne, hall rest (List.prefix_refl _)⟩
    · rintro ⟨hne, hrest⟩ replies hp hnil
      obtain ⟨reply, past, rfl⟩ := List.exists_cons_of_ne_nil hnil
      obtain ⟨rfl, hpast⟩ := List.cons_prefix_cons.mp hp
      obtain ⟨hs, hr⟩ := single_replies (m := m) hzf hne fun t ht => hrest t (hpast.subset ht)
      exact single_isHistory hs hc hr

theorem isHistory_one_title :
    IsHistory [[74, 97, 122, 122], [74, 97, 122, 122]]
      ([[74, 97, 122, 122], [74, 97, 122, 122]].foldl nowPlaying (initHistory fun _ => 0)) :=
  (isHistory_iff_oneTitle (fun _ => 0) (fun _ _ => rfl) [[74, 97, 122, 122], [74, 97, 122, 122]] (by decide)).mpr
    ⟨by decide, by decide⟩ _ (List.prefix_refl _) (by simp)

/-- The titles A and B: when B is on top, A is not under it; that entry is still empty. -/
theorem isHistory_two_titles :
    ¬ IsHistory [[65], [66]] ([[65], [66]].foldl nowPlaying (initHistory fun _ => 0)) := by
  have hs : Single (nowPlaying (initHistory fun _ => 0) [65]) [65] := single_first (by decide) (by decide)
  have hiff : IsHistory ([[65]] ++ [[66]]) (nowPlaying (nowPlaying (initHistory fun _ => 0) [65]) [66]) ↔
      ([66] : List UInt8) = [65] :=
    isHistory_concat_iff hs (by decide) rfl (by decide) (show (0 : UInt8) ∉ [66] by decide)
  exact fun h => absurd (hiff.mp h) (by decide)

end Mvpmc.Mclient
