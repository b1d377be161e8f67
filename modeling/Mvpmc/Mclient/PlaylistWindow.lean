import Mvpmc.Mclient.CliDecode
import Mathlib.Data.List.Range

/-! The titles of the playlist that the full screen shows (`mclient_cli.c`): where the list of them begins and how it is
asked for. The menu that the answers are written to and the banner above it are left out; no number here goes beyond an
`int`. -/
namespace Mvpmc.Mclient

def UPDATE_PLAYLIST_MINMINUS1 : Nat := 0
def UPDATE_PLAYLIST_NOWPLAYING : Nat := 1
def UPDATE_PLAYLIST_INDEX : Nat := 2
def UPDATE_PLAYLIST_NUM_TRACKS : Nat := 3
def UPDATE_PLAYLIST_ARTIST : Nat := 4
def UPDATE_PLAYLIST_ALBUM : Nat := 5
def UPDATE_PLAYLIST_TITLE : Nat := 6
def UPDATE_PLAYLIST_MAXPLUS1 : Nat := 7
def UPDATE_RADIO_STATION : Nat := 9
def UPDATE_RADIO_NOWPLAYING : Nat := 10

/-- Of `cli_data` what belongs to the playlist, with `cli_userfocus_timeout`. -/
structure CliPlaylist where
  state : Nat
  tracks : Int
  indexPlaying : Int
  indexUserfocus : Int
  indexInfo : Int
  indexLine : Int
  cliUserfocusTimeout : Int
  deriving DecidableEq, Repr

/-- The title around which the list is shown. -/
def cliDataIndex (d : CliPlaylist) : Int := if d.cliUserfocusTimeout = 0 then d.indexPlaying else d.indexUserfocus

/-- `cli_pick_starting_index`. -/
def cliPickStartingIndex (d : CliPlaylist) : CliPlaylist :=
  let d := { d with indexInfo := 0, indexLine := 0 }
  if cliDataIndex d > (CLI_MAX_TRACKS : Int) / 2 then
    if d.tracks ≥ (CLI_MAX_TRACKS : Int) - 1 then
      let d := { d with indexInfo := cliDataIndex d - CLI_MAX_TRACKS / 2 }
      if d.tracks - d.indexInfo ≤ (CLI_MAX_TRACKS : Int) then { d with indexInfo := d.tracks - (CLI_MAX_TRACKS + 1) } else d
    else d
  else d

/-- What `cli_update_playlist` asks the server for. -/
inductive CliRequest where
  | tracks
  | artist
  | album
  | title (track : Int)
  | index
  | display
  | station
  deriving DecidableEq, Repr

/-- `cli_update_playlist`. -/
def cliUpdatePlaylist (d : CliPlaylist) : CliPlaylist × Option CliRequest :=
  if d.state = UPDATE_PLAYLIST_MAXPLUS1 then ({ d with state := UPDATE_PLAYLIST_MINMINUS1 + 1 }, none)
  else if d.state = UPDATE_PLAYLIST_NUM_TRACKS then (cliPickStartingIndex d, some .tracks)
  else if d.state = UPDATE_PLAYLIST_ARTIST then (cliPickStartingIndex d, some .artist)
  else if d.state = UPDATE_PLAYLIST_ALBUM then (cliPickStartingIndex d, some .album)
  else if d.state = UPDATE_PLAYLIST_TITLE then (d, some (.title d.indexInfo))
  else if d.state = UPDATE_PLAYLIST_INDEX then (cliPickStartingIndex d, some .index)
  else if d.state = UPDATE_PLAYLIST_NOWPLAYING ∨ d.state = UPDATE_RADIO_NOWPLAYING then
    (cliPickStartingIndex d, some .display)
  else if d.state = UPDATE_RADIO_STATION then (cliPickStartingIndex d, some .station)
  else (d, none)

/-- The branch of `cli_parse_playlist` for a title. -/
def cliParseTitle (d : CliPlaylist) : CliPlaylist :=
  if d.tracks = 1 then { d with state := d.state + 1 }
  else
    let d := { d with indexInfo := d.indexInfo + 1, indexLine := d.indexLine + 1 }
    if d.indexLine > (CLI_MAX_TRACKS : Int) ∨ d.indexInfo ≥ d.tracks then
      let d := cliPickStartingIndex d
      { d with state := d.state + 1 }
    else d

@[simp] theorem cliPickStartingIndex_state (d : CliPlaylist) : (cliPickStartingIndex d).state = d.state := by
  grind [cliPickStartingIndex]

@[simp] theorem cliPickStartingIndex_tracks (d : CliPlaylist) : (cliPickStartingIndex d).tracks = d.tracks := by
  grind [cliPickStartingIndex]

@[simp] theorem cliPickStartingIndex_indexLine (d : CliPlaylist) : (cliPickStartingIndex d).indexLine = 0 := by
  grind [cliPickStartingIndex]

/-- An answer goes to the next line, or out of the state of the titles. -/
theorem cliParseTitle_cases (d : CliPlaylist) :
    (cliParseTitle d).state = d.state + 1 ∨
      (cliParseTitle d).state = d.state ∧ (cliParseTitle d).indexLine = d.indexLine + 1 ∧
        (cliParseTitle d).indexLine ≤ (CLI_MAX_TRACKS : Int) := by
  grind [cliParseTitle, cliPickStartingIndex_state]

/-- A title is asked for in the state of the titles only. -/
theorem cliUpdatePlaylist_title {d : CliPlaylist} {k : Int} :
    (cliUpdatePlaylist d).2 = some (.title k) ↔ d.state = UPDATE_PLAYLIST_TITLE ∧ k = d.indexInfo := by
  grind [cliUpdatePlaylist, UPDATE_PLAYLIST_TITLE, UPDATE_PLAYLIST_MAXPLUS1, UPDATE_PLAYLIST_NUM_TRACKS,
    UPDATE_PLAYLIST_ARTIST, UPDATE_PLAYLIST_ALBUM]

/-- The tracks whose titles are asked for, each request answered once. -/
def titleRequests (d : CliPlaylist) : List Int :=
  match _h : (cliUpdatePlaylist d).2 with
  | some (.title k) => k :: titleRequests (cliParseTitle d)
  | _ => []
termination_by if d.state = UPDATE_PLAYLIST_TITLE then (CLI_MAX_TRACKS + 1 - d.indexLine).toNat + 1 else 0
decreasing_by
  have := cliUpdatePlaylist_title.mp _h
  have := cliParseTitle_cases d
  grind

/-- What is asked of the requests of one list: they are for tracks in a row that there are, no more than the screen
has lines, and for the title around which the list is shown. -/
structure AsksExisting (tracks index : Int) (requests : List Int) : Prop where
  consecutive : ∃ start : Int, requests = (List.range requests.length).map fun i : Nat => start + i
  inside : ∀ k ∈ requests, 0 ≤ k ∧ k < tracks
  few : requests.length ≤ CLI_MAX_TRACKS + 1
  shown : index ∈ requests

section
variable {d : CliPlaylist}

theorem titleRequests_of_ne (h : d.state ≠ UPDATE_PLAYLIST_TITLE) : titleRequests d = [] := by
  rw [titleRequests]
  split
  case _ k hk => exact absurd (cliUpdatePlaylist_title.mp hk).1 h
  case _ => rfl

theorem titleRequests_of_eq (h : d.state = UPDATE_PLAYLIST_TITLE) :
    titleRequests d = d.indexInfo :: titleRequests (cliParseTitle d) := by
  rw [titleRequests]
  split
  case _ k hk => rw [(cliUpdatePlaylist_title.mp hk).2]
  case _ hk => exact absurd (cliUpdatePlaylist_title.mpr ⟨h, rfl⟩) (hk _)

/-- An answer where the list goes on. -/
theorem cliParseTitle_next (h : d.tracks ≠ 1) (hl : d.indexLine + 1 ≤ (CLI_MAX_TRACKS : Int))
    (hi : d.indexInfo + 1 < d.tracks) :
    cliParseTitle d = { d with indexInfo := d.indexInfo + 1, indexLine := d.indexLine + 1 } := by
  grind [cliParseTitle]

/-- The answer that ends the list. -/
theorem cliParseTitle_last (h : d.tracks ≠ 1)
    (hl : (CLI_MAX_TRACKS : Int) < d.indexLine + 1 ∨ d.tracks ≤ d.indexInfo + 1) :
    (cliParseTitle d).state = d.state + 1 := by
  grind [cliParseTitle, cliPickStartingIndex_state]

/-- The walk down the screen asks for one track after the other until the lines or the tracks are used up. -/
theorem titleRequests_eq (count : Nat) (hs : d.state = UPDATE_PLAYLIST_TITLE) (ht : d.tracks ≠ 1)
    (hc : (count : Int) = min ((CLI_MAX_TRACKS : Int) - d.indexLine) (d.tracks - 1 - d.indexInfo)) :
    titleRequests d = (List.range (count + 1)).map fun i : Nat => d.indexInfo + i := by
  induction count generalizing d with
  | zero =>
    have hlast := cliParseTitle_last ht (by omega)
    have hdone : (cliParseTitle d).state ≠ UPDATE_PLAYLIST_TITLE := by omega
    rw [titleRequests_of_eq hs, titleRequests_of_ne hdone]
    simp
  | succ count ih =>
    have hnext := cliParseTitle_next ht (by omega) (by omega)
    have hrest := @ih (cliParseTitle d) (by rw [hnext]; exact hs) (by rw [hnext]; exact ht)
      (by rw [hnext]; simp only; omega)
    have hrange : List.range (count + 1 + 1) = 0 :: (List.range (count + 1)).map Nat.succ := List.range_succ_eq_map
    rw [titleRequests_of_eq hs, hrest, hnext, hrange, List.map_cons, List.map_map]
    refine congrArg₂ _ (by simp) (List.map_congr_left fun i _ => ?_)
    simp only [Function.comp_apply]
    omega

/-- Where the list begins: at the first track, half a screen before the title it is shown around, or a screen before
the end. -/
theorem cliPickStartingIndex_indexInfo :
    (cliPickStartingIndex d).indexInfo =
      if cliDataIndex d ≤ 4 ∨ d.tracks < 7 then 0
      else if d.tracks ≤ cliDataIndex d + 4 then d.tracks - 9 else cliDataIndex d - 4 := by
  grind [cliPickStartingIndex, cliDataIndex, CLI_MAX_TRACKS]

theorem asksExisting_range {tracks index start : Int} {count : Nat} (h0 : 0 ≤ start) (ht : start + count ≤ tracks)
    (hc : count ≤ CLI_MAX_TRACKS + 1) (hi : start ≤ index) (hic : index < start + count) :
    AsksExisting tracks index ((List.range count).map fun i : Nat => start + i) where
  consecutive := ⟨start, by simp⟩
  inside := by
    intro k hk
    obtain ⟨i, hi, rfl⟩ := List.mem_map.mp hk
    have := List.mem_range.mp hi
    omega
  few := by simpa using hc
  shown := List.mem_map.mpr ⟨(index - start).toNat, List.mem_range.mpr (by omega), by omega⟩

/-- All requests of a list, from the picking of its start. -/
theorem titleRequests_picked (hs : d.state = UPDATE_PLAYLIST_TITLE) (ht : 2 ≤ d.tracks) :
    titleRequests (cliPickStartingIndex d) =
      (List.range (min 9 (d.tracks - (cliPickStartingIndex d).indexInfo)).toNat).map
        fun i : Nat => (cliPickStartingIndex d).indexInfo + i := by
  have hinfo := @cliPickStartingIndex_indexInfo d
  have hlt : (cliPickStartingIndex d).indexInfo < d.tracks := by
    rw [hinfo]
    split <;> [skip; split] <;> omega
  rw [titleRequests_eq (min 9 (d.tracks - (cliPickStartingIndex d).indexInfo) - 1).toNat (by simpa using hs)
    (by simp; omega) (by simp [CLI_MAX_TRACKS]; omega)]
  congr 2
  omega

end

/-- The list asks only for tracks that there are, unless seven or eight tracks are shown around one behind the first
five. -/
theorem titleRequests_existing_iff (d : CliPlaylist) (hs : d.state = UPDATE_PLAYLIST_TITLE) (ht : 2 ≤ d.tracks)
    (h0 : 0 ≤ cliDataIndex d) (hi : cliDataIndex d < d.tracks) :
    AsksExisting d.tracks (cliDataIndex d) (titleRequests (cliPickStartingIndex d)) ↔
      (d.tracks ≤ 6 ∨ 9 ≤ d.tracks ∨ cliDataIndex d ≤ 4) := by
  have hinfo := @cliPickStartingIndex_indexInfo d
  rw [titleRequests_picked hs ht]
  constructor
  · intro h
    by_contra hbad
    have hfirst := h.inside (cliPickStartingIndex d).indexInfo
      (List.mem_map.mpr ⟨0, List.mem_range.mpr (by grind), by simp⟩)
    grind
  · intro h
    apply asksExisting_range <;> grind [CLI_MAX_TRACKS]

theorem titleRequests_existing_ten :
    AsksExisting 10 7 (titleRequests (cliPickStartingIndex ⟨6, 10, 7, 0, 0, 0, 0⟩)) :=
  (titleRequests_existing_iff ⟨6, 10, 7, 0, 0, 0, 0⟩ rfl (by decide) (by decide) (by decide)).mpr (by decide)

/-- Seven tracks of which the sixth is playing: the first request is for the track number -2. -/
theorem titleRequests_negative :
    (-2) ∈ titleRequests (cliPickStartingIndex ⟨6, 7, 5, 0, 0, 0, 0⟩) ∧
      ¬ AsksExisting 7 5 (titleRequests (cliPickStartingIndex ⟨6, 7, 5, 0, 0, 0, 0⟩)) := by
  have hmem : (-2) ∈ titleRequests (cliPickStartingIndex ⟨6, 7, 5, 0, 0, 0, 0⟩) := by
    rw [titleRequests_picked rfl (by decide)]
    decide
  exact ⟨hmem, fun h => absurd (h.inside _ hmem).1 (by decide)⟩

end Mvpmc.Mclient
