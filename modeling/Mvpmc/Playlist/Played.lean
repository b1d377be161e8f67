import Mvpmc.Lib.Reach
import Mvpmc.Playlist.NothingLost
import Mvpmc.Playlist.OnePerLine

/-! A playlist from the file it is built from through all that is done with it. -/
namespace Mvpmc.Playlist
open Mvpmc.Lib

/-- What is done with a playlist: another item of its menu is highlighted, another one is played, or it is shuffled. -/
inductive Use where
  | highlight (current : Nat)
  | play (playlist : Option Nat)
  | shuffle (rand : Nat → Nat)

def Use.Does (s : Player) : Use → Player → Prop
  | highlight current, s' => current < s.menu.length ∧ s' = { s with current := current }
  | play playlist, s' => s' = { s with playlist := playlist }
  | shuffle rand, s' => playlistRandomize rand s = some s'

/-- The playlists that come of one. -/
def Player.Reached (s₀ : Player) : Player → Prop := Reach (· = s₀) Use.Does

section
variable {s₀ s s' : Player} {addrs : List Nat}

theorem Built.menu_length (h : Built s addrs) : s.menu.length = addrs.length := by
  have hlen := congrArg List.length h.menu
  rwa [List.length_map, List.length_map] at hlen

/-- A playlist as it is built, with the tracks of another. -/
structure Keeps (addrs : List Nat) (s₀ s : Player) : Prop where
  built : Built s addrs
  links : s.heap.map Node.links = s₀.heap.map Node.links
  tracks : (addrs.map (trackAt s.heap)).Perm (addrs.map (trackAt s₀.heap))

theorem Keeps.use (h : Keeps addrs s₀ s) {use : Use} (hu : use.Does s s') : Keeps addrs s₀ s' := by
  cases use with
  | highlight current =>
    obtain ⟨hlt, rfl⟩ := hu
    have hcurrent : current < addrs.length := h.built.menu_length ▸ hlt
    exact ⟨⟨h.built.linked, h.built.keys, h.built.menu, fun _ => hcurrent⟩, h.links, h.tracks⟩
  | play playlist =>
    obtain rfl := hu
    exact ⟨⟨h.built.linked, h.built.keys, h.built.menu, h.built.current⟩, h.links, h.tracks⟩
  | shuffle rand =>
    obtain ⟨s'', hrun, hlost, hbuilt⟩ := h.built.randomize rand
    obtain rfl := Option.some.inj (hrun.symm.trans hu)
    exact ⟨hbuilt, hlost.links.trans h.links, hlost.tracks.trans h.tracks⟩

/-- Whatever is done with a playlist, it keeps its items and tracks, and goes on being one. -/
theorem Player.Reached.keeps (h : s₀.Reached s) (hb : Built s₀ addrs) : Keeps addrs s₀ s := by
  refine Reach.invariant ?_ ?_ h
  · rintro s rfl
    exact ⟨hb, rfl, .rfl⟩
  · exact fun _ _ _ hs hu => hs.use hu

end

/-- What the menu shows of some items. -/
def shown (nodes : List Node) : List (List UInt8 × Nat) := nodes.map fun n => (n.track.label, n.key)

theorem shown_appendNode (nodes : List Node) (dest : Option Nat) (track : Track) (key : Nat) :
    shown (appendNode nodes dest track key) = shown nodes ++ [(track.label, key)] := by
  unfold shown
  cases dest with
  | none => exact List.map_append
  | some d =>
    have hkeep : (nodes.modify d fun n => { n with next := some nodes.length }).map (fun n => (n.track.label, n.key)) =
        nodes.map fun n => (n.track.label, n.key) := by
      refine List.ext_getElem? fun k => ?_
      rw [List.getElem?_map, List.getElem?_map, List.getElem?_modify, Option.map_eq_map, Option.map_map]
      refine Option.map_congr fun n _ => ?_
      dsimp only [Function.comp_apply]
      split <;> rfl
    rw [appendNode, List.map_append, hkeep]
    rfl

section File
variable {mem : Surroundings} {cwd : List UInt8} {s : Build}

/-- An item is shown in the menu when it is made. -/
theorem Build.takeLine_menu (h : s.menu = shown s.nodes) (l : List UInt8) :
    (Build.takeLine mem cwd s l).menu = shown (Build.takeLine mem cwd s l).nodes := by
  cases l with
  | nil => exact h
  | cons b bytes =>
    unfold Build.takeLine Build.endLine
    dsimp only
    split
    · exact h
    · unfold Build.addItem
      dsimp only
      rw [shown_appendNode, h]

theorem Build.lines_menu (mem : Surroundings) (cwd : List UInt8) (h : s.menu = shown s.nodes) (ls : List (List UInt8)) :
    (ls.foldl (Build.takeLine mem cwd) s).menu = shown (ls.foldl (Build.takeLine mem cwd) s).nodes := by
  induction ls generalizing s with
  | nil => exact h
  | cons l ls ih => exact ih (Build.takeLine_menu h l)

/-- The playlist that is built, with the first item of its menu highlighted. -/
def Build.player (b : Build) : Player := ⟨b.nodes, b.playlist, b.playlist, b.menu, 0⟩

theorem leads_nodesOf (tracks : List Track) (l : List Nat) {k : Nat} (hk : k + l.length = tracks.length)
    (hl : l = List.range' k l.length) :
    Lib.Path.Leads (nextOf (nodesOf tracks)) (if l = [] then none else some k) l := by
  induction l generalizing k with
  | nil => rfl
  | cons a l ih =>
    rw [List.length_cons, List.range'_succ] at hl
    obtain ⟨rfl, hl⟩ := List.cons.inj hl
    rw [List.length_cons] at hk
    have hrest := ih (k := a + 1) (by omega) hl
    have hnext : nextOf (nodesOf tracks) a = if l = [] then none else some (a + 1) := by
      rw [nextOf, next_nodesOf (by omega)]
      simp only [← List.length_eq_zero_iff]
      split <;> split <;> first | rfl | omega
    exact ⟨if_neg (List.cons_ne_nil a l), hnext ▸ hrest⟩

/-- Tracks that are linked one after the other make a playlist. -/
theorem built_nodesOf (tracks : List Track) {current : Nat} (hc : tracks ≠ [] → current < tracks.length)
    (playlist : Option Nat) :
    Built ⟨nodesOf tracks, if tracks = [] then none else some 0, playlist, shown (nodesOf tracks), current⟩
      (List.range tracks.length) where
  linked := by
    refine ⟨?_, fun a ha => by simpa using ha⟩
    have hleads := leads_nodesOf tracks (List.range tracks.length) (k := 0) (by simp)
      (by rw [List.length_range, List.range_eq_range'])
    simpa using hleads
  keys := by
    rw [List.length_range]
    refine List.map_congr_left fun a ha => ?_
    rw [keyAt, nodesOf_getElem (List.mem_range.mp ha)]
    rfl
  menu := by
    refine List.ext_getElem? fun k => ?_
    rw [shown, List.getElem?_map, List.getElem?_map, List.getElem?_map]
    by_cases hk : k < tracks.length
    · have hshown : shownAt (nodesOf tracks) k = some (tracks[k].label, k) := by
        rw [shownAt, nodesOf_getElem hk]
        rfl
      rw [List.getElem?_range hk, Option.map_some, hshown, nodesOf_getElem hk]
      rfl
    · rw [List.getElem?_eq_none (by simpa using hk), List.getElem?_eq_none (by simpa using hk)]
      rfl
  current hne := by
    rw [List.length_range]
    exact hc fun h => hne (by rw [h]; rfl)

/-- What is built from a file is a playlist. -/
theorem buildPlaylistFromFile_built {signed : Bool} {pieces : Nat → Nat → Nat} {filename content : List UInt8}
    (junk : List UInt8) (h0 : 0 ∉ content) (hp : ∀ k n, 0 < n → 1 ≤ pieces k n) :
    Built (buildPlaylistFromFile mem signed pieces filename content junk).player
      (List.range (buildPlaylistFromFile mem signed pieces filename content junk).nodes.length) := by
  obtain ⟨since, hholds⟩ := buildPlaylistFromFile_holds mem signed filename junk h0 hp
  have hmenu : (Build.mk [] 0 none (-1) [] none 0 [] none false).menu = shown [] := rfl
  have hlines := Build.lines_menu mem (dirOf filename) hmenu (lines (readable signed content))
  rw [← buildPlaylistFromFile_eq junk h0 hp] at hlines
  generalize buildPlaylistFromFile mem signed pieces filename content junk = b at hholds hlines
  rw [Build.player, hlines, hholds.playlist, hholds.nodes, length_nodesOf]
  generalize sections [] (lines (readable signed content)) = ts
  have hempty : (ts = []) = (ts.mapIdx (Section.track mem (dirOf filename)) = []) := by simp
  simp only [hempty]
  exact built_nodesOf _ (fun hne => List.length_pos_iff.mpr hne) _

end File

/-- The player: whether the list is repeated, the file that is played, and all files that have been so since the list was
loaded. -/
structure Playing where
  player : Player
  playlistRepeat : Bool
  current : Option (List UInt8)
  started : List (List UInt8)
  deriving DecidableEq

/-- `playlist_change`; of what is done to play the file only that it is the current one. -/
def playlistChange (next : Option Nat) (s : Playing) : Option Playing :=
  match s.player.playlist, next with
  | none, _ => some s
  | some _, none => some { s with player := { s.player with playlist := none }, current := none }
  | some _, some a => do
    let node ← s.player.heap[a]?
    let hilite := menuHiliteItem node.key s.player.menu 0 s.player.current
    some { s with
      player := { s.player with playlist := some a, current := hilite }
      current := some node.track.filename
      started := s.started ++ [node.track.filename] }

/-- `playlist_next`. -/
def playlistNext (s : Playing) : Option Playing :=
  match s.player.playlist with
  | none => some s
  | some p => do
    let node ← s.player.heap[p]?
    playlistChange (if node.next = none ∧ s.playlistRepeat = true then s.player.head else node.next) s

/-- `playlist_prev`. -/
def playlistPrev (s : Playing) : Option Playing :=
  match s.player.playlist with
  | none => some s
  | some p => do
    let node ← s.player.heap[p]?
    playlistChange node.prev s

/-- `playlist_stop`. -/
def playlistStop (s : Playing) : Playing := { s with player := { s.player with playlist := none }, current := none }

/-- `select_callback`, when the player has been stopped. -/
def selectCallback (key : Nat) (s : Playing) : Option Playing :=
  match selectKey s.player.heap key s.player.heap.length s.player.head with
  | none => some s
  | some pl => playlistChange (some pl) { s with player := { s.player with playlist := s.player.playlist.or (some pl) } }

/-- What is done with the player. -/
inductive Act where
  | next
  | prev
  | stop
  | select (key : Nat)
  | highlight (current : Nat)
  | setRepeat (on : Bool)
  | shuffle (rand : Nat → Nat)

/-- `none` where the code would follow a wild pointer; only an item of the menu can be highlighted. -/
def Act.run : Act → Playing → Option Playing
  | next, s => playlistNext s
  | prev, s => playlistPrev s
  | stop, s => some (playlistStop s)
  | select key, s => selectCallback key s
  | highlight current, s =>
    some { s with player := { s.player with current := if current < s.player.menu.length then current else s.player.current } }
  | setRepeat on, s => some { s with playlistRepeat := on }
  | shuffle rand, s => (playlistRandomize rand s.player).map fun player => { s with player := player }

/-- The playlist of some tracks, when it has been loaded. -/
def loaded (tracks : List Track) : Player :=
  ⟨nodesOf tracks, if tracks = [] then none else some 0, if tracks = [] then none else some 0, shown (nodesOf tracks), 0⟩

/-- The states that the player comes to with a playlist. -/
def Playing.Reached (tracks : List Track) : Playing → Prop :=
  Reach (fun s => s.player = loaded tracks ∧ s.started = []) fun s (a : Act) s' => a.run s = some s'

section Goes
variable {tracks : List Track} {s s' : Playing}

/-- The playlist keeps its items and tracks, and `playlist` is one of its items. -/
structure Goes (tracks : List Track) (s : Playing) : Prop where
  keeps : Keeps (List.range tracks.length) (loaded tracks) s.player
  head : s.player.head = if tracks = [] then none else some 0
  playlist : ∀ a, s.player.playlist = some a → a < tracks.length

theorem Goes.start (h : s.player = loaded tracks) : Goes tracks s where
  keeps := by
    rw [h]
    exact ⟨built_nodesOf tracks (fun hne => List.length_pos_iff.mpr hne) _, rfl, .rfl⟩
  head := by rw [h]; rfl
  playlist a ha := by
    rw [h, loaded] at ha
    dsimp only at ha
    split at ha
    · cases ha
    · obtain rfl := Option.some.inj ha
      exact List.length_pos_iff.mpr (by assumption)

theorem Goes.length_heap (h : Goes tracks s) : s.player.heap.length = tracks.length := by
  have hlen := congrArg List.length h.keeps.links
  rwa [List.length_map, List.length_map, loaded, length_nodesOf] at hlen

theorem Goes.length_menu (h : Goes tracks s) : s.player.menu.length = tracks.length := by
  rw [h.keeps.built.menu_length, List.length_range]

/-- The item at an address, and where its links lead. -/
theorem Goes.node (h : Goes tracks s) {a : Nat} (ha : a < tracks.length) : ∃ node, s.player.heap[a]? = some node ∧
    node.next = (if a + 1 < tracks.length then some (a + 1) else none) ∧
    node.prev = if a = 0 then none else some (a - 1) := by
  obtain ⟨node, hnode⟩ := exists_node (h.length_heap.symm ▸ ha)
  have hlinks := at_of_map h.keeps.links a
  rw [hnode, loaded, nodesOf_getElem ha, Option.map_some, Option.map_some] at hlinks
  obtain ⟨hnext, hprev⟩ := Prod.mk.inj (Option.some.inj hlinks)
  exact ⟨node, hnode, hnext, hprev⟩

theorem menuHiliteItem_lt {key n : Nat} {menu : List (List UInt8 × Nat)} {i current : Nat} (hc : current < n)
    (hn : i + menu.length ≤ n) : menuHiliteItem key menu i current < n := by
  induction menu generalizing i current with
  | nil => exact hc
  | cons item items ih =>
    rw [List.length_cons] at hn
    unfold menuHiliteItem
    refine ih ?_ (by omega)
    split
    · omega
    · exact hc

theorem Goes.put (h : Goes tracks s) {playlist : Option Nat} (hp : ∀ a, playlist = some a → a < tracks.length)
    {current : Nat} (hc : tracks ≠ [] → current < tracks.length) (on : Bool) (file : Option (List UInt8))
    (started : List (List UInt8)) :
    Goes tracks ⟨{ s.player with playlist := playlist, current := current }, on, file, started⟩ where
  keeps := by
    refine ⟨⟨h.keeps.built.linked, h.keeps.built.keys, h.keeps.built.menu, fun hne => ?_⟩, h.keeps.links, h.keeps.tracks⟩
    rw [List.length_range]
    exact hc fun hempty => hne (by rw [hempty]; rfl)
  head := h.head
  playlist := hp

theorem Goes.current (h : Goes tracks s) (hne : tracks ≠ []) : s.player.current < tracks.length := by
  have hlt := h.keeps.built.current fun hempty => hne (List.length_eq_zero_iff.mp (by simpa using hempty))
  rwa [List.length_range] at hlt

/-- The file of an item. -/
def fileAt (heap : List Node) (a : Nat) : List UInt8 := ((trackAt heap a).map Track.filename).getD []

theorem playlistChange_none {p : Nat} (hp : s.player.playlist = some p) : playlistChange none s =
    some { s with player := { s.player with playlist := none }, current := none } := by
  unfold playlistChange
  rw [hp]

theorem playlistChange_some {p a : Nat} {node : Node} (hp : s.player.playlist = some p) (hnode : s.player.heap[a]? = some node) :
    playlistChange (some a) s = some
      ⟨{ s.player with playlist := some a, current := menuHiliteItem node.key s.player.menu 0 s.player.current },
        s.playlistRepeat, some node.track.filename, s.started ++ [node.track.filename]⟩ := by
  unfold playlistChange
  rw [hp]
  dsimp only
  rw [hnode]
  rfl

/-- What `playlist_change` does to a list that is played. -/
theorem Goes.change (h : Goes tracks s) {p : Nat} (hp : s.player.playlist = some p) {next : Option Nat}
    (hn : ∀ a, next = some a → a < tracks.length) : ∃ s', playlistChange next s = some s' ∧ Goes tracks s' ∧
      s'.player.heap = s.player.heap ∧ s'.playlistRepeat = s.playlistRepeat ∧ s'.player.playlist = next ∧
      s'.started = s.started ++ (next.map (fileAt s.player.heap)).toList := by
  cases next with
  | none =>
    refine ⟨_, playlistChange_none hp, h.put hn h.current _ _ _, rfl, rfl, rfl, ?_⟩
    exact (List.append_nil _).symm
  | some a =>
    obtain ⟨node, hnode, -⟩ := h.node (hn a rfl)
    have hfile : fileAt s.player.heap a = node.track.filename := by
      rw [fileAt, trackAt, hnode]
      rfl
    have hlt : tracks ≠ [] → menuHiliteItem node.key s.player.menu 0 s.player.current < tracks.length := fun hne =>
      menuHiliteItem_lt (h.current hne) (by rw [Nat.zero_add, h.length_menu])
    refine ⟨_, playlistChange_some hp hnode, h.put hn hlt _ _ _, rfl, rfl, rfl, ?_⟩
    rw [Option.map_some, hfile]
    rfl

/-- A list that is not played stays as it is. -/
theorem playlistChange_idle (next : Option Nat) (hp : s.player.playlist = none) : playlistChange next s = some s := by
  unfold playlistChange
  rw [hp]

theorem Goes.changes (h : Goes tracks s) {next : Option Nat} (hn : ∀ a, next = some a → a < tracks.length) :
    ∃ s', playlistChange next s = some s' ∧ Goes tracks s' := by
  cases hp : s.player.playlist with
  | none => exact ⟨s, playlistChange_idle next hp, h⟩
  | some p =>
    obtain ⟨s', hs', h', -⟩ := h.change hp hn
    exact ⟨s', hs', h'⟩

/-- Behind the last item comes the first one, if the list is repeated. -/
theorem Goes.next (h : Goes tracks s) {p : Nat} (hp : s.player.playlist = some p) : ∃ next,
    playlistNext s = playlistChange next s ∧ (∀ a, next = some a → a < tracks.length) ∧
      (s.playlistRepeat = true → next = some ((p + 1) % tracks.length)) := by
  have hlt := h.playlist p hp
  have hne : tracks ≠ [] := List.ne_nil_of_length_pos (by omega)
  obtain ⟨node, hnode, hnext, -⟩ := h.node hlt
  refine ⟨if node.next = none ∧ s.playlistRepeat = true then s.player.head else node.next, ?_, ?_, ?_⟩
  · unfold playlistNext
    rw [hp]
    dsimp only
    rw [hnode]
    rfl
  · rw [h.head, if_neg hne, hnext]
    intro a ha
    have hpos : 0 < tracks.length := by omega
    by_cases hlast : p + 1 < tracks.length
    · rw [if_pos hlast, if_neg (fun h => absurd h.1 nofun)] at ha
      exact Option.some.inj ha ▸ hlast
    · rw [if_neg hlast] at ha
      split at ha
      · exact Option.some.inj ha ▸ hpos
      · cases ha
  · intro hrepeat
    rw [h.head, if_neg hne, hnext, hrepeat]
    by_cases hlast : p + 1 < tracks.length
    · rw [if_pos hlast, if_neg (fun h => absurd h.1 nofun), Nat.mod_eq_of_lt hlast]
    · have hend : p + 1 = tracks.length := by omega
      rw [if_neg hlast, if_pos ⟨rfl, rfl⟩, hend, Nat.mod_self]

theorem Goes.playlistNext (h : Goes tracks s) : ∃ s', Playlist.playlistNext s = some s' ∧ Goes tracks s' := by
  cases hp : s.player.playlist with
  | none =>
    refine ⟨s, ?_, h⟩
    unfold Playlist.playlistNext
    rw [hp]
  | some p =>
    obtain ⟨next, hnext, hn, -⟩ := h.next hp
    rw [hnext]
    exact h.changes hn

theorem Goes.playlistPrev (h : Goes tracks s) : ∃ s', Playlist.playlistPrev s = some s' ∧ Goes tracks s' := by
  cases hp : s.player.playlist with
  | none =>
    refine ⟨s, ?_, h⟩
    unfold Playlist.playlistPrev
    rw [hp]
  | some p =>
    have hlt := h.playlist p hp
    obtain ⟨node, hnode, -, hprev⟩ := h.node hlt
    have hn : ∀ a, node.prev = some a → a < tracks.length := by
      intro a ha
      rw [hprev] at ha
      split at ha
      · cases ha
      · obtain rfl := Option.some.inj ha
        omega
    obtain ⟨s', hs', h'⟩ := h.changes hn
    refine ⟨s', ?_, h'⟩
    unfold Playlist.playlistPrev
    rw [hp]
    dsimp only
    rw [hnode]
    exact hs'

theorem Goes.select (h : Goes tracks s) (key : Nat) : ∃ s', selectCallback key s = some s' ∧ Goes tracks s' := by
  have hkeys := h.keeps.built.keys
  rw [List.range_eq_range' (n := (List.range tracks.length).length)] at hkeys
  have hwalk := selectKey_eq h.keeps.built.linked.leads hkeys h.keeps.built.linked.length_le key
  rw [placed_zero] at hwalk
  unfold selectCallback
  rw [hwalk]
  cases hat : (List.range tracks.length)[key]? with
  | none => exact ⟨s, rfl, h⟩
  | some pl =>
    have hpl : pl < tracks.length := List.mem_range.mp (List.mem_of_getElem? hat)
    have hput : ∀ a, s.player.playlist.or (some pl) = some a → a < tracks.length := by
      intro a ha
      cases hp : s.player.playlist with
      | none =>
        rw [hp, Option.none_or] at ha
        exact Option.some.inj ha ▸ hpl
      | some p =>
        rw [hp, Option.some_or] at ha
        exact Option.some.inj ha ▸ h.playlist p hp
    exact (h.put hput h.current s.playlistRepeat s.current s.started).changes fun a ha => Option.some.inj ha ▸ hpl

/-- Whatever is done, the player goes on with its playlist. -/
theorem Goes.act (h : Goes tracks s) (a : Act) : ∃ s', a.run s = some s' ∧ Goes tracks s' := by
  cases a with
  | next => exact h.playlistNext
  | prev => exact h.playlistPrev
  | stop =>
    have hstopped : ∀ a, (none : Option Nat) = some a → a < tracks.length := fun a ha => nomatch ha
    exact ⟨_, rfl, h.put hstopped h.current _ _ _⟩
  | select key => exact h.select key
  | highlight current =>
    have hlt : tracks ≠ [] →
        (if current < s.player.menu.length then current else s.player.current) < tracks.length := by
      intro hne
      rw [h.length_menu]
      split
      · assumption
      · exact h.current hne
    exact ⟨_, rfl, h.put h.playlist hlt _ _ _⟩
  | setRepeat on => exact ⟨_, rfl, h.put h.playlist h.current on _ _⟩
  | shuffle rand =>
    obtain ⟨player, hrun, hlost, hbuilt⟩ := h.keeps.built.randomize rand
    have hkeeps : Keeps (List.range tracks.length) (loaded tracks) player :=
      ⟨hbuilt, hlost.links.trans h.keeps.links, hlost.tracks.trans h.keeps.tracks⟩
    refine ⟨{ s with player := player }, by rw [Act.run, hrun]; rfl, hkeeps, hlost.head.trans h.head, fun a ha => ?_⟩
    by_cases hne : tracks = []
    · have hsame : playlistRandomize rand s.player = some s.player := by
        unfold playlistRandomize
        rw [h.head, if_pos hne]
      obtain rfl := Option.some.inj (hsame.symm.trans hrun)
      exact h.playlist a ha
    · obtain ⟨b, hb, track, hplaylist, -, -⟩ := hlost.playlist fun hempty =>
        hne (List.length_eq_zero_iff.mp (by simpa using hempty))
      obtain rfl := Option.some.inj (hplaylist.symm.trans ha)
      exact List.mem_range.mp hb

/-- What holds of the player in every state that it comes to. -/
theorem Playing.Reached.goes (h : Playing.Reached tracks s) : Goes tracks s := by
  refine Reach.invariant ?_ ?_ h
  · exact fun _ hs => Goes.start hs.1
  · intro s a s' hs hrun
    obtain ⟨s'', hs'', hgoes⟩ := Goes.act hs a
    exact Option.some.inj (hs''.symm.trans hrun) ▸ hgoes

/-- `playlist_next`, `k` times. -/
def playlistNexts : Nat → Playing → Option Playing
  | 0, s => some s
  | k + 1, s => (playlistNext s).bind (playlistNexts k)

/-- With the list repeated, the items come one after the other, and the first one again behind the last. -/
theorem Goes.nexts (h : Goes tracks s) (hrepeat : s.playlistRepeat = true) {p : Nat} (hp : s.player.playlist = some p) (k : Nat) :
    ∃ s', playlistNexts k s = some s' ∧ s'.player.playlist = some ((p + k) % tracks.length) ∧
      s'.started = s.started ++ (List.range k).map fun j => fileAt s.player.heap ((p + 1 + j) % tracks.length) := by
  induction k generalizing s p with
  | zero => exact ⟨s, rfl, by rw [Nat.add_zero, Nat.mod_eq_of_lt (h.playlist p hp), hp], (List.append_nil _).symm⟩
  | succ k ih =>
    obtain ⟨next, hnext, hn, hwrap⟩ := h.next hp
    obtain ⟨s₁, hs₁, h₁, hheap, hrepeat₁, hplaylist, hstarted⟩ := h.change hp hn
    rw [hwrap hrepeat] at hplaylist hstarted
    obtain ⟨s', hs', hplaylist', hstarted'⟩ := ih h₁ (hrepeat₁.trans hrepeat) hplaylist
    refine ⟨s', ?_, ?_, ?_⟩
    · rw [playlistNexts, hnext, hs₁]
      exact hs'
    · rw [hplaylist', Nat.mod_add_mod, Nat.add_assoc, Nat.add_comm 1]
    · have hplace (j : Nat) : ((p + 1) % tracks.length + 1 + j) % tracks.length = (p + 1 + (j + 1)) % tracks.length := by
        rw [Nat.add_assoc, Nat.mod_add_mod, Nat.add_comm 1 j]
      simp only [hstarted', hstarted, hheap, hplace]
      rw [List.range_succ_eq_map, List.map_cons, List.map_map, List.append_assoc]
      rfl

/-- The numbers below `n`, from any of them on. -/
theorem range_turned (n m : Nat) : ((List.range n).map fun j => (m + j) % n) = (List.range n).rotate m := by
  refine List.ext_getElem (by simp) fun j hj hj' => ?_
  simp [List.getElem_rotate, Nat.add_comm]

/-- The items have the tracks that were loaded. -/
theorem Goes.contents (h : Goes tracks s) : (s.player.heap.map Node.track).Perm tracks := by
  have hat (heap : List Node) (hlen : heap.length = tracks.length) :
      (List.range tracks.length).map (trackAt heap) = (heap.map Node.track).map some := by
    refine List.ext_getElem (by simp [hlen]) fun k hk hk' => ?_
    have hlt : k < heap.length := by simpa using hk'
    simp [trackAt, hlt]
  have htracks := h.keeps.tracks
  rw [hat _ h.length_heap, hat (loaded tracks).heap (length_nodesOf tracks)] at htracks
  have hloaded : (loaded tracks).heap.map Node.track = tracks := by
    refine List.ext_getElem (by simp [loaded]) fun k hk hk' => ?_
    simp [loaded, nodesOf]
  rw [hloaded] at htracks
  exact (List.map_perm_map_iff (Option.some_injective _)).mp htracks

theorem Goes.files (h : Goes tracks s) :
    ((List.range tracks.length).map (fileAt s.player.heap)).Perm (tracks.map Track.filename) := by
  have hfiles : (List.range tracks.length).map (fileAt s.player.heap) =
      (s.player.heap.map Node.track).map Track.filename := by
    refine List.ext_getElem (by simp [h.length_heap]) fun k hk hk' => ?_
    have hlt : k < s.player.heap.length := by simpa using hk'
    simp [fileAt, trackAt, hlt]
  exact hfiles ▸ h.contents.map _

end Goes

/-- Fair play: whatever has been done before, also with other items selected and with the list shuffled, a list that is
repeated and played is played through, each track once, until it is back where it was. -/
theorem plays_all {tracks : List Track} {s : Playing} (h : Playing.Reached tracks s) (hrepeat : s.playlistRepeat = true)
    (hp : s.player.playlist ≠ none) : ∃ s' files, playlistNexts tracks.length s = some s' ∧
      s'.player.playlist = s.player.playlist ∧ s'.started = s.started ++ files ∧
      files.Perm (tracks.map Track.filename) := by
  have hgoes := h.goes
  obtain ⟨p, hplays⟩ := Option.ne_none_iff_exists'.mp hp
  obtain ⟨s', hs', hplaylist, hstarted⟩ := hgoes.nexts hrepeat hplays tracks.length
  have hback : (p + tracks.length) % tracks.length = p := by
    rw [Nat.add_mod_right, Nat.mod_eq_of_lt (hgoes.playlist p hplays)]
  refine ⟨s', _, hs', by rw [hplaylist, hback, hplays], hstarted, ?_⟩
  have hturned : ((List.range tracks.length).map fun j => fileAt s.player.heap ((p + 1 + j) % tracks.length)) =
      ((List.range tracks.length).rotate (p + 1)).map (fileAt s.player.heap) := by
    rw [← range_turned, List.map_map]
    rfl
  rw [hturned]
  exact ((List.rotate_perm _ _).map _).trans hgoes.files

/-- In every state that the player comes to, whatever is done next follows no pointer that is wild; the list has its items
linked as they were loaded, with the same tracks among them, and it is one of them that is played. -/
theorem player_safe {tracks : List Track} {s : Playing} (h : Playing.Reached tracks s) (a : Act) : ∃ s', a.run s = some s' ∧
    s'.player.heap.map Node.links = (nodesOf tracks).map Node.links ∧
    (s'.player.heap.map Node.track).Perm tracks ∧ ∀ p, s'.player.playlist = some p → p < tracks.length := by
  obtain ⟨s', hs', hgoes⟩ := h.goes.act a
  exact ⟨s', hs', hgoes.keeps.links, hgoes.contents, hgoes.playlist⟩

def sides : List Track := [⟨[97], none, [97], -1⟩, ⟨[98], none, [98], -1⟩]

/-- The second track has been selected in a list that is repeated. -/
def secondPlayed : Playing := ⟨{ loaded sides with playlist := some 1, current := 1 }, true, some [98], [[98]]⟩

theorem secondPlayed_reached : Playing.Reached sides secondPlayed := by
  have hstart : Playing.Reached sides ⟨loaded sides, true, none, []⟩ := .start ⟨rfl, rfl⟩
  exact .next (.select 1) hstart rfl

theorem plays_all_two : ∃ s' files, playlistNexts sides.length secondPlayed = some s' ∧
    s'.player.playlist = secondPlayed.player.playlist ∧ s'.started = secondPlayed.started ++ files ∧
      files.Perm (sides.map Track.filename) := plays_all secondPlayed_reached rfl (by decide)

theorem player_safe_two : ∃ s', Act.run .next secondPlayed = some s' ∧
    s'.player.heap.map Node.links = (nodesOf sides).map Node.links ∧
    (s'.player.heap.map Node.track).Perm sides ∧ ∀ p, s'.player.playlist = some p → p < sides.length :=
  player_safe secondPlayed_reached .next

end Mvpmc.Playlist
