import Mvpmc.Cmyth.Number
import Mvpmc.Lib.Lines
import Mvpmc.Playlist.Played

/-! Building a playlist from a file in the `.pls` format (`build_playlist_from_pls_file`, `playlist.c`). Memory does not
run out. -/
namespace Mvpmc.Playlist
open Mvpmc.Lib
open Mvpmc.Cmyth (atoi longText)

/-- `strncasecmp` with a whole word finds no difference. -/
def startsWith (word line : List UInt8) : Bool := (line.take word.length).map toLower = word.map toLower

/-- What follows the first `=`. -/
def valueOf (line : List UInt8) : Option (List UInt8) := (strchr line 0x3D).map fun p => line.drop (p + 1)

/-- The local variables of `build_playlist_from_pls_file`, the items in memory, and the playlist. `line` is what has been
put into the line buffer, and `top` how far it has ever been filled. -/
structure Pls where
  line : List UInt8 := []
  top : Nat := 0
  plsFilename : List UInt8 := []
  plsTitle : List UInt8 := []
  seconds : Int := 0
  nodes : List Node := []
  dest : Option Nat := none
  count : Nat := 0
  menu : List (List UInt8 × Nat) := []
  playlist : Option Nat := none

section
variable (mem : Surroundings) (cwd : List UInt8) (filenameMax : Nat)

/-- `snprintf` of a value into a buffer that keeps what it has if there is none. -/
def copyValue (old line : List UInt8) : List UInt8 := ((valueOf line).map (·.take (filenameMax - 1))).getD old

/-- The track of the entry number `k`. -/
def plsTrack (k : Nat) (plsFilename plsTitle : List UInt8) (seconds : Int) : Track where
  filename := pathOf cwd (mem.stack k) plsFilename
  name := some (strip plsTitle)
  label := strip plsTitle
  seconds := if seconds ≠ 0 then seconds else -1

namespace Pls

/-- A new item for the values that have been read. -/
def addItem (s : Pls) : Pls :=
  let track := plsTrack mem cwd s.count s.plsFilename s.plsTitle s.seconds
  { s with
    nodes := appendNode s.nodes s.dest track s.count
    menu := s.menu ++ [(track.label, s.count)]
    playlist := if s.dest = none then some s.nodes.length else s.playlist
    dest := some s.nodes.length
    count := s.count + 1 }

/-- What is done with a line that is not empty. -/
def endLine (s : Pls) : Pls :=
  if s.plsFilename = [] ∧ startsWith (ascii "File") s.line then
    { s with plsFilename := copyValue filenameMax s.plsFilename s.line, plsTitle := [], seconds := 0 }
  else if s.plsFilename ≠ [] ∧ s.plsTitle = [] ∧ startsWith (ascii "Title") s.line then
    { s with plsTitle := copyValue filenameMax s.plsTitle s.line }
  else if s.plsTitle ≠ [] ∧ s.seconds = 0 ∧ startsWith (ascii "Length") s.line then
    { addItem mem cwd { s with seconds := ((valueOf s.line).map atoi).getD s.seconds } with
      plsTitle := [], seconds := 0, plsFilename := [] }
  else s

/-- One round of the loop. -/
def put (s : Pls) (ch : Int) : Pls :=
  let ch := if ch < 0 ∨ ch = 10 ∨ ch = 13 then 0 else ch
  let s := { s with top := max s.top (s.line.length + 1) }
  if ch = 0 then if s.line = [] then s else { s.endLine mem cwd filenameMax with line := [] }
  else { s with line := s.line ++ [UInt8.ofNat ch.toNat] }

end Pls

/-- The loop of `build_playlist_from_pls_file`. -/
def plsLoop (signed : Bool) (pieces : Nat → Nat → Nat) (r : Reader) (s : Pls) : Pls :=
  if (readChr signed pieces r).1 < 0 then s.put mem cwd filenameMax (readChr signed pieces r).1
  else plsLoop signed pieces (readChr signed pieces r).2 (s.put mem cwd filenameMax (readChr signed pieces r).1)
  termination_by r.left.length
  decreasing_by exact readChr_lt (by assumption)

/-- `build_playlist_from_pls_file` once the file is open: what it returns is `count`. There is no playlist before, as
`playlist_idle` sees to. -/
def buildPlaylistFromPlsFile (signed : Bool) (pieces : Nat → Nat → Nat) (filename content junk : List UInt8) : Pls :=
  plsLoop mem (dirOf filename) filenameMax signed pieces (Reader.start content junk) {}

end

/-- What ends a line: `NUL`, `CR` and `LF`. -/
def isPlsEnd (b : UInt8) : Bool := b = 0 || isLineEnd b

/-- The lines of a file. -/
def plsLines (content : List UInt8) : List (List UInt8) := content.splitOnP isPlsEnd

section Lines
variable (mem : Surroundings) (cwd : List UInt8) (filenameMax : Nat)

/-- A whole line is put into the buffer, and ends. -/
def Pls.takeLine (s : Pls) (l : List UInt8) : Pls :=
  let s := { s with line := l, top := max s.top (l.length + 1) }
  if l = [] then s else { s.endLine mem cwd filenameMax with line := [] }

variable {mem cwd filenameMax} {s : Pls}

theorem Pls.put_end {ch : Int} (h : ch < 0 ∨ ch = 0 ∨ ch = 10 ∨ ch = 13) :
    s.put mem cwd filenameMax ch = s.takeLine mem cwd filenameMax s.line := by
  have hzero : (if ch < 0 ∨ ch = 10 ∨ ch = 13 then 0 else ch) = 0 := by
    split
    · rfl
    · omega
  unfold Pls.put
  dsimp only
  rw [hzero, if_pos rfl]
  rfl

theorem isPlsEnd_iff (b : UInt8) : isPlsEnd b = true ↔
    (b.toNat : Int) < 0 ∨ (b.toNat : Int) = 0 ∨ (b.toNat : Int) = 10 ∨ (b.toNat : Int) = 13 := by
  have hsame (n : UInt8) : b = n ↔ (b.toNat : Int) = n.toNat := by rw [Int.ofNat_inj, UInt8.toNat_inj]
  have h0 := hsame 0
  have h10 := hsame 10
  have h13 := hsame 13
  simp only [isPlsEnd, isLineEnd, Bool.or_eq_true, decide_eq_true_eq, h0, h10, h13, UInt8.reduceToNat]
  omega

theorem Pls.put_byte {b : UInt8} (h : isPlsEnd b = false) :
    s.put mem cwd filenameMax b.toNat = { s with line := s.line ++ [b], top := max s.top (s.line.length + 1) } := by
  have hne := mt (isPlsEnd_iff b).mpr (by simp [h])
  have hch : ¬ ((b.toNat : Int) < 0 ∨ (b.toNat : Int) = 10 ∨ (b.toNat : Int) = 13) := by omega
  unfold Pls.put
  dsimp only
  rw [if_neg hch, if_neg (by omega)]
  simp

theorem Pls.takeLine_line (s : Pls) (l : List UInt8) : (s.takeLine mem cwd filenameMax l).line = [] := by
  unfold Pls.takeLine
  dsimp only
  split
  · assumption
  · rfl

/-- Where a line ends does not depend on how much of it has been filled in. -/
theorem Pls.takeLine_filled {b : UInt8} {l : List UInt8} (h : isPlsEnd b = false) (hl : s.line ++ [b] <+: l) :
    (s.put mem cwd filenameMax b.toNat).takeLine mem cwd filenameMax l = s.takeLine mem cwd filenameMax l := by
  have hlen := hl.length_le
  rw [List.length_append, List.length_singleton] at hlen
  rw [Pls.put_byte h]
  unfold Pls.takeLine
  dsimp only
  rw [Nat.max_assoc, Nat.max_eq_right (show s.line.length + 1 ≤ l.length + 1 by omega)]

/-- The loop puts in what is read, one byte after the other. -/
theorem plsLoop_eq {signed : Bool} {pieces : Nat → Nat → Nat} {r : Reader} (hp : ∀ k n, 0 < n → 1 ≤ pieces k n) :
    plsLoop mem cwd filenameMax signed pieces r s =
      ((readable signed r.left).foldl (fun s b => s.put mem cwd filenameMax b.toNat) s).put mem cwd filenameMax (-1) := by
  induction hleft : r.left generalizing r s with
  | nil =>
    have hread : (readChr signed pieces r).1 = -1 := readChr_nil signed hleft
    have hnone : readable signed [] = [] := by cases signed <;> rfl
    rw [plsLoop, hread, if_pos (by decide), hnone]
    rfl
  | cons b bytes ih =>
    obtain ⟨hvalue, hrest⟩ := readChr_cons signed hp hleft
    rw [plsLoop, hvalue, readable_cons]
    by_cases hneg : charValue signed b < 0
    · rw [if_pos hneg, if_pos hneg, List.foldl_nil, Pls.put_end (.inl hneg), Pls.put_end (.inl (by decide))]
    · rw [if_neg hneg, if_neg hneg, ih hrest, charValue_of_nonneg hneg]
      rfl

/-- The file is taken line by line. -/
theorem buildPlaylistFromPlsFile_eq {signed : Bool} {pieces : Nat → Nat → Nat} {filename content : List UInt8}
    (junk : List UInt8) (hp : ∀ k n, 0 < n → 1 ≤ pieces k n) :
    buildPlaylistFromPlsFile mem filenameMax signed pieces filename content junk =
      (plsLines (readable signed content)).foldl (Pls.takeLine mem (dirOf filename) filenameMax) {} := by
  rw [buildPlaylistFromPlsFile, plsLoop_eq hp, Reader.left_start, Pls.put_end (.inl (by decide))]
  refine foldl_lines (s := ({} : Pls)) (fun s b hb => ?_) Pls.takeLine_line (fun s b hb => ?_)
    (fun s b l hb hl => ?_) (fun b hb => absurd hb List.not_mem_nil) _
  · exact Pls.put_end ((isPlsEnd_iff b).mp hb)
  · rw [Pls.put_byte hb]
  · exact Pls.takeLine_filled hb hl

end Lines

/-- What a playlist says of an entry. -/
structure Entry where
  file : List UInt8
  title : List UInt8
  seconds : Int
  file_ne : file ≠ []
  title_ne : title ≠ []

/-- A line with a key that begins with the word, in letters of either case, and a value. -/
def Says (word value line : List UInt8) : Prop := startsWith word line = true ∧ valueOf line = some value

instance (word value line : List UInt8) : Decidable (Says word value line) := inferInstanceAs (Decidable (_ ∧ _))

/-- The lines of a playlist with these entries: of each entry the file, the title and the length, and any others in front
of them that do not say the same. -/
inductive Lists : List (List UInt8) → List Entry → Prop where
  | none {ls : List (List UInt8)} (hls : ∀ l ∈ ls, startsWith (ascii "File") l = false) : Lists ls []
  | entry {before between behind ls : List (List UInt8)} {file title length text : List UInt8} {e : Entry} {es : List Entry}
      (hbefore : ∀ l ∈ before, startsWith (ascii "File") l = false) (hfile : Says (ascii "File") e.file file)
      (hbetween : ∀ l ∈ between, startsWith (ascii "Title") l = false) (htitle : Says (ascii "Title") e.title title)
      (hbehind : ∀ l ∈ behind, startsWith (ascii "Length") l = false) (hlength : Says (ascii "Length") text length)
      (hseconds : atoi text = e.seconds) (hls : Lists ls es) :
      Lists (before ++ file :: (between ++ title :: (behind ++ length :: ls))) (e :: es)

section Values
variable {line value : List UInt8}

theorem valueOf_append {a : List UInt8} (h : 0x3D ∉ a) (b : List UInt8) : valueOf (a ++ 0x3D :: b) = some b := by
  have hdrop : (a ++ 0x3D :: b).drop (a.length + 1) = b := by simp
  rw [valueOf, strchr_append h, Option.map_some, hdrop]

theorem valueOf_spec (h : valueOf line = some value) : value.length < line.length ∧ ∀ b ∈ value, b ∈ line := by
  rcases strchr_cases line 0x3D with hnone | ⟨a, b, rfl, ha, -⟩
  · rw [valueOf, hnone] at h
    cases h
  · obtain rfl := Option.some.inj ((valueOf_append ha b).symm.trans h)
    refine ⟨?_, fun x hx => List.mem_append_right a (List.mem_cons_of_mem _ hx)⟩
    rw [List.length_append, List.length_cons]
    omega

/-- A value of a line that fits in the buffer is copied whole. -/
theorem copyValue_eq {filenameMax : Nat} (old : List UInt8) (h : valueOf line = some value) (hfit : line.length ≤ filenameMax) :
    copyValue filenameMax old line = value := by
  have hlt := (valueOf_spec h).1
  rw [copyValue, h, Option.map_some, Option.getD_some, List.take_of_length_le (by omega)]

theorem strip_of_not_mem {ptr : List UInt8} (h : 13 ∉ ptr) : strip ptr = ptr :=
  if_neg fun hlast => h (List.mem_of_getLast? hlast)

theorem ne_nil_of_startsWith {word : List UInt8} (hw : word ≠ []) (h : startsWith word line = true) : line ≠ [] := by
  rintro rfl
  have heq : ([] : List UInt8) = word.map toLower := by simpa [startsWith] using h
  exact hw (List.map_eq_nil_iff.mp heq.symm)

end Values

section Run
variable (mem : Surroundings) (cwd : List UInt8)

/-- The track of the entry number `k`. -/
def Entry.track (k : Nat) (e : Entry) : Track where
  filename := pathOf cwd (mem.stack k) e.file
  name := some e.title
  label := e.title
  seconds := if e.seconds ≠ 0 then e.seconds else -1

/-- The loop has come to the entries `ts`, and has read this much of the next one. -/
structure Pls.Between (ts : List Entry) (file title : List UInt8) (s : Pls) : Prop where
  filename : s.plsFilename = file
  title : s.plsTitle = title
  seconds : s.seconds = 0
  nodes : s.nodes = nodesOf (ts.mapIdx (Entry.track mem cwd))
  dest : s.dest = lastOf ts.length
  count : s.count = ts.length
  playlist : s.playlist = if ts = [] then none else some 0
  menu : s.menu = shown s.nodes

/-- The word that the loop waits for. -/
def wanted (file title : List UInt8) : List UInt8 :=
  if file = [] then ascii "File" else if title = [] then ascii "Title" else ascii "Length"

variable {mem cwd} {filenameMax : Nat} {ts : List Entry} {file title : List UInt8} {s : Pls} {l : List UInt8}

theorem Pls.takeLine_of_ne (hl : l ≠ []) : s.takeLine mem cwd filenameMax l =
    { Pls.endLine mem cwd filenameMax { s with line := l, top := max s.top (l.length + 1) } with line := [] } := if_neg hl

/-- Another line changes nothing. -/
theorem Pls.Between.skip (h : s.Between mem cwd ts file title) (hft : file = [] → title = [])
    (hl : startsWith (wanted file title) l = false) : (s.takeLine mem cwd filenameMax l).Between mem cwd ts file title := by
  by_cases hempty : l = []
  · unfold Pls.takeLine
    dsimp only
    rw [if_pos hempty]
    exact ⟨h.filename, h.title, h.seconds, h.nodes, h.dest, h.count, h.playlist, h.menu⟩
  · have hsame : Pls.endLine mem cwd filenameMax { s with line := l, top := max s.top (l.length + 1) } =
        { s with line := l, top := max s.top (l.length + 1) } := by
      unfold Pls.endLine
      dsimp only
      rw [h.filename, h.title]
      unfold wanted at hl
      by_cases hfile : file = []
      · rw [if_pos hfile] at hl
        simp [hfile, hft hfile, hl]
      · by_cases htitle : title = []
        · rw [if_neg hfile, if_pos htitle] at hl
          simp [hfile, htitle, hl]
        · rw [if_neg hfile, if_neg htitle] at hl
          simp [hfile, htitle, hl]
    rw [Pls.takeLine_of_ne hempty, hsame]
    exact ⟨h.filename, h.title, h.seconds, h.nodes, h.dest, h.count, h.playlist, h.menu⟩

theorem Pls.Between.skips (filenameMax : Nat) (h : s.Between mem cwd ts file title) (hft : file = [] → title = [])
    {ls : List (List UInt8)} (hls : ∀ l ∈ ls, startsWith (wanted file title) l = false) :
    (ls.foldl (Pls.takeLine mem cwd filenameMax) s).Between mem cwd ts file title := by
  induction ls generalizing s with
  | nil => exact h
  | cons l ls ih =>
    obtain ⟨hl, hls⟩ := List.forall_mem_cons.mp hls
    exact ih (h.skip hft hl) hls

/-- The line with the file. -/
theorem Pls.Between.takesFile (h : s.Between mem cwd ts [] []) (hl : Says (ascii "File") file l) (hfit : l.length ≤ filenameMax) :
    (s.takeLine mem cwd filenameMax l).Between mem cwd ts file [] := by
  have hend : Pls.endLine mem cwd filenameMax { s with line := l, top := max s.top (l.length + 1) } =
      { s with line := l, top := max s.top (l.length + 1), plsFilename := file, plsTitle := [], seconds := 0 } := by
    unfold Pls.endLine
    dsimp only
    rw [if_pos ⟨h.filename, hl.1⟩, copyValue_eq _ hl.2 hfit]
  rw [Pls.takeLine_of_ne (ne_nil_of_startsWith (by decide) hl.1), hend]
  exact ⟨rfl, rfl, rfl, h.nodes, h.dest, h.count, h.playlist, h.menu⟩

/-- The line with the title. -/
theorem Pls.Between.takesTitle (h : s.Between mem cwd ts file []) (hfile : file ≠ []) (hl : Says (ascii "Title") title l)
    (hfit : l.length ≤ filenameMax) : (s.takeLine mem cwd filenameMax l).Between mem cwd ts file title := by
  have hend : Pls.endLine mem cwd filenameMax { s with line := l, top := max s.top (l.length + 1) } =
      { s with line := l, top := max s.top (l.length + 1), plsTitle := title } := by
    have hne : s.plsFilename ≠ [] := fun hempty => hfile (h.filename.symm.trans hempty)
    unfold Pls.endLine
    dsimp only
    rw [if_neg fun hf => hne hf.1, if_pos ⟨hne, h.title, hl.1⟩, copyValue_eq _ hl.2 hfit]
  rw [Pls.takeLine_of_ne (ne_nil_of_startsWith (by decide) hl.1), hend]
  exact ⟨h.filename, rfl, h.seconds, h.nodes, h.dest, h.count, h.playlist, h.menu⟩

/-- The line with the length makes the item. -/
theorem Pls.Between.takesLength (filenameMax : Nat) {e : Entry} {text : List UInt8} (h : s.Between mem cwd ts e.file e.title)
    (hl : Says (ascii "Length") text l) (hseconds : atoi text = e.seconds) (hcr : 13 ∉ e.title) :
    (s.takeLine mem cwd filenameMax l).Between mem cwd (ts ++ [e]) [] [] := by
  have htrack : plsTrack mem cwd s.count s.plsFilename s.plsTitle e.seconds = Entry.track mem cwd ts.length e := by
    rw [h.count, h.filename, h.title, plsTrack, strip_of_not_mem hcr]
    rfl
  have hend : Pls.endLine mem cwd filenameMax { s with line := l, top := max s.top (l.length + 1) } =
      { s with
        line := l
        top := max s.top (l.length + 1)
        plsFilename := []
        plsTitle := []
        seconds := 0
        nodes := appendNode s.nodes s.dest (Entry.track mem cwd ts.length e) s.count
        menu := s.menu ++ [(e.title, s.count)]
        playlist := if s.dest = none then some s.nodes.length else s.playlist
        dest := some s.nodes.length
        count := s.count + 1 } := by
    have hfile : s.plsFilename ≠ [] := fun hempty => e.file_ne (h.filename.symm.trans hempty)
    have htitle : s.plsTitle ≠ [] := fun hempty => e.title_ne (h.title.symm.trans hempty)
    unfold Pls.endLine Pls.addItem
    dsimp only
    rw [if_neg fun hf => hfile hf.1, if_neg fun ht => htitle ht.2.1, if_pos ⟨htitle, h.seconds, hl.1⟩, hl.2, Option.map_some,
      Option.getD_some, hseconds, htrack]
    rfl
  rw [Pls.takeLine_of_ne (ne_nil_of_startsWith (by decide) hl.1), hend]
  have hlen : (ts.mapIdx (Entry.track mem cwd)).length = ts.length := List.length_mapIdx
  have happend := appendNode_nodesOf (ts.mapIdx (Entry.track mem cwd)) (Entry.track mem cwd ts.length e)
  rw [hlen] at happend
  refine ⟨rfl, rfl, rfl, ?_, ?_, ?_, ?_, ?_⟩
  · dsimp only
    rw [h.nodes, h.dest, h.count, happend, List.mapIdx_concat]
  · simp [h.nodes, lastOf]
  · simp [h.count]
  · dsimp only
    rw [h.dest, h.nodes, h.playlist]
    cases ts with
    | nil => rfl
    | cons t ts => simp [lastOf]
  · dsimp only
    rw [shown_appendNode, h.menu]
    rfl

/-- The entries that the loop makes of the lines of a playlist. -/
theorem Lists.run {ls : List (List UInt8)} {es : List Entry} (h : Lists ls es)
    (hls : ∀ l ∈ ls, l.length ≤ filenameMax ∧ 13 ∉ l) (hs : s.Between mem cwd ts [] []) :
    (ls.foldl (Pls.takeLine mem cwd filenameMax) s).Between mem cwd (ts ++ es) [] [] := by
  induction h generalizing ts s with
  | none hnone =>
    rw [List.append_nil]
    exact hs.skips filenameMax id hnone
  | @entry before between behind ls file title length text e es hbefore hfile hbetween htitle hbehind hlength hseconds _ ih =>
    simp only [List.forall_mem_append, List.forall_mem_cons] at hls
    obtain ⟨-, hfit, -, ⟨htitlefit, hcr⟩, -, -, hrest⟩ := hls
    have hbetween : ∀ l ∈ between, startsWith (wanted e.file []) l = false := by
      rw [wanted, if_neg e.file_ne, if_pos rfl]
      exact hbetween
    have hbehind : ∀ l ∈ behind, startsWith (wanted e.file e.title) l = false := by
      rw [wanted, if_neg e.file_ne, if_neg e.title_ne]
      exact hbehind
    have hfiled := ((hs.skips filenameMax id hbefore).takesFile hfile hfit.1).skips filenameMax (fun _ => rfl) hbetween
    have hnamed := (hfiled.takesTitle e.file_ne htitle htitlefit).skips filenameMax (fun h => absurd h e.file_ne) hbehind
    have hcr' : 13 ∉ e.title := fun hmem => hcr ((valueOf_spec htitle.2).2 13 hmem)
    have hmade := hnamed.takesLength filenameMax hlength hseconds hcr'
    simp only [List.foldl_append, List.foldl_cons]
    rw [List.append_cons]
    exact ih hrest hmade

theorem Pls.endLine_top : (s.endLine mem cwd filenameMax).top = s.top := by
  unfold Pls.endLine
  split_ifs <;> rfl

/-- How far the buffer is filled. -/
theorem Pls.lines_top (mem : Surroundings) (cwd : List UInt8) (filenameMax : Nat) {ls : List (List UInt8)} {n : Nat}
    (hs : s.top ≤ n) (hls : ∀ l ∈ ls, l.length + 1 ≤ n) : (ls.foldl (Pls.takeLine mem cwd filenameMax) s).top ≤ n := by
  induction ls generalizing s with
  | nil => exact hs
  | cons l ls ih =>
    obtain ⟨hl, hls⟩ := List.forall_mem_cons.mp hls
    have htop : (s.takeLine mem cwd filenameMax l).top = max s.top (l.length + 1) := by
      unfold Pls.takeLine
      dsimp only
      split
      · rfl
      · exact Pls.endLine_top
    rw [List.foldl_cons]
    exact ih (htop ▸ Nat.max_le.mpr ⟨hs, hl⟩) hls

end Run

/-- The items of a playlist with these entries, in order, linked and shown in the menu, and no byte written outside of
the line buffer. -/
structure Loads (mem : Surroundings) (cwd : List UInt8) (filenameMax : Nat) (es : List Entry) (b : Pls) : Prop where
  nodes : b.nodes = nodesOf (es.mapIdx (Entry.track mem cwd))
  count : b.count = es.length
  playlist : b.playlist = if es = [] then none else some 0
  menu : b.menu = shown b.nodes
  inside : b.top ≤ filenameMax + 1

section Written

/-- The lines that a playlist file has for the entry number `k`. -/
def Entry.written (k : Nat) (e : Entry) : List (List UInt8) :=
  [ascii "File" ++ (Decimal.text (k + 1) ++ 0x3D :: e.file), ascii "Title" ++ (Decimal.text (k + 1) ++ 0x3D :: e.title),
    ascii "Length" ++ (Decimal.text (k + 1) ++ 0x3D :: longText e.seconds)]

/-- The lines of a playlist file. -/
def plsWritten (es : List Entry) : List (List UInt8) :=
  ascii "[playlist]" :: ((es.mapIdx Entry.written).flatten ++ [ascii "Version=2"])

def plsText (es : List Entry) : List UInt8 := (plsWritten es).flatMap (· ++ [10])

theorem says_written {word : List UInt8} (hw : 0x3D ∉ word) (k : Nat) (value : List UInt8) :
    Says word value (word ++ (Decimal.text k ++ 0x3D :: value)) := by
  have hdigit : 0x3D ∉ Decimal.text k := fun hmem => absurd (Decimal.isDigit_text k _ hmem) (by decide)
  have hkey : 0x3D ∉ word ++ Decimal.text k := fun hmem => (List.mem_append.mp hmem).elim hw hdigit
  refine ⟨?_, ?_⟩
  · rw [startsWith, List.take_left]
    exact decide_eq_true rfl
  · rw [← List.append_assoc, valueOf_append hkey]

theorem Lists.cons {l : List UInt8} {ls : List (List UInt8)} {es : List Entry} (hl : startsWith (ascii "File") l = false)
    (h : Lists ls es) : Lists (l :: ls) es := by
  cases h with
  | none hls => exact .none (List.forall_mem_cons.mpr ⟨hl, hls⟩)
  | entry hbefore hfile hbetween htitle hbehind hlength hseconds hls =>
    have hmore := Lists.entry (List.forall_mem_cons.mpr ⟨hl, hbefore⟩) hfile hbetween htitle hbehind hlength hseconds hls
    exact hmore

/-- What is written is a playlist with the entries that it is written for. -/
theorem lists_written (es : List Entry) : Lists (plsWritten es ++ [[]]) es := by
  have hfrom (k : Nat) : Lists ((es.mapIdx fun i e => e.written (k + i)).flatten ++ [ascii "Version=2", []]) es := by
    induction es generalizing k with
    | nil =>
      have hfooter : ∀ l ∈ [ascii "Version=2", []], startsWith (ascii "File") l = false := by decide
      exact .none hfooter
    | cons e es ih =>
      have hrest := ih (k + 1)
      simp only [Nat.add_assoc, Nat.add_comm 1] at hrest
      have hnothing (word : List UInt8) : ∀ l ∈ ([] : List (List UInt8)), startsWith word l = false :=
        fun _ hl => absurd hl List.not_mem_nil
      have hentry := Lists.entry (hnothing _) (says_written (by decide) (k + 1) e.file) (hnothing _)
        (says_written (by decide) (k + 1) e.title) (hnothing _)
        (says_written (by decide) (k + 1) (longText e.seconds)) (Cmyth.atoi_longText _) hrest
      rw [List.mapIdx_cons, List.flatten_cons]
      exact hentry
  have hall := hfrom 0
  simp only [Nat.zero_add] at hall
  have happ : plsWritten es ++ [[]] = ascii "[playlist]" :: ((es.mapIdx Entry.written).flatten ++ [ascii "Version=2", []]) := by
    simp [plsWritten]
  rw [happ]
  exact Lists.cons (by decide) hall

end Written

/-- The playlist that is built, with the first item of its menu highlighted. -/
def Pls.player (b : Pls) : Player := ⟨b.nodes, b.playlist, b.playlist, b.menu, 0⟩

/-- A playlist that is loaded is one like any other: it can be shown, played and shuffled. -/
theorem Loads.built {mem : Surroundings} {cwd : List UInt8} {filenameMax : Nat} {es : List Entry} {b : Pls}
    (h : Loads mem cwd filenameMax es b) : Built b.player (List.range es.length) := by
  have hlen : (es.mapIdx (Entry.track mem cwd)).length = es.length := List.length_mapIdx
  have hempty : (es = []) = (es.mapIdx (Entry.track mem cwd) = []) := by simp
  rw [Pls.player, h.menu, h.playlist, h.nodes, ← hlen]
  simp only [hempty]
  exact built_nodesOf _ (fun hne => List.length_pos_iff.mpr hne) _

section File
variable {mem : Surroundings} {filenameMax : Nat} {signed : Bool} {pieces : Nat → Nat → Nat} {filename content : List UInt8}
  {es : List Entry}

/-- A playlist is loaded whole from its lines. -/
theorem Lists.loads {cwd : List UInt8} {ls : List (List UInt8)} (h : Lists ls es)
    (hls : ∀ l ∈ ls, l.length ≤ filenameMax ∧ 13 ∉ l) :
    Loads mem cwd filenameMax es (ls.foldl (Pls.takeLine mem cwd filenameMax) {}) := by
  have hstart : Pls.Between mem cwd [] [] [] {} := ⟨rfl, rfl, rfl, rfl, rfl, rfl, rfl, rfl⟩
  have hrun := h.run hls hstart
  have htop := Pls.lines_top mem cwd filenameMax (s := {}) (Nat.zero_le _) fun l hl => Nat.succ_le_succ (hls l hl).1
  exact ⟨hrun.nodes, hrun.count, hrun.playlist, hrun.menu, htop⟩

theorem songFile_ne : ascii "a.mp3" ≠ [] := by decide

theorem songTitle_ne : ascii "A" ≠ [] := by decide

def song : Entry := ⟨ascii "a.mp3", ascii "A", 7, songFile_ne, songTitle_ne⟩

/-- A file with one entry, a line of its own between the title and the length, and ends of lines of three kinds. -/
def songText : List UInt8 := ascii "[playlist]\r\nFILE1=a.mp3\nTitle1=A\rGenre1=?\nlength1= 7"

/-- A byte of a playlist that neither ends a line nor is taken for the end of the file. -/
def Plain (signed : Bool) (b : UInt8) : Prop := isPlsEnd b = false ∧ (signed = true → b.toNat < 128)

theorem plain_digit {b : UInt8} (h : Decimal.isDigit b = true) : Plain signed b := by
  have hb : 48 ≤ b.toNat ∧ b.toNat ≤ 57 := by
    simpa [Decimal.isDigit, UInt8.le_iff_toNat_le] using h
  refine ⟨?_, fun _ => by omega⟩
  have hend := mt (isPlsEnd_iff b).mp (by omega)
  simpa using hend

theorem plain_longText (x : Int) : ∀ b ∈ longText x, Plain signed b := by
  have hdigits (n : Nat) : ∀ b ∈ Decimal.text n, Plain signed b := fun b hb => plain_digit (Decimal.isDigit_text n b hb)
  unfold longText
  split
  · exact List.forall_mem_cons.mpr ⟨⟨by decide, fun _ => by decide⟩, hdigits _⟩
  · exact hdigits _

theorem plain_ascii {word : List UInt8} (h : ∀ b ∈ word, isPlsEnd b = false ∧ b.toNat < 128) : ∀ b ∈ word, Plain signed b :=
  fun b hb => ⟨(h b hb).1, fun _ => (h b hb).2⟩

set_option maxRecDepth 2000 in
theorem plain_written {e : Entry} (k : Nat) (h : ∀ b ∈ e.file ++ e.title, Plain signed b) :
    ∀ l ∈ e.written k, ∀ b ∈ l, Plain signed b := by
  obtain ⟨hfile, htitle⟩ := List.forall_mem_append.mp h
  have hline {word : List UInt8} (hw : ∀ b ∈ word, isPlsEnd b = false ∧ b.toNat < 128) {value : List UInt8}
      (hv : ∀ b ∈ value, Plain signed b) : ∀ b ∈ word ++ (Decimal.text (k + 1) ++ 0x3D :: value), Plain signed b := by
    have hnumber : ∀ b ∈ Decimal.text (k + 1), Plain signed b := fun b hb => plain_digit (Decimal.isDigit_text _ b hb)
    have hequals : Plain signed 0x3D := ⟨by decide, fun _ => by decide⟩
    exact List.forall_mem_append.mpr
      ⟨plain_ascii hw, List.forall_mem_append.mpr ⟨hnumber, List.forall_mem_cons.mpr ⟨hequals, hv⟩⟩⟩
  intro l hl
  simp only [Entry.written, List.mem_cons, List.not_mem_nil, or_false] at hl
  rcases hl with rfl | rfl | rfl
  · exact hline (by decide) hfile
  · exact hline (by decide) htitle
  · exact hline (by decide) (plain_longText e.seconds)

set_option maxRecDepth 2000 in
theorem plain_plsWritten (h : ∀ e ∈ es, ∀ b ∈ e.file ++ e.title, Plain signed b) :
    ∀ l ∈ plsWritten es, ∀ b ∈ l, Plain signed b := by
  refine List.forall_mem_cons.mpr ⟨plain_ascii (by decide), List.forall_mem_append.mpr ⟨?_, ?_⟩⟩
  · intro l hl
    obtain ⟨lines, hlines, hl⟩ := List.mem_flatten.mp hl
    obtain ⟨k, hk, rfl⟩ := List.mem_mapIdx.mp hlines
    exact plain_written k (h _ (List.getElem_mem hk)) l hl
  · exact List.forall_mem_singleton.mpr (plain_ascii (by decide))

theorem readable_eq_self (h : ∀ b ∈ content, signed = true → b.toNat < 128) : readable signed content = content := by
  unfold readable
  cases signed with
  | false => rfl
  | true => exact List.takeWhile_eq_self_iff.mpr fun b hb => decide_eq_true (h b hb rfl)

end File
end Mvpmc.Playlist
