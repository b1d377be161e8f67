import Mvpmc.Playlist.LineRun

/-! What a playlist built from a file is to be, line by line, and when it is. -/
namespace Mvpmc.Playlist

/-- A line that is neither empty nor a comment. -/
def isEntry (line : List UInt8) : Bool := line ≠ [] ∧ line.headD 0 ≠ 0x23

/-- An entry, and the lines since the one before. -/
structure Section where
  since : List (List UInt8)
  line : List UInt8
  deriving DecidableEq, Repr

/-- The entries of some lines, when those in `since` have been read since the last one. -/
def sections (since : List (List UInt8)) : List (List UInt8) → List Section
  | [] => []
  | line :: ls => if isEntry line then ⟨since, line⟩ :: sections [] ls else sections (since ++ [line]) ls

/-- The title that a line `#EXTINF:seconds,title` gives. -/
def extinfTitle (line : List UInt8) : Option (List UInt8) :=
  if line.headD 0 = 0x23 then (readComment line none 0).1 else none

/-- The name of an entry: the last title since the entry before. -/
def Section.name (s : Section) : Option (List UInt8) := (s.since.filterMap extinfTitle).getLast?

section Titles
variable {line title : List UInt8}

theorem strchr_eq_none_iff {s : List UInt8} {c : UInt8} : strchr s c = none ↔ c ∉ s := by
  unfold strchr
  rw [List.findIdx?_eq_none_iff]
  simp only [decide_eq_false_iff_not]
  exact ⟨fun h hc => h c hc rfl, fun h x hx he => h (he ▸ hx)⟩

/-- The first `c` of a string. -/
theorem strchr_append {a b : List UInt8} {c : UInt8} (h : c ∉ a) : strchr (a ++ c :: b) c = some a.length := by
  unfold strchr
  have hnone : a.findIdx? (fun x => decide (x = c)) = none := strchr_eq_none_iff.mpr h
  simp [List.findIdx?_append, hnone, List.findIdx?_cons]

/-- A string in front of a `c`, and behind it. -/
theorem strchr_cases (s : List UInt8) (c : UInt8) : strchr s c = none ∨
    ∃ a b, s = a ++ c :: b ∧ c ∉ a ∧ strchr s c = some a.length := by
  by_cases hc : c ∈ s
  · obtain ⟨a, b, rfl, ha⟩ := List.eq_append_cons_of_mem hc
    exact .inr ⟨a, b, rfl, ha, strchr_append ha⟩
  · exact .inl (strchr_eq_none_iff.mpr hc)

/-- What makes a title. -/
theorem extinfTitle_eq_some_iff : extinfTitle line = some title ↔
    ∃ tag info, line = 0x23 :: (tag ++ 0x3A :: (info ++ 0x2C :: title)) ∧ 0x3A ∉ tag ∧ 0x2C ∉ info ∧
      tag.map toLower = ascii "extinf" := by
  unfold extinfTitle readComment
  constructor
  · intro h
    by_cases hhash : line.headD 0 = 0x23
    · rw [if_pos hhash] at h
      rcases strchr_cases line 0x3A with hnone | ⟨a, arg, rfl, ha, hsep⟩
      · rw [hnone] at h
        cases h
      · rw [hsep] at h
        have hdrop : (a ++ 0x3A :: arg).drop (a.length + 1) = arg := by simp
        have htake : (a ++ 0x3A :: arg).take a.length = a := List.take_left
        simp only [hdrop, htake] at h
        by_cases htag : (a.drop 1).map toLower = ascii "extinf"
        · rw [if_pos htag] at h
          rcases strchr_cases arg 0x2C with hnone | ⟨info, title', rfl, hinfo, hcomma⟩
          · rw [hnone] at h
            cases h
          · rw [hcomma] at h
            have htitle : (info ++ 0x2C :: title').drop (info.length + 1) = title' := by simp
            obtain rfl : title' = title := by simpa [htitle] using h
            cases a with
            | nil => simp at hhash
            | cons x tag =>
              obtain rfl : x = 0x23 := hhash
              exact ⟨tag, info, rfl, fun h => ha (List.mem_cons_of_mem _ h), hinfo, htag⟩
        · rw [if_neg htag] at h
          cases h
    · rw [if_neg hhash] at h
      cases h
  · rintro ⟨tag, info, rfl, htag, hinfo, hextinf⟩
    have hsep : strchr (0x23 :: (tag ++ 0x3A :: (info ++ 0x2C :: title))) 0x3A = some (tag.length + 1) :=
      strchr_append (a := 0x23 :: tag) (by simpa using htag)
    have hdrop : (0x23 :: (tag ++ 0x3A :: (info ++ 0x2C :: title))).drop (tag.length + 1 + 1) = info ++ 0x2C :: title := by
      simp
    have htake : (0x23 :: (tag ++ 0x3A :: (info ++ 0x2C :: title))).take (tag.length + 1) = 0x23 :: tag := by simp
    have htitle : (info ++ 0x2C :: title).drop (info.length + 1) = title := by simp
    have hhash : (0x23 :: (tag ++ 0x3A :: (info ++ 0x2C :: title))).headD 0 = 0x23 := rfl
    rw [if_pos hhash, hsep]
    simp only [hdrop, htake, List.drop_succ_cons, List.drop_zero, hextinf, if_true, strchr_append hinfo, htitle]

/-- A comment gives a title, or leaves the name as it is. -/
theorem readComment_name {name : Option (List UInt8)} {seconds : Int} (h : line.headD 0 = 0x23) :
    (readComment line name seconds).1 = (extinfTitle line).or name := by
  unfold extinfTitle
  rw [if_pos h]
  unfold readComment
  cases strchr line 0x3A with
  | none => rfl
  | some sep =>
    dsimp only
    split
    · cases strchr (line.drop (sep + 1)) 0x2C <;> rfl
    · rfl

/-- A title is a piece of its line. -/
theorem mem_of_mem_title {b : UInt8} (h : extinfTitle line = some title) (hb : b ∈ title) : b ∈ line := by
  obtain ⟨tag, info, rfl, -, -, -⟩ := extinfTitle_eq_some_iff.mp h
  simp [hb]

end Titles

/-- The name and the seconds after a line that is no entry. -/
def afterLine (ns : Option (List UInt8) × Int) (line : List UInt8) : Option (List UInt8) × Int :=
  if line.headD 0 = 0x23 then readComment line ns.1 ns.2 else ns

/-- The name and the seconds that the code has for an entry. -/
def Section.read (s : Section) : Option (List UInt8) × Int := s.since.foldl afterLine (none, -1)

theorem Section.read_name (s : Section) : s.read.1 = s.name := by
  unfold read name
  generalize s.since = since
  induction since using List.reverseRecOn with
  | nil => rfl
  | append_singleton since line ih =>
    rw [List.foldl_append, List.foldl_cons, List.foldl_nil, List.filterMap_append]
    generalize since.foldl afterLine (none, -1) = ns at ih
    unfold afterLine
    by_cases hhash : line.headD 0 = 0x23
    · rw [if_pos hhash, readComment_name hhash, ih]
      cases htitle : extinfTitle line with
      | none => simp [htitle]
      | some title => simp [htitle]
    · have hnone : extinfTitle line = none := if_neg hhash
      rw [if_neg hhash, ih]
      simp [hnone]

section Run
variable (mem : Surroundings) (cwd : List UInt8)

/-- The track that the code makes of the entry number `k`. -/
def Section.track (k : Nat) (s : Section) : Track := trackOf mem cwd k s.line s.read.1 s.read.2

/-- The loop has come to its entries `ts`, and to lines since the last one. -/
structure Build.Holds (ts : List Section) (since : List (List UInt8)) (s : Build) : Prop where
  line : s.line = []
  nodes : s.nodes = nodesOf (ts.mapIdx (Section.track mem cwd))
  dest : s.dest = lastOf ts.length
  count : s.count = ts.length
  read : (s.name, s.seconds) = since.foldl afterLine (none, -1)
  playlist : s.playlist = if ts = [] then none else some 0
  under : s.under = true ↔ ∃ k sec, ts[k]? = some sec ∧ sec.name = some [] ∧ mem.heap k = 13

variable {mem cwd} {ts : List Section} {since : List (List UInt8)} {s : Build}

theorem Build.Holds.entry (h : s.Holds mem cwd ts since) {l : List UInt8} (hl : isEntry l = true) :
    (Build.takeLine mem cwd s l).Holds mem cwd (ts ++ [⟨since, l⟩]) [] := by
  obtain ⟨hne, hhash⟩ : l ≠ [] ∧ l.headD 0 ≠ 0x23 := of_decide_eq_true hl
  obtain ⟨b, bytes, rfl⟩ := List.exists_cons_of_ne_nil hne
  have hb : ¬ b = 0x23 := hhash
  have hname : s.name = (Section.mk since (b :: bytes)).read.1 := congrArg Prod.fst h.read
  have hseconds : s.seconds = (Section.mk since (b :: bytes)).read.2 := congrArg Prod.snd h.read
  have htake : Build.takeLine mem cwd s (b :: bytes) =
      { Build.addItem mem cwd { s with line := b :: bytes, top := max s.top ((b :: bytes).length + 1) } with line := [] } := by
    unfold Build.takeLine Build.endLine
    dsimp only
    rw [if_neg hb]
  rw [htake]
  have htrack : trackOf mem cwd s.count (b :: bytes) s.name s.seconds =
      Section.track mem cwd ts.length ⟨since, b :: bytes⟩ := by
    rw [h.count, hname, hseconds]
    rfl
  refine ⟨rfl, ?_, ?_, ?_, rfl, ?_, ?_⟩
  · have hlen : (ts.mapIdx (Section.track mem cwd)).length = ts.length := List.length_mapIdx
    have happend := appendNode_nodesOf (ts.mapIdx (Section.track mem cwd)) (Section.track mem cwd ts.length ⟨since, b :: bytes⟩)
    rw [hlen] at happend
    unfold Build.addItem
    dsimp only
    rw [htrack, h.nodes, h.dest, h.count, happend, List.mapIdx_concat]
  · unfold Build.addItem
    simp [h.nodes, lastOf]
  · unfold Build.addItem
    simp [h.count]
  · unfold Build.addItem
    dsimp only
    rw [h.dest, h.nodes, h.playlist]
    cases ts with
    | nil => rfl
    | cons t ts => simp [lastOf]
  · unfold Build.addItem
    simp only [Bool.or_eq_true, h.under, Bool.and_eq_true, decide_eq_true_eq, hname, Section.read_name, h.count]
    constructor
    · rintro (⟨k, sec, hk, hempty, hcr⟩ | ⟨hempty, hcr⟩)
      · exact ⟨k, sec, List.getElem?_append_left (List.getElem?_eq_some_iff.mp hk).1 ▸ hk, hempty, hcr⟩
      · exact ⟨ts.length, ⟨since, b :: bytes⟩, by simp, hempty, hcr⟩
    · rintro ⟨k, sec, hk, hempty, hcr⟩
      rcases Nat.lt_or_ge k ts.length with hlt | hge
      · rw [List.getElem?_append_left hlt] at hk
        exact .inl ⟨k, sec, hk, hempty, hcr⟩
      · have hklt := (List.getElem?_eq_some_iff.mp hk).1
        have hkeq : k = ts.length := by
          simp only [List.length_append, List.length_singleton] at hklt
          omega
        subst hkeq
        obtain rfl : ⟨since, b :: bytes⟩ = sec := by simpa using hk
        exact .inr ⟨hempty, hcr⟩

theorem Build.Holds.other (h : s.Holds mem cwd ts since) {l : List UInt8} (hl : isEntry l = false) :
    (Build.takeLine mem cwd s l).Holds mem cwd ts (since ++ [l]) := by
  cases l with
  | nil =>
    have hread : (s.name, s.seconds) = (since ++ [[]]).foldl afterLine (none, -1) := by
      rw [List.foldl_append, ← h.read]
      rfl
    exact ⟨rfl, h.nodes, h.dest, h.count, hread, h.playlist, h.under⟩
  | cons b bytes =>
    have hhash : b = 0x23 := by simpa [isEntry] using hl
    have hread : readComment (b :: bytes) s.name s.seconds = (since ++ [b :: bytes]).foldl afterLine (none, -1) := by
      rw [List.foldl_append, ← h.read]
      exact (if_pos hhash).symm
    have htake : Build.takeLine mem cwd s (b :: bytes) =
        { s with
          line := []
          top := max s.top ((b :: bytes).length + 1)
          name := (readComment (b :: bytes) s.name s.seconds).1
          seconds := (readComment (b :: bytes) s.name s.seconds).2 } := by
      unfold Build.takeLine Build.endLine
      dsimp only
      rw [if_pos hhash]
    rw [htake]
    exact ⟨rfl, h.nodes, h.dest, h.count, hread, h.playlist, h.under⟩

/-- The entries that the loop makes of lines. -/
theorem Build.Holds.run (h : s.Holds mem cwd ts since) (ls : List (List UInt8)) :
    ∃ since', (ls.foldl (Build.takeLine mem cwd) s).Holds mem cwd (ts ++ sections since ls) since' := by
  induction ls generalizing ts since s with
  | nil => exact ⟨since, by simpa [sections] using h⟩
  | cons l ls ih =>
    cases hl : isEntry l with
    | true =>
      obtain ⟨since', h'⟩ := ih (h.entry hl)
      refine ⟨since', ?_⟩
      rw [sections, if_pos hl, List.foldl_cons, List.append_cons]
      exact h'
    | false =>
      obtain ⟨since', h'⟩ := ih (h.other hl)
      refine ⟨since', ?_⟩
      rw [sections, if_neg (by simp [hl]), List.foldl_cons]
      exact h'

theorem Build.endLine_top : (s.endLine mem cwd).top = s.top := by
  unfold Build.endLine
  cases s.line with
  | nil => rfl
  | cons b bytes =>
    dsimp only
    split <;> rfl

/-- How far the buffer is filled. -/
theorem foldl_takeLine_top {ls : List (List UInt8)} {n : Nat} :
    (ls.foldl (Build.takeLine mem cwd) s).top ≤ n ↔ s.top ≤ n ∧ ∀ l ∈ ls, l.length + 1 ≤ n := by
  induction ls generalizing s with
  | nil => simp
  | cons l ls ih =>
    have htop : (Build.takeLine mem cwd s l).top = max s.top (l.length + 1) := Build.endLine_top
    rw [List.foldl_cons, ih, htop, Nat.max_le, List.forall_mem_cons, and_assoc]

end Run
end Mvpmc.Playlist
