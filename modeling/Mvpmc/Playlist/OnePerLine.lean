import Mvpmc.Playlist.LineByLine
import Mathlib.Data.List.TakeWhile

/-! When a playlist file gives one entry a line, and nothing is written outside of the strings of the code. -/
namespace Mvpmc.Playlist

/-- The file and the name of an entry. -/
def Section.entry (mem : Surroundings) (cwd : List UInt8) (k : Nat) (s : Section) : List UInt8 × Option (List UInt8) :=
  (pathOf cwd (mem.stack k) s.line, s.name)

/-- The playlist that a file is to give: an entry for each line that has one, in order, with keys and links, and no
byte written outside of the line buffer and of the names. -/
structure OnePerLine (filenameMax : Nat) (mem : Surroundings) (cwd content : List UInt8) (b : Build) : Prop where
  entries : b.nodes.map (fun n => (n.track.filename, n.track.name)) =
    (sections [] (lines content)).mapIdx (Section.entry mem cwd)
  keys : b.nodes.map Node.key = List.range b.nodes.length
  first : b.playlist = if b.nodes = [] then none else some 0
  next : ∀ k, k < b.nodes.length → b.nodes[k]?.bind Node.next = if k + 1 < b.nodes.length then some (k + 1) else none
  inverse : ∀ j k, b.nodes[j]?.bind Node.next = some k ↔ b.nodes[k]?.bind Node.prev = some j
  count : b.count = b.nodes.length
  inside : b.top ≤ filenameMax + 1
  names : b.under = false

/-- No byte up to the end of the last entry is taken for the end of the file. -/
def PlainEntries (content : List UInt8) : Prop :=
  ∀ before line after, lines content = before ++ line :: after → isEntry line = true →
    ∀ l ∈ before ++ [line], ∀ b ∈ l, b.toNat < 128

section Links
variable {tracks : List Track}

theorem map_nodesOf {β : Type} (f : Track → β) : (nodesOf tracks).map (fun n => f n.track) = tracks.map f :=
  List.ext_getElem (by simp) fun k _ _ => by simp [nodesOf]

theorem keys_nodesOf : (nodesOf tracks).map Node.key = List.range tracks.length :=
  List.ext_getElem (by simp) fun k _ _ => by simp [nodesOf]

theorem next_nodesOf {k : Nat} (hk : k < tracks.length) :
    (nodesOf tracks)[k]?.bind Node.next = if k + 1 < tracks.length then some (k + 1) else none := by
  rw [nodesOf_getElem hk]
  rfl

theorem prev_nodesOf {k : Nat} (hk : k < tracks.length) :
    (nodesOf tracks)[k]?.bind Node.prev = if k = 0 then none else some (k - 1) := by
  rw [nodesOf_getElem hk]
  rfl

/-- The two links lead back and forth. -/
theorem inverse_nodesOf (j k : Nat) :
    (nodesOf tracks)[j]?.bind Node.next = some k ↔ (nodesOf tracks)[k]?.bind Node.prev = some j := by
  have hnone {i : Nat} (hi : ¬ i < tracks.length) : (nodesOf tracks)[i]? = none :=
    List.getElem?_eq_none (by simpa using hi)
  have hnext : (nodesOf tracks)[j]?.bind Node.next = some k ↔ j + 1 < tracks.length ∧ j + 1 = k := by
    by_cases hj : j < tracks.length
    · rw [next_nodesOf hj]
      split <;> simp_all
    · rw [hnone hj]
      simp
      omega
  have hprev : (nodesOf tracks)[k]?.bind Node.prev = some j ↔ k < tracks.length ∧ j + 1 = k := by
    by_cases hk : k < tracks.length
    · rw [prev_nodesOf hk]
      split
      · simp
        omega
      · simp [hk]
        omega
    · rw [hnone hk]
      simp [hk]
  rw [hnext, hprev]
  constructor
  · rintro ⟨hlt, rfl⟩
    exact ⟨hlt, rfl⟩
  · rintro ⟨hlt, rfl⟩
    exact ⟨hlt, rfl⟩

end Links

/-- A line has no end of a line in it, and nothing that the file does not have. -/
theorem bytes_of_line {content l : List UInt8} (hl : l ∈ lines content) : ∀ b ∈ l, isLineEnd b = false ∧ b ∈ content := by
  unfold lines at hl
  induction content generalizing l with
  | nil =>
    obtain rfl : l = [] := by simpa using hl
    exact fun b hb => absurd hb List.not_mem_nil
  | cons x content ih =>
    obtain ⟨l', ls, he⟩ := List.exists_cons_of_ne_nil (List.splitOnP_ne_nil isLineEnd content)
    rw [List.splitOnP_cons_eq_if_modifyHead] at hl
    rw [he] at hl ih
    by_cases hx : isLineEnd x = true
    · rw [if_pos hx] at hl
      rcases List.mem_cons.mp hl with rfl | hl
      · exact fun b hb => absurd hb List.not_mem_nil
      · exact fun b hb => (ih hl b hb).imp_right (List.mem_cons_of_mem x)
    · rw [if_neg hx, List.modifyHead_cons] at hl
      rcases List.mem_cons.mp hl with rfl | hl
      · refine List.forall_mem_cons.mpr ⟨⟨by simpa using hx, List.mem_cons_self⟩, fun b hb => ?_⟩
        exact (ih List.mem_cons_self b hb).imp_right (List.mem_cons_of_mem x)
      · exact fun b hb => (ih (List.mem_cons_of_mem _ hl) b hb).imp_right (List.mem_cons_of_mem x)

theorem strip_of_line {s : List UInt8} (h : ∀ b ∈ s, isLineEnd b = false) : strip s = s := by
  unfold strip
  rw [if_neg]
  intro hlast
  exact absurd (h 13 (List.mem_of_getLast? hlast)) (by decide)

/-- The lines of what is in front of a byte, which the line it is in goes on with. -/
theorem lines_append_split {front back : List UInt8} : ∃ before last first after,
    lines front = before ++ [last] ∧ lines back = first :: after ∧ lines (front ++ back) = before ++ (last ++ first) :: after := by
  unfold lines
  obtain ⟨first, after, hback⟩ := List.exists_cons_of_ne_nil (List.splitOnP_ne_nil isLineEnd back)
  induction front with
  | nil => exact ⟨[], [], first, after, rfl, hback, by simp [hback]⟩
  | cons x front ih =>
    obtain ⟨before, last, first', after', hfront, hback', happ⟩ := ih
    obtain ⟨rfl, rfl⟩ := List.cons.inj (hback'.symm.trans hback)
    rw [List.cons_append, List.splitOnP_cons_eq_if_modifyHead, List.splitOnP_cons_eq_if_modifyHead, hfront, happ]
    by_cases hx : isLineEnd x = true
    · exact ⟨[] :: before, last, first', after', by rw [if_pos hx, List.cons_append], hback, by rw [if_pos hx, List.cons_append]⟩
    · rw [if_neg hx, if_neg hx]
      cases before with
      | nil => exact ⟨[], x :: last, first', after', rfl, hback, rfl⟩
      | cons l before => exact ⟨(x :: l) :: before, last, first', after', rfl, hback, rfl⟩

/-- The entries of lines and of more lines. -/
theorem sections_append (since ls : List (List UInt8)) :
    ∃ since', ∀ more, sections since (ls ++ more) = sections since ls ++ sections since' more := by
  induction ls generalizing since with
  | nil => exact ⟨since, fun _ => rfl⟩
  | cons l ls ih =>
    by_cases hl : isEntry l = true
    · obtain ⟨since', h⟩ := ih []
      refine ⟨since', fun more => ?_⟩
      rw [List.cons_append, sections, if_pos hl, sections, if_pos hl, h, List.cons_append]
    · obtain ⟨since', h⟩ := ih (since ++ [l])
      refine ⟨since', fun more => ?_⟩
      rw [List.cons_append, sections, if_neg hl, sections, if_neg hl, h]

theorem sections_eq_nil_iff {since ls : List (List UInt8)} : sections since ls = [] ↔ ∀ l ∈ ls, isEntry l = false := by
  induction ls generalizing since with
  | nil => simp [sections]
  | cons l ls ih =>
    rw [sections, List.forall_mem_cons]
    by_cases hl : isEntry l = true
    · simp [hl]
    · rw [if_neg hl, ih]
      simp [hl]

section Paths
variable {cwd front p q : List UInt8} {x : UInt8}

/-- What makes a stream. -/
theorem isStreaming_iff {url : List UInt8} : 0 ≤ isStreaming front url ↔
    (∃ t ∈ types, t <+: url) ∨ ∃ t ∈ vlcTypes, t <:+ front ++ url := by
  have hschemes : ∀ t ∈ types, ascii "://" <:+: t := by decide
  have hscheme : (if ascii "://" <:+: url then types.findIdx? (·.isPrefixOf url) else none) = none ↔
      ¬ ∃ t ∈ types, t <+: url := by
    by_cases hsep : ascii "://" <:+: url
    · rw [if_pos hsep, List.findIdx?_eq_none_iff]
      simp [← Bool.not_eq_true, List.isPrefixOf_iff_prefix]
    · rw [if_neg hsep]
      refine iff_of_true rfl ?_
      rintro ⟨t, ht, hpre⟩
      exact hsep ((hschemes t ht).trans hpre.isInfix)
  have hvlc : vlcTypes.findIdx? (fun t => t.isSuffixOf (front ++ url)) = none ↔ ¬ ∃ t ∈ vlcTypes, t <:+ front ++ url := by
    rw [List.findIdx?_eq_none_iff]
    simp [← Bool.not_eq_true, List.isSuffixOf_iff_suffix]
  unfold isStreaming
  cases h₁ : if ascii "://" <:+: url then types.findIdx? (·.isPrefixOf url) else none with
  | some i =>
    have hsome : ∃ t ∈ types, t <+: url := by
      by_contra hno
      rw [hscheme.mpr hno] at h₁
      cases h₁
    exact iff_of_true (Int.natCast_nonneg i) (.inl hsome)
  | none =>
    have hno := hscheme.mp h₁
    dsimp only
    cases h₂ : vlcTypes.findIdx? fun t => t.isSuffixOf (front ++ url) with
    | some i =>
      have hsome : ∃ t ∈ vlcTypes, t <:+ front ++ url := by
        by_contra hno
        rw [hvlc.mpr hno] at h₂
        cases h₂
      exact iff_of_true (by dsimp only; omega) (.inr hsome)
    | none => exact iff_of_false (by decide) fun h => h.elim hno (hvlc.mp h₂)

/-- A line and what it begins with are different files, if the next byte is none of ASCII. -/
theorem pathOf_ne (hp : p ≠ []) (hx : 128 ≤ x.toNat) : pathOf cwd front p ≠ pathOf cwd front (p ++ x :: q) := by
  have hne : p ≠ p ++ x :: q := fun he => by simpa using congrArg List.length he
  have hhead : (p ++ x :: q).headD 0 = p.headD 0 := by
    obtain ⟨b, p, rfl⟩ := List.exists_cons_of_ne_nil hp
    rfl
  unfold pathOf
  rw [hhead]
  by_cases habs : isSeparator (p.headD 0) = true
  · rw [if_pos habs, if_pos habs]
    exact hne
  · rw [if_neg habs, if_neg habs]
    by_cases hlong : 0 ≤ isStreaming front (p ++ x :: q)
    · rw [if_pos hlong]
      by_cases hshort : 0 ≤ isStreaming front p
      · rw [if_pos hshort]
        exact hne
      · rw [if_neg hshort]
        intro he
        refine hshort (isStreaming_iff.mpr ?_)
        rcases isStreaming_iff.mp hlong with ⟨t, ht, hpre⟩ | ⟨t, ht, hsuf⟩
        · -- all of the scheme is in front of the byte
          have hascii : ∀ t ∈ types, ∀ b ∈ t, b.toNat < 128 := by decide +kernel
          refine .inl ⟨t, ht, ?_⟩
          rcases Nat.lt_or_ge p.length t.length with hlt | hle
          · have hmem : p ++ [x] <+: t := by
              refine List.prefix_of_prefix_length_le ⟨q, by simp⟩ hpre ?_
              rw [List.length_append, List.length_singleton]
              exact hlt
            have hlow := hascii t ht x (hmem.subset (by simp))
            omega
          · exact List.prefix_of_prefix_length_le hpre (List.prefix_append _ _) hle
        · -- the suffix is one of the short line, as it has no separator
          have hplain : ∀ t ∈ vlcTypes, 0x2F ∉ t := by decide
          refine .inr ⟨t, ht, ?_⟩
          rw [← he] at hsuf
          have hshort : 0x2F :: p <:+ front ++ (cwd ++ 0x2F :: p) := ⟨front ++ cwd, by simp⟩
          rcases Nat.lt_or_ge p.length t.length with hlt | hle
          · have hmem : 0x2F :: p <:+ t := List.suffix_of_suffix_length_le hshort hsuf hlt
            exact absurd (hmem.subset List.mem_cons_self) (hplain t ht)
          · have hp' : t <:+ p :=
              List.suffix_of_suffix_length_le hsuf ((List.suffix_cons _ _).trans hshort) hle
            exact hp'.trans (List.suffix_append _ _)
    · rw [if_neg hlong]
      by_cases hshort : 0 ≤ isStreaming front p
      · rw [if_pos hshort]
        intro he
        have hlen := congrArg List.length he
        simp only [List.length_append, List.length_cons] at hlen
        omega
      · rw [if_neg hshort]
        intro he
        exact hne (List.cons.inj (List.append_cancel_left he)).2

end Paths

/-- A byte that is none of ASCII matters exactly if an entry comes up to it. -/
theorem plainEntries_iff {front rest first : List UInt8} {before after : List (List UInt8)} {x : UInt8}
    (hlow : ∀ b ∈ front, b.toNat < 128) (hx : 128 ≤ x.toNat) (hfront : ∀ l ∈ before, l ∈ lines front)
    (hmem : x ∈ first) (hlines : lines (front ++ x :: rest) = before ++ first :: after) :
    PlainEntries (front ++ x :: rest) ↔ ∀ l ∈ first :: after, isEntry l = false := by
  constructor
  · intro h l hl
    by_contra hentry
    obtain ⟨b', a', hsplit⟩ := List.append_of_mem hl
    have hplain := h (before ++ b') l a' (by rw [hlines, hsplit, List.append_assoc]) (by simpa using hentry)
    have hfirst : first ∈ before ++ b' ++ [l] := by
      cases b' with
      | nil =>
        obtain ⟨rfl, -⟩ := List.cons.inj hsplit
        simp
      | cons y b' =>
        obtain ⟨rfl, -⟩ := List.cons.inj hsplit
        simp
    have hb := hplain first hfirst x hmem
    omega
  · intro h bf line af hsplit hentry l hl b hb
    rw [hlines] at hsplit
    have hl' : l ∈ before := by
      rcases List.append_eq_append_iff.mp hsplit with ⟨a', rfl, hrest⟩ | ⟨a', rfl, hrest⟩
      · -- the entry would be behind the byte
        exact absurd (h line (by rw [hrest]; simp)) (by simp [hentry])
      · cases a' with
        | nil =>
          obtain ⟨rfl, -⟩ := List.cons.inj hrest
          exact absurd (h line List.mem_cons_self) (by simp [hentry])
        | cons y a' =>
          obtain ⟨rfl, -⟩ := List.cons.inj hrest
          rcases List.mem_append.mp hl with hl | hl
          · exact List.mem_append_left _ hl
          · obtain rfl := List.mem_singleton.mp hl
            simp
    exact hlow b (bytes_of_line (hfront l hl') b hb).2

/-- The entries stay the same without a byte that is none of ASCII and all that follows exactly if none comes up to it. -/
theorem entries_cut_iff {mem : Surroundings} {cwd front rest : List UInt8} {x : UInt8}
    (hlow : ∀ b ∈ front, b.toNat < 128) (hx : 128 ≤ x.toNat) :
    (sections [] (lines front)).mapIdx (Section.entry mem cwd) =
        (sections [] (lines (front ++ x :: rest))).mapIdx (Section.entry mem cwd) ↔ PlainEntries (front ++ x :: rest) := by
  obtain ⟨before, last, first, after, hfront, hback, hlines⟩ := @lines_append_split front (x :: rest)
  have hxline : isLineEnd x = false := by
    rw [Bool.eq_false_iff]
    intro hend
    rcases (by simpa [isLineEnd] using hend : x = 10 ∨ x = 13) with rfl | rfl
    · exact absurd hx (by decide)
    · exact absurd hx (by decide)
  obtain ⟨q, rfl⟩ : ∃ q, first = x :: q := by
    obtain ⟨l, ls, he⟩ := List.exists_cons_of_ne_nil (List.splitOnP_ne_nil isLineEnd rest)
    have hcons : lines (x :: rest) = (x :: l) :: ls := by
      unfold lines
      rw [List.splitOnP_cons_eq_if_modifyHead, if_neg (by simp [hxline]), he]
      rfl
    exact ⟨l, (List.cons.inj (hback.symm.trans hcons)).1⟩
  have hmem : x ∈ last ++ x :: q := by simp
  have hfirst : isEntry last = true → isEntry (last ++ x :: q) = true := by
    intro hl
    cases last with
    | nil => cases hl
    | cons b last => simpa [isEntry] using hl
  have hlast : isEntry (last ++ x :: q) = false → isEntry last = false := fun h => by
    cases hl : isEntry last with
    | false => rfl
    | true => rw [hfirst hl] at h; cases h
  rw [plainEntries_iff hlow hx (by rw [hfront]; exact fun l hl => List.mem_append_left _ hl) hmem hlines, hfront, hlines]
  obtain ⟨since, hsections⟩ := sections_append [] before
  rw [hsections, hsections, List.mapIdx_append, List.mapIdx_append, List.append_cancel_left_eq]
  cases hentry : isEntry (last ++ x :: q) with
  | true =>
    refine iff_of_false (fun heq => ?_) fun h => by simpa [hentry] using h _ List.mem_cons_self
    have hright : sections since ((last ++ x :: q) :: after) = ⟨since, last ++ x :: q⟩ :: sections [] after := by
      rw [sections, if_pos hentry]
    rw [hright] at heq
    by_cases hl : isEntry last = true
    · have hleft : sections since [last] = [⟨since, last⟩] := by
        rw [sections, if_pos hl]
        rfl
      rw [hleft, List.mapIdx_cons, List.mapIdx_cons] at heq
      have hpath := congrArg Prod.fst (List.cons.inj heq).1
      have hne : last ≠ [] := (of_decide_eq_true hl : last ≠ [] ∧ last.headD 0 ≠ 0x23).1
      exact pathOf_ne hne hx hpath
    · have hleft : sections since [last] = [] := by
        rw [sections, if_neg hl]
        rfl
      rw [hleft] at heq
      simp at heq
  | false =>
    have hleft : sections since [last] = [] := by
      rw [sections, if_neg (by simp [hlast hentry])]
      rfl
    rw [hleft, List.forall_mem_cons, and_iff_right hentry, sections, if_neg (by simp [hentry])]
    rw [List.mapIdx_nil, eq_comm, List.mapIdx_eq_nil_iff, sections_eq_nil_iff]

/-- What is taken for the end of the file matters exactly if an entry comes up to it. -/
theorem entries_readable_iff {mem : Surroundings} {cwd content : List UInt8} {signed : Bool} :
    (sections [] (lines (readable signed content))).mapIdx (Section.entry mem cwd) =
        (sections [] (lines content)).mapIdx (Section.entry mem cwd) ↔ (signed = true → PlainEntries content) := by
  cases signed with
  | false => exact iff_of_true rfl fun h => by cases h
  | true =>
    rw [forall_prop_of_true rfl]
    have hread : readable true content = content.takeWhile fun b => decide (b.toNat < 128) := rfl
    have hlow : ∀ b ∈ content.takeWhile (fun b => decide (b.toNat < 128)), b.toNat < 128 := by
      intro b hb
      simpa using List.mem_takeWhile_imp hb
    rw [hread]
    obtain ⟨front, back, hfront, hback, hcontent⟩ : ∃ front back, content.takeWhile (fun b => decide (b.toNat < 128)) = front ∧
        content.dropWhile (fun b => decide (b.toNat < 128)) = back ∧ content = front ++ back :=
      ⟨_, _, rfl, rfl, List.takeWhile_append_dropWhile.symm⟩
    rw [hfront] at hlow ⊢
    cases back with
    | nil =>
      obtain rfl : content = front := by rw [hcontent, List.append_nil]
      refine iff_of_true rfl fun before line after hsplit _ l hl b hb => ?_
      have hmem : l ∈ lines content := by
        rw [hsplit, List.append_cons]
        exact List.mem_append_left _ hl
      exact hlow b (bytes_of_line hmem b hb).2
    | cons x rest =>
      have hx : 128 ≤ x.toNat := by
        have hne : content.dropWhile (fun b => decide (b.toNat < 128)) ≠ [] := by
          rw [hback]
          exact List.cons_ne_nil _ _
        have hhead := List.head_dropWhile_not (fun b : UInt8 => decide (b.toNat < 128)) hne
        simp only [hback, List.head_cons, decide_eq_false_iff_not] at hhead
        omega
      rw [hcontent]
      exact entries_cut_iff hlow hx

/-- The lines of an entry are lines of the file. -/
theorem mem_sections {since ls : List (List UInt8)} {s : Section} (h : s ∈ sections since ls) :
    s.line ∈ ls ∧ ∀ l ∈ s.since, l ∈ since ++ ls := by
  induction ls generalizing since with
  | nil => exact absurd h List.not_mem_nil
  | cons l ls ih =>
    rw [sections] at h
    by_cases hl : isEntry l = true
    · rw [if_pos hl] at h
      rcases List.mem_cons.mp h with rfl | h
      · exact ⟨List.mem_cons_self, fun l' hl' => List.mem_append_left _ hl'⟩
      · obtain ⟨hline, hsince⟩ := ih h
        refine ⟨List.mem_cons_of_mem _ hline, fun l' hl' => ?_⟩
        exact List.mem_append_right _ (List.mem_cons_of_mem _ (hsince l' hl'))
    · rw [if_neg hl] at h
      obtain ⟨hline, hsince⟩ := ih h
      refine ⟨List.mem_cons_of_mem _ hline, fun l' hl' => ?_⟩
      simpa using hsince l' hl'

/-- Nothing is cut off from the strings of an entry. -/
theorem Section.track_entry {mem : Surroundings} {cwd bytes : List UInt8} {s : Section} (k : Nat)
    (h : s ∈ sections [] (lines bytes)) : ((s.track mem cwd k).filename, (s.track mem cwd k).name) = s.entry mem cwd k := by
  obtain ⟨hline, hsince⟩ := mem_sections h
  have hfile : strip s.line = s.line := strip_of_line fun b hb => (bytes_of_line hline b hb).1
  have hname : s.name.map strip = s.name := by
    cases hn : s.name with
    | none => rfl
    | some title =>
      have hmem : title ∈ s.since.filterMap extinfTitle := List.mem_of_getLast? hn
      obtain ⟨l, hl, htitle⟩ := List.mem_filterMap.mp hmem
      have hl' : l ∈ lines bytes := hsince l hl
      exact congrArg some (strip_of_line fun b hb => (bytes_of_line hl' b (mem_of_mem_title htitle hb)).1)
  unfold Section.track Section.entry trackOf
  refine Prod.ext ?_ ?_
  · dsimp only
    by_cases habs : isSeparator (s.line.headD 0) = true
    · have hpath : pathOf cwd (mem.stack k) s.line = s.line := if_pos habs
      rw [hpath, hfile, ite_self]
    · rw [if_neg fun hc => habs hc.1]
  · dsimp only
    rw [Section.read_name, hname]

/-- The whole function takes the lines of what is read. -/
theorem buildPlaylistFromFile_eq {mem : Surroundings} {signed : Bool} {pieces : Nat → Nat → Nat}
    {filename content : List UInt8} (junk : List UInt8) (h0 : 0 ∉ content) (hp : ∀ k n, 0 < n → 1 ≤ pieces k n) :
    buildPlaylistFromFile mem signed pieces filename content junk =
      (lines (readable signed content)).foldl (Build.takeLine mem (dirOf filename)) {} := by
  have hsub : ∀ b ∈ readable signed content, b ∈ content := by
    cases signed with
    | false => exact fun b hb => hb
    | true => exact (List.takeWhile_prefix _).subset
  unfold buildPlaylistFromFile
  rw [buildLoop_eq hp, Reader.left_start, foldl_put (fun hzero => h0 (hsub 0 hzero)) (by simp)]
  rfl

/-- What the code has at the end of the file. -/
theorem buildPlaylistFromFile_holds (mem : Surroundings) (signed : Bool) {pieces : Nat → Nat → Nat}
    (filename : List UInt8) {content : List UInt8} (junk : List UInt8) (h0 : 0 ∉ content) (hp : ∀ k n, 0 < n → 1 ≤ pieces k n) :
    ∃ since, Build.Holds mem (dirOf filename) (sections [] (lines (readable signed content))) since
      (buildPlaylistFromFile mem signed pieces filename content junk) := by
  have hstart : Build.Holds mem (dirOf filename) [] [] {} := ⟨rfl, rfl, rfl, rfl, rfl, rfl, by simp⟩
  obtain ⟨since, hholds⟩ := hstart.run (lines (readable signed content))
  rw [← buildPlaylistFromFile_eq junk h0 hp, List.nil_append] at hholds
  exact ⟨since, hholds⟩

/-- A file gives one entry a line exactly if the lines that are read fit in the buffer, no entry comes up to a byte that
is taken for the end of the file, and the byte in front of an empty name is no carriage return. -/
theorem buildPlaylistFromFile_iff (filenameMax : Nat) (mem : Surroundings) (signed : Bool) (pieces : Nat → Nat → Nat)
    (filename content junk : List UInt8) (h0 : 0 ∉ content) (hp : ∀ k n, 0 < n → 1 ≤ pieces k n) :
    OnePerLine filenameMax mem (dirOf filename) content (buildPlaylistFromFile mem signed pieces filename content junk) ↔
      (∀ l ∈ lines (readable signed content), l.length ≤ filenameMax) ∧ (signed = true → PlainEntries content) ∧
        ∀ k s, (sections [] (lines (readable signed content)))[k]? = some s → s.name = some [] → mem.heap k ≠ 13 := by
  obtain ⟨since, hholds⟩ := buildPlaylistFromFile_holds mem signed filename junk h0 hp
  have htop : ((lines (readable signed content)).foldl (Build.takeLine mem (dirOf filename)) {}).top ≤ filenameMax + 1 ↔ _ :=
    foldl_takeLine_top
  rw [← buildPlaylistFromFile_eq junk h0 hp] at htop
  generalize buildPlaylistFromFile mem signed pieces filename content junk = b at hholds htop
  have hlength : b.nodes.length = (sections [] (lines (readable signed content))).length := by
    rw [hholds.nodes, length_nodesOf, List.length_mapIdx]
  have hentries : b.nodes.map (fun n => (n.track.filename, n.track.name)) =
      (sections [] (lines (readable signed content))).mapIdx (Section.entry mem (dirOf filename)) := by
    rw [hholds.nodes, map_nodesOf (fun t => (t.filename, t.name)), eq_comm, List.mapIdx_eq_iff]
    intro k
    rw [List.getElem?_map, List.getElem?_mapIdx, Option.map_map]
    refine Option.map_congr fun s hs => ?_
    exact Section.track_entry k (List.mem_of_getElem? hs)
  constructor
  · intro h
    refine ⟨fun l hl => ?_, entries_readable_iff.mp (hentries.symm.trans h.entries), fun k s hk hempty hcr => ?_⟩
    · have hle := (htop.mp h.inside).2 l hl
      omega
    · have hunder := hholds.under.mpr ⟨k, s, hk, hempty, hcr⟩
      rw [h.names] at hunder
      cases hunder
  · rintro ⟨hlines, hplain, hnames⟩
    refine ⟨hentries.trans (entries_readable_iff.mpr hplain), ?_, ?_, ?_, ?_, ?_, ?_, ?_⟩
    · rw [hlength, hholds.nodes, keys_nodesOf, List.length_mapIdx]
    · have hnil : b.nodes = [] ↔ sections [] (lines (readable signed content)) = [] := by
        rw [← List.length_eq_zero_iff, hlength, List.length_eq_zero_iff]
      rw [hholds.playlist]
      simp only [hnil]
    · intro k hk
      rw [hlength] at hk ⊢
      rw [hholds.nodes, next_nodesOf (by rwa [List.length_mapIdx]), List.length_mapIdx]
    · rw [hholds.nodes]
      exact inverse_nodesOf
    · rw [hlength, hholds.count]
    · exact htop.mpr ⟨Nat.zero_le _, fun l hl => Nat.succ_le_succ (hlines l hl)⟩
    · rw [Bool.eq_false_iff]
      intro hunder
      obtain ⟨k, s, hk, hempty, hcr⟩ := hholds.under.mp hunder
      exact hnames k s hk hempty hcr

/-- Nothing but zeros around the strings. -/
def quiet : Surroundings := ⟨fun _ => [], fun _ => 0⟩

/-- A file with one track and its title. -/
def oneTrack : List UInt8 := ascii "#EXTM3U" ++ [13, 10] ++ ascii "#EXTINF:10,Song" ++ [13, 10] ++ ascii "a.mp3" ++ [13, 10]

theorem oneTrack_onePerLine : OnePerLine 4096 quiet (dirOf (ascii "/m/a.m3u")) oneTrack
    (buildPlaylistFromFile quiet false (fun _ n => n) (ascii "/m/a.m3u") oneTrack []) :=
  (buildPlaylistFromFile_iff 4096 quiet false (fun _ n => n) (ascii "/m/a.m3u") oneTrack [] (by decide)
    fun _ _ hn => hn).mpr ⟨by decide, fun h => (by cases h), fun _ _ _ _ => show (0 : UInt8) ≠ 13 by decide⟩

/-- A line with one byte more than the buffer has room for. -/
def longLine : List UInt8 := List.replicate 4097 0x61

theorem longLine_not_inside : ¬ OnePerLine 4096 quiet (dirOf (ascii "/m/a.m3u")) longLine
    (buildPlaylistFromFile quiet false (fun _ n => n) (ascii "/m/a.m3u") longLine []) := by
  have hmem : ∀ b ∈ longLine, b = 0x61 := fun b hb => List.eq_of_mem_replicate hb
  have h0 : 0 ∉ longLine := fun h => absurd (hmem 0 h) (by decide)
  have hone : lines longLine = [longLine] := List.splitOnP_eq_singleton fun b hb => by
    rw [hmem b hb]
    decide
  intro h
  have hinside := h.inside
  rw [buildPlaylistFromFile_eq [] h0 fun _ _ hn => hn, foldl_takeLine_top] at hinside
  have hread : readable false longLine = longLine := rfl
  rw [hread, hone] at hinside
  have hle := hinside.2 longLine (List.mem_singleton_self _)
  have hlen : longLine.length = 4097 := List.length_replicate
  omega

end Mvpmc.Playlist
