import Mvpmc.Lib.CString
import Mvpmc.Lib.Decimal

/-! The covers of albums that are kept in files (`mclient_get_browser_cover_art` and the end of `mclient_loop_thread`,
`mclient_mvpmc.c`). What the screen shows of them is left out, and so is the cover of the current track, whose file has a
name of its own. -/
namespace Mvpmc.Mclient
open Mvpmc.Lib.Circular Mvpmc.Lib.CString

def CACHED_ALBUM_COVERS_MAX : Nat := 100

/-- How one call of `fetch_cover_image` ends: with the whole image, with an image cut short, without an image. -/
inductive Fetch where
  | image
  | broken
  | noImage
  deriving DecidableEq, Repr

/-- The files of covers in the order of their creation, the ring of their names, and of every eviction so far the name
that was unlinked with the oldest file there was. -/
structure Covers where
  files : List (List UInt8)
  names : Nat → UInt8
  head : Nat
  tail : Nat
  evicted : List (List UInt8 × Option (List UInt8))

/-- What one cover is asked for with: the version of the server is the preferred one, the album has artwork, the track,
and what the fetches give. -/
structure CoverCall where
  preferred : Bool
  artwork : Bool
  trackId : BitVec 32
  fetch : Nat → Fetch

/-- A number printed with `%d`. -/
def printInt (n : Int) : List UInt8 := if n < 0 then 45 :: Lib.Decimal.text n.natAbs else Lib.Decimal.text n.natAbs

/-- `/tmp/cover_` and the track. -/
def cachedImageFilename (trackId : BitVec 32) : List UInt8 :=
  [47, 116, 109, 112, 47, 99, 111, 118, 101, 114, 95] ++ printInt trackId.toInt

def CoverCall.name (c : CoverCall) : List UInt8 := cachedImageFilename c.trackId

/-- Where a name of the ring begins. -/
def coverSlot (i : Nat) : Nat := 50 * i

namespace Covers

/-- `cached_album_covers_names[i]`. -/
def nameAt (s : Covers) (i : Nat) : List UInt8 := stringAt s.names (coverSlot i) 50

def unlink (s : Covers) (name : List UInt8) : Covers := { s with files := s.files.filter (· ≠ name) }

def create (s : Covers) (name : List UInt8) : Covers :=
  { s with files := if name ∈ s.files then s.files else s.files ++ [name] }

/-- `fetch_cover_image`: whether it returned 0. -/
def fetchCoverImage (s : Covers) (name : List UInt8) : Fetch → Covers × Bool
  | .image => (s.create name, true)
  | .broken => (s.create name, false)
  | .noImage => (s, false)

/-- At most so many tries, from a fetch on: whether the last of them returned 0. -/
def tryFetches (name : List UInt8) (fetch : Nat → Fetch) : Nat → Nat → Covers → Covers × Bool
  | 0, _, s => (s, false)
  | tries + 1, i, s =>
    let r := s.fetchCoverImage name (fetch i)
    if r.2 then r else tryFetches name fetch tries (i + 1) r.1

/-- The oldest cover goes where there are too many. -/
def evict (s : Covers) : Covers :=
  if (s.head + 1) % CACHED_ALBUM_COVERS_MAX = s.tail then
    { s.unlink (s.nameAt s.tail) with
      tail := (s.tail + 1) % CACHED_ALBUM_COVERS_MAX
      evicted := s.evicted ++ [(s.nameAt s.tail, s.files.head?)] }
  else s

/-- A new cover is put into the ring; its name is copied without the zero behind it. -/
def log (s : Covers) (name : List UInt8) : Covers :=
  let s := s.evict
  let head := (s.head + 1) % CACHED_ALBUM_COVERS_MAX
  { s with head, names := strncpy s.names (coverSlot head) name name.length }

/-- Four tries for a cover that there is no file of yet. -/
def getNew (s : Covers) (name : List UInt8) (fetch : Nat → Fetch) : Covers × Bool :=
  let r := tryFetches name fetch 4 0 s
  if r.2 then (r.1.log name, true) else r

/-- `mclient_get_browser_cover_art`. -/
def getBrowserCoverArt (s : Covers) (c : CoverCall) : Covers :=
  if c.preferred then
    if c.artwork ∧ c.name ∉ s.files then (s.getNew c.name c.fetch).1 else s
  else
    let r := if c.name ∉ s.files then s.getNew c.name c.fetch else (s, true)
    -- all four tries failed, and four more follow
    if r.2 then r.1 else (tryFetches c.name c.fetch 4 4 r.1).1

def getCovers (s : Covers) (calls : List CoverCall) : Covers := calls.foldl getBrowserCoverArt s

/-- The loop of the clean-up; a turn of the ring is enough for it. -/
def cleanLoop : Nat → Covers → Covers
  | 0, s => s
  | n + 1, s =>
    if s.head ≠ s.tail then
      cleanLoop n { s.unlink (s.nameAt s.tail) with tail := (s.tail + 1) % CACHED_ALBUM_COVERS_MAX }
    else s

/-- The clean-up at the end of `mclient_loop_thread`. -/
def cleanUp (s : Covers) : Covers :=
  let s := cleanLoop CACHED_ALBUM_COVERS_MAX { s with head := s.head % CACHED_ALBUM_COVERS_MAX }
  s.unlink (s.nameAt s.tail)

/-- The names from the tail of the ring to its head. -/
def ringNames (s : Covers) : List (List UInt8) :=
  (List.range ((s.head + CACHED_ALBUM_COVERS_MAX - s.tail) % CACHED_ALBUM_COVERS_MAX + 1)).map fun k =>
    s.nameAt ((s.tail + k) % CACHED_ALBUM_COVERS_MAX)

/-- At the start of the program. -/
def initial : Covers := ⟨[], fun _ => 0, 0, 0, []⟩

/-- No file is forgotten: the ring holds the names of the files there are, what was unlinked for a new cover was the
oldest, and the clean-up leaves none. A place of the ring that was never filled holds no name. -/
structure Remembers (s : Covers) : Prop where
  names : ∀ name, name ≠ [] → (name ∈ s.ringNames ↔ name ∈ s.files)
  oldest : ∀ e ∈ s.evicted, e.2 = some e.1
  cleaned : s.cleanUp.files = []

end Covers

/-- The download succeeds in one of the tries there are. -/
def CoverCall.Succeeds (c : CoverCall) : Prop := ∃ i < if c.preferred then 4 else 8, c.fetch i = .image

/-- Whether a cover is downloaded that there is no file of among those known. -/
def CoverCall.Downloads (known : List (List UInt8)) (c : CoverCall) : Prop :=
  c.name ∉ known ∧ (c.preferred = true → c.artwork = true)

/-- Ninety-nine covers at most, each there after four tries. -/
def FewAndEarly : List (List UInt8) → List CoverCall → Prop
  | _, [] => True
  | known, c :: calls =>
    (c.Downloads known → known.length < 99 ∧ (∃ i < 4, c.fetch i = .image) ∧ FewAndEarly (known ++ [c.name]) calls) ∧
      (¬ c.Downloads known → FewAndEarly known calls)

section Names
variable (trackId : BitVec 32)

theorem printInt_length_le : (printInt trackId.toInt).length ≤ 11 := by
  have hlt : trackId.toInt.natAbs < 10 ^ 10 := by
    have := trackId.isLt
    rw [BitVec.toInt]
    split <;> omega
  have hlen := Lib.Decimal.length_text_le (by decide) hlt
  rw [printInt]
  split
  · rw [List.length_cons]
    omega
  · omega

theorem zero_not_mem_printInt (n : Int) : 0 ∉ printInt n := by
  have hdigits : 0 ∉ Lib.Decimal.text n.natAbs := fun h => absurd (Lib.Decimal.isDigit_text _ _ h) (by decide)
  rw [printInt]
  split
  · simpa using hdigits
  · exact hdigits

/-- The name of a file fits into its place of the ring. -/
theorem cachedImageFilename_length : (cachedImageFilename trackId).length < 50 := by
  have := printInt_length_le trackId
  simp only [cachedImageFilename, List.length_append, List.length_cons, List.length_nil]
  omega

theorem zero_not_mem_cachedImageFilename : 0 ∉ cachedImageFilename trackId := by
  have := zero_not_mem_printInt trackId.toInt
  simpa [cachedImageFilename] using this

theorem cachedImageFilename_ne_nil : cachedImageFilename trackId ≠ [] := by
  simp [cachedImageFilename]

end Names

namespace Covers

section Fetches
variable {name : List UInt8} {fetch : Nat → Fetch}

theorem create_create (s : Covers) : (s.create name).create name = s.create name := by
  by_cases h : name ∈ s.files <;> simp [create, h]

/-- The tries end with the first whole image, and the file is there. -/
theorem tryFetches_image {n i : Nat} {s : Covers} (h : ∃ k < n, fetch (i + k) = .image) :
    tryFetches name fetch n i s = (s.create name, true) := by
  induction n generalizing i s with
  | zero => obtain ⟨k, hk, -⟩ := h; exact absurd hk (Nat.not_lt_zero k)
  | succ n ih =>
    obtain ⟨k, hk, himage⟩ := h
    have hnext : fetch i ≠ .image → ∃ j < n, fetch (i + 1 + j) = .image := by
      intro hi
      cases k with
      | zero => exact absurd himage hi
      | succ k => exact ⟨k, by omega, by rw [← himage]; congr 1; omega⟩
    rw [tryFetches]
    cases hf : fetch i with
    | image => rfl
    | broken => simp only [fetchCoverImage, Bool.false_eq_true, if_false, ih (hnext (by simp [hf])), create_create]
    | noImage => simp only [fetchCoverImage, Bool.false_eq_true, if_false, ih (hnext (by simp [hf]))]

/-- Tries without a whole image leave nothing, or the file of a part of it. -/
theorem tryFetches_failed (name : List UInt8) {n i : Nat} (s : Covers) (h : ∀ k < n, fetch (i + k) ≠ .image) :
    tryFetches name fetch n i s = (s, false) ∨ tryFetches name fetch n i s = (s.create name, false) := by
  induction n generalizing i s with
  | zero => exact .inl rfl
  | succ n ih =>
    have hnext : ∀ k < n, fetch (i + 1 + k) ≠ .image := by
      intro k hk
      rw [Nat.add_assoc, Nat.add_comm 1]
      exact h (k + 1) (by omega)
    rw [tryFetches]
    cases hf : fetch i with
    | image => exact absurd hf (h 0 (Nat.succ_pos n))
    | broken =>
      have := ih (s.create name) hnext
      rw [create_create] at this
      exact .inr (by simpa only [fetchCoverImage, Bool.false_eq_true, if_false, or_self] using this)
    | noImage => simpa only [fetchCoverImage, Bool.false_eq_true, if_false] using ih s hnext

end Fetches

/-- The covers downloaded so far are all there, their names one behind the other from the second place of the ring on. -/
structure Holds (s : Covers) (known : List (List UInt8)) : Prop where
  files : s.files = known
  few : known.length ≤ 99
  head : s.head = known.length
  tail : s.tail = 0
  named : ∀ i (h : i < known.length), s.nameAt (i + 1) = known[i]
  first : s.nameAt 0 = []
  blank : ∀ a, coverSlot (known.length + 1) ≤ a → s.names a = 0
  evicted : s.evicted = []
  ne_nil : [] ∉ known

theorem initial_holds : initial.Holds [] where
  files := rfl
  few := by decide
  head := rfl
  tail := rfl
  named := fun i h => absurd h (Nat.not_lt_zero i)
  first := by decide
  blank := fun _ _ => rfl
  evicted := rfl
  ne_nil := List.not_mem_nil

section Held
variable {s : Covers} {known : List (List UInt8)} {name : List UInt8}

theorem Holds.mem_ringNames (h : s.Holds known) (hne : name ≠ []) : name ∈ s.ringNames ↔ name ∈ known := by
  have hsize : (s.head + CACHED_ALBUM_COVERS_MAX - s.tail) % CACHED_ALBUM_COVERS_MAX = known.length := by
    have := h.few
    rw [h.head, h.tail, CACHED_ALBUM_COVERS_MAX]
    omega
  have hplace : ∀ k < known.length + 1, (s.tail + k) % CACHED_ALBUM_COVERS_MAX = k := by
    intro k hk
    have := h.few
    rw [h.tail, CACHED_ALBUM_COVERS_MAX]
    omega
  rw [ringNames, hsize, List.mem_map]
  constructor
  · rintro ⟨k, hk, hname⟩
    rw [hplace k (List.mem_range.mp hk)] at hname
    cases k with
    | zero => exact absurd (hname.symm.trans h.first) hne
    | succ k =>
      have hk : k < known.length := by simpa using hk
      rw [← hname, h.named k hk]
      exact List.getElem_mem hk
  · intro hmem
    obtain ⟨k, hk, rfl⟩ := List.getElem_of_mem hmem
    exact ⟨k + 1, by simpa using hk, by rw [hplace _ (by omega), h.named k hk]⟩

/-- The clean-up loop unlinks the names from the tail of the ring to in front of its head. -/
theorem cleanLoop_files {n : Nat} {s : Covers} (hh : s.head < CACHED_ALBUM_COVERS_MAX) (ht : s.tail ≤ s.head)
    (hn : s.head - s.tail ≤ n) :
    (cleanLoop n s).tail = s.head ∧ (cleanLoop n s).names = s.names ∧
      ∀ f, f ∈ (cleanLoop n s).files → f ∈ s.files ∧ ∀ k, s.tail ≤ k → k < s.head → f ≠ s.nameAt k := by
  induction n generalizing s with
  | zero =>
    have heq : s.tail = s.head := by omega
    exact ⟨heq, rfl, fun f hf => ⟨hf, fun k hk hk' => absurd hk' (by omega)⟩⟩
  | succ n ih =>
    rw [cleanLoop]
    split
    case isTrue hne =>
      have hnext : (s.tail + 1) % CACHED_ALBUM_COVERS_MAX = s.tail + 1 := Nat.mod_eq_of_lt (by omega)
      rw [hnext]
      obtain ⟨htail, hnames, hfiles⟩ := ih (s := { s.unlink (s.nameAt s.tail) with tail := s.tail + 1 }) hh
        (by simp only [unlink]; omega) (by simp only [unlink]; omega)
      refine ⟨htail, hnames, fun f hf => ?_⟩
      obtain ⟨hmem, hrest⟩ := hfiles f hf
      obtain ⟨hmem, hfirst⟩ := List.mem_filter.mp hmem
      refine ⟨hmem, fun k hk hk' => ?_⟩
      rcases Nat.eq_or_lt_of_le hk with rfl | hlt
      · simpa using hfirst
      · exact hrest k hlt hk'
    case isFalse heq => exact ⟨by omega, rfl, fun f hf => ⟨hf, fun k hk hk' => absurd hk' (by omega)⟩⟩

theorem Holds.cleanUp_files (h : s.Holds known) : s.cleanUp.files = [] := by
  have hhead : s.head % CACHED_ALBUM_COVERS_MAX = s.head := by
    have := h.few
    rw [h.head]
    exact Nat.mod_eq_of_lt (by rw [CACHED_ALBUM_COVERS_MAX]; omega)
  have hsame : ({ s with head := s.head % CACHED_ALBUM_COVERS_MAX } : Covers) = s := by rw [hhead]
  obtain ⟨htail, hnames, hfiles⟩ := cleanLoop_files (n := CACHED_ALBUM_COVERS_MAX) (s := s)
    (by have := h.few; rw [h.head, CACHED_ALBUM_COVERS_MAX]; omega) (by rw [h.tail]; omega)
    (by have := h.few; rw [h.head, CACHED_ALBUM_COVERS_MAX]; omega)
  rw [cleanUp, hsame]
  refine List.eq_nil_iff_forall_not_mem.mpr fun f hf => ?_
  obtain ⟨hmem, hlast⟩ := List.mem_filter.mp hf
  obtain ⟨hmem, hothers⟩ := hfiles f hmem
  rw [h.files] at hmem
  obtain ⟨k, hk, rfl⟩ := List.getElem_of_mem hmem
  rw [← h.named k hk] at hlast hothers
  rcases Nat.lt_or_ge (k + 1) known.length with hlt | hge
  · exact hothers (k + 1) (by rw [h.tail]; omega) (by rw [h.head]; exact hlt) rfl
  · have hend : k + 1 = s.head := by rw [h.head]; omega
    have hsameName : (cleanLoop CACHED_ALBUM_COVERS_MAX s).nameAt s.head = s.nameAt s.head := by rw [nameAt, hnames, nameAt]
    rw [htail, hsameName, hend] at hlast
    simp at hlast

theorem Holds.remembers (h : s.Holds known) : s.Remembers where
  names := fun name hne => by rw [h.mem_ringNames hne, h.files]
  oldest := fun e he => by rw [h.evicted] at he; exact absurd he List.not_mem_nil
  cleaned := h.cleanUp_files

/-- A name beside the place that a name is written to. -/
theorem nameAt_log_of_ne (s : Covers) {name : List UInt8} (hl : name.length < 50) {i : Nat}
    (hi : i ≠ (s.evict.head + 1) % CACHED_ALBUM_COVERS_MAX) : (s.log name).nameAt i = s.evict.nameAt i := by
  refine stringAt_blit_of_disjoint _ ?_
  rw [strncpy_length]
  simp only [coverSlot]
  omega

theorem evict_names (s : Covers) : s.evict.names = s.names := by
  rw [evict]
  split <;> rfl

/-- The name that is written goes on with what is left of a longer one that stood in its place. -/
theorem nameAt_log_self (s : Covers) {name : List UInt8} (hl : name.length < 50) (hz : 0 ∉ name) {i : Nat}
    (hi : i = (s.evict.head + 1) % CACHED_ALBUM_COVERS_MAX) :
    (s.log name).nameAt i = name ++ stringAt s.names (coverSlot i + name.length) (50 - name.length) := by
  have hnames : (s.log name).names = blit s.names (coverSlot i) name := by
    rw [Covers.log, ← hi, evict_names]
    simp [strncpy]
  rw [nameAt, hnames, stringAt_blit _ _ hz hl.le]

/-- One more cover while there is room in the ring. -/
theorem Holds.log (h : s.Holds known) (hnew : name ∉ known) (hroom : known.length < 99) (hl : name.length < 50)
    (hz : 0 ∉ name) (hne : name ≠ []) : ((s.create name).log name).Holds (known ++ [name]) := by
  have hfiles : (s.create name).files = known ++ [name] := by
    rw [create, h.files]
    exact if_neg hnew
  have hnext : (s.head + 1) % CACHED_ALBUM_COVERS_MAX = known.length + 1 := by
    rw [h.head]
    exact Nat.mod_eq_of_lt (by rw [CACHED_ALBUM_COVERS_MAX]; omega)
  have hevict : (s.create name).evict = s.create name := if_neg (by
    show (s.head + 1) % CACHED_ALBUM_COVERS_MAX ≠ s.tail
    rw [hnext, h.tail]
    omega)
  have hslot : ((s.create name).evict.head + 1) % CACHED_ALBUM_COVERS_MAX = known.length + 1 := by
    rw [hevict]
    exact hnext
  have hnames : ((s.create name).log name).names = blit s.names (coverSlot (known.length + 1)) name := by
    rw [Covers.log, hslot, hevict]
    simp [strncpy, create]
  have hkept : ∀ i ≤ known.length, ((s.create name).log name).nameAt i = s.nameAt i := by
    intro i hi
    rw [nameAt_log_of_ne _ hl (by rw [hslot]; omega), hevict]
    rfl
  constructor
  · rw [Covers.log, hevict]
    exact hfiles
  · rw [List.length_append]
    exact hroom
  · rw [Covers.log, List.length_append]
    exact hslot
  · rw [Covers.log, hevict]
    exact h.tail
  · intro i hi
    rcases Nat.lt_or_ge i known.length with hlt | hge
    · rw [hkept _ hlt, h.named i hlt, List.getElem_append_left hlt]
    · have hlast : i = known.length := by
        rw [List.length_append, List.length_singleton] at hi
        omega
      subst hlast
      -- the rest of the place was never written to
      have hrest : stringAt s.names (coverSlot (known.length + 1) + name.length) (50 - name.length) = [] := by
        have hzero : slice s.names (coverSlot (known.length + 1) + name.length) (50 - name.length) =
            List.replicate (50 - name.length) 0 := by
          refine List.ext_getElem (by simp) fun i _ _ => ?_
          simp only [slice, List.getElem_map, List.getElem_range, List.getElem_replicate]
          exact h.blank _ (by omega)
        rw [stringAt, hzero]
        simp
      rw [nameAt_log_self _ hl hz hslot.symm]
      show name ++ stringAt s.names _ _ = _
      rw [hrest]
      simp
  · rw [hkept 0 (Nat.zero_le _), h.first]
  · intro a ha
    rw [List.length_append, List.length_singleton] at ha
    simp only [coverSlot] at ha
    rw [hnames, blit_of_ge _ _ _ _ (by simp only [coverSlot]; omega)]
    exact h.blank a (by simp only [coverSlot]; omega)
  · rw [Covers.log, hevict]
    exact h.evicted
  · simpa [h.ne_nil] using hne

/-- The hundredth cover: a place of the ring that was never filled is evicted. -/
theorem Holds.not_remembers_full (h : s.Holds known) (hnew : name ∉ known) (hfull : known.length = 99) :
    ¬ ((s.create name).log name).Remembers := by
  have hfiles : (s.create name).files = known ++ [name] := by
    rw [create, h.files]
    exact if_neg hnew
  obtain ⟨f, rest, rfl⟩ := List.exists_cons_of_ne_nil (List.ne_nil_of_length_pos (by omega : 0 < known.length))
  have hevict : (s.create name).evict.evicted = [([], some f)] := by
    rw [evict, if_pos (by
      show (s.head + 1) % CACHED_ALBUM_COVERS_MAX = s.tail
      rw [h.head, h.tail, hfull]
      rfl)]
    show s.evicted ++ [(s.nameAt s.tail, (s.create name).files.head?)] = _
    rw [h.evicted, h.tail, h.first, hfiles]
    rfl
  intro hr
  have hold := hr.oldest ([], some f) (by
    show _ ∈ (s.create name).evict.evicted
    rw [hevict]
    exact List.mem_singleton_self _)
  obtain rfl : f = [] := Option.some.inj hold
  exact h.ne_nil List.mem_cons_self

/-- A cover that came after the first tries is in no place of the ring. -/
theorem Holds.not_remembers_late (h : s.Holds known) (hnew : name ∉ known) (hne : name ≠ []) :
    ¬ (s.create name).Remembers := by
  intro hr
  have hring : name ∈ s.ringNames := (hr.names name hne).mpr (by
    rw [create, h.files, if_neg hnew]
    exact List.mem_append_right _ (List.mem_singleton_self _))
  exact hnew ((h.mem_ringNames hne).mp hring)

/-- A call that downloads nothing changes nothing. -/
theorem Holds.getBrowserCoverArt_idle (h : s.Holds known) {c : CoverCall} (hc : ¬ c.Downloads known) :
    s.getBrowserCoverArt c = s := by
  rw [getBrowserCoverArt, h.files]
  by_cases hp : c.preferred = true
  · have hidle : ¬ (c.artwork = true ∧ c.name ∉ known) := fun ha => hc ⟨ha.2, fun _ => ha.1⟩
    rw [if_pos hp, if_neg hidle]
  · have hin : c.name ∈ known := by
      by_contra hout
      exact hc ⟨hout, fun hpref => absurd hpref hp⟩
    simp [hp, hin]

/-- A cover that comes in the first tries is put into the ring. -/
theorem Holds.getBrowserCoverArt_early (h : s.Holds known) {c : CoverCall} (hc : c.Downloads known)
    (hearly : ∃ i < 4, c.fetch i = .image) : s.getBrowserCoverArt c = (s.create c.name).log c.name := by
  obtain ⟨hnew, hart⟩ := hc
  have hget : s.getNew c.name c.fetch = ((s.create c.name).log c.name, true) := by
    rw [getNew, tryFetches_image (by simpa using hearly)]
    rfl
  rw [getBrowserCoverArt, h.files]
  by_cases hp : c.preferred = true
  · rw [if_pos hp, if_pos ⟨hart hp, hnew⟩, hget]
  · rw [if_neg hp, if_pos hnew, hget]
    rfl

/-- A cover that comes later is a file and nothing more. -/
theorem Holds.getBrowserCoverArt_late (h : s.Holds known) {c : CoverCall} (hc : c.Downloads known) (hs : c.Succeeds)
    (hearly : ¬ ∃ i < 4, c.fetch i = .image) : s.getBrowserCoverArt c = s.create c.name := by
  obtain ⟨i, hi, himage⟩ := hs
  have hp : ¬ c.preferred = true := by
    intro hp
    rw [if_pos hp] at hi
    exact hearly ⟨i, hi, himage⟩
  rw [if_neg hp] at hi
  have hlate : ∃ k < 4, c.fetch (4 + k) = .image := by
    have hge : 4 ≤ i := by
      by_contra hlt
      exact hearly ⟨i, by omega, himage⟩
    exact ⟨i - 4, by omega, by rw [← himage]; congr 1; omega⟩
  have hfailed : ∀ k < 4, c.fetch (0 + k) ≠ .image := by
    intro k hk
    rw [Nat.zero_add]
    exact fun himage => hearly ⟨k, hk, himage⟩
  have hget : (s.getNew c.name c.fetch).2 = false ∧ (s.getNew c.name c.fetch).1.create c.name = s.create c.name := by
    rw [getNew]
    rcases tryFetches_failed c.name s hfailed with ht | ht
    · rw [ht]
      exact ⟨rfl, rfl⟩
    · rw [ht]
      exact ⟨rfl, create_create s⟩
  rw [getBrowserCoverArt, h.files, if_neg hp, if_pos hc.1]
  dsimp only
  rw [hget.1, if_neg Bool.false_ne_true, tryFetches_image hlate, hget.2]

/-- One call: it forgets nothing exactly if it downloads nothing, or one of the first ninety-nine covers in the first
four tries. -/
theorem Holds.step (h : s.Holds known) {c : CoverCall} (hs : c.Succeeds) :
    (¬ c.Downloads known ∧ (s.getBrowserCoverArt c).Holds known) ∨
      (c.Downloads known ∧ (known.length < 99 ∧ ∃ i < 4, c.fetch i = .image) ∧
        (s.getBrowserCoverArt c).Holds (known ++ [c.name])) ∨
      (c.Downloads known ∧ ¬ (known.length < 99 ∧ ∃ i < 4, c.fetch i = .image) ∧
        ¬ (s.getBrowserCoverArt c).Remembers) := by
  by_cases hc : c.Downloads known
  · have hne : c.name ≠ [] := cachedImageFilename_ne_nil c.trackId
    by_cases hearly : ∃ i < 4, c.fetch i = .image
    · rw [h.getBrowserCoverArt_early hc hearly]
      by_cases hroom : known.length < 99
      · exact .inr (.inl ⟨hc, ⟨hroom, hearly⟩, h.log hc.1 hroom (cachedImageFilename_length _)
          (zero_not_mem_cachedImageFilename _) hne⟩)
      · have hfull : known.length = 99 := by
          have := h.few
          omega
        exact .inr (.inr ⟨hc, fun ha => hroom ha.1, h.not_remembers_full hc.1 hfull⟩)
    · rw [h.getBrowserCoverArt_late hc hs hearly]
      exact .inr (.inr ⟨hc, fun ha => hearly ha.2, h.not_remembers_late hc.1 hne⟩)
  · exact .inl ⟨hc, by rwa [h.getBrowserCoverArt_idle hc]⟩

/-- A run from some covers on. -/
theorem Holds.remembers_iff (h : s.Holds known) {calls : List CoverCall} (hs : ∀ c ∈ calls, c.Succeeds) :
    (∀ done, done <+: calls → (s.getCovers done).Remembers) ↔ FewAndEarly known calls := by
  induction calls generalizing s known with
  | nil => simpa [FewAndEarly, getCovers] using h.remembers
  | cons c calls ih =>
    have hsplit : (∀ done, done <+: c :: calls → (s.getCovers done).Remembers) ↔
        ∀ done, done <+: calls → ((s.getBrowserCoverArt c).getCovers done).Remembers := by
      constructor
      · intro hall done hp
        exact hall (c :: done) (List.cons_prefix_cons.mpr ⟨rfl, hp⟩)
      · intro hall done hp
        cases done with
        | nil => exact h.remembers
        | cons d done =>
          obtain ⟨rfl, hrest⟩ := List.cons_prefix_cons.mp hp
          exact hall done hrest
    have hrest : ∀ c ∈ calls, c.Succeeds := fun c hc => hs c (List.mem_cons_of_mem _ hc)
    rw [hsplit, FewAndEarly]
    rcases h.step (hs c List.mem_cons_self) with ⟨hc, hnext⟩ | ⟨hc, hgood, hnext⟩ | ⟨hc, hbad, hforgets⟩
    · rw [ih hnext hrest]
      exact ⟨fun hf => ⟨fun ha => absurd ha hc, fun _ => hf⟩, fun hf => hf.2 hc⟩
    · rw [ih hnext hrest]
      exact ⟨fun hf => ⟨fun _ => ⟨hgood.1, hgood.2, hf⟩, fun ha => absurd hc ha⟩, fun hf => (hf.1 hc).2.2⟩
    · constructor
      · exact fun hall => absurd (hall [] List.nil_prefix) hforgets
      · exact fun hf => absurd ⟨(hf.1 hc).1, (hf.1 hc).2.1⟩ hbad

end Held

/-- No cover is forgotten in a whole run of successful downloads exactly if there are ninety-nine covers at most and each
came in the first four tries. -/
theorem remembers_iff_fewAndEarly (calls : List CoverCall) (hs : ∀ c ∈ calls, c.Succeeds) :
    (∀ done, done <+: calls → (initial.getCovers done).Remembers) ↔ FewAndEarly [] calls :=
  initial_holds.remembers_iff hs

theorem remembers_two_covers :
    (initial.getCovers [⟨true, true, 7, fun _ => .image⟩, ⟨false, true, 12, fun _ => .image⟩]).Remembers := by
  have hs : ∀ c ∈ [CoverCall.mk true true 7 fun _ => .image, ⟨false, true, 12, fun _ => .image⟩], c.Succeeds := by
    intro c hc
    refine ⟨0, by split <;> decide, ?_⟩
    rcases List.mem_pair.mp hc with rfl | rfl <;> rfl
  refine (remembers_iff_fewAndEarly _ hs).mpr ?_ _ (List.prefix_refl _)
  have hfirst : ∃ i < 4, (fun _ : Nat => Fetch.image) i = .image := ⟨0, by decide, rfl⟩
  exact ⟨fun _ => ⟨by decide, hfirst, fun _ => ⟨by decide, hfirst, trivial⟩, fun _ => trivial⟩,
    fun h => absurd ⟨List.not_mem_nil, fun _ => rfl⟩ h⟩

end Covers

/-- So many different covers fit. -/
theorem FewAndEarly.length_le {known : List (List UInt8)} {calls : List CoverCall} (h : FewAndEarly known calls)
    (hk : known.length ≤ 99) (ha : ∀ c ∈ calls, c.artwork = true)
    (hd : (known ++ calls.map CoverCall.name).Nodup) : known.length + calls.length ≤ 99 := by
  induction calls generalizing known with
  | nil => exact hk
  | cons c calls ih =>
    have hnew : c.name ∉ known := fun hin =>
      (List.nodup_append.mp hd).2.2 c.name hin c.name (by simp) rfl
    obtain ⟨hroom, -, hrest⟩ := h.1 ⟨hnew, fun _ => ha c List.mem_cons_self⟩
    have := ih hrest (by rw [List.length_append]; exact hroom) (fun c hc => ha c (List.mem_cons_of_mem _ hc))
      (by simpa using hd)
    rw [List.length_append, List.length_singleton] at this
    rw [List.length_cons]
    omega

/-- A hundred tracks with covers. -/
def hundredCovers : List CoverCall := (List.range 100).map fun i => ⟨false, true, BitVec.ofNat 32 i, fun _ => .image⟩

/-- The number of a track is in the name of its file. -/
theorem eval_cachedImageFilename {i : Nat} (h : i < 2 ^ 31) :
    Lib.Decimal.eval ((cachedImageFilename (BitVec.ofNat 32 i)).drop 11) = i := by
  have hi : (BitVec.ofNat 32 i).toInt = i := by
    rw [BitVec.toInt, BitVec.toNat_ofNat, Nat.mod_eq_of_lt (by omega), if_pos (by omega)]
  have hdrop : (cachedImageFilename (BitVec.ofNat 32 i)).drop 11 = Lib.Decimal.text i := by
    rw [cachedImageFilename, hi, printInt, if_neg (by omega)]
    rfl
  rw [hdrop, Lib.Decimal.eval_text]

/-- The hundredth cover evicts a place of the ring that holds no name, so that no file goes for it. -/
theorem hundredCovers_forgets :
    ¬ ∀ done, done <+: hundredCovers → (Covers.initial.getCovers done).Remembers := by
  have hs : ∀ c ∈ hundredCovers, c.Succeeds := by
    intro c hc
    obtain ⟨i, -, rfl⟩ := List.mem_map.mp hc
    exact ⟨0, by simp, rfl⟩
  have hd : ([] ++ hundredCovers.map CoverCall.name).Nodup := by
    have hnumbers : (hundredCovers.map CoverCall.name).map (fun name : List UInt8 => Lib.Decimal.eval (name.drop 11)) =
        (List.range 100).map id := by
      rw [hundredCovers, List.map_map, List.map_map]
      exact List.map_congr_left fun i hi =>
        eval_cachedImageFilename (Nat.lt_trans (List.mem_range.mp hi) (by decide))
    rw [List.nil_append]
    refine List.Nodup.of_map (fun name : List UInt8 => Lib.Decimal.eval (name.drop 11)) ?_
    rw [hnumbers, List.map_id]
    exact List.nodup_range
  intro h
  have := ((Covers.initial_holds.remembers_iff hs).mp h).length_le (by decide) (by decide) hd
  exact absurd this (by decide)

end Mvpmc.Mclient
