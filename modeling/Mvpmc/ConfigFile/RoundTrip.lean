import Mvpmc.ConfigFile.Groups

/-! What `save_config_file` stores `parse_config` restores. -/
namespace Mvpmc.ConfigFile

/-- What one call of `add_item` is about: a case of the macros, or the hidden or the shown record groups. -/
inductive Saved where
  | case (c : Case)
  | groups (hidden : Bool)
  deriving DecidableEq

namespace Saved

def ofTag (type : Nat) : Saved :=
  match addCases.find? (·.name.item = type) with
  | some c => case c
  | none => groups (type = configItemMythtvRgHide)

def tag : Saved → Nat
  | case c => c.name.item
  | groups true => configItemMythtvRgHide
  | groups false => configItemMythtvRgShow

def bit : Saved → BitVec 64
  | case c => c.name.bit
  | groups _ => configMythtvRecgroup

/-- The tag leads writer and reader to the same case. -/
def Listed (x : Saved) : Prop :=
  x.tag < 2 ^ 16 ∧ match x with
  | case c => addCases.find? (·.name.item = x.tag) = some c ∧ getCases.find? (·.name.item = x.tag) = some c
  | groups _ => addCases.find? (·.name.item = x.tag) = none ∧ getCases.find? (·.name.item = x.tag) = none

instance (x : Saved) : Decidable x.Listed := by
  unfold Listed
  cases x <;> infer_instance

/-- Two calls store different members under different bits. -/
def Apart : Saved → Saved → Prop
  | case c, case c' => c.name.bit &&& c'.name.bit = 0 ∧ c.member ≠ c'.member
  | case c, groups _ => c.name.bit &&& configMythtvRecgroup = 0
  | groups _, case c => configMythtvRecgroup &&& c.name.bit = 0
  | groups h, groups h' => h ≠ h'

instance (x y : Saved) : Decidable (x.Apart y) := by
  cases x <;> cases y <;> unfold Apart <;> infer_instance

/-- The calls of `save_config_file`. -/
def all : List Saved := savedItems.map ofTag

theorem all_tag : all.map tag = savedItems := by decide

theorem all_listed : ∀ x ∈ all, x.Listed := by decide

theorem all_apart : all.Pairwise Apart := by decide

set_option maxRecDepth 4000 in
theorem all_bit : ∀ x ∈ all, ∃ k < 64, x.bit = BitVec.twoPow 64 k := by decide

theorem mem_all_of_case : ∀ c ∈ addCases, case c ∈ all := by decide

theorem mem_all_of_groups : ∀ hidden, groups hidden ∈ all := by decide

/-- What the call of `add_item` stores; nothing if it is empty. -/
def data (config : Config) : Saved → List UInt8
  | case c =>
    if config.bitmask &&& c.name.bit = 0 then []
    else match c.kind with
      | .fixed => config.bytes c.member
      | .string => cString (config.bytes c.member)
  | groups hidden =>
    if config.bitmask &&& configMythtvRecgroup = 0 then [] else packGroups hidden config.recgroup []

/-- The item, if there is one. -/
def stored (p : Platform) (config : Config) (x : Saved) : List UInt8 :=
  if (x.data config).length = 0 then [] else itemBytes p x.tag (x.data config)

theorem addItem_eq {p : Platform} {config : Config} {list : ConfigList} {x : Saved} (hx : x ∈ all) :
    addItem p config list x.tag = some (list.addBytes p x.tag (x.data config)) := by
  have hnone : list.addBytes p x.tag [] = list := rfl
  obtain ⟨-, hl⟩ := all_listed x hx
  unfold addItem
  cases x with
  | case c =>
    rw [hl.1]
    unfold data
    by_cases hb : config.bitmask &&& c.name.bit = 0
    · simp only [hb, if_true, hnone]
    · simp only [hb, if_false]
      cases c.kind <;> rfl
  | groups hidden =>
    have hne : configItemMythtvRgShow ≠ configItemMythtvRgHide := by decide
    rw [hl.1]
    unfold data
    by_cases hb : config.bitmask &&& configMythtvRecgroup = 0
    · cases hidden <;> simp only [tag, hne, hb, if_true, if_false] <;> rfl
    · cases hidden <;> simp only [tag, hne, hb, if_true, if_false]

end Saved

section
variable {p : Platform} {config : Config} {list list' : ConfigList}

/-- Every byte in use is there. -/
def ConfigList.Full (list : ConfigList) : Prop := list.items.length = list.buflen

theorem ConfigList.Full.add {type : Nat} {data : List UInt8} (h : list.Full) :
    (list.addBytes p type data).Full ∧
      (list.addBytes p type data).items = list.items ++ if data.length = 0 then [] else itemBytes p type data := by
  by_cases hd : data.length = 0
  · simp [ConfigList.addBytes, hd, h]
  · unfold Full at h ⊢
    have hitems : (list.addBytes p type data).items = list.items ++ itemBytes p type data := by
      unfold ConfigList.addBytes
      rw [if_neg hd]
      change ((list.items ++ itemBytes p type data) ++ _).take (list.buflen + (itemBytes p type data).length) = _
      rw [← h, ← List.length_append, List.take_left]
    refine ⟨?_, by rw [if_neg hd, hitems]⟩
    rw [hitems, List.length_append, h]
    simp [ConfigList.addBytes, hd]

/-- The fields of the header are the same. -/
def ConfigList.SameHeader (list list' : ConfigList) : Prop :=
  list'.magic = list.magic ∧ list'.crc = list.crc ∧ list'.version = list.version ∧ list'.flags = list.flags

theorem foldlM_addItem (xs : List Saved) (hx : ∀ x ∈ xs, x ∈ Saved.all) (h : list.Full) :
    ∃ list', (xs.map Saved.tag).foldlM (addItem p config) list = some list' ∧ list'.Full ∧ list.SameHeader list' ∧
      list'.items = list.items ++ xs.flatMap (Saved.stored p config) := by
  induction xs generalizing list with
  | nil => exact ⟨list, rfl, h, ⟨rfl, rfl, rfl, rfl⟩, by simp⟩
  | cons x xs ih =>
    obtain ⟨hf, hi⟩ : (list.addBytes p x.tag (x.data config)).Full ∧ _ := h.add
    obtain ⟨list', he, hf', hh, hi'⟩ := ih (fun y hy => hx y (List.mem_cons_of_mem x hy)) hf
    refine ⟨list', ?_, hf', ?_, ?_⟩
    · rw [List.map_cons, List.foldlM_cons, Saved.addItem_eq (hx x List.mem_cons_self)]
      exact he
    · have hkeep : list.SameHeader (list.addBytes p x.tag (x.data config)) := by
        unfold ConfigList.addBytes
        split <;> exact ⟨rfl, rfl, rfl, rfl⟩
      obtain ⟨h1, h2, h3, h4⟩ := hkeep
      obtain ⟨k1, k2, k3, k4⟩ := hh
      exact ⟨k1.trans h1, k2.trans h2, k3.trans h3, k4.trans h4⟩
    · rw [hi', hi, List.append_assoc, List.flatMap_cons]
      rfl

/-- `save_config_file` builds the items one after the other. -/
theorem saveConfigList_eq (crc32 : ConfigList → Nat) (buf : List UInt8) :
    ∃ list, saveConfigList p crc32 config buf = some list ∧ list.Full ∧ list.flags = p.flags ∧
      list.items = Saved.all.flatMap (Saved.stored p config) := by
  have hempty : (ConfigList.mk configMagic 0 0 0 p.flags buf).Full := by simp [ConfigList.Full, ConfigList.items]
  obtain ⟨list, he, hf, ⟨-, -, -, hflags⟩, hi⟩ := foldlM_addItem Saved.all (fun x hx => hx) hempty
  rw [Saved.all_tag] at he
  unfold saveConfigList
  rw [he]
  exact ⟨_, rfl, hf, hflags, by simpa [ConfigList.items] using hi⟩

end
namespace Platform
variable (p : Platform)

@[simp] theorem length_put16 (n : Nat) : (p.put16 n).length = 2 := by cases p <;> rfl

theorem get16_put16 {n : Nat} (h : n < 2 ^ 16) (rest : List UInt8) : p.get16 (p.put16 n ++ rest) = n := by
  cases p <;> simp [get16, put16] <;> omega

end Platform

section
variable {p : Platform} {type : Nat} {data rest : List UInt8}

theorem itemBytes_type (h : type < 2 ^ 16) : p.get16 (itemBytes p type data ++ rest) = type := by
  unfold itemBytes
  rw [List.append_assoc, List.append_assoc, p.get16_put16 h]

theorem itemBytes_buflen (h : data.length < 2 ^ 16) : p.get16 ((itemBytes p type data ++ rest).drop 2) = data.length := by
  unfold itemBytes
  rw [List.append_assoc, List.append_assoc, List.drop_left' (p.length_put16 type), p.get16_put16 h]

theorem itemBytes_buf : (itemBytes p type data ++ rest).drop 4 = data ++ rest := by
  unfold itemBytes
  rw [List.append_assoc]
  exact List.drop_left' (by simp)

/-- A whole member is copied. -/
theorem takeD_append {n : Nat} (h : data.length = n) : (data ++ rest).takeD n 0 = data := by
  rw [List.takeD_eq_take 0 (by rw [List.length_append]; omega), ← h, List.take_left]

/-- The string ends where the terminator is put, whatever has been copied behind it. -/
theorem cString_set {n : Nat} (h : data.length < n) (hz : ∀ b ∈ data, b ≠ 0) :
    cString (((data ++ rest).takeD n 0).set data.length 0) = data := by
  induction data generalizing n with
  | nil =>
    obtain ⟨n, rfl⟩ : ∃ k, n = k + 1 := ⟨n - 1, by rw [List.length_nil] at h; omega⟩
    simp [List.takeD, cString]
  | cons b data ih =>
    obtain ⟨n, rfl⟩ : ∃ k, n = k + 1 := ⟨n - 1, by rw [List.length_cons] at h; omega⟩
    have hb : b ≠ 0 := hz b List.mem_cons_self
    have ih' := ih (n := n) (by rw [List.length_cons] at h; omega) fun b' hb' => hz b' (List.mem_cons_of_mem b hb')
    have hcons (l : List UInt8) : cString (b :: l) = b :: cString l := by simp [cString, hb]
    change cString (b :: ((data ++ rest).takeD n 0).set data.length 0) = _
    rw [hcons, ih']

end

/-- The settings that the items can hold: no set string is empty or fills its field, no label fills its
field, and the record groups are set only if there is one. -/
structure Config.Savable (config : Config) : Prop where
  strings : ∀ c ∈ addCases, c.kind = .string → config.bitmask &&& c.name.bit ≠ 0 →
    0 < strlen (config.bytes c.member) ∧ strlen (config.bytes c.member) < c.member.size
  labels : ∀ g ∈ config.recgroup, strlen g.label < 64
  groups : config.bitmask &&& configMythtvRecgroup ≠ 0 → ∃ g ∈ config.recgroup, g.named = true

/-- A member that has been restored. -/
def Case.Same (c : Case) (config s : Config) : Prop :=
  match c.kind with
  | .fixed => s.bytes c.member = config.bytes c.member
  | .string => cString (s.bytes c.member) = cString (config.bytes c.member)

namespace Saved
variable {config s : Config} {done xs : List Saved} {x : Saved} {p : Platform} {rest : List UInt8}

/-- The record groups among what is stored. -/
def pairs (config : Config) : Saved → List (List UInt8 × Bool)
  | case _ => []
  | groups hidden =>
    if config.bitmask &&& configMythtvRecgroup = 0 then [] else (labels hidden config.recgroup).map (·, hidden)

theorem data_groups {hidden : Bool} (h : config.Savable) :
    (groups hidden).data config = packed (((groups hidden).pairs config).map Prod.fst) := by
  unfold data pairs
  dsimp only
  split
  · rfl
  · rw [packGroups_eq h.labels (by rw [config.recgroup_length]; decide), List.map_map]
    simp [Function.comp_def]

theorem mem_labels {hidden : Bool} {groups : List RecGroup} {name : List UInt8} (hl : ∀ g ∈ groups, strlen g.label < 64)
    (hn : name ∈ labels hidden groups) : name ≠ [] ∧ name.length < 64 ∧ ∀ b ∈ name, b ≠ 0 := by
  obtain ⟨g, hg, rfl⟩ := List.mem_map.mp hn
  obtain ⟨hg, hnamed⟩ := List.mem_filter.mp hg
  refine ⟨?_, hl g hg, ne_zero_of_mem_cString⟩
  rw [Ne, cString_eq_nil_iff]
  simp only [RecGroup.named, Bool.and_eq_true, decide_eq_true_eq] at hnamed
  exact hnamed.1

theorem size_pos (m : Member) : 0 < m.size ∧ m.size ≤ 4096 := by cases m <;> decide

/-- How much a call stores at most. -/
def room : Saved → Nat
  | case c => c.member.size
  | groups _ => 64 * mythtvRgMax

theorem room_le (x : Saved) : x.room ≤ 4096 := by
  cases x with
  | case c => exact (size_pos c.member).2
  | groups hidden => exact show 64 * mythtvRgMax ≤ 4096 by decide

theorem length_packed_labels {hidden : Bool} (groups : List RecGroup) (hl : ∀ g ∈ groups, strlen g.label < 64) :
    (packed (labels hidden groups)).length ≤ 64 * groups.length := by
  induction groups with
  | nil => simp [labels, packed]
  | cons g groups ih =>
    have hg := hl g List.mem_cons_self
    have ih' := ih fun g' hg' => hl g' (List.mem_cons_of_mem g hg')
    unfold strlen at hg
    unfold labels packed at ih' ⊢
    rw [List.filter_cons]
    split
    · simp only [List.map_cons, List.flatMap_cons, List.length_append, List.length_cons, List.length_nil]
      omega
    · rw [List.length_cons]
      omega

theorem data_length_le (h : config.Savable) : (x.data config).length ≤ x.room := by
  cases x with
  | case c =>
    have hbytes := config.bytes_length c.member
    unfold data room
    dsimp only
    split
    · simp
    · split
      · exact hbytes.le
      · exact (strlen_le _).trans hbytes.le
  | groups hidden =>
    have hlen : (packed (labels hidden config.recgroup)).length ≤ 64 * config.recgroup.length :=
      length_packed_labels config.recgroup h.labels
    rw [config.recgroup_length] at hlen
    unfold data room
    dsimp only
    split
    · simp
    · rwa [packGroups_eq h.labels (by rw [config.recgroup_length]; decide), List.nil_append]

theorem data_length_lt (h : config.Savable) : (x.data config).length < 2 ^ 16 :=
  ((data_length_le h).trans (room_le x)).trans_lt (by decide)

/-- All items together fit into the list. -/
theorem length_stored_le (h : config.Savable) : (all.flatMap (stored p config)).length ≤ 9000 := by
  have hsum (xs : List Saved) : (xs.flatMap (stored p config)).length ≤ (xs.map fun x => 4 + x.room).sum := by
    induction xs with
    | nil => simp
    | cons x xs ih =>
      have hx : (stored p config x).length ≤ 4 + x.room := by
        have hd : (x.data config).length ≤ x.room := data_length_le h
        unfold stored itemBytes
        split
        · simp
        · simp only [List.length_append, Platform.length_put16]
          omega
      rw [List.flatMap_cons, List.length_append, List.map_cons, List.sum_cons]
      omega
  exact (hsum all).trans (by decide)

/-- The bits of what is stored. -/
def marks (config : Config) (done : List Saved) : BitVec 64 :=
  done.foldl (fun m x => if x.data config = [] then m else m ||| x.bit) 0

theorem marks_append : marks config (done ++ [x]) =
    if x.data config = [] then marks config done else marks config done ||| x.bit := by
  simp [marks]

theorem getLsbD_marks {i : Nat} : (marks config done).getLsbD i = true ↔
    ∃ x ∈ done, x.data config ≠ [] ∧ x.bit.getLsbD i = true := by
  induction done using List.reverseRecOn with
  | nil => simp [marks]
  | append_singleton done x ih =>
    rw [marks_append]
    by_cases hd : x.data config = []
    · simp [hd, ih]
    · rw [if_neg hd, BitVec.getLsbD_or, Bool.or_eq_true, ih]
      simp [hd, or_and_right, exists_or]

/-- What reading the items of `done` has restored so far. -/
structure Restored (config : Config) (done : List Saved) (s : Config) : Prop where
  bitmask : s.bitmask = marks config done
  members : ∀ c, case c ∈ done → config.bitmask &&& c.name.bit ≠ 0 → c.Same config s
  groups : ∃ filled, s.recgroup = filled ++ List.replicate (mythtvRgMax - filled.length) .empty ∧
    (∀ g ∈ filled, g.named = true) ∧ filled.map RecGroup.pair = done.flatMap (pairs config)

theorem Restored.zero : Restored config [] .zero where
  bitmask := rfl
  members c hc := absurd hc List.not_mem_nil
  groups := ⟨[], rfl, by simp, rfl⟩

/-- A set member is never stored as nothing. -/
theorem data_case_eq_nil_iff {c : Case} (h : config.Savable) (hc : c ∈ addCases) :
    (case c).data config = [] ↔ config.bitmask &&& c.name.bit = 0 := by
  constructor
  · intro hd
    by_contra hb
    unfold data at hd
    dsimp only at hd
    rw [if_neg hb] at hd
    cases hk : c.kind with
    | fixed =>
      rw [hk] at hd
      dsimp only at hd
      have hsize := (size_pos c.member).1
      rw [← config.bytes_length, hd] at hsize
      exact absurd hsize (lt_irrefl 0)
    | string =>
      rw [hk] at hd
      dsimp only at hd
      have hpos := (h.strings c hc hk hb).1
      unfold strlen at hpos
      rw [hd] at hpos
      exact absurd hpos (lt_irrefl 0)
  · intro hb
    exact if_pos hb

theorem mem_addCases {c : Case} (hc : case c ∈ all) : c ∈ addCases := List.mem_of_find?_eq_some (all_listed _ hc).2.1

/-- Nothing was stored, so nothing is read. -/
theorem Restored.skip (hr : Restored config done s) (h : config.Savable) (hx : x ∈ all) (hd : x.data config = []) :
    Restored config (done ++ [x]) s where
  bitmask := by rw [marks_append, if_pos hd, hr.bitmask]
  members c hc hb := by
    rcases List.mem_append.mp hc with hc | hc
    · exact hr.members c hc hb
    · obtain rfl := List.mem_singleton.mp hc
      exact absurd ((data_case_eq_nil_iff h (mem_addCases hx)).mp hd) hb
  groups := by
    obtain ⟨filled, hs, hn, hp⟩ := hr.groups
    refine ⟨filled, hs, hn, ?_⟩
    have hnone : x.pairs config = [] := by
      cases x with
      | case c => rfl
      | groups hidden =>
        rw [data_groups h] at hd
        cases hps : (Saved.groups hidden).pairs config with
        | nil => rfl
        | cons q ps =>
          rw [hps] at hd
          exact absurd hd (by simp [packed])
    rw [hp, List.flatMap_append, List.flatMap_singleton, hnone, List.append_nil]

theorem flatMap_pairs : all.flatMap (pairs config) = (groups true).pairs config ++ (groups false).pairs config := by
  have hall : all.filter (fun x => x matches .groups _) = [groups true, groups false] := by decide
  have hf (xs : List Saved) : xs.flatMap (pairs config) = (xs.filter fun x => x matches .groups _).flatMap (pairs config) := by
    induction xs with
    | nil => rfl
    | cons x xs ih => cases x <;> simp [ih, pairs]
  rw [hf, hall]
  simp

/-- All groups fit into the array. -/
theorem length_pairs (h : done.IsPrefix all) : (done.flatMap (pairs config)).length ≤ mythtvRgMax := by
  have hlen (groups : List RecGroup) : (labels true groups).length + (labels false groups).length ≤ groups.length := by
    induction groups with
    | nil => simp [labels]
    | cons g groups ih =>
      unfold labels at ih ⊢
      cases hn : g.named <;> by_cases hh : g.hide = 0 <;> simp [hn, hh] at ih ⊢ <;> omega
  have hle := (List.IsPrefix.flatMap h (pairs config)).length_le
  rw [flatMap_pairs, List.length_append] at hle
  refine hle.trans ?_
  unfold pairs
  dsimp only
  split
  · simp
  · have := hlen config.recgroup
    rw [config.recgroup_length] at this
    simpa using this

theorem apart_of_done {c : Case} (hall : done ++ case c :: xs = all) : ∀ y ∈ done, Apart y (case c) := by
  have hpw := all_apart
  rw [← hall] at hpw
  exact fun y hy => (List.pairwise_append.mp hpw).2.2 y hy _ List.mem_cons_self

/-- The bit of a member that is still to come is not set. -/
theorem Restored.bit_free {c : Case} (hr : Restored config done s) (hall : done ++ case c :: xs = all) :
    s.bitmask &&& c.name.bit = 0 := by
  refine BitVec.eq_of_getLsbD_eq fun i _ => ?_
  rw [BitVec.getLsbD_and, hr.bitmask]
  cases hm : (marks config done).getLsbD i with
  | false => simp
  | true =>
    obtain ⟨y, hy, -, hyi⟩ := getLsbD_marks.mp hm
    have hand : y.bit &&& c.name.bit = 0 := by
      have ha := apart_of_done hall y hy
      cases y with
      | case c' => exact ha.1
      | groups hidden => exact ha
    have hi := congrArg (fun b => BitVec.getLsbD b i) hand
    simpa [hyi] using hi

/-- A member that is stored as it was is restored. -/
theorem Restored.stored {c : Case} (hr : Restored config done s) (hall : done ++ case c :: xs = all)
    (hd : (case c).data config ≠ []) (bytes : List UInt8) (hb : bytes.length = c.member.size)
    (hsame : c.Same config (s.store c.name c.member bytes hb)) :
    Restored config (done ++ [Saved.case c]) (s.store c.name c.member bytes hb) := by
  refine ⟨?_, ?_, ?_⟩
  · rw [marks_append, if_neg hd, ← hr.bitmask]
    rfl
  · intro c' hc' hb'
    rcases List.mem_append.mp hc' with hc' | hc'
    · have hne : c'.member ≠ c.member := (apart_of_done hall _ hc').2
      have hold := hr.members c' hc' hb'
      unfold Case.Same at hold ⊢
      unfold Config.store
      simpa only [Function.update_of_ne hne] using hold
    · obtain rfl : c' = c := by simpa using hc'
      exact hsame
  · obtain ⟨filled, hs, hn, hp⟩ := hr.groups
    exact ⟨filled, hs, hn, by simp [hp, pairs]⟩

/-- A member is read into a place that has not been used. -/
theorem restored_member {c : Case} {override : Bool} (hr : Restored config done s) (h : config.Savable)
    (hall : done ++ case c :: xs = all) (hset : config.bitmask &&& c.name.bit ≠ 0) :
    ∃ s', getCase override s c.name.item ((case c).data config).length ((case c).data config ++ rest) = some s' ∧
      Restored config (done ++ [case c]) s' := by
  have hx : case c ∈ all := by simp [← hall]
  have hc := mem_addCases hx
  have hd : (case c).data config ≠ [] := fun hb => hset ((data_case_eq_nil_iff h hc).mp hb)
  have hfree := hr.bit_free hall
  have hstored := hr.stored hall hd
  have hdata : (case c).data config = match c.kind with
      | .fixed => config.bytes c.member
      | .string => cString (config.bytes c.member) := if_neg hset
  unfold getCase
  rw [show getCases.find? (·.name.item = c.name.item) = some c from (all_listed _ hx).2.2]
  dsimp only
  cases hk : c.kind with
  | fixed =>
    rw [hk] at hdata
    dsimp only at hdata ⊢
    have hsize : ((Saved.case c).data config).length = c.member.size := by rw [hdata, config.bytes_length]
    rw [if_neg (not_not.mpr hsize.symm), if_pos (.inl hfree)]
    refine ⟨_, rfl, hstored _ _ ?_⟩
    unfold Case.Same Config.store
    rw [hk]
    dsimp only
    rw [Function.update_self, takeD_append hsize, hdata]
  | string =>
    rw [hk] at hdata
    dsimp only at hdata ⊢
    have hlt : ((Saved.case c).data config).length < c.member.size := by
      rw [hdata]
      exact (h.strings c hc hk hset).2
    have hz : ∀ b ∈ (Saved.case c).data config, b ≠ 0 := by
      rw [hdata]
      exact ne_zero_of_mem_cString
    rw [if_neg (not_le.mpr hlt), if_pos (.inl hfree)]
    refine ⟨_, rfl, hstored _ _ ?_⟩
    unfold Case.Same Config.store
    rw [hk]
    dsimp only
    rw [Function.update_self, cString_set hlt hz, hdata]

/-- Record groups are read into the slots behind those in use. -/
theorem restored_groups {hidden override : Bool} (hr : Restored config done s) (h : config.Savable)
    (hall : done ++ groups hidden :: xs = all) (hd : (groups hidden).data config ≠ []) :
    ∃ s', getCase override s (groups hidden).tag ((groups hidden).data config).length ((groups hidden).data config ++ rest) =
      some s' ∧ Restored config (done ++ [groups hidden]) s' := by
  have hx : groups hidden ∈ all := by simp [← hall]
  have hset : ¬ config.bitmask &&& configMythtvRecgroup = 0 := fun hb => hd (if_pos hb)
  have htype : ((groups hidden).tag = configItemMythtvRgHide ∨ (groups hidden).tag = configItemMythtvRgShow) ∧
      decide ((groups hidden).tag = configItemMythtvRgHide) = hidden := by
    cases hidden <;> decide
  obtain ⟨filled, hs, hn, hp⟩ := hr.groups
  have hpairs : (groups hidden).pairs config = (labels hidden config.recgroup).map (·, hidden) := if_neg hset
  have hbytes : (groups hidden).data config = packed (labels hidden config.recgroup) := by
    rw [data_groups h, hpairs, List.map_map]
    simp [Function.comp_def]
  have hroom : (labels hidden config.recgroup).length ≤ mythtvRgMax - filled.length := by
    have hpre : (done ++ [groups hidden]).IsPrefix all := ⟨xs, by rw [← hall]; simp⟩
    have hle : ((done ++ [groups hidden]).flatMap (pairs config)).length ≤ mythtvRgMax := length_pairs hpre
    rw [List.flatMap_append, List.length_append, ← hp] at hle
    simp [hpairs] at hle
    omega
  obtain ⟨new, he, hnp, hnn⟩ := readGroups_packed hroom fun name hname => mem_labels h.labels hname
  have hnew : new.length = (labels hidden config.recgroup).length := by simpa using congrArg List.length hnp
  unfold getCase
  rw [show getCases.find? (·.name.item = (groups hidden).tag) = none from (all_listed _ hx).2.2]
  dsimp only
  rw [if_pos htype.1]
  refine ⟨_, rfl, ?_, ?_, ?_⟩
  · rw [marks_append, if_neg hd, ← hr.bitmask]
    rfl
  · intro c hc hb
    exact hr.members c ((List.mem_append.mp hc).resolve_right (by simp)) hb
  · refine ⟨filled ++ new, ?_, ?_, ?_⟩
    · dsimp only
      rw [htype.2, hs, readGroups_named hn, hbytes, he, List.length_append, hnew, List.append_assoc, Nat.sub_sub]
    · intro g hg
      exact (List.mem_append.mp hg).elim (hn g) (hnn g)
    · rw [List.map_append, hp, hnp, List.flatMap_append, List.flatMap_singleton, hpairs]

/-- An item is read: its bit is set, and what it holds is restored. -/
theorem Restored.step {override : Bool} (hr : Restored config done s) (h : config.Savable) (hall : done ++ x :: xs = all)
    (hd : x.data config ≠ []) : ∃ s', getItem p override s (itemBytes p x.tag (x.data config) ++ rest) = some s' ∧
      Restored config (done ++ [x]) s' := by
  have hx : x ∈ all := by simp [← hall]
  have hlen : (x.data config).length < 2 ^ 16 := data_length_lt h
  unfold getItem
  rw [itemBytes_type (all_listed x hx).1, itemBytes_buflen hlen, itemBytes_buf]
  cases x with
  | case c => exact restored_member hr h hall fun hb => hd ((data_case_eq_nil_iff h (mem_addCases hx)).mpr hb)
  | groups hidden => exact restored_groups hr h hall hd

/-- The rest of the list is read. -/
theorem parseFrom_rest {list : ConfigList} {override : Bool} {front behind : List UInt8} (h : config.Savable)
    (hr : Restored config done s) (hall : done ++ xs = all) (hbuf : list.buf = front ++ xs.flatMap (stored p config) ++ behind)
    (hlen : list.buflen = (front ++ xs.flatMap (stored p config)).length) :
    ∃ s', parseFrom p list override front.length s = some s' ∧ Restored config all s' := by
  induction xs generalizing done s front with
  | nil =>
    refine ⟨s, ?_, ?_⟩
    · rw [parseFrom, if_neg (by simp [hlen])]
    · rwa [← hall, List.append_nil]
  | cons x xs ih =>
    have hx : x ∈ all := by simp [← hall]
    have hall' : (done ++ [x]) ++ xs = all := by rw [← hall, List.append_assoc, List.singleton_append]
    rw [List.flatMap_cons, ← List.append_assoc] at hbuf hlen
    by_cases hd : x.data config = []
    · have hnone : stored p config x = [] := if_pos (by rw [hd, List.length_nil])
      rw [hnone, List.append_nil] at hbuf hlen
      exact ih (hr.skip h hx hd) hall' hbuf hlen
    · have hitem : stored p config x = itemBytes p x.tag (x.data config) :=
        if_neg fun h0 => hd (List.eq_nil_of_length_eq_zero h0)
      have hsize : (itemBytes p x.tag (x.data config)).length = 4 + (x.data config).length := by
        simp only [itemBytes, List.length_append, Platform.length_put16]
      have hat : list.buf.drop front.length =
          itemBytes p x.tag (x.data config) ++ (xs.flatMap (stored p config) ++ behind) := by
        rw [hbuf, hitem, List.append_assoc, List.append_assoc, List.drop_left]
      have hbuflen : p.get16 ((list.buf.drop front.length).drop 2) = (x.data config).length := by
        rw [hat, itemBytes_buflen (data_length_lt h)]
      obtain ⟨s', hget, hr'⟩ : ∃ s', getItem p override s
          (itemBytes p x.tag (x.data config) ++ (xs.flatMap (stored p config) ++ behind)) = some s' ∧
          Restored config (done ++ [x]) s' := hr.step h hall hd
      have hnext : front.length + 4 + (x.data config).length = (front ++ stored p config x).length := by
        rw [List.length_append, hitem, hsize, Nat.add_assoc]
      obtain ⟨t, hparse, ht⟩ := ih hr' hall' hbuf hlen
      refine ⟨t, ?_, ht⟩
      have hmore : front.length < list.buflen := by
        rw [hlen, List.length_append, ← hnext]
        omega
      rw [parseFrom, if_pos hmore]
      dsimp only
      rw [hbuflen, hat, hget, Option.bind_some, hnext, hparse]

end Saved

/-- The bits that stand for stored members or record groups. -/
def savedMask : BitVec 64 := (addCases.map fun c => c.name.bit).foldr (· ||| ·) configMythtvRecgroup

/-- The record groups as the settings mean them; slots without a label are free. -/
def Config.groups (config : Config) : Multiset (List UInt8 × Bool) :=
  (config.recgroup.filter RecGroup.named).map RecGroup.pair

/-- What was set and is stored has come back, and nothing else is set. -/
structure Restores (config loaded : Config) : Prop where
  bitmask : loaded.bitmask = config.bitmask &&& savedMask
  members : ∀ c ∈ addCases, config.bitmask &&& c.name.bit ≠ 0 → c.Same config loaded
  groups : config.bitmask &&& configMythtvRecgroup ≠ 0 → loaded.groups = config.groups

section
variable {p : Platform} {config loaded : Config} {list : ConfigList} {override : Bool}

theorem getLsbD_savedMask {i : Nat} : savedMask.getLsbD i = true ↔ ∃ x ∈ Saved.all, x.bit.getLsbD i = true := by
  have hfold (cs : List Case) : ((cs.map fun c => c.name.bit).foldr (· ||| ·) configMythtvRecgroup).getLsbD i = true ↔
      configMythtvRecgroup.getLsbD i = true ∨ ∃ c ∈ cs, c.name.bit.getLsbD i = true := by
    induction cs with
    | nil => simp
    | cons c cs ih =>
      rw [List.map_cons, List.foldr_cons, BitVec.getLsbD_or, Bool.or_eq_true, ih]
      simp only [List.mem_cons, exists_eq_or_imp]
      exact or_left_comm
  refine (hfold addCases).trans ?_
  constructor
  · rintro (h | ⟨c, hc, h⟩)
    · exact ⟨.groups true, Saved.mem_all_of_groups true, h⟩
    · exact ⟨.case c, Saved.mem_all_of_case c hc, h⟩
  · rintro ⟨x, hx, h⟩
    cases x with
    | case c => exact .inr ⟨c, Saved.mem_addCases hx, h⟩
    | groups hidden => exact .inl h

/-- One bit out of a mask. -/
theorem and_twoPow_ne_zero {m : BitVec 64} {k i : Nat} (hi : (BitVec.twoPow 64 k).getLsbD i = true) :
    m &&& BitVec.twoPow 64 k ≠ 0 ↔ m.getLsbD i = true := by
  rw [BitVec.getLsbD_twoPow, Bool.and_eq_true, decide_eq_true_eq, decide_eq_true_eq] at hi
  obtain ⟨hk, rfl⟩ := hi
  rw [BitVec.and_twoPow]
  split
  · rename_i hm
    simp only [hm, iff_true]
    intro h0
    have := congrArg (fun b => BitVec.getLsbD b k) h0
    simp [hk] at this
  · rename_i hm
    simp [hm]

/-- The groups are set only if one of the two lists of labels is not empty. -/
theorem exists_stored_groups (h : config.Savable) (hset : config.bitmask &&& configMythtvRecgroup ≠ 0) :
    ∃ hidden, (Saved.groups hidden).data config ≠ [] := by
  obtain ⟨g, hg, hn⟩ := h.groups hset
  refine ⟨decide (g.hide ≠ 0), ?_⟩
  have hpairs : (Saved.groups (decide (g.hide ≠ 0))).pairs config =
      (labels (decide (g.hide ≠ 0)) config.recgroup).map (·, decide (g.hide ≠ 0)) := if_neg hset
  have hmem : cString g.label ∈ labels (decide (g.hide ≠ 0)) config.recgroup := by
    refine List.mem_map.mpr ⟨g, List.mem_filter.mpr ⟨hg, ?_⟩, rfl⟩
    rw [hn]
    simp
  rw [Saved.data_groups h, hpairs, List.map_map]
  intro hnil
  have hlen := List.flatMap_eq_nil_iff.mp hnil (cString g.label) (List.mem_map.mpr ⟨_, hmem, rfl⟩)
  exact absurd hlen (List.append_ne_nil_of_right_ne_nil _ (List.cons_ne_nil 0 []))

/-- After all items have been read. -/
theorem Saved.Restored.restores (hr : Saved.Restored config Saved.all loaded) (h : config.Savable) : Restores config loaded where
  bitmask := by
    refine BitVec.eq_of_getLsbD_eq fun i _ => ?_
    rw [BitVec.getLsbD_and, hr.bitmask, Bool.eq_iff_iff, Bool.and_eq_true, Saved.getLsbD_marks, getLsbD_savedMask]
    -- a bit is set where something of its kind is stored
    have hset (x : Saved) (hx : x ∈ Saved.all) (hi : x.bit.getLsbD i = true) :
        config.bitmask &&& x.bit ≠ 0 ↔ config.bitmask.getLsbD i = true := by
      obtain ⟨k, -, hk⟩ := Saved.all_bit x hx
      rw [hk] at hi ⊢
      exact and_twoPow_ne_zero hi
    constructor
    · rintro ⟨x, hx, hd, hi⟩
      refine ⟨(hset x hx hi).mp ?_, x, hx, hi⟩
      intro h0
      cases x with
      | case c => exact hd (if_pos h0)
      | groups hidden => exact hd (if_pos h0)
    · rintro ⟨hc, x, hx, hi⟩
      have hne := (hset x hx hi).mpr hc
      cases x with
      | case c => exact ⟨.case c, hx, fun hd => hne ((Saved.data_case_eq_nil_iff h (Saved.mem_addCases hx)).mp hd), hi⟩
      | groups hidden =>
        obtain ⟨hidden', hd⟩ := exists_stored_groups h hne
        exact ⟨.groups hidden', Saved.mem_all_of_groups hidden', hd, hi⟩
  members c hc hb := hr.members c (Saved.mem_all_of_case c hc) hb
  groups hset := by
    obtain ⟨filled, hs, hn, hp⟩ := hr.groups
    have hloaded : loaded.groups = (filled.map RecGroup.pair : List (List UInt8 × Bool)) := by
      unfold Config.groups
      rw [hs, List.filter_append, List.filter_eq_self.mpr hn, List.filter_eq_nil_iff.mpr, List.append_nil]
      intro g hg
      obtain rfl := List.eq_of_mem_replicate hg
      decide
    have hall : Saved.all.flatMap (Saved.pairs config) =
        (labels true config.recgroup).map (·, true) ++ (labels false config.recgroup).map (·, false) := by
      have hpairs (hidden : Bool) : (Saved.groups hidden).pairs config = (labels hidden config.recgroup).map (·, hidden) :=
        if_neg hset
      rw [Saved.flatMap_pairs, hpairs, hpairs]
    have hsplit (groups : List RecGroup) : ((groups.filter RecGroup.named).map RecGroup.pair).Perm
        ((labels true groups).map (·, true) ++ (labels false groups).map (·, false)) := by
      induction groups with
      | nil => exact List.Perm.refl _
      | cons g groups ih =>
        unfold labels RecGroup.pair at ih ⊢
        cases hn : g.named
        · simpa [hn] using ih
        · by_cases hh : g.hide = 0
          · simpa [hn, hh] using (ih.cons (cString g.label, false)).trans List.perm_middle.symm
          · simpa [hn, hh] using ih.cons (cString g.label, true)
    rw [hloaded, hp, hall]
    exact Multiset.coe_eq_coe.mpr (hsplit config.recgroup).symm

/-- A list with these items is read back. -/
theorem parseConfig_restores (h : config.Savable) (hf : list.Full)
    (hi : list.items = Saved.all.flatMap (Saved.stored p config)) :
    ∃ loaded, parseConfig p list override .zero = some loaded ∧ Restores config loaded := by
  have hbuf : list.buf = [] ++ Saved.all.flatMap (Saved.stored p config) ++ list.buf.drop list.buflen := by
    rw [← hi, List.nil_append]
    exact (List.take_append_drop list.buflen list.buf).symm
  have hlen : list.buflen = ([] ++ Saved.all.flatMap (Saved.stored p config)).length := by
    rw [← hi, List.nil_append]
    exact hf.symm
  obtain ⟨loaded, hp, hr⟩ := Saved.parseFrom_rest h Saved.Restored.zero (List.nil_append Saved.all) hbuf hlen
  exact ⟨loaded, hp, hr.restores h⟩

end
end Mvpmc.ConfigFile
