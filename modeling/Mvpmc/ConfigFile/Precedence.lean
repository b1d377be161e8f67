import Mvpmc.ConfigFile.Groups

/-! Which settings `load_config_file` leaves alone: those that are set already, when it is not to override them. -/
namespace Mvpmc.ConfigFile

/-- `config_item_t` in memory; `buf` goes on behind the item. -/
structure Item where
  type : Nat
  buflen : Nat
  buf : List UInt8
  deriving DecidableEq, Repr

/-- The items that `parse_config` comes to from an offset on. -/
def itemsFrom (p : Platform) (list : ConfigList) (offset : Nat) : List Item :=
  if offset < list.buflen then
    let item := list.buf.drop offset
    ⟨p.get16 item, p.get16 (item.drop 2), item.drop 4⟩ :: itemsFrom p list (offset + 4 + p.get16 (item.drop 2))
  else []
  termination_by list.buflen - offset

/-- What `parse_config` returns and makes of the settings: the ones read before an item that fails stay. -/
def readItems (override : Bool) : List Item → Config → Int × Config
  | [], config => (0, config)
  | i :: items, config =>
    match getCase override config i.type i.buflen i.buf with
    | none => (-1, config)
    | some config => readItems override items config

/-- The call of `parse_config` in `load_config_file`. -/
def loadItems (p : Platform) (list : ConfigList) (override : Bool) (config : Config) : Int × Config :=
  readItems override (itemsFrom p list 0) config

theorem parseFrom_eq (p : Platform) (list : ConfigList) (override : Bool) (offset : Nat) (config : Config) :
    parseFrom p list override offset config =
      if (readItems override (itemsFrom p list offset) config).1 = 0 then
        some (readItems override (itemsFrom p list offset) config).2 else none := by
  fun_induction parseFrom p list override offset config with
  | case1 offset config h item ih =>
    rw [itemsFrom, if_pos h]
    unfold getItem readItems
    dsimp only
    cases hcase : getCase override config (p.get16 item) (p.get16 (item.drop 2)) (item.drop 4) with
    | none =>
      simp
    | some config' =>
      simp only [Option.bind_some]
      exact ih config'
  | case2 offset config h =>
    rw [itemsFrom, if_neg h]
    rfl

theorem parseConfig_eq (p : Platform) (list : ConfigList) (override : Bool) (config : Config) :
    parseConfig p list override config =
      if (loadItems p list override config).1 = 0 then some (loadItems p list override config).2 else none :=
  parseFrom_eq p list override 0 config

/-- The bytes of a member once an item has been copied into it. -/
def Case.copied (c : Case) (i : Item) : List UInt8 :=
  match c.kind with
  | .fixed => i.buf.takeD c.member.size 0
  | .string => (i.buf.takeD c.member.size 0).set i.buflen 0

/-- The length of an item is one that its case takes. -/
def Case.takes (c : Case) (i : Item) : Bool :=
  match c.kind with
  | .fixed => c.member.size = i.buflen
  | .string => i.buflen < c.member.size

namespace Item

/-- The case of the macros that an item comes to. -/
def case? (i : Item) : Option Case := getCases.find? (·.name.item = i.type)

/-- Record groups. -/
def isGroups (i : Item) : Bool := i.type = configItemMythtvRgHide || i.type = configItemMythtvRgShow

/-- `get_item` does not fail on the item, whatever is set. -/
def accepted (i : Item) : Bool :=
  match i.case? with
  | some c => c.takes i
  | none => i.isGroups

/-- The record groups once an item has been read. -/
def groups (i : Item) (recgroup : List RecGroup) : List RecGroup :=
  readGroups (i.type = configItemMythtvRgHide) i.buflen i.buf recgroup

end Item

/-- The names, bits and members of the cases are all different. -/
theorem getCases_apart : ∀ c ∈ getCases, ∀ c' ∈ getCases, c ≠ c' →
    c.name.item ≠ c'.name.item ∧ c.name.bit &&& c'.name.bit = 0 ∧ c.member ≠ c'.member := by decide

theorem getCases_groups : ∀ c ∈ getCases, configMythtvRecgroup &&& c.name.bit = 0 ∧
    c.name.bit &&& configMythtvRecgroup = 0 ∧ c.name.bit ≠ 0 ∧ c.name.item ≠ configItemMythtvRgHide ∧ c.name.item ≠ configItemMythtvRgShow := by
  decide

theorem Item.case?_mem {i : Item} {c : Case} (h : i.case? = some c) : c ∈ getCases ∧ i.type = c.name.item := by
  refine ⟨List.mem_of_find?_eq_some h, ?_⟩
  have hc := List.find?_some h
  exact (of_decide_eq_true hc).symm

/-- The tag tells the case. -/
theorem Item.case?_of_type {i : Item} {c : Case} (hc : c ∈ getCases) (ht : i.type = c.name.item) : i.case? = some c := by
  cases h : i.case? with
  | none =>
    have hnone := List.find?_eq_none.mp h c hc
    exact absurd (decide_eq_true ht.symm) hnone
  | some c' =>
    obtain ⟨hc', ht'⟩ := Item.case?_mem h
    by_contra hne
    exact (getCases_apart c' hc' c hc fun he => hne (congrArg some he)).1 (ht'.symm.trans ht)

theorem Item.case?_of_groups {i : Item} (h : i.isGroups = true) : i.case? = none := by
  refine List.find?_eq_none.mpr fun c hc => ?_
  obtain ⟨-, -, -, hhide, hshow⟩ := getCases_groups c hc
  unfold Item.isGroups at h
  simp only [Bool.or_eq_true, decide_eq_true_eq] at h
  rw [decide_eq_true_eq]
  rintro ht
  rcases h with h | h
  · exact hhide (ht.trans h)
  · exact hshow (ht.trans h)

/-- What reading an item does to settings that are not to be overridden. -/
inductive Item.Reads (i : Item) (config config' : Config) : Prop where
  | keeps (c : Case) : i.case? = some c → config.bitmask &&& c.name.bit ≠ 0 → config' = config → Reads i config config'
  | stores (c : Case) : i.case? = some c → config.bitmask &&& c.name.bit = 0 →
      config'.bitmask = config.bitmask ||| c.name.bit →
      config'.bytes = Function.update config.bytes c.member (c.copied i) → config'.recgroup = config.recgroup →
      Reads i config config'
  | groups : i.isGroups = true → config'.bitmask = config.bitmask ||| configMythtvRecgroup →
      config'.bytes = config.bytes → config'.recgroup = i.groups config.recgroup → Reads i config config'

theorem Case.length_copied (c : Case) (i : Item) : (c.copied i).length = c.member.size := by
  unfold Case.copied
  split <;> simp

/-- `get_item` on an item of one of the macros. -/
theorem getCase_of_case {override : Bool} {config : Config} {i : Item} {c : Case} (hcase : i.case? = some c) :
    getCase override config i.type i.buflen i.buf = if i.accepted then
      some (if config.bitmask &&& c.name.bit = 0 ∨ override then
        config.store c.name c.member (c.copied i) (c.length_copied i) else config) else none := by
  have hfind : getCases.find? (fun c => decide (c.name.item = i.type)) = some c := hcase
  have haccepted : i.accepted = c.takes i := by
    unfold Item.accepted
    rw [hcase]
  unfold getCase
  rw [haccepted]
  simp only [hfind]
  cases hkind : c.kind with
  | fixed =>
    simp only [Case.takes, Case.copied, hkind, decide_eq_true_eq]
    by_cases hlen : c.member.size = i.buflen
    · rw [if_neg (not_not.mpr hlen), if_pos hlen]
      split <;> rfl
    · rw [if_pos hlen, if_neg hlen]
  | string =>
    simp only [Case.takes, Case.copied, hkind, decide_eq_true_eq]
    by_cases hlen : c.member.size ≤ i.buflen
    · rw [if_pos hlen, if_neg (not_lt.mpr hlen)]
    · rw [if_neg hlen, if_pos (not_le.mp hlen)]
      split <;> rfl

/-- `get_item` on another item: record groups are read. -/
theorem getCase_of_none (override : Bool) (config : Config) {i : Item} (hcase : i.case? = none) :
    i.accepted = i.isGroups ∧ (i.isGroups = false → getCase override config i.type i.buflen i.buf = none) ∧
      (i.isGroups = true → ∃ config', getCase override config i.type i.buflen i.buf = some config' ∧
        config'.bitmask = config.bitmask ||| configMythtvRecgroup ∧ config'.bytes = config.bytes ∧
        config'.recgroup = i.groups config.recgroup) := by
  have hfind : getCases.find? (fun c => decide (c.name.item = i.type)) = none := hcase
  have hgroups : i.isGroups = true ↔ i.type = configItemMythtvRgHide ∨ i.type = configItemMythtvRgShow := by
    simp [Item.isGroups]
  refine ⟨?_, fun hi => ?_, fun hi => ?_⟩
  · unfold Item.accepted
    rw [hcase]
  · unfold getCase
    simp only [hfind, ← hgroups, hi]
    rfl
  · unfold getCase
    simp only [hfind, ← hgroups, hi]
    exact ⟨_, rfl, rfl, rfl, rfl⟩

/-- `get_item` fails, or the item is read. -/
theorem getCase_cases (config : Config) (i : Item) :
    i.accepted = false ∧ getCase false config i.type i.buflen i.buf = none ∨
      i.accepted = true ∧ ∃ config', getCase false config i.type i.buflen i.buf = some config' ∧ i.Reads config config' := by
  cases hcase : i.case? with
  | some c =>
    rw [getCase_of_case hcase]
    cases i.accepted with
    | false => exact .inl ⟨rfl, rfl⟩
    | true =>
      refine .inr ⟨rfl, _, if_pos rfl, ?_⟩
      by_cases hbit : config.bitmask &&& c.name.bit = 0
      · rw [if_pos (.inl hbit)]
        exact .stores c hcase hbit rfl rfl rfl
      · rw [if_neg (by simpa using hbit)]
        exact .keeps c hcase hbit rfl
  | none =>
    obtain ⟨haccepted, hother, hgroups⟩ := getCase_of_none false config hcase
    rw [haccepted]
    cases hi : i.isGroups with
    | false => exact .inl ⟨rfl, hother hi⟩
    | true =>
      obtain ⟨config', hsome, hbitmask, hbytes, hrecgroup⟩ := hgroups hi
      exact .inr ⟨rfl, config', hsome, .groups hi hbitmask hbytes hrecgroup⟩

section
variable {mask bit mark : BitVec 64}

theorem or_and_of_apart (h : bit &&& mark = 0) : (mask ||| bit) &&& mark = mask &&& mark := by
  rw [BitVec.and_or_distrib_right, h]
  exact BitVec.or_zero

theorem or_and_self_ne (h : bit ≠ 0) : (mask ||| bit) &&& bit ≠ 0 := by
  rw [BitVec.and_or_distrib_right, BitVec.and_self]
  exact fun h0 => h (BitVec.or_eq_zero_iff.mp h0).2

end

namespace Item.Reads
variable {i : Item} {config config' : Config} (h : i.Reads config config')
include h

/-- A setting that is set keeps its value. -/
theorem kept {c : Case} (hc : c ∈ getCases) (hset : config.bitmask &&& c.name.bit ≠ 0) :
    config'.bitmask &&& c.name.bit ≠ 0 ∧ config'.bytes c.member = config.bytes c.member := by
  cases h with
  | keeps c' _ _ he => exact ⟨he ▸ hset, he ▸ rfl⟩
  | stores c' hcase hclear hbit hbytes _ =>
    have hne : c' ≠ c := fun he => hset (he ▸ hclear)
    obtain ⟨-, hapart, hmember⟩ := getCases_apart c' (Item.case?_mem hcase).1 c hc hne
    rw [hbit, hbytes, or_and_of_apart hapart, Function.update_of_ne hmember.symm]
    exact ⟨hset, rfl⟩
  | groups _ hbit hbytes _ =>
    rw [hbit, hbytes, or_and_of_apart (getCases_groups c hc).1]
    exact ⟨hset, rfl⟩

/-- An item of another kind does not touch it. -/
theorem other {c : Case} (hc : c ∈ getCases) (ht : i.type ≠ c.name.item) :
    config'.bitmask &&& c.name.bit = config.bitmask &&& c.name.bit := by
  cases h with
  | keeps c' _ _ he => rw [he]
  | stores c' hcase _ hbit hbytes _ =>
    have hne : c' ≠ c := fun he => ht (he ▸ (Item.case?_mem hcase).2)
    rw [hbit, or_and_of_apart (getCases_apart c' (Item.case?_mem hcase).1 c hc hne).2.1]
  | groups _ hbit hbytes _ => rw [hbit, or_and_of_apart (getCases_groups c hc).1]

/-- An item of its own kind sets it, if it is not set yet. -/
theorem sets {c : Case} (hc : c ∈ getCases) (ht : i.type = c.name.item) (hclear : config.bitmask &&& c.name.bit = 0) :
    config'.bitmask &&& c.name.bit ≠ 0 ∧ config'.bytes c.member = c.copied i := by
  have hcase := Item.case?_of_type hc ht
  cases h with
  | keeps c' hcase' hset _ =>
    obtain rfl := Option.some.inj (hcase.symm.trans hcase')
    exact absurd hclear hset
  | stores c' hcase' _ hbit hbytes _ =>
    obtain rfl := Option.some.inj (hcase.symm.trans hcase')
    rw [hbit, hbytes, Function.update_self]
    exact ⟨or_and_self_ne (getCases_groups c hc).2.2.1, rfl⟩
  | groups hi _ _ _ => exact absurd (hcase.symm.trans (Item.case?_of_groups hi)) (Option.some_ne_none c)

theorem recgroup : config'.recgroup = if i.isGroups then i.groups config.recgroup else config.recgroup := by
  cases h with
  | keeps c hcase _ he =>
    rw [if_neg fun hi => absurd (hcase.symm.trans (Item.case?_of_groups hi)) (Option.some_ne_none c), he]
  | stores c hcase _ _ _ hgroups =>
    rw [if_neg fun hi => absurd (hcase.symm.trans (Item.case?_of_groups hi)) (Option.some_ne_none c), hgroups]
  | groups hi _ _ hgroups => rw [if_pos hi, hgroups]

theorem recgroup_bit (hset : config.bitmask &&& configMythtvRecgroup ≠ 0 ∨ i.isGroups = true) :
    config'.bitmask &&& configMythtvRecgroup ≠ 0 := by
  cases h with
  | keeps c hcase _ he =>
    refine he ▸ hset.resolve_right fun hi => ?_
    exact absurd (hcase.symm.trans (Item.case?_of_groups hi)) (Option.some_ne_none c)
  | stores c hcase _ hbit _ _ =>
    have hset := hset.resolve_right fun hi =>
      absurd (hcase.symm.trans (Item.case?_of_groups hi)) (Option.some_ne_none c)
    rw [hbit, or_and_of_apart (getCases_groups c (Item.case?_mem hcase).1).2.1]
    exact hset
  | groups _ hbit _ _ =>
    rw [hbit]
    exact or_and_self_ne (by decide)

end Item.Reads

section Run
variable {items : List Item} {config : Config}

/-- Reading stops at an item that is not accepted. -/
theorem readItems_cons (items : List Item) (config : Config) (i : Item) : i.accepted = false ∧ readItems false (i :: items) config = (-1, config) ∨
    i.accepted = true ∧ ∃ config', i.Reads config config' ∧
      readItems false (i :: items) config = readItems false items config' := by
  rcases getCase_cases config i with ⟨hi, hnone⟩ | ⟨hi, config', hsome, hreads⟩
  · exact .inl ⟨hi, by rw [readItems, hnone]⟩
  · exact .inr ⟨hi, config', hreads, by rw [readItems, hsome]⟩

theorem readItems_kept {c : Case} (hc : c ∈ getCases) (hset : config.bitmask &&& c.name.bit ≠ 0) :
    (readItems false items config).2.bitmask &&& c.name.bit ≠ 0 ∧
      (readItems false items config).2.bytes c.member = config.bytes c.member := by
  induction items generalizing config with
  | nil => exact ⟨hset, rfl⟩
  | cons i items ih =>
    rcases readItems_cons items config i with ⟨-, he⟩ | ⟨-, config', hreads, he⟩
    · rw [he]
      exact ⟨hset, rfl⟩
    · obtain ⟨hset', hbytes⟩ := hreads.kept hc hset
      rw [he, ← hbytes]
      exact ih hset'

/-- The first item of a kind sets what is not set. -/
theorem readItems_sets {c : Case} (hc : c ∈ getCases) (hclear : config.bitmask &&& c.name.bit = 0) {i : Item}
    (hfirst : items.find? (·.type = c.name.item) = some i) (hok : (readItems false items config).1 = 0) :
    (readItems false items config).2.bitmask &&& c.name.bit ≠ 0 ∧
      (readItems false items config).2.bytes c.member = c.copied i := by
  induction items generalizing config with
  | nil => cases hfirst
  | cons a items ih =>
    rcases readItems_cons items config a with ⟨-, he⟩ | ⟨-, config', hreads, he⟩
    · rw [he] at hok
      cases hok
    · rw [he] at hok ⊢
      by_cases ht : a.type = c.name.item
      · rw [List.find?_cons_of_pos (by simpa using ht)] at hfirst
        obtain rfl := Option.some.inj hfirst
        obtain ⟨hset, hbytes⟩ := hreads.sets hc ht hclear
        rw [← hbytes]
        exact readItems_kept hc hset
      · rw [List.find?_cons_of_neg (by simpa using ht)] at hfirst
        exact ih ((hreads.other hc ht).trans hclear) hfirst hok

theorem readItems_recgroup_bit
    (hset : config.bitmask &&& configMythtvRecgroup ≠ 0 ∨
      (readItems false items config).1 = 0 ∧ ∃ i ∈ items, i.isGroups = true) :
    (readItems false items config).2.bitmask &&& configMythtvRecgroup ≠ 0 := by
  induction items generalizing config with
  | nil => exact hset.resolve_right fun h => by simp at h
  | cons i items ih =>
    rcases readItems_cons items config i with ⟨-, he⟩ | ⟨-, config', hreads, he⟩
    · rw [he] at hset ⊢
      exact hset.resolve_right fun h => absurd h.1 (by simp)
    · rw [he] at hset ⊢
      refine ih ?_
      rcases hset with hset | ⟨hok, a, ha, hgroups⟩
      · exact .inl (hreads.recgroup_bit (.inl hset))
      · rcases List.mem_cons.mp ha with rfl | ha
        · exact .inl (hreads.recgroup_bit (.inr hgroups))
        · exact .inr ⟨hok, a, ha, hgroups⟩

/-- The items of record groups that are read. -/
def groupItems (items : List Item) : List Item := (items.takeWhile Item.accepted).filter Item.isGroups

theorem readItems_recgroup : (readItems false items config).2.recgroup =
    (groupItems items).foldl (fun recgroup i => i.groups recgroup) config.recgroup := by
  induction items generalizing config with
  | nil => rfl
  | cons i items ih =>
    unfold groupItems
    rcases readItems_cons items config i with ⟨hi, he⟩ | ⟨hi, config', hreads, he⟩
    · rw [he, List.takeWhile_cons_of_neg (by simp [hi])]
      rfl
    · rw [he, ih, List.takeWhile_cons_of_pos hi, hreads.recgroup]
      cases hgroups : i.isGroups with
      | true =>
        rw [List.filter_cons_of_pos hgroups]
        rfl
      | false =>
        rw [List.filter_cons_of_neg (by simp [hgroups])]
        rfl

end Run

/-- The strings of an item of record groups, as far as its length says. -/
def labelsOf (len : Nat) (ptr : List UInt8) : List (List UInt8) :=
  if len = 0 then [] else cString ptr :: labelsOf (len - (strlen ptr + 1)) (ptr.drop (strlen ptr + 1))
  termination_by len

/-- The record groups that have a label, and the number of slots without one. -/
def namedGroups (groups : List RecGroup) : List RecGroup := groups.filter RecGroup.named
def freeSlots (groups : List RecGroup) : Nat := groups.countP fun g => !g.named

/-- Of the strings that find a free slot none is a label: those of 64 bytes and more find none. -/
def Fruitless (labels : List (List UInt8)) (free : Nat) : Prop :=
  ∀ label ∈ (labels.filter fun label => label.length < 64).take free, label = []

section Groups
variable {hidden : Bool} {len : Nat} {ptr : List UInt8} {groups : List RecGroup}

theorem RecGroup.named_fill (g : RecGroup) (hide : Int) (h : strlen ptr < 64) (hg : g.named = false) :
    (g.fill ptr hide h).named = decide (cString ptr ≠ []) := by
  have hlabel : (g.fill ptr hide h).label = cString ptr ++ g.label.drop (cString ptr).length := rfl
  have hhead : g.label.headD 0 = 0 := by simpa [RecGroup.named] using hg
  have hz : ∀ b ∈ cString ptr, b ≠ 0 := ne_zero_of_mem_cString
  unfold RecGroup.named
  rw [hlabel]
  generalize cString ptr = label at hz ⊢
  cases label with
  | nil => simpa using hhead
  | cons b label => simp [hz b List.mem_cons_self]

theorem freeSlots_cons (g : RecGroup) : freeSlots (g :: groups) = if g.named then freeSlots groups else freeSlots groups + 1 := by
  unfold freeSlots
  rw [List.countP_cons]
  cases g.named <;> rfl

theorem namedGroups_cons (g : RecGroup) :
    namedGroups (g :: groups) = if g.named then g :: namedGroups groups else namedGroups groups := List.filter_cons

/-- Reading record groups only adds to them. -/
theorem sublist_readGroups : (namedGroups groups).Sublist (namedGroups (readGroups hidden len ptr groups)) := by
  fun_induction readGroups hidden len ptr groups with
  | case1 => exact .refl _
  | case2 => exact .refl _
  | case3 len ptr g groups _ hg ih =>
    have hn : g.named = true := by simpa [RecGroup.named] using hg
    rw [namedGroups_cons, namedGroups_cons, if_pos hn, if_pos hn]
    exact ih.cons_cons g
  | case4 len ptr g groups _ hg len' ptr' h ih =>
    have hn : g.named = false := by simpa [RecGroup.named] using hg
    rw [namedGroups_cons, if_neg (by simp [hn]), namedGroups_cons (g.fill ptr _ h)]
    cases (g.fill ptr (if hidden then 1 else g.hide) h).named with
    | true => exact ih.cons _
    | false => exact ih
  | case5 _ _ _ _ _ _ _ _ _ ih => exact ih

/-- The record groups stay as they are exactly when no label finds a slot. -/
theorem namedGroups_readGroups_iff : namedGroups (readGroups hidden len ptr groups) = namedGroups groups ↔
    Fruitless (labelsOf len ptr) (freeSlots groups) := by
  fun_induction readGroups hidden len ptr groups with
  | case1 =>
    refine iff_of_true rfl fun label hl => ?_
    rw [show freeSlots [] = 0 from rfl, List.take_zero] at hl
    exact absurd hl List.not_mem_nil
  | case2 ptr g groups =>
    refine iff_of_true rfl fun label hl => ?_
    rw [labelsOf, if_pos rfl, List.filter_nil, List.take_nil] at hl
    exact absurd hl List.not_mem_nil
  | case3 len ptr g groups _ hg ih =>
    have hn : g.named = true := by simpa [RecGroup.named] using hg
    rw [namedGroups_cons, namedGroups_cons, if_pos hn, if_pos hn, freeSlots_cons, if_pos hn, ← ih]
    exact ⟨fun h => (List.cons.inj h).2, fun h => congrArg _ h⟩
  | case4 len ptr g groups hlen hg len' ptr' h ih =>
    have hn : g.named = false := by simpa [RecGroup.named] using hg
    have hfilter : (labelsOf len ptr).filter (fun label => label.length < 64) =
        cString ptr :: (labelsOf len' ptr').filter fun label => label.length < 64 := by
      rw [labelsOf, if_neg hlen]
      exact List.filter_cons_of_pos (decide_eq_true h)
    have hfruitless : Fruitless (labelsOf len ptr) (freeSlots groups + 1) ↔
        cString ptr = [] ∧ Fruitless (labelsOf len' ptr') (freeSlots groups) := by
      unfold Fruitless
      rw [hfilter, List.take_succ_cons, List.forall_mem_cons]
    rw [namedGroups_cons, namedGroups_cons g, freeSlots_cons, if_neg (by simp [hn] : ¬ g.named = true),
      if_neg (by simp [hn] : ¬ g.named = true), hfruitless, RecGroup.named_fill g _ h hn]
    by_cases hs : cString ptr = []
    · rw [if_neg (by simp [hs]), and_iff_right hs]
      exact ih
    · rw [if_pos (decide_eq_true hs)]
      refine iff_of_false (fun heq => ?_) fun hx => hs hx.1
      have hle : (namedGroups groups).length ≤ (namedGroups (readGroups hidden len' ptr' groups)).length :=
        sublist_readGroups.length_le
      have hlen := congrArg List.length heq
      rw [List.length_cons] at hlen
      omega
  | case5 len ptr g groups hlen hg len' ptr' h ih =>
    have hfilter : (labelsOf len ptr).filter (fun label => label.length < 64) =
        (labelsOf len' ptr').filter fun label => label.length < 64 := by
      rw [labelsOf, if_neg hlen]
      exact List.filter_cons_of_neg fun hd => h (of_decide_eq_true hd)
    unfold Fruitless
    rw [hfilter]
    exact ih

/-- The same for several items of record groups, one after the other. -/
theorem namedGroups_foldl_iff {items : List Item} :
    namedGroups (items.foldl (fun recgroup i => i.groups recgroup) groups) = namedGroups groups ↔
      ∀ i ∈ items, Fruitless (labelsOf i.buflen i.buf) (freeSlots groups) := by
  have hmono (items : List Item) (groups : List RecGroup) : (namedGroups groups).Sublist
      (namedGroups (items.foldl (fun recgroup i => i.groups recgroup) groups)) := by
    induction items generalizing groups with
    | nil => exact .refl _
    | cons i items ih => exact sublist_readGroups.trans (ih (i.groups groups))
  have hfree (groups groups' : List RecGroup) (hl : groups.length = groups'.length)
      (hn : namedGroups groups = namedGroups groups') : freeSlots groups = freeSlots groups' := by
    have hsplit (groups : List RecGroup) : groups.length = (namedGroups groups).length + freeSlots groups := by
      rw [namedGroups, freeSlots, ← List.countP_eq_length_filter]
      simpa using List.length_eq_countP_add_countP RecGroup.named
    have h1 := hsplit groups
    have h2 := hsplit groups'
    rw [hn] at h1
    omega
  induction items generalizing groups with
  | nil => exact iff_of_true rfl fun i hi => absurd hi List.not_mem_nil
  | cons i items ih =>
    rw [List.foldl_cons, List.forall_mem_cons]
    by_cases hi : namedGroups (i.groups groups) = namedGroups groups
    · have hrest : namedGroups (items.foldl (fun recgroup i => i.groups recgroup) (i.groups groups)) =
          namedGroups (i.groups groups) ↔ ∀ j ∈ items, Fruitless (labelsOf j.buflen j.buf) (freeSlots (i.groups groups)) := ih
      rw [hi, hfree (i.groups groups) groups (length_readGroups _ _ _ groups) hi] at hrest
      exact hrest.trans (and_iff_right (namedGroups_readGroups_iff.mp hi)).symm
    · -- what has been added once stays
      refine iff_of_false (fun heq => hi ?_) fun h => hi (namedGroups_readGroups_iff.mpr h.1)
      have hsub := hmono items (i.groups groups)
      rw [heq] at hsub
      exact hsub.antisymm sublist_readGroups

end Groups

/-- What loading a file without overriding is to do: what is set keeps its value, and if the file is read to its end,
what it holds and what was not set is set to it (to the first item, where there are several). -/
structure Precedence (items : List Item) (config : Config) (r : Int × Config) : Prop where
  kept : ∀ c ∈ getCases, config.bitmask &&& c.name.bit ≠ 0 →
    r.2.bitmask &&& c.name.bit ≠ 0 ∧ r.2.bytes c.member = config.bytes c.member
  groupsKept : config.bitmask &&& configMythtvRecgroup ≠ 0 →
    r.2.bitmask &&& configMythtvRecgroup ≠ 0 ∧ namedGroups r.2.recgroup = namedGroups config.recgroup
  sets : r.1 = 0 → ∀ c ∈ getCases, config.bitmask &&& c.name.bit = 0 →
    ∀ i, items.find? (·.type = c.name.item) = some i →
      r.2.bitmask &&& c.name.bit ≠ 0 ∧ r.2.bytes c.member = c.copied i
  setsGroups : r.1 = 0 → config.bitmask &&& configMythtvRecgroup = 0 → (∃ i ∈ items, i.isGroups = true) →
    r.2.bitmask &&& configMythtvRecgroup ≠ 0 ∧
      r.2.recgroup = (items.filter Item.isGroups).foldl (fun recgroup i => i.groups recgroup) config.recgroup

/-- An item that fails is the only reason for an error. -/
theorem readItems_accepted {items : List Item} {config : Config} (hok : (readItems false items config).1 = 0) :
    items.takeWhile Item.accepted = items := by
  induction items generalizing config with
  | nil => rfl
  | cons i items ih =>
    rcases readItems_cons items config i with ⟨-, he⟩ | ⟨hi, config', -, he⟩
    · rw [he] at hok
      cases hok
    · rw [he] at hok
      rw [List.takeWhile_cons_of_pos hi, ih hok]

/-- Settings that are set stay as they are, but record groups from the file are added to those that are set. -/
theorem load_precedence_iff (p : Platform) (list : ConfigList) (config : Config) :
    Precedence (itemsFrom p list 0) config (loadItems p list false config) ↔
      config.bitmask &&& configMythtvRecgroup = 0 ∨
        ∀ i ∈ groupItems (itemsFrom p list 0), Fruitless (labelsOf i.buflen i.buf) (freeSlots config.recgroup) := by
  unfold loadItems
  rw [← namedGroups_foldl_iff, ← readItems_recgroup]
  constructor
  · intro h
    by_cases hset : config.bitmask &&& configMythtvRecgroup = 0
    · exact .inl hset
    · exact .inr (h.groupsKept hset).2
  · intro h
    refine ⟨fun c hc hset => readItems_kept hc hset, fun hset => ⟨readItems_recgroup_bit (.inl hset), ?_⟩,
      fun hok c hc hclear i hi => readItems_sets hc hclear hi hok, fun hok hclear hex => ⟨?_, ?_⟩⟩
    · exact h.resolve_left hset
    · exact readItems_recgroup_bit (.inr ⟨hok, hex⟩)
    · rw [readItems_recgroup, groupItems, readItems_accepted hok]

/-- A file with one record group, for the MVP. -/
def oneGroup : ConfigList :=
  { magic := configMagic, buflen := 6, version := configVersion, flags := Platform.mvp.flags, crc := 0,
    buf := [0x00, 0x19, 0x00, 0x02, 0x42, 0x00] }

/-- Settings in which the record groups are set: there are none. -/
def noGroups : Config := { Config.zero with bitmask := configMythtvRecgroup }

/-- The group in the file is added to them. -/
theorem groups_not_kept : noGroups.bitmask &&& configMythtvRecgroup ≠ 0 ∧
    ¬ Precedence (itemsFrom .mvp oneGroup 0) noGroups (loadItems .mvp oneGroup false noGroups) := by
  have hset : noGroups.bitmask &&& configMythtvRecgroup ≠ 0 := by decide
  have hitems : itemsFrom .mvp oneGroup 0 = [⟨configItemMythtvRgShow, 2, [0x42, 0x00]⟩] := by
    have hend : itemsFrom .mvp oneGroup 6 = [] := by
      rw [itemsFrom]
      exact if_neg (by decide)
    rw [itemsFrom, if_pos (by decide)]
    exact congrArg (_ :: ·) hend
  refine ⟨hset, fun h => ?_⟩
  have hgroups := (h.groupsKept hset).2
  unfold loadItems at hgroups
  rw [readItems_recgroup, namedGroups_foldl_iff, hitems] at hgroups
  have hlabels : labelsOf 2 [0x42, 0x00] = [[0x42]] := by
    rw [labelsOf, if_neg (by decide), labelsOf]
    rfl
  have hone := hgroups ⟨configItemMythtvRgShow, 2, [0x42, 0x00]⟩ (by decide) [0x42]
  rw [hlabels] at hone
  exact absurd (hone (by decide)) (by decide)

end Mvpmc.ConfigFile
