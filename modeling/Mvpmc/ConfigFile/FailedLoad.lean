import Mvpmc.ConfigFile.LoadFile
import Mvpmc.ConfigFile.Compressed
import Mathlib.Data.List.Induction

/-! What a load that fails leaves behind: the items before the one that fails have been applied by then. -/
namespace Mvpmc.ConfigFile

namespace Item

/-- The bit that an item sets. -/
def bit (i : Item) : BitVec 64 :=
  match i.case? with
  | some c => c.name.bit
  | none => configMythtvRecgroup

/-- The settings after `get_item`; they are the same as before if it fails. -/
def apply (override : Bool) (config : Config) (i : Item) : Config :=
  (getCase override config i.type i.buflen i.buf).getD config

end Item

set_option maxRecDepth 4000 in
/-- Every bit of the bitmask that an item sets is a single one. -/
theorem getCases_oneHot : ∀ c ∈ getCases, ∃ k, k < 64 ∧ c.name.bit = BitVec.twoPow 64 k := by
  decide

theorem members_cases (m : Member) : ∃ c ∈ getCases, c.member = m := by cases m <;> decide

theorem Item.bit_oneHot (i : Item) : ∃ k, k < 64 ∧ i.bit = BitVec.twoPow 64 k := by
  unfold Item.bit
  cases hcase : i.case? with
  | none => exact ⟨23, by decide, by decide⟩
  | some c => exact getCases_oneHot c (Item.case?_mem hcase).1

theorem Item.bit_ne_zero (i : Item) : i.bit ≠ 0 := by
  unfold Item.bit
  cases hcase : i.case? with
  | none => decide
  | some c => exact (getCases_groups c (Item.case?_mem hcase).1).2.2.1

/-- To set a bit changes nothing exactly if it is set. -/
theorem or_bit_eq_iff {mask : BitVec 64} (i : Item) : mask ||| i.bit = mask ↔ mask &&& i.bit ≠ 0 := by
  constructor
  · intro h
    rw [← h]
    exact or_and_self_ne i.bit_ne_zero
  · intro h
    obtain ⟨k, hk, hbit⟩ := i.bit_oneHot
    have hset : mask.getLsbD k = true := by
      by_contra hclear
      refine h (BitVec.eq_of_getLsbD_eq fun j hj => ?_)
      rw [hbit, BitVec.getLsbD_and, BitVec.getLsbD_twoPow]
      by_cases hjk : k = j
      · subst hjk
        simp [hclear]
      · simp [hjk]
    refine BitVec.eq_of_getLsbD_eq fun j hj => ?_
    rw [hbit, BitVec.getLsbD_or, BitVec.getLsbD_twoPow]
    by_cases hjk : k = j
    · subst hjk
      simp [hset]
    · simp [hjk]

/-- What setting bits one after the other leaves as it is. -/
theorem foldl_or_eq_iff {items : List Item} {mask : BitVec 64} :
    items.foldl (fun mask i => mask ||| i.bit) mask = mask ↔ ∀ i ∈ items, mask &&& i.bit ≠ 0 := by
  -- a bit that is set stays set
  have hkeeps (items : List Item) (mask : BitVec 64) (i : Item) (h : mask ||| i.bit = mask) :
      items.foldl (fun mask i => mask ||| i.bit) mask ||| i.bit = items.foldl (fun mask i => mask ||| i.bit) mask := by
    induction items generalizing mask with
    | nil => exact h
    | cons j items ih =>
      refine ih (mask ||| j.bit) ?_
      rw [BitVec.or_assoc, BitVec.or_comm j.bit, ← BitVec.or_assoc, h]
  induction items generalizing mask with
  | nil => simp
  | cons i items ih =>
    rw [List.foldl_cons, List.forall_mem_cons, ← or_bit_eq_iff]
    constructor
    · intro h
      have hi : mask ||| i.bit = mask := by
        have hk := hkeeps items (mask ||| i.bit) i (by rw [BitVec.or_assoc, BitVec.or_self])
        rwa [h] at hk
      rw [hi] at h
      exact ⟨hi, ih.mp h⟩
    · rintro ⟨hi, h⟩
      rw [hi]
      exact ih.mpr h

/-- What `get_item` makes of the settings. -/
structure Item.Applied (override : Bool) (i : Item) (config config' : Config) : Prop where
  bitmask : config'.bitmask = config.bitmask ||| i.bit
  bytes : config'.bytes = match i.case? with
    | some c =>
      if config.bitmask &&& c.name.bit = 0 ∨ override then Function.update config.bytes c.member (c.copied i) else config.bytes
    | none => config.bytes
  recgroup : config'.recgroup = if i.isGroups then i.groups config.recgroup else config.recgroup

/-- `get_item` fails, or it applies the item. -/
theorem getCase_applied (override : Bool) (config : Config) (i : Item) :
    i.accepted = false ∧ getCase override config i.type i.buflen i.buf = none ∨
      i.accepted = true ∧ ∃ config', getCase override config i.type i.buflen i.buf = some config' ∧
        i.Applied override config config' := by
  cases hcase : i.case? with
  | some c =>
    have hbit : i.bit = c.name.bit := by
      unfold Item.bit
      rw [hcase]
    have hgroups : ¬ i.isGroups = true := fun hi =>
      absurd (hcase.symm.trans (Item.case?_of_groups hi)) (Option.some_ne_none c)
    rw [getCase_of_case hcase]
    cases i.accepted with
    | false => exact .inl ⟨rfl, rfl⟩
    | true =>
      refine .inr ⟨rfl, _, if_pos rfl, ?_, ?_, ?_⟩
      · split
        · rw [hbit]
          rfl
        · next h =>
          -- the bit of a setting that is kept is set
          exact ((or_bit_eq_iff i).mpr fun hclear => h (.inl (hbit ▸ hclear))).symm
      · rw [hcase]
        exact apply_ite Config.bytes _ _ _
      · rw [if_neg hgroups]
        split <;> rfl
  | none =>
    obtain ⟨haccepted, hother, hgroups⟩ := getCase_of_none override config hcase
    rw [haccepted]
    cases hi : i.isGroups with
    | false => exact .inl ⟨rfl, hother hi⟩
    | true =>
      obtain ⟨config', hsome, hbitmask, hbytes, hrecgroup⟩ := hgroups hi
      have hbit : i.bit = configMythtvRecgroup := by
        unfold Item.bit
        rw [hcase]
      refine .inr ⟨rfl, config', hsome, by rw [hbit, hbitmask], by rw [hcase, hbytes], ?_⟩
      rw [if_pos hi, hrecgroup]

/-- The settings once an item has been applied. -/
theorem Item.applied {override : Bool} {i : Item} (config : Config) (hi : i.accepted = true) :
    i.Applied override config (i.apply override config) := by
  rcases getCase_applied override config i with ⟨hno, -⟩ | ⟨-, config', hsome, happlied⟩
  · exact absurd hi (by simp [hno])
  · unfold Item.apply
    rw [hsome]
    exact happlied

/-- The items up to the first one that is not accepted are applied. -/
theorem readItems_eq (override : Bool) (items : List Item) (config : Config) :
    readItems override items config = (if items.all Item.accepted then 0 else -1,
      (items.takeWhile Item.accepted).foldl (Item.apply override) config) := by
  induction items generalizing config with
  | nil => rfl
  | cons i items ih =>
    rw [readItems]
    rcases getCase_applied override config i with ⟨hi, hnone⟩ | ⟨hi, config', hsome, -⟩
    · rw [hnone]
      simp [hi]
    · have happly : i.apply override config = config' := by
        unfold Item.apply
        rw [hsome]
        rfl
      rw [hsome]
      simp [hi, ih, happly]

/-- Of the strings that find a slot none is a label, and none has something to hide: those of 64 bytes and more find none. -/
def Idle (hidden : Bool) (labels : List (List UInt8)) (slots : List RecGroup) : Prop :=
  ∀ x ∈ (labels.filter fun label => label.length < 64).zip slots, x.1 = [] ∧ (hidden = true → x.2.hide = 1)

/-- The slots without a label. -/
def free (groups : List RecGroup) : List RecGroup := groups.filter fun g => !g.named

/-- How many labels and how many hidden groups there are. -/
def RecGroup.rank (g : RecGroup) : Nat := (if g.named then 1 else 0) + if g.hide = 1 then 1 else 0
def groupsRank (groups : List RecGroup) : Nat := (groups.map RecGroup.rank).sum

section Groups
variable {hidden : Bool} {len : Nat} {ptr : List UInt8} {groups : List RecGroup}

@[simp] theorem groupsRank_cons (g : RecGroup) : groupsRank (g :: groups) = g.rank + groupsRank groups := List.sum_cons

/-- A slot that is filled stays as it is, or there is a label or a hidden group more. -/
theorem RecGroup.fill_cases (hidden : Bool) (g : RecGroup) (h : strlen ptr < 64) (hg : g.named = false) :
    (cString ptr = [] ∧ (hidden = true → g.hide = 1)) ∧ g.fill ptr (if hidden then 1 else g.hide) h = g ∨
      ¬ (cString ptr = [] ∧ (hidden = true → g.hide = 1)) ∧ g.rank < (g.fill ptr (if hidden then 1 else g.hide) h).rank := by
  have hnamed := RecGroup.named_fill g (if hidden then 1 else g.hide) h hg
  have hhide : (g.fill ptr (if hidden then 1 else g.hide) h).hide = if hidden then 1 else g.hide := rfl
  by_cases hs : cString ptr = []
  · by_cases hh : hidden = true → g.hide = 1
    · refine .inl ⟨⟨hs, hh⟩, ?_⟩
      have hlabel : (g.fill ptr (if hidden then 1 else g.hide) h).label = g.label := by
        simp [RecGroup.fill, strlen, hs]
      have hkeep : (if hidden then 1 else g.hide) = g.hide := by
        cases hidden with
        | false => rfl
        | true => exact (hh rfl).symm
      cases g
      simp only [RecGroup.fill, RecGroup.mk.injEq] at hlabel hkeep ⊢
      exact ⟨hlabel, hkeep⟩
    · refine .inr ⟨fun hc => hh hc.2, ?_⟩
      obtain ⟨rfl, hne⟩ := Classical.not_imp.mp hh
      unfold RecGroup.rank
      rw [hnamed, hg, hhide]
      simp [hs, hne]
  · refine .inr ⟨fun hc => hs hc.1, ?_⟩
    unfold RecGroup.rank
    rw [hnamed, hg, hhide]
    cases hidden <;> simp [hs]
    split <;> omega

/-- Reading record groups leaves them as they are, or there is a label or a hidden group more. -/
theorem readGroups_cases (hidden : Bool) (len : Nat) (ptr : List UInt8) (groups : List RecGroup) :
    Idle hidden (labelsOf len ptr) (free groups) ∧ readGroups hidden len ptr groups = groups ∨
      ¬ Idle hidden (labelsOf len ptr) (free groups) ∧ groupsRank groups < groupsRank (readGroups hidden len ptr groups) := by
  fun_induction readGroups hidden len ptr groups with
  | case1 => exact .inl ⟨by simp [Idle, free], rfl⟩
  | case2 ptr g groups =>
    refine .inl ⟨?_, rfl⟩
    rw [labelsOf, if_pos rfl]
    simp [Idle]
  | case3 len ptr g groups _ hg ih =>
    have hn : g.named = true := by simpa [RecGroup.named] using hg
    have hfree : free (g :: groups) = free groups := List.filter_cons_of_neg (by simp [hn])
    rw [hfree]
    rcases ih with ⟨hidle, he⟩ | ⟨hidle, hlt⟩
    · exact .inl ⟨hidle, by rw [he]⟩
    · exact .inr ⟨hidle, by simpa using hlt⟩
  | case4 len ptr g groups hlen hg len' ptr' h ih =>
    have hn : g.named = false := by simpa [RecGroup.named] using hg
    have hfree : free (g :: groups) = g :: free groups := List.filter_cons_of_pos (by simp [hn])
    have hfilter : (labelsOf len ptr).filter (fun label => label.length < 64) =
        cString ptr :: (labelsOf len' ptr').filter fun label => label.length < 64 := by
      rw [labelsOf, if_neg hlen]
      exact List.filter_cons_of_pos (decide_eq_true h)
    have hidle : Idle hidden (labelsOf len ptr) (free (g :: groups)) ↔
        (cString ptr = [] ∧ (hidden = true → g.hide = 1)) ∧ Idle hidden (labelsOf len' ptr') (free groups) := by
      unfold Idle
      rw [hfilter, hfree, List.zip_cons_cons, List.forall_mem_cons]
    rw [hidle]
    rcases RecGroup.fill_cases hidden g h hn with ⟨hslot, hfill⟩ | ⟨hslot, hfill⟩
    · rcases ih with ⟨hrest, he⟩ | ⟨hrest, hlt⟩
      · exact .inl ⟨⟨hslot, hrest⟩, by rw [hfill, he]⟩
      · refine .inr ⟨fun hc => hrest hc.2, ?_⟩
        rw [hfill]
        simpa using hlt
    · refine .inr ⟨fun hc => hslot hc.1, ?_⟩
      have hle : groupsRank groups ≤ groupsRank (readGroups hidden len' ptr' groups) := by
        rcases ih with ⟨-, he⟩ | ⟨-, hlt⟩
        · rw [he]
        · exact hlt.le
      simp only [groupsRank_cons]
      omega
  | case5 len ptr g groups hlen hg len' ptr' h ih =>
    have hfilter : (labelsOf len ptr).filter (fun label => label.length < 64) =
        (labelsOf len' ptr').filter fun label => label.length < 64 := by
      rw [labelsOf, if_neg hlen]
      exact List.filter_cons_of_neg fun hd => h (of_decide_eq_true hd)
    have hidle : Idle hidden (labelsOf len ptr) (free (g :: groups)) ↔ Idle hidden (labelsOf len' ptr') (free (g :: groups)) := by
      unfold Idle
      rw [hfilter]
    rw [hidle]
    exact ih

/-- An item of record groups changes none of them. -/
def Item.Idle (i : Item) (groups : List RecGroup) : Prop :=
  ConfigFile.Idle (i.type = configItemMythtvRgHide) (labelsOf i.buflen i.buf) (free groups)

/-- Several items of record groups change none of them only if each one changes none. -/
theorem foldl_groups_eq_iff {items : List Item} :
    items.foldl (fun groups i => i.groups groups) groups = groups ↔ ∀ i ∈ items, i.Idle groups := by
  have hmono (items : List Item) (groups : List RecGroup) :
      groupsRank groups ≤ groupsRank (items.foldl (fun groups i => i.groups groups) groups) := by
    induction items generalizing groups with
    | nil => exact le_rfl
    | cons i items ih =>
      refine le_trans ?_ (ih (i.groups groups))
      rcases readGroups_cases (i.type = configItemMythtvRgHide) i.buflen i.buf groups with
        ⟨-, he⟩ | ⟨-, hlt⟩
      · exact (congrArg groupsRank he).ge
      · exact hlt.le
  induction items with
  | nil => simp
  | cons i items ih =>
    rw [List.foldl_cons, List.forall_mem_cons]
    rcases readGroups_cases (i.type = configItemMythtvRgHide) i.buflen i.buf groups with
      ⟨hidle, he⟩ | ⟨hidle, hlt⟩
    · have he' : i.groups groups = groups := he
      rw [he']
      exact ih.trans (and_iff_right hidle).symm
    · -- what has been added once stays
      refine iff_of_false (fun heq => ?_) fun h => hidle h.1
      have hle := hmono items (i.groups groups)
      rw [heq] at hle
      exact absurd hlt (not_lt.mpr hle)

end Groups

/-- The items that are applied write nothing that is not there already: the bits are set, what is copied over a member
is what it holds after the last of them, and no record group changes. -/
structure Settled (override : Bool) (config : Config) (items : List Item) : Prop where
  bits : ∀ i ∈ items, config.bitmask &&& i.bit ≠ 0
  bytes : override = true → ∀ c ∈ getCases, ∀ i, items.reverse.find? (·.type = c.name.item) = some i →
    c.copied i = config.bytes c.member
  groups : ∀ i ∈ items, i.isGroups = true → i.Idle config.recgroup

section Run
variable {override : Bool} {items : List Item} {config : Config}

theorem foldl_bitmask (h : ∀ i ∈ items, i.accepted = true) :
    (items.foldl (Item.apply override) config).bitmask = items.foldl (fun mask i => mask ||| i.bit) config.bitmask := by
  induction items generalizing config with
  | nil => rfl
  | cons i items ih =>
    obtain ⟨hi, hitems⟩ := List.forall_mem_cons.mp h
    rw [List.foldl_cons, ih hitems, (Item.applied config hi).bitmask]
    rfl

theorem foldl_recgroup (h : ∀ i ∈ items, i.accepted = true) :
    (items.foldl (Item.apply override) config).recgroup =
      (items.filter Item.isGroups).foldl (fun groups i => i.groups groups) config.recgroup := by
  induction items generalizing config with
  | nil => rfl
  | cons i items ih =>
    obtain ⟨hi, hitems⟩ := List.forall_mem_cons.mp h
    rw [List.foldl_cons, ih hitems, (Item.applied config hi).recgroup]
    cases hgroups : i.isGroups with
    | true =>
      rw [List.filter_cons_of_pos hgroups]
      rfl
    | false =>
      rw [List.filter_cons_of_neg (by simp [hgroups])]
      rfl

/-- When everything is overridden the last item of a kind tells what is stored. -/
theorem foldl_bytes (h : ∀ i ∈ items, i.accepted = true) {c : Case} (hc : c ∈ getCases) :
    (items.foldl (Item.apply true) config).bytes c.member =
      match items.reverse.find? (·.type = c.name.item) with
      | some i => c.copied i
      | none => config.bytes c.member := by
  induction items using List.reverseRecOn with
  | nil => rfl
  | append_singleton items i ih =>
    have hi : i.accepted = true := h i (by simp)
    have ih := ih fun j hj => h j (List.mem_append_left _ hj)
    rw [List.foldl_append, List.foldl_cons, List.foldl_nil, (Item.applied _ hi).bytes, List.reverse_append,
      List.reverse_singleton, List.singleton_append]
    by_cases ht : i.type = c.name.item
    · rw [Item.case?_of_type hc ht, List.find?_cons_of_pos (by simpa using ht)]
      simp
    · rw [List.find?_cons_of_neg (by simpa using ht), ← ih]
      cases hcase : i.case? with
      | none => rfl
      | some c' =>
        obtain ⟨hc', ht'⟩ := Item.case?_mem hcase
        have hne : c.member ≠ c'.member := (getCases_apart c hc c' hc' fun he => ht (he ▸ ht')).2.2
        simp [hne]

/-- Without overriding, what is set is not stored again. -/
theorem foldl_bytes_kept (h : ∀ i ∈ items, i.accepted = true) (hset : ∀ i ∈ items, config.bitmask &&& i.bit ≠ 0) :
    (items.foldl (Item.apply false) config).bytes = config.bytes := by
  induction items using List.reverseRecOn with
  | nil => rfl
  | append_singleton items i ih =>
    have hi : i.accepted = true := h i (by simp)
    have hitems : ∀ j ∈ items, j.accepted = true := fun j hj => h j (List.mem_append_left _ hj)
    have hset' : ∀ j ∈ items, config.bitmask &&& j.bit ≠ 0 := fun j hj => hset j (List.mem_append_left _ hj)
    rw [List.foldl_append, List.foldl_cons, List.foldl_nil, (Item.applied _ hi).bytes, foldl_bitmask hitems,
      foldl_or_eq_iff.mpr hset', ih hitems hset']
    cases hcase : i.case? with
    | none => rfl
    | some c =>
      have hbit : i.bit = c.name.bit := by
        unfold Item.bit
        rw [hcase]
      have hi' := hset i (by simp)
      rw [hbit] at hi'
      exact if_neg (by simpa using hi')

theorem Config.eq_iff {config config' : Config} : config = config' ↔
    config.bitmask = config'.bitmask ∧ config.bytes = config'.bytes ∧ config.recgroup = config'.recgroup := by
  cases config
  cases config'
  simp

/-- Applying items changes nothing exactly if they write what is there. -/
theorem foldl_apply_eq_iff (h : ∀ i ∈ items, i.accepted = true) :
    items.foldl (Item.apply override) config = config ↔ Settled override config items := by
  have hgroups : (items.foldl (Item.apply override) config).recgroup = config.recgroup ↔
      ∀ i ∈ items, i.isGroups = true → i.Idle config.recgroup := by
    rw [foldl_recgroup h, foldl_groups_eq_iff]
    simp only [List.mem_filter, and_imp]
  rw [Config.eq_iff, foldl_bitmask h, foldl_or_eq_iff, hgroups]
  constructor
  · rintro ⟨hbits, hbytes, hidle⟩
    refine ⟨hbits, ?_, hidle⟩
    rintro rfl c hc i hi
    have hlast : (items.foldl (Item.apply true) config).bytes c.member = _ := foldl_bytes h hc
    rw [hi, hbytes] at hlast
    exact hlast.symm
  · rintro ⟨hbits, hbytes, hidle⟩
    refine ⟨hbits, ?_, hidle⟩
    cases override with
    | false => exact foldl_bytes_kept h hbits
    | true =>
      funext m
      obtain ⟨c, hc, rfl⟩ := members_cases m
      rw [foldl_bytes h hc]
      cases hi : items.reverse.find? (·.type = c.name.item) with
      | none => rfl
      | some i => exact hbytes rfl c hc i hi

end Run

/-- A load that fails changes nothing exactly if it fails before the items, or the items before the one that fails
write nothing that is not there already. -/
theorem loadConfigFile_unchanged_iff (p : Platform) (z : Zlib) (crc32 : ConfigList → List UInt8 → Nat)
    (content : Option (List UInt8)) (junk : List UInt8) (override : Bool) (config : Config) :
    ((loadConfigFile p z crc32 content junk override config).1 = -1 →
        (loadConfigFile p z crc32 content junk override config).2 = config) ↔
      ∀ ptr, checkedList p z crc32 content junk = some ptr → (∃ i ∈ itemsFrom p ptr 0, i.accepted = false) →
        Settled override config ((itemsFrom p ptr 0).takeWhile Item.accepted) := by
  unfold loadConfigFile
  cases hptr : checkedList p z crc32 content junk with
  | none => simp
  | some ptr =>
    have hfails : (if (itemsFrom p ptr 0).all Item.accepted then (0 : Int) else -1) = -1 ↔
        ∃ i ∈ itemsFrom p ptr 0, i.accepted = false := by
      cases hall : (itemsFrom p ptr 0).all Item.accepted with
      | true =>
        rw [List.all_eq_true] at hall
        refine iff_of_false (by decide) ?_
        rintro ⟨i, hi, hno⟩
        exact absurd (hall i hi) (by simp [hno])
      | false => simpa using hall
    have hbefore : ∀ i ∈ (itemsFrom p ptr 0).takeWhile Item.accepted, i.accepted = true := fun i hi =>
      List.all_eq_true.mp List.all_takeWhile i hi
    simp only [Option.some.injEq, forall_eq', loadItems, readItems_eq, hfails, foldl_apply_eq_iff hbefore]

/-- A config file of the MVP: the PAL mode, and behind it an item with a tag that is not known. -/
def laterFile : List UInt8 :=
  [0x43, 0x4f, 0x4e, 0x46, 0x37, 0x8c, 0xa3, 0x6c, 0, 0, 0, 1, 0, 0, 0, 12, 0, 0, 0, 2] ++ List.replicate 12 0 ++
    [0, 2, 0, 4, 0, 0, 0, 1, 0, 0x37, 0, 0]

/-- `crc32` of that file, once its own field has been cleared. -/
def laterCrc : ConfigList → List UInt8 → Nat := fun _ _ => 0x378ca36c

/-- The mode is set then, though the load fails. -/
theorem laterFile_changes : (loadConfigFile .mvp storing laterCrc (some laterFile) [] false .zero).1 = -1 ∧
    (loadConfigFile .mvp storing laterCrc (some laterFile) [] false .zero).2 ≠ .zero := by
  have hptr : ∃ ptr, checkedList .mvp storing laterCrc (some laterFile) [] = some ptr ∧ ptr.buflen = 12 ∧
      ptr.buf = laterFile.drop 32 := ⟨_, rfl, rfl, rfl⟩
  obtain ⟨ptr, hptr, hlen, hbuf⟩ := hptr
  have hend : itemsFrom .mvp ptr 12 = [] := by
    rw [itemsFrom]
    exact if_neg (by rw [hlen]; decide)
  have hlater : itemsFrom .mvp ptr 8 = [⟨0x37, 0, []⟩] := by
    rw [itemsFrom, if_pos (by rw [hlen]; decide), hbuf]
    exact congrArg (_ :: ·) hend
  have hitems : itemsFrom .mvp ptr 0 = [⟨2, 4, [0, 0, 0, 1, 0, 0x37, 0, 0]⟩, ⟨0x37, 0, []⟩] := by
    rw [itemsFrom, if_pos (by rw [hlen]; decide), hbuf]
    exact congrArg (_ :: ·) hlater
  unfold loadConfigFile
  rw [hptr]
  dsimp only
  rw [loadItems, hitems, readItems_eq]
  refine ⟨by decide, fun heq => ?_⟩
  have hbits := ((foldl_apply_eq_iff fun i hi => List.all_eq_true.mp List.all_takeWhile i hi).mp heq).bits
  exact absurd rfl (hbits ⟨2, 4, [0, 0, 0, 1, 0, 0x37, 0, 0]⟩ (by decide))

end Mvpmc.ConfigFile
