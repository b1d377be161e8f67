import Mvpmc.ConfigFile.FailedLoad

/-! Which bytes loading a config file touches: those of the two buffers, and those that the items are read from. -/
namespace Mvpmc.ConfigFile

/-- A piece of memory that is read or written, by its distance from the start of a buffer. -/
structure Access where
  start : Nat
  len : Nat
  deriving DecidableEq, Repr

def Access.Within (a : Access) (room : Nat) : Prop := a.start + a.len ≤ room

/-- The bytes that `inflate` has written when it returns, whether the stream has ended or not. -/
def Zlib.inflated (z : Zlib) (list : ConfigList) : Nat :=
  match z.inflateInit with
  | none => 0
  | some state =>
    let s : ZStream z.State := { state := state, nextIn := list.items, availOut := configMaxSize + sizeofConfigList }
    (z.inflate s .noFlush).1.nextOut.length

/-- What `load_config_file` touches of the list and of the one it is uncompressed to, up to the call of `parse_config`:
the file, the header, the input and the output of `inflate`, and what goes into `crc32`. -/
def loadAccesses (p : Platform) (z : Zlib) (content junk : List UInt8) : List Access :=
  let mem := readInto content junk
  let list := listOf p mem
  ⟨0, content.length⟩ :: ⟨0, sizeofConfigList⟩ ::
    if headerOk p content.length list then
      if list.flags &&& 4 ≠ 0 then
        ⟨sizeofConfigList, list.buflen⟩ :: ⟨sizeofConfigList, z.inflated list⟩ ::
          match z.configUncompress list { buf := List.replicate configMaxSize 0 } with
          | none => []
          | some ptr => [⟨0, sizeofConfigList + ptr.buflen⟩]
      else [⟨0, sizeofConfigList + list.buflen⟩]
    else []

/-- The strings that `get_item` looks at: their bytes, and the terminator. -/
def groupAccesses (len : Nat) (ptr : List UInt8) (pos : Nat) : List RecGroup → List Access
  | [] => []
  | g :: groups =>
    if len = 0 then []
    else if g.label.headD 0 ≠ 0 then groupAccesses len ptr pos groups
    else
      let n := strlen ptr + 1
      if strlen ptr < 64 then ⟨pos, n⟩ :: groupAccesses (len - n) (ptr.drop n) (pos + n) groups
      else ⟨pos, n⟩ :: groupAccesses (len - n) (ptr.drop n) (pos + n) (g :: groups)
  termination_by groups => len + groups.length

/-- What `get_item` touches of an item at `pos`: the tag, the length if the tag is known, and what it copies. -/
def getAccesses (override : Bool) (config : Config) (type buflen : Nat) (buf : List UInt8) (pos : Nat) : List Access :=
  match getCases.find? (·.name.item = type) with
  | some c =>
    ⟨pos, 2⟩ :: ⟨pos + 2, 2⟩ ::
      match c.kind with
      | .fixed =>
        if c.member.size ≠ buflen then []
        else if config.bitmask &&& c.name.bit = 0 ∨ override then [⟨pos + 4, c.member.size⟩] else []
      | .string =>
        if c.member.size ≤ buflen then []
        else if config.bitmask &&& c.name.bit = 0 ∨ override then [⟨pos + 4, c.member.size⟩] else []
  | none =>
    if type = configItemMythtvRgHide ∨ type = configItemMythtvRgShow then
      ⟨pos, 2⟩ :: ⟨pos + 2, 2⟩ :: groupAccesses buflen buf (pos + 4) config.recgroup
    else [⟨pos, 2⟩]

/-- What the loop of `parse_config` touches of the bytes behind the header, from an offset on. -/
def parseAccesses (p : Platform) (list : ConfigList) (override : Bool) (offset : Nat) (config : Config) : List Access :=
  if offset < list.buflen then
    let item := list.buf.drop offset
    getAccesses override config (p.get16 item) (p.get16 (item.drop 2)) (item.drop 4) offset ++
      match getItem p override config item with
      | none => []
      | some config => parseAccesses p list override (offset + 4 + p.get16 (item.drop 2)) config
  else []
  termination_by list.buflen - offset

/-- The offset of the loop after some rounds, if no item fails. -/
def offsetAfter (p : Platform) (list : ConfigList) : Nat → Nat
  | 0 => 0
  | n + 1 => offsetAfter p list n + 4 + p.get16 ((list.buf.drop (offsetAfter p list n)).drop 2)

/-- The strings that are looked at while there are free slots: a string of less than 64 bytes takes one. -/
def lookedAt : Nat → List (List UInt8) → List (List UInt8)
  | _, [] => []
  | 0, _ :: _ => []
  | free + 1, label :: labels => label :: lookedAt (if label.length < 64 then free else free + 1) labels

def packedLength (labels : List (List UInt8)) : Nat := (labels.map fun label => label.length + 1).sum

/-- How many bytes from the start of an item on it takes to read it: all of the member if it is stored, the strings
that find a slot with their terminators, and otherwise no more than the header. -/
def Item.needs (override : Bool) (config : Config) (i : Item) : Nat :=
  match i.case? with
  | some c => if c.takes i ∧ (config.bitmask &&& c.name.bit = 0 ∨ override) then 4 + c.member.size else 4
  | none => if i.isGroups then 4 + packedLength (lookedAt (freeSlots config.recgroup) (labelsOf i.buflen i.buf)) else 2

section
variable {p : Platform} {z : Zlib} {list : ConfigList} {override : Bool} {config : Config}

@[simp] theorem packedLength_cons (label : List UInt8) (labels : List (List UInt8)) :
    packedLength (label :: labels) = label.length + 1 + packedLength labels := List.sum_cons

theorem lookedAt_zero (labels : List (List UInt8)) : lookedAt 0 labels = [] := by cases labels <;> rfl

/-- What `get_item` looks at next, if it looks at anything. -/
theorem labelsOf_pos {len : Nat} {ptr : List UInt8} (hlen : len ≠ 0) :
    labelsOf len ptr = cString ptr :: labelsOf (len - (strlen ptr + 1)) (ptr.drop (strlen ptr + 1)) := by
  rw [labelsOf, if_neg hlen]

/-- A piece of memory and what comes behind it. -/
theorem within_cons_iff {accesses : List Access} {pos n rest room : Nat}
    (ih : pos + n ≤ room → ((∀ a ∈ accesses, a.Within room) ↔ pos + n + rest ≤ room)) :
    (∀ a ∈ (⟨pos, n⟩ : Access) :: accesses, a.Within room) ↔ pos + (n + rest) ≤ room := by
  rw [List.forall_mem_cons]
  constructor
  · rintro ⟨hfirst, hrest⟩
    have hle := (ih hfirst).mp hrest
    omega
  · intro hle
    have hfirst : pos + n ≤ room := by omega
    exact ⟨hfirst, (ih hfirst).mpr (by omega)⟩

/-- The strings lie one behind the other, so the last one tells whether all are inside. -/
theorem groupAccesses_within_iff {len pos room : Nat} {ptr : List UInt8} {groups : List RecGroup} (hpos : pos ≤ room) :
    (∀ a ∈ groupAccesses len ptr pos groups, a.Within room) ↔
      pos + packedLength (lookedAt (freeSlots groups) (labelsOf len ptr)) ≤ room := by
  fun_induction groupAccesses len ptr pos groups with
  | case1 len ptr pos =>
    rw [show freeSlots [] = 0 from rfl, lookedAt_zero]
    simpa [packedLength] using hpos
  | case2 ptr pos g groups =>
    rw [labelsOf, if_pos rfl]
    simpa [packedLength, lookedAt] using hpos
  | case3 len ptr pos g groups _ hg ih =>
    have hn : g.named = true := by simpa [RecGroup.named] using hg
    rw [freeSlots_cons, if_pos hn]
    exact ih hpos
  | case4 len ptr pos g groups hlen hg n hshort ih =>
    have hn : g.named = false := by simpa [RecGroup.named] using hg
    have hstr : (cString ptr).length < 64 := hshort
    rw [freeSlots_cons, if_neg (by simp [hn]), labelsOf_pos hlen, lookedAt, if_pos hstr, packedLength_cons]
    exact within_cons_iff ih
  | case5 len ptr pos g groups hlen hg n hlong ih =>
    have hn : g.named = false := by simpa [RecGroup.named] using hg
    have hstr : ¬ (cString ptr).length < 64 := hlong
    rw [freeSlots_cons, if_neg (by simp [hn])] at ih ⊢
    rw [labelsOf_pos hlen, lookedAt, if_neg hstr, packedLength_cons]
    exact within_cons_iff ih

theorem header_within_iff {accesses : List Access} {pos room : Nat} :
    (∀ a ∈ (⟨pos, 2⟩ : Access) :: ⟨pos + 2, 2⟩ :: accesses, a.Within room) ↔
      pos + 4 ≤ room ∧ ∀ a ∈ accesses, a.Within room := by
  rw [List.forall_mem_cons, List.forall_mem_cons, ← and_assoc]
  refine and_congr_left fun _ => ?_
  unfold Access.Within
  dsimp only
  omega

/-- The header of an item, and the member that it is copied over if it is. -/
theorem member_within_iff {taken : Prop} [Decidable taken] {pos size room : Nat} :
    (pos + 4 ≤ room ∧ ∀ a ∈ if taken then [(⟨pos + 4, size⟩ : Access)] else [], a.Within room) ↔
      pos + (if taken then 4 + size else 4) ≤ room := by
  by_cases h : taken
  · rw [if_pos h, if_pos h, List.forall_mem_singleton]
    unfold Access.Within
    dsimp only
    omega
  · rw [if_neg h, if_neg h]
    simp

/-- All of an item that `get_item` touches is inside exactly if the bytes it needs are. -/
theorem getAccesses_within_iff {i : Item} {pos room : Nat} :
    (∀ a ∈ getAccesses override config i.type i.buflen i.buf pos, a.Within room) ↔ pos + i.needs override config ≤ room := by
  unfold getAccesses Item.needs
  cases hcase : i.case? with
  | some c =>
    have hfind : getCases.find? (fun c => decide (c.name.item = i.type)) = some c := hcase
    simp only [hfind, header_within_iff, ← member_within_iff]
    cases hkind : c.kind with
    | fixed =>
      simp only [Case.takes, hkind, decide_eq_true_eq]
      by_cases hlen : c.member.size = i.buflen
      · rw [if_neg (not_not.mpr hlen)]
        simp only [hlen, true_and]
      · rw [if_pos hlen]
        simp only [hlen, false_and, if_false]
    | string =>
      simp only [Case.takes, hkind, decide_eq_true_eq]
      by_cases hlen : c.member.size ≤ i.buflen
      · rw [if_pos hlen]
        simp only [Nat.not_lt.mpr hlen, false_and, if_false]
      · rw [if_neg hlen]
        simp only [Nat.not_le.mp hlen, true_and]
  | none =>
    have hfind : getCases.find? (fun c => decide (c.name.item = i.type)) = none := hcase
    have hgroups : i.isGroups = true ↔ i.type = configItemMythtvRgHide ∨ i.type = configItemMythtvRgShow := by
      simp [Item.isGroups]
    simp only [hfind, ← hgroups]
    by_cases hi : i.isGroups = true
    · rw [if_pos hi, if_pos hi, header_within_iff]
      constructor
      · rintro ⟨hpos, hall⟩
        rw [← Nat.add_assoc]
        exact (groupAccesses_within_iff hpos).mp hall
      · intro hle
        have hpos : pos + 4 ≤ room := by omega
        exact ⟨hpos, (groupAccesses_within_iff hpos).mpr (by omega)⟩
    · rw [if_neg hi, if_neg hi]
      simp [Access.Within]

/-- The places of a list that are come to while what is before them is accepted. -/
theorem forall_splits_cons {x : Item} {items : List Item} {Q : List Item → Item → Prop} :
    (∀ before i after, x :: items = before ++ i :: after → (∀ j ∈ before, j.accepted = true) → Q before i) ↔
      Q [] x ∧ (x.accepted = true → ∀ before i after, items = before ++ i :: after →
        (∀ j ∈ before, j.accepted = true) → Q (x :: before) i) := by
  constructor
  · intro h
    refine ⟨h [] x items rfl (by simp), fun hx before i after hsplit hbefore => ?_⟩
    exact h (x :: before) i after (by rw [hsplit, List.cons_append]) (List.forall_mem_cons.mpr ⟨hx, hbefore⟩)
  · rintro ⟨hfirst, hrest⟩ before i after hsplit hbefore
    cases before with
    | nil =>
      obtain ⟨rfl, -⟩ := List.cons.inj hsplit
      exact hfirst
    | cons y before =>
      obtain ⟨rfl, htail⟩ := List.cons.inj hsplit
      obtain ⟨hx, hbefore⟩ := List.forall_mem_cons.mp hbefore
      exact hrest hx before i after htail hbefore

/-- The items are inside exactly if each one is that is come to. -/
theorem parseAccesses_within_iff {offset : Nat} :
    (∀ a ∈ parseAccesses p list override offset config, a.Within list.buflen) ↔
      ∀ before i after, itemsFrom p list offset = before ++ i :: after → (∀ j ∈ before, j.accepted = true) →
        offset + (before.map fun j => 4 + j.buflen).sum + i.needs override (before.foldl (Item.apply override) config) ≤
          list.buflen := by
  fun_induction parseAccesses p list override offset config with
  | case1 offset config h item ih =>
    have hitems : itemsFrom p list offset = ⟨p.get16 item, p.get16 (item.drop 2), item.drop 4⟩ ::
        itemsFrom p list (offset + 4 + p.get16 (item.drop 2)) := by
      rw [itemsFrom, if_pos h]
    rw [hitems, List.forall_mem_append, forall_splits_cons,
      List.map_nil, List.sum_nil, Nat.add_zero, List.foldl_nil]
    refine and_congr (getAccesses_within_iff (i := ⟨_, _, _⟩)) ?_
    unfold getItem
    rcases getCase_applied override config ⟨p.get16 item, p.get16 (item.drop 2), item.drop 4⟩ with
      ⟨hno, hnone⟩ | ⟨hyes, config', hsome, -⟩
    · dsimp only at hnone
      rw [hnone]
      exact iff_of_true (by simp) fun hyes => absurd hyes (by rw [hno]; decide)
    · have happly : Item.apply override config ⟨p.get16 item, p.get16 (item.drop 2), item.drop 4⟩ = config' := by
        unfold Item.apply
        rw [hsome]
        rfl
      dsimp only at hsome
      rw [hsome]
      refine (ih config').trans ?_
      rw [forall_prop_of_true hyes]
      simp only [List.map_cons, List.sum_cons, List.foldl_cons, happly, Nat.add_assoc]
  | case2 offset config h =>
    rw [itemsFrom, if_neg h]
    simp

/-- Every round takes at least the header of an item. -/
theorem le_offsetAfter (n : Nat) : 4 * n ≤ offsetAfter p list n := by
  induction n with
  | zero => exact Nat.zero_le _
  | succ n ih =>
    rw [offsetAfter]
    omega

theorem configUncompress_buflen {out ptr : ConfigList} (h : z.configUncompress list out = some ptr) :
    ptr.buflen = z.inflated list := by
  obtain ⟨data, hdata, hptr⟩ := Option.bind_eq_some_iff.mp h
  obtain rfl := Option.some.inj hptr
  unfold Zlib.doUncompress at hdata
  obtain ⟨state, hinit, hdata⟩ := Option.bind_eq_some_iff.mp hdata
  unfold Zlib.inflated
  rw [hinit]
  dsimp only at hdata ⊢
  split at hdata
  · cases hdata
  · split at hdata
    · cases hdata
    · exact congrArg List.length (Option.some.inj hdata).symm

/-- The two buffers are large enough exactly for a file and for a list of the greatest size. -/
theorem loadAccesses_within_iff {content junk : List UInt8} :
    (∀ a ∈ loadAccesses p z content junk, a.Within (configMaxSize + sizeofConfigList)) ↔
      content.length ≤ configMaxSize + sizeofConfigList ∧
        (headerOk p content.length (listOf p (readInto content junk)) = true →
          (listOf p (readInto content junk)).flags &&& 4 ≠ 0 →
          z.inflated (listOf p (readInto content junk)) ≤ configMaxSize) := by
  have hfixed {accesses : List Access} :
      (∀ a ∈ (⟨0, content.length⟩ : Access) :: ⟨0, sizeofConfigList⟩ :: accesses, a.Within (configMaxSize + sizeofConfigList)) ↔
        content.length ≤ configMaxSize + sizeofConfigList ∧ ∀ a ∈ accesses, a.Within (configMaxSize + sizeofConfigList) := by
    rw [List.forall_mem_cons, List.forall_mem_cons]
    refine and_congr (by rw [Access.Within, Nat.zero_add]) (and_iff_right ?_)
    exact Nat.add_le_add_right (Nat.zero_le _) _
  unfold loadAccesses
  dsimp only
  rw [hfixed]
  refine and_congr_right fun hsize => ?_
  generalize listOf p (readInto content junk) = list
  by_cases hok : headerOk p content.length list = true
  · -- the header tells the size of the file
    have hlen : sizeofConfigList + list.buflen = content.length := by
      have hbuflen := (of_decide_eq_true hok).2.2.1
      omega
    rw [if_pos hok, forall_prop_of_true hok]
    by_cases hflag : list.flags &&& 4 ≠ 0
    · rw [if_pos hflag, forall_prop_of_true hflag, List.forall_mem_cons, List.forall_mem_cons]
      have hin : (⟨sizeofConfigList, list.buflen⟩ : Access).Within (configMaxSize + sizeofConfigList) := by
        unfold Access.Within
        dsimp only
        omega
      have hout : (⟨sizeofConfigList, z.inflated list⟩ : Access).Within (configMaxSize + sizeofConfigList) ↔
          z.inflated list ≤ configMaxSize := by
        unfold Access.Within
        dsimp only
        omega
      rw [and_iff_right hin, hout]
      refine and_iff_left_of_imp fun hle => ?_
      cases hptr : z.configUncompress list { buf := List.replicate configMaxSize 0 } with
      | none => simp
      | some ptr =>
        rw [List.forall_mem_singleton]
        unfold Access.Within
        dsimp only
        rw [configUncompress_buflen hptr]
        omega
    · rw [if_neg hflag]
      refine iff_of_true ?_ fun h => absurd h hflag
      rw [List.forall_mem_singleton]
      unfold Access.Within
      dsimp only
      omega
  · rw [if_neg hok]
    exact iff_of_true (by simp) fun h => absurd h hok

end

/-- Loading a file stays inside its buffers, parsing stays inside the bytes of the list that are in use, and ends. -/
structure StaysInside (p : Platform) (z : Zlib) (crc32 : ConfigList → List UInt8 → Nat) (content junk : List UInt8)
    (override : Bool) (config : Config) : Prop where
  allocated : ∀ a ∈ loadAccesses p z content junk, a.Within (configMaxSize + sizeofConfigList)
  parsed : ∀ ptr, checkedList p z crc32 (some content) junk = some ptr →
    ∀ a ∈ parseAccesses p ptr override 0 config, a.Within ptr.buflen
  terminates : ∀ ptr, checkedList p z crc32 (some content) junk = some ptr → ∃ n, ptr.buflen ≤ offsetAfter p ptr n

/-- What it takes to stay inside: a file that is not larger than the buffer, a stream that does not inflate to more than
the list holds, and items that have all the bytes that are read of them. -/
theorem staysInside_iff (p : Platform) (z : Zlib) (crc32 : ConfigList → List UInt8 → Nat) (content junk : List UInt8)
    (override : Bool) (config : Config) :
    StaysInside p z crc32 content junk override config ↔
      content.length ≤ configMaxSize + sizeofConfigList ∧
      (headerOk p content.length (listOf p (readInto content junk)) = true →
        (listOf p (readInto content junk)).flags &&& 4 ≠ 0 →
        z.inflated (listOf p (readInto content junk)) ≤ configMaxSize) ∧
      ∀ ptr, checkedList p z crc32 (some content) junk = some ptr →
        ∀ before i after, itemsFrom p ptr 0 = before ++ i :: after → (∀ j ∈ before, j.accepted = true) →
          (before.map fun j => 4 + j.buflen).sum + i.needs override (before.foldl (Item.apply override) config) ≤
            ptr.buflen := by
  rw [← and_assoc, ← loadAccesses_within_iff]
  have hparsed (ptr : ConfigList) : (∀ a ∈ parseAccesses p ptr override 0 config, a.Within ptr.buflen) ↔
      ∀ before i after, itemsFrom p ptr 0 = before ++ i :: after → (∀ j ∈ before, j.accepted = true) →
        (before.map fun j => 4 + j.buflen).sum + i.needs override (before.foldl (Item.apply override) config) ≤
          ptr.buflen := by
    have hwithin := @parseAccesses_within_iff p ptr override config 0
    simpa only [Nat.zero_add] using hwithin
  constructor
  · intro h
    exact ⟨h.allocated, fun ptr hptr => (hparsed ptr).mp (h.parsed ptr hptr)⟩
  · rintro ⟨hallocated, hitems⟩
    refine ⟨hallocated, fun ptr hptr => (hparsed ptr).mpr (hitems ptr hptr), fun ptr _ => ⟨ptr.buflen, ?_⟩⟩
    have hle : 4 * ptr.buflen ≤ offsetAfter p ptr ptr.buflen := le_offsetAfter ptr.buflen
    omega

/-- What `save_config_file` writes on the MVP when nothing but the weather location is set. -/
def weatherFile : List UInt8 :=
  [0x43, 0x4f, 0x4e, 0x46, 0x5d, 0x22, 0x25, 0x78, 0, 0, 0, 1, 0, 0, 0, 9, 0, 0, 0, 2] ++ List.replicate 12 0 ++
    [0, 0x27, 0, 5, 0x31, 0x32, 0x33, 0x34, 0x35]

/-- `crc32` of that file, once its own field has been cleared. -/
def weatherCrc : ConfigList → List UInt8 → Nat := fun _ _ => 0x5d222578

/-- All twenty bytes of the member are copied, where the item has five. -/
theorem weatherFile_not_inside : ¬ StaysInside .mvp storing weatherCrc weatherFile [] false .zero := by
  intro h
  obtain ⟨ptr, hptr, hlen, hbuf⟩ : ∃ ptr, checkedList .mvp storing weatherCrc (some weatherFile) [] = some ptr ∧
      ptr.buflen = 9 ∧ ptr.buf = weatherFile.drop 32 := ⟨_, rfl, rfl, rfl⟩
  have hend : itemsFrom .mvp ptr 9 = [] := by
    rw [itemsFrom]
    exact if_neg (by rw [hlen]; decide)
  have hitems : itemsFrom .mvp ptr 0 = [⟨0x27, 5, [0x31, 0x32, 0x33, 0x34, 0x35]⟩] := by
    rw [itemsFrom, if_pos (by rw [hlen]; decide), hbuf]
    exact congrArg (_ :: ·) hend
  have hneeds := parseAccesses_within_iff.mp (h.parsed ptr hptr) [] _ [] hitems (by simp)
  rw [hlen] at hneeds
  exact absurd hneeds (by decide)

end Mvpmc.ConfigFile
