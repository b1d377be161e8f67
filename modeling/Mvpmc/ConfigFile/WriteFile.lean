import Mvpmc.ConfigFile.LoadFile
import Mvpmc.ConfigFile.Compressed

/-! Writing a list to its file (`save_config_to_file`, `config.c`) when `write` does not take everything at once. -/
namespace Mvpmc.ConfigFile

/-- A `uint32_t` in memory. -/
def Platform.put32 (p : Platform) (n : Nat) : List UInt8 :=
  match p with
  | .hostLittleEndian => p.put16 n ++ p.put16 (n / 65536)
  | .hostBigEndian => p.put16 (n / 65536) ++ p.put16 n
  | .mvp => p.put16 (n / 65536) ++ p.put16 n

/-- A list in memory, with the unused words of its header. -/
def ConfigList.memory (p : Platform) (list : ConfigList) (unused : List UInt8) : List UInt8 :=
  p.put32 list.magic ++ p.put32 list.crc ++ p.put32 list.version ++ p.put32 list.buflen ++ p.put32 list.flags ++
    unused.takeD 12 0 ++ list.buf

/-- The header and the items. -/
def ConfigList.bytes (p : Platform) (list : ConfigList) (unused : List UInt8) : List UInt8 :=
  (list.memory p unused).take (sizeofConfigList + list.buflen)

/-- The loop of `save_config_to_file`: every call of `write` gets the start of the list. `write k n` is what the call
number `k` returns when it is to write `n` bytes. -/
def writeLoop (write : Nat → Nat → Int) (mem : List UInt8) (len : Int) (k tot : Nat) (file : List UInt8) : Int × List UInt8 :=
  if tot < len then
    let rc := write k (len - tot).toNat
    if rc ≤ 0 then (-205, file) else writeLoop write mem len (k + 1) (tot + rc.toNat) (file ++ mem.take rc.toNat)
  else (0, file)
  termination_by (len - tot).toNat
  decreasing_by omega

/-- The list that is written, with the unused words of its header: the one given, or a compressed one in memory that
has been cleared. -/
def listWritten (z : Zlib) (list : ConfigList) (unused : List UInt8) (compress memory : Bool) :
    Except Int (ConfigList × List UInt8) :=
  if list.flags &&& 4 = 0 ∧ compress then
    if memory then
      match z.configCompress list { buf := List.replicate configMaxCompressedSize 0 } with
      | some ptr => .ok (ptr, List.replicate 12 0)
      | none => .error (-187)
    else .error (-182)
  else .ok (list, unused)

/-- `save_config_to_file`: what it returns, and what the file holds if it has been opened. -/
def saveConfigToFile (p : Platform) (z : Zlib) (list : ConfigList) (unused : List UInt8) (compress memory opened : Bool)
    (write : Nat → Nat → Int) : Int × Option (List UInt8) :=
  match listWritten z list unused compress memory with
  | .error ret => (ret, none)
  | .ok (ptr, unused) =>
    if opened then
      let len := (BitVec.ofNat 32 (sizeofConfigList + ptr.buflen)).toInt
      let (ret, file) := writeLoop write (ptr.memory p unused) len 0 0 []
      (ret, some file)
    else (-195, none)

/-- What has been written before the call number `k + j`, if `tot` bytes had been before the call number `k`. -/
def totAfter (write : Nat → Nat → Int) (len k tot : Nat) : Nat → Nat
  | 0 => tot
  | j + 1 => totAfter write len (k + 1) (tot + (write k (len - tot)).toNat) j

/-- Every call from the one with number `k` on takes bytes that are the same at the start of the list as at the place
that it has come to. -/
def InPlace (write : Nat → Nat → Int) (mem : List UInt8) (len k tot : Nat) : Prop :=
  ∀ j, totAfter write len k tot j < len →
    let n := (write (k + j) (len - totAfter write len k tot j)).toNat
    mem.take n = (mem.drop (totAfter write len k tot j)).take n

section
variable {write : Nat → Nat → Int} {mem file : List UInt8} {len : Int} {k tot : Nat}

/-- What is in the file stays there. -/
theorem writeLoop_prefix : file <+: (writeLoop write mem len k tot file).2 := by
  fun_induction writeLoop write mem len k tot file with
  | case1 => exact List.prefix_refl _
  | case2 k tot file hlt rc hrc ih => exact (List.prefix_append file _).trans ih
  | case3 => exact List.prefix_refl _

theorem le_totAfter {len j : Nat} : tot ≤ totAfter write len k tot j := by
  induction j generalizing k tot with
  | zero => exact le_rfl
  | succ j ih => exact (Nat.le_add_right _ _).trans ih

/-- One call, and those behind it. -/
theorem inPlace_iff {len m : Nat} (hm : write k (len - tot) = m) (hlt : tot < len) :
    InPlace write mem len k tot ↔ mem.take m = (mem.drop tot).take m ∧ InPlace write mem len (k + 1) (tot + m) := by
  have hnext (j : Nat) : totAfter write len k tot (j + 1) = totAfter write len (k + 1) (tot + m) j := by
    rw [totAfter, hm]
    rfl
  unfold InPlace
  constructor
  · intro h
    refine ⟨by simpa [totAfter, hm] using h 0 hlt, fun j hj => ?_⟩
    have hj' := h (j + 1) (by rwa [hnext])
    rwa [hnext, Nat.add_comm j 1, ← Nat.add_assoc] at hj'
  · rintro ⟨hfirst, h⟩ j hj
    cases j with
    | zero => simpa [totAfter, hm] using hfirst
    | succ j =>
      rw [hnext] at hj ⊢
      rw [Nat.add_comm j 1, ← Nat.add_assoc]
      exact h j hj

variable (hw : ∀ k n, 0 < n → 1 ≤ write k n ∧ write k n ≤ n)
include hw

theorem writeLoop_ok : (writeLoop write mem len k tot file).1 = 0 := by
  fun_induction writeLoop write mem len k tot file with
  | case1 k tot file hlt rc hrc =>
    have hpos := (hw k (len - tot).toNat (by omega)).1
    exact absurd hrc (by omega)
  | case2 k tot file hlt rc hrc ih => exact ih
  | case3 => rfl

/-- The file gets as many bytes as there are to write. -/
theorem length_writeLoop (hlen : len ≤ mem.length) :
    (writeLoop write mem len k tot file).2.length = file.length + (len - tot).toNat := by
  fun_induction writeLoop write mem len k tot file with
  | case1 k tot file hlt rc hrc =>
    have hpos := (hw k (len - tot).toNat (by omega)).1
    exact absurd hrc (by omega)
  | case2 k tot file hlt rc hrc ih =>
    have hle : rc ≤ (len - tot).toNat := (hw k (len - tot).toNat (by omega)).2
    rw [ih, List.length_append, List.length_take]
    omega
  | case3 k tot file hlt =>
    have hzero : (len - tot).toNat = 0 := by omega
    rw [hzero, Nat.add_zero]

/-- The file ends as it should exactly if what is written is in its place. -/
theorem writeLoop_eq_iff {len : Nat} (hn : len ≤ mem.length) (htot : tot ≤ len) :
    (writeLoop write mem len k tot file).2 = file ++ (mem.drop tot).take (len - tot) ↔ InPlace write mem len k tot := by
  induction hrest : len - tot using Nat.strong_induction_on generalizing k tot file with
  | _ rest ih =>
    by_cases hlt : tot < len
    · obtain ⟨hpos, hle⟩ := hw k (len - tot) (by omega)
      obtain ⟨m, hm⟩ : ∃ m : Nat, write k (len - tot) = m := ⟨(write k (len - tot)).toNat, by omega⟩
      have hleft : ((len : Int) - tot).toNat = len - tot := by omega
      have hloop : writeLoop write mem len k tot file = writeLoop write mem len (k + 1) (tot + m) (file ++ mem.take m) := by
        rw [writeLoop, if_pos (by omega)]
        simp only [hleft, hm]
        rw [if_neg (by omega)]
        rfl
      -- the piece that belongs at this place, and the rest
      have hsplit : (mem.drop tot).take rest = (mem.drop tot).take m ++ (mem.drop (tot + m)).take (len - (tot + m)) := by
        rw [← hrest, show len - tot = m + (len - (tot + m)) by omega, List.take_add, List.drop_drop]
      have ih' := @ih (len - (tot + m)) (by omega) (file ++ mem.take m) (k + 1) (tot + m) (by omega) rfl
      rw [inPlace_iff hm hlt, ← ih', hloop, hsplit, ← List.append_assoc]
      constructor
      · intro heq
        obtain ⟨more, hmore⟩ : file ++ mem.take m <+: _ := writeLoop_prefix
        have hsame : mem.take m = (mem.drop tot).take m := by
          rw [heq, List.append_assoc, List.append_assoc] at hmore
          refine (List.append_inj (List.append_cancel_left hmore) ?_).1
          rw [List.length_take, List.length_take, List.length_drop]
          omega
        exact ⟨hsame, by rw [heq, hsame]⟩
      · rintro ⟨hsame, heq⟩
        rw [heq, hsame]
    · have hzero : rest = 0 := by omega
      rw [writeLoop, if_neg (by omega), hzero, List.take_zero, List.append_nil]
      refine iff_of_true rfl fun j hj => ?_
      have hle : tot ≤ totAfter write len k tot j := le_totAfter
      omega

end

theorem length_put32 (p : Platform) (n : Nat) : (p.put32 n).length = 4 := by cases p <;> rfl

theorem ConfigList.length_memory (p : Platform) (list : ConfigList) (unused : List UInt8) :
    (list.memory p unused).length = sizeofConfigList + list.buf.length := by
  unfold memory
  simp only [List.length_append, length_put32, List.takeD_length]
  rfl

/-- The list that is written has as many bytes as it says. -/
theorem listWritten_full {z : Zlib} {list ptr : ConfigList} {unused unused' : List UInt8} {compress memory : Bool}
    (hf : list.Full) (h : listWritten z list unused compress memory = .ok (ptr, unused')) : ptr.buflen ≤ ptr.buf.length := by
  unfold listWritten at h
  split at h
  · split at h
    · split at h
      · rename_i code hcode
        obtain ⟨bytes, -, hbytes⟩ := Option.bind_eq_some_iff.mp hcode
        obtain rfl := Option.some.inj hbytes
        cases h
        simp
      · cases h
    · cases h
  · cases h
    unfold ConfigList.Full ConfigList.items at hf
    rw [List.length_take] at hf
    omega

theorem listWritten_error {z : Zlib} {list : ConfigList} {unused : List UInt8} {compress memory : Bool} {ret : Int}
    (h : listWritten z list unused compress memory = .error ret) : ret ≠ 0 := by
  unfold listWritten at h
  split at h
  · split at h
    · split at h
      · cases h
      · cases h
        decide
    · cases h
      decide
  · cases h

/-- What the loop makes of a list, with its length taken as an `int`. -/
theorem writeLoop_whole_iff {p : Platform} {ptr : ConfigList} {unused : List UInt8} {write : Nat → Nat → Int}
    (hf : ptr.buflen ≤ ptr.buf.length) (hw : ∀ k n, 0 < n → 1 ≤ write k n ∧ write k n ≤ n) :
    (writeLoop write (ptr.memory p unused) (BitVec.ofNat 32 (sizeofConfigList + ptr.buflen)).toInt 0 0 []).2 =
        ptr.bytes p unused ↔
      sizeofConfigList + ptr.buflen < 2 ^ 31 ∧ InPlace write (ptr.memory p unused) (sizeofConfigList + ptr.buflen) 0 0 := by
  have hmem : sizeofConfigList + ptr.buflen ≤ (ptr.memory p unused).length := by
    rw [ConfigList.length_memory]
    omega
  generalize hlen : sizeofConfigList + ptr.buflen = len at hmem
  have hbytes : ptr.bytes p unused = (ptr.memory p unused).take len := by rw [← hlen]; rfl
  rw [hbytes]
  by_cases hint : len < 2 ^ 31
  · have htoInt : (BitVec.ofNat 32 len).toInt = len := by
      have hsmall : len % 2 ^ 32 = len := Nat.mod_eq_of_lt (by omega)
      rw [BitVec.toInt_eq_toNat_cond, BitVec.toNat_ofNat, hsmall, if_pos (by omega)]
    rw [htoInt, and_iff_right hint]
    exact writeLoop_eq_iff hw hmem (Nat.zero_le _)
  · -- the length comes out too small
    have hless : (BitVec.ofNat 32 len).toInt < 2 ^ 31 := BitVec.toInt_lt
    refine iff_of_false (fun heq => ?_) fun h => hint h.1
    have hlength := congrArg List.length heq
    rw [length_writeLoop hw (by omega), List.length_take] at hlength
    simp only [List.length_nil] at hlength
    omega

/-- The file holds the whole list, and nothing else, exactly if its length fits in an `int` and what each call of `write`
takes is the same at the start of the list as at the place it is meant for, as when the first call takes everything. -/
theorem saveConfigToFile_whole_iff (p : Platform) (z : Zlib) (list : ConfigList) (unused : List UInt8)
    (compress memory opened : Bool) (write : Nat → Nat → Int) (hf : list.Full)
    (hw : ∀ k n, 0 < n → 1 ≤ write k n ∧ write k n ≤ n) :
    ((saveConfigToFile p z list unused compress memory opened write).1 = 0 →
        ∃ ptr unused', listWritten z list unused compress memory = .ok (ptr, unused') ∧
          (saveConfigToFile p z list unused compress memory opened write).2 = some (ptr.bytes p unused')) ↔
      ∀ ptr unused', listWritten z list unused compress memory = .ok (ptr, unused') → opened = true →
        sizeofConfigList + ptr.buflen < 2 ^ 31 ∧
          InPlace write (ptr.memory p unused') (sizeofConfigList + ptr.buflen) 0 0 := by
  unfold saveConfigToFile
  cases hptr : listWritten z list unused compress memory with
  | error ret => exact iff_of_true (fun h => absurd h (listWritten_error hptr)) (by simp)
  | ok pair =>
    obtain ⟨ptr, unused'⟩ := pair
    have hfull : ptr.buflen ≤ ptr.buf.length := listWritten_full hf hptr
    cases opened with
    | false => simp
    | true =>
      simp only [if_true, writeLoop_ok hw, Except.ok.injEq, Prod.mk.injEq, Option.some.injEq, forall_true_left, and_imp,
        forall_eq', forall_apply_eq_imp_iff]
      rw [← writeLoop_whole_iff hfull hw]
      constructor
      · rintro ⟨_, _, ⟨rfl, rfl⟩, heq⟩
        exact heq
      · intro heq
        exact ⟨ptr, unused', ⟨rfl, rfl⟩, heq⟩

/-- A list without items, as the MVP has it. -/
def emptyList : ConfigList := { magic := configMagic, version := configVersion, flags := Platform.mvp.flags, buf := [] }

/-- It is written at once. -/
theorem saveConfigToFile_whole_empty :
    ((saveConfigToFile .mvp storing emptyList [] false true true fun _ n => n).1 = 0 →
        ∃ ptr unused', listWritten storing emptyList [] false true = .ok (ptr, unused') ∧
          (saveConfigToFile .mvp storing emptyList [] false true true fun _ n => n).2 = some (ptr.bytes .mvp unused')) ↔
      ∀ ptr unused', listWritten storing emptyList [] false true = .ok (ptr, unused') → true = true →
        sizeofConfigList + ptr.buflen < 2 ^ 31 ∧
          InPlace (fun _ n => n) (ptr.memory .mvp unused') (sizeofConfigList + ptr.buflen) 0 0 :=
  saveConfigToFile_whole_iff .mvp storing emptyList [] false true true (fun _ n => n) rfl fun _ _ hn => ⟨by omega, le_rfl⟩

/-- A call that takes sixteen bytes at most. -/
def sixteen (_ n : Nat) : Int := min n 16

/-- The first half of the header is written twice. -/
theorem emptyList_twice : (∀ k n, 0 < n → 1 ≤ sixteen k n ∧ sixteen k n ≤ n) ∧
    (saveConfigToFile .mvp storing emptyList [] false true true sixteen).1 = 0 ∧
    listWritten storing emptyList [] false true = .ok (emptyList, []) ∧
    (saveConfigToFile .mvp storing emptyList [] false true true sixteen).2 =
      some ((emptyList.bytes .mvp []).take 16 ++ (emptyList.bytes .mvp []).take 16) ∧
    (emptyList.bytes .mvp []).take 16 ++ (emptyList.bytes .mvp []).take 16 ≠ emptyList.bytes .mvp [] := by
  have hw : ∀ k n, 0 < n → 1 ≤ sixteen k n ∧ sixteen k n ≤ n := by
    intro k n hn
    unfold sixteen
    omega
  have hlen : (BitVec.ofNat 32 (sizeofConfigList + emptyList.buflen)).toInt = 32 := by decide
  have hloop (mem : List UInt8) : writeLoop sixteen mem 32 0 0 [] = (0, mem.take 16 ++ mem.take 16) := by
    simp [writeLoop, sixteen]
  refine ⟨hw, ?_, rfl, ?_, by decide⟩
  · unfold saveConfigToFile
    rw [show listWritten storing emptyList [] false true = .ok (emptyList, []) from rfl]
    simp only [if_true, hlen, hloop]
  · unfold saveConfigToFile
    rw [show listWritten storing emptyList [] false true = .ok (emptyList, []) from rfl]
    simp only [if_true, hlen, hloop]
    decide

end Mvpmc.ConfigFile
