import Mvpmc.Demux.SpuSelect

/-! What `parse_spu_frame` does with a packet, and the bytes it reads and copies. -/
namespace Mvpmc.Demux
open Mvpmc.Lib Mvpmc.Lib.Circular

/-- Bytes from an offset on, of something that has `bound` bytes. -/
structure Access where
  offset : Int
  length : Int
  bound : Int
  deriving DecidableEq, Repr

def Access.Inside (a : Access) : Prop := 0 ≤ a.offset ∧ 0 ≤ a.length ∧ a.offset + a.length ≤ a.bound

/-- The bytes of a command that the loop reads. -/
def spuCommandLength : Nat → Nat
  | 3 => 3
  | 4 => 3
  | 5 => 7
  | 6 => 5
  | _ => 1

/-- The commands that the loop reads: where each of them begins, and how many bytes it has. -/
def spuCommandSpans (p : Nat → UInt8) (size : Nat) : Nat → Nat → List (Nat × Nat)
  | 0, _ => []
  | fuel + 1, cmd =>
    if cmd < size then
      (cmd, spuCommandLength (byteAt p cmd)) ::
        if byteAt p cmd ≤ 6 then spuCommandSpans p size fuel (cmd + spuCommandLength (byteAt p cmd)) else []
    else []

/-- The reads from a complete picture: its commands, and its data when they are stored. -/
def pictureReads (p : Nat → UInt8) (size dataSize : Nat) (start : UInt32) : List (Nat × Nat) :=
  spuCommandSpans p size size (dataSize + 4) ++ if (spuItem? p size dataSize start).isSome then [(0, dataSize)] else []

/-- The commands end inside the picture. -/
def CommandsEnd (p : Nat → UInt8) (size dataSize : Nat) : Prop :=
  ∀ c ∈ spuCommandSpans p size size (dataSize + 4), c.1 + c.2 ≤ size

instance (p : Nat → UInt8) (size dataSize : Nat) : Decidable (CommandsEnd p size dataSize) :=
  inferInstanceAs (Decidable (∀ c ∈ spuCommandSpans p size size (dataSize + 4), c.1 + c.2 ≤ size))

/-- What a packet is taken for. -/
inductive SpuCase where
  | reject
  | whole
  | first
  | tooMuch
  | more
  | final
  deriving DecidableEq, Repr

section
variable (h : Handle) (mem : Nat → UInt8) (len : Nat)

def spuId : Nat := u32 ((byteAt mem (byteAt mem 2 + 3) : Int) - 32)

def spuHeader : Nat := byteAt mem 2 + 4

def spuPayload : Nat → UInt8 := fun i => mem (spuHeader mem + i)

def spuBody : Int := (len : Int) - spuHeader mem

/-- The size that a subpicture begins with. -/
def spuSize (p : Nat → UInt8) : Nat := byteAt p 0 * 256 + byteAt p 1

def spuDataSize (p : Nat → UInt8) : Nat := byteAt p 2 * 256 + byteAt p 3

/-- The reassembly buffer with the payload behind what it holds. -/
def spuGathered : Nat → UInt8 :=
  blit ((h.spu (spuId mem)).buf.getD fun _ => 0) (h.spu (spuId mem)).len.toNat
    (slice (spuPayload mem) 0 (spuBody mem len).toNat)

def spuCase : SpuCase :=
  if 31 < spuId mem then .reject
  else if len = 0 then .reject
  else if (h.spu (spuId mem)).size = 0 then if spuSize (spuPayload mem) ≤ len then .whole else .first
  else if (h.spu (spuId mem)).size < (h.spu (spuId mem)).len + spuBody mem len then .tooMuch
  else if (h.spu (spuId mem)).len + spuBody mem len ≠ (h.spu (spuId mem)).size then .more
  else .final

/-- The state of the substream of a packet replaced. -/
def Handle.setSpu (s : Spu) : Handle := { h with spu := Function.update h.spu (spuId mem) s }

theorem parseSpuFrame_eq : parseSpuFrame h mem len =
    match spuCase h mem len with
    | .reject => (h, -1)
    | .whole => spuComplete (h.setSpu mem { h.spu (spuId mem) with len := spuSize (spuPayload mem) }) (spuId mem)
        (spuPayload mem) (spuSize (spuPayload mem)) (spuDataSize (spuPayload mem)) (spuStart mem)
    | .first => (h.setSpu mem { h.spu (spuId mem) with
        size := spuSize (spuPayload mem), dataSize := spuDataSize (spuPayload mem), len := spuBody mem len
        buf := some (blit (fun _ => 0) 0 (slice (spuPayload mem) 0 (spuBody mem len).toNat)) }, 0)
    | .tooMuch => (h.setSpu mem { h.spu (spuId mem) with size := 0 }, -1)
    | .more => (h.setSpu mem { h.spu (spuId mem) with
        buf := some (spuGathered h mem len), len := (h.spu (spuId mem)).len + spuBody mem len }, 0)
    | .final => spuComplete (h.setSpu mem { h.spu (spuId mem) with
        buf := some (spuGathered h mem len), len := (h.spu (spuId mem)).len + spuBody mem len }) (spuId mem)
        (spuGathered h mem len) (h.spu (spuId mem)).size.toNat (h.spu (spuId mem)).dataSize (spuStart mem) := by
  unfold parseSpuFrame spuCase
  change (if 31 < spuId mem then _ else if len = 0 then _ else if (h.spu (spuId mem)).size = 0 then
      (if spuSize (spuPayload mem) ≤ len then _ else _)
    else if (h.spu (spuId mem)).size < (h.spu (spuId mem)).len + spuBody mem len then _
    else if (h.spu (spuId mem)).len + spuBody mem len ≠ (h.spu (spuId mem)).size then _ else _) = _
  by_cases hid : 31 < spuId mem
  · rw [if_pos hid, if_pos hid]
  rw [if_neg hid, if_neg hid]
  by_cases hlen : len = 0
  · rw [if_pos hlen, if_pos hlen]
  rw [if_neg hlen, if_neg hlen]
  by_cases hsize : (h.spu (spuId mem)).size = 0
  · rw [if_pos hsize, if_pos hsize]
    split <;> rfl
  · rw [if_neg hsize, if_neg hsize]
    split
    · rfl
    · split <;> rfl

/-- The reads of a packet and the copies made from it. -/
def spuAccesses : List Access :=
  let header := spuHeader mem
  let body := spuBody mem len
  let s := h.spu (spuId mem)
  [⟨2, 1, len⟩, ⟨header - 1, 1, len⟩] ++
    match spuCase h mem len with
    | .reject => []
    | .whole =>
      let size := spuSize (spuPayload mem)
      [⟨3, 5, len⟩, ⟨header, 4, len⟩] ++
        (pictureReads (spuPayload mem) size (spuDataSize (spuPayload mem)) (spuStart mem)).flatMap fun r =>
          [⟨r.1, r.2, size⟩, ⟨header + r.1, r.2, len⟩]
    | .first =>
      let size := spuSize (spuPayload mem)
      [⟨3, 5, len⟩, ⟨header, 4, len⟩, ⟨0, size, size⟩, ⟨header, body, len⟩, ⟨0, body, size⟩]
    | .tooMuch => [⟨3, 5, len⟩]
    | .more => [⟨3, 5, len⟩, ⟨header, body, len⟩, ⟨s.len, body, s.size⟩]
    | .final =>
      [⟨3, 5, len⟩, ⟨header, body, len⟩, ⟨s.len, body, s.size⟩] ++
        (pictureReads (spuGathered h mem len) s.size.toNat s.dataSize (spuStart mem)).map fun r => ⟨r.1, r.2, s.size⟩

/-- The substream and the bytes of the picture that a packet is taken to complete. -/
def spuParsed : Option (Nat × List UInt8) :=
  match spuCase h mem len with
  | .whole => some (spuId mem, slice (spuPayload mem) 0 (spuSize (spuPayload mem)))
  | .final => some (spuId mem, slice (spuGathered h mem len) 0 (h.spu (spuId mem)).size.toNat)
  | _ => none

/-- What is taken for a whole picture has all of it. -/
def spuAllThere : Bool :=
  decide (spuCase h mem len = .whole → (spuSize (spuPayload mem) : Int) ≤ spuBody mem len)

/-- The packet has the bytes that its header announces, what is taken for a whole picture has all of it, and the
control sequence of a complete picture ends inside it. -/
structure SpuFits : Prop where
  header : spuHeader mem ≤ len
  stamp : spuId mem ≤ 31 → 8 ≤ len
  sizes : spuId mem ≤ 31 → (h.spu (spuId mem)).size = 0 → spuHeader mem + 4 ≤ len
  whole : spuId mem ≤ 31 → (h.spu (spuId mem)).size = 0 → spuSize (spuPayload mem) ≤ len →
    spuHeader mem + spuSize (spuPayload mem) ≤ len ∧
      CommandsEnd (spuPayload mem) (spuSize (spuPayload mem)) (spuDataSize (spuPayload mem))
  final : spuId mem ≤ 31 → (h.spu (spuId mem)).size ≠ 0 →
    (h.spu (spuId mem)).len + spuBody mem len = (h.spu (spuId mem)).size →
      CommandsEnd (spuGathered h mem len) (h.spu (spuId mem)).size.toNat (h.spu (spuId mem)).dataSize

instance : Decidable (SpuFits h mem len) :=
  decidable_of_iff
    (spuHeader mem ≤ len ∧ (spuId mem ≤ 31 → 8 ≤ len) ∧
      (spuId mem ≤ 31 → (h.spu (spuId mem)).size = 0 → spuHeader mem + 4 ≤ len) ∧
      (spuId mem ≤ 31 → (h.spu (spuId mem)).size = 0 → spuSize (spuPayload mem) ≤ len →
        spuHeader mem + spuSize (spuPayload mem) ≤ len ∧
          CommandsEnd (spuPayload mem) (spuSize (spuPayload mem)) (spuDataSize (spuPayload mem))) ∧
      (spuId mem ≤ 31 → (h.spu (spuId mem)).size ≠ 0 →
        (h.spu (spuId mem)).len + spuBody mem len = (h.spu (spuId mem)).size →
          CommandsEnd (spuGathered h mem len) (h.spu (spuId mem)).size.toNat (h.spu (spuId mem)).dataSize))
    ⟨fun ⟨h₁, h₂, h₃, h₄, h₅⟩ => ⟨h₁, h₂, h₃, h₄, h₅⟩, fun ⟨h₁, h₂, h₃, h₄, h₅⟩ => ⟨h₁, h₂, h₃, h₄, h₅⟩⟩

end

/-- A substream that is being put together has room for what it lacks. -/
def Spu.Bounded (s : Spu) : Prop := s.size ≠ 0 → 0 ≤ s.len ∧ s.len < s.size

theorem spuCommands_of_le {p : Nat → UInt8} {size cmd : Nat} (start : UInt32) (fuel : Nat) (c : SpuControl)
    (h : size ≤ cmd) : spuCommands p size start fuel cmd c = some c := by
  cases fuel with
  | zero => rfl
  | succ fuel => rw [spuCommands, if_neg (Nat.not_lt.mpr h)]

/-- A picture without commands has no size, so the data of one that is stored lies in front of them. -/
theorem dataSize_of_item {p : Nat → UInt8} {size dataSize : Nat} {start : UInt32}
    (h : (spuItem? p size dataSize start).isSome) : dataSize + 4 < size := by
  rcases Nat.lt_or_ge (dataSize + 4) size with hlt | hge
  · exact hlt
  · unfold spuItem? at h
    rw [spuCommands_of_le start size {} hge] at h
    exact absurd h Bool.false_ne_true

theorem commandsEnd_iff {p : Nat → UInt8} {size dataSize : Nat} {start : UInt32} :
    CommandsEnd p size dataSize ↔ ∀ r ∈ pictureReads p size dataSize start, r.1 + r.2 ≤ size := by
  unfold pictureReads
  constructor
  · intro h r hr
    rcases List.mem_append.mp hr with hc | hd
    · exact h r hc
    · split at hd
      · rename_i hs
        have := dataSize_of_item hs
        rw [List.mem_singleton.mp hd]
        dsimp only
        omega
      · exact absurd hd List.not_mem_nil
  · exact fun h c hc => h c (List.mem_append_left _ hc)

/-- The loop depends on nothing but the commands that it reads. -/
theorem spuCommands_congr {p q : Nat → UInt8} {size : Nat} (start : UInt32) (fuel : Nat) :
    ∀ (cmd : Nat) (c : SpuControl),
      (∀ r ∈ spuCommandSpans p size fuel cmd, ∀ i < r.2, q (r.1 + i) = p (r.1 + i)) →
        spuCommands q size start fuel cmd c = spuCommands p size start fuel cmd c := by
  induction fuel with
  | zero => exact fun _ _ _ => rfl
  | succ fuel ih =>
    intro cmd c h
    rw [spuCommandSpans] at h
    by_cases hlt : cmd < size
    · rw [if_pos hlt] at h
      have hread (i : Nat) (hi : i < spuCommandLength (byteAt p cmd)) : byteAt q (cmd + i) = byteAt p (cmd + i) := by
        unfold byteAt
        rw [h _ List.mem_cons_self i hi]
      have hpos : 0 < spuCommandLength (byteAt p cmd) := by
        unfold spuCommandLength
        split <;> decide
      have hfirst : byteAt q cmd = byteAt p cmd := hread 0 hpos
      have hnext (hb : byteAt p cmd ≤ 6) (c' : SpuControl) := ih (cmd + spuCommandLength (byteAt p cmd)) c' (by
        rw [if_pos hb] at h
        exact fun r hr => h r (List.mem_cons_of_mem _ hr))
      rw [spuCommands, spuCommands, if_pos hlt, if_pos hlt]
      dsimp only
      rw [hfirst]
      generalize byteAt p cmd = b at hread hnext
      split
      · exact hnext (by decide) _
      · exact hnext (by decide) _
      · exact hnext (by decide) _
      · rw [hread 1 (by decide), hread 2 (by decide)]
        exact hnext (by decide) _
      · rw [hread 1 (by decide), hread 2 (by decide)]
        exact hnext (by decide) _
      · rw [hread 1 (by decide), hread 2 (by decide), hread 3 (by decide), hread 4 (by decide), hread 5 (by decide),
          hread 6 (by decide)]
        exact hnext (by decide) _
      · rw [hread 1 (by decide), hread 2 (by decide), hread 3 (by decide), hread 4 (by decide)]
        exact hnext (by decide) _
      · rfl
      · rfl
    · rw [spuCommands, spuCommands, if_neg hlt, if_neg hlt]

/-- A complete picture is worth its bytes. -/
theorem spuComplete_congr {p q : Nat → UInt8} {size dataSize : Nat} (h : Handle) (id : Nat) (start : UInt32)
    (hend : CommandsEnd p size dataSize) (hsame : ∀ i < size, q i = p i) :
    spuComplete h id q size dataSize start = spuComplete h id p size dataSize start := by
  have hcmd := spuCommands_congr start size (dataSize + 4) {} fun r hr i hi =>
    hsame (r.1 + i) (by have := hend r hr; omega)
  unfold spuComplete
  dsimp only
  rw [hcmd]
  cases hc : spuCommands p size start size (dataSize + 4) {} with
  | none => rfl
  | some c =>
    dsimp only
    split
    · rfl
    · rename_i hz
      have hstored : (spuItem? p size dataSize start).isSome := by
        unfold spuItem?
        rw [hc]
        dsimp only
        rw [if_neg hz]
        rfl
      have hlt := dataSize_of_item hstored
      have hdata : slice q 0 dataSize = slice p 0 dataSize := by
        apply List.map_congr_left
        intro i hi
        have := List.mem_range.mp hi
        exact hsame (0 + i) (by omega)
      rw [hdata]

section
variable (h : Handle) (mem : Nat → UInt8) (len : Nat)

/-- What each of the cases tells about the packet and its substream. -/
theorem spuCase_spec :
    match spuCase h mem len with
    | .reject => 31 < spuId mem ∨ len = 0
    | .whole => spuId mem ≤ 31 ∧ len ≠ 0 ∧ (h.spu (spuId mem)).size = 0 ∧ spuSize (spuPayload mem) ≤ len
    | .first => spuId mem ≤ 31 ∧ len ≠ 0 ∧ (h.spu (spuId mem)).size = 0 ∧ len < spuSize (spuPayload mem)
    | .tooMuch => spuId mem ≤ 31 ∧ len ≠ 0 ∧ (h.spu (spuId mem)).size ≠ 0 ∧
        (h.spu (spuId mem)).size < (h.spu (spuId mem)).len + spuBody mem len
    | .more => spuId mem ≤ 31 ∧ len ≠ 0 ∧ (h.spu (spuId mem)).size ≠ 0 ∧
        (h.spu (spuId mem)).len + spuBody mem len < (h.spu (spuId mem)).size
    | .final => spuId mem ≤ 31 ∧ len ≠ 0 ∧ (h.spu (spuId mem)).size ≠ 0 ∧
        (h.spu (spuId mem)).len + spuBody mem len = (h.spu (spuId mem)).size := by
  unfold spuCase
  by_cases hid : 31 < spuId mem
  · rw [if_pos hid]
    exact .inl hid
  rw [if_neg hid]
  by_cases hlen : len = 0
  · rw [if_pos hlen]
    exact .inr hlen
  rw [if_neg hlen]
  by_cases hsize : (h.spu (spuId mem)).size = 0
  · rw [if_pos hsize]
    by_cases hle : spuSize (spuPayload mem) ≤ len
    · rw [if_pos hle]
      exact ⟨by omega, hlen, hsize, hle⟩
    · rw [if_neg hle]
      exact ⟨by omega, hlen, hsize, by omega⟩
  rw [if_neg hsize]
  by_cases hmuch : (h.spu (spuId mem)).size < (h.spu (spuId mem)).len + spuBody mem len
  · rw [if_pos hmuch]
    exact ⟨by omega, hlen, hsize, hmuch⟩
  rw [if_neg hmuch]
  by_cases hmore : (h.spu (spuId mem)).len + spuBody mem len = (h.spu (spuId mem)).size
  · rw [if_neg (not_not.mpr hmore)]
    exact ⟨by omega, hlen, hsize, hmore⟩
  · rw [if_pos hmore]
    exact ⟨by omega, hlen, hsize, by omega⟩

variable {h mem len}

theorem header_ge : 4 ≤ spuHeader mem := by
  unfold spuHeader
  omega

/-- A packet that completes no picture needs its header, its time stamp and the sizes of a picture it begins. -/
theorem spuFits_iff_begun (hid : spuId mem ≤ 31)
    (hwhole : (h.spu (spuId mem)).size = 0 → ¬ spuSize (spuPayload mem) ≤ len)
    (hfinal : (h.spu (spuId mem)).size ≠ 0 → (h.spu (spuId mem)).len + spuBody mem len ≠ (h.spu (spuId mem)).size) :
    SpuFits h mem len ↔
      spuHeader mem ≤ len ∧ 8 ≤ len ∧ ((h.spu (spuId mem)).size = 0 → spuHeader mem + 4 ≤ len) :=
  ⟨fun hf => ⟨hf.header, hf.stamp hid, hf.sizes hid⟩, fun ⟨hheader, hstamp, hsizes⟩ =>
    ⟨hheader, fun _ => hstamp, fun _ => hsizes, fun _ hz hle => absurd hle (hwhole hz),
      fun _ hz he => absurd he (hfinal hz)⟩⟩

/-- What a packet needs is what its reads and copies need, and that a picture is not taken for whole before it is. -/
theorem spuFits_iff (hb : spuId mem ≤ 31 → (h.spu (spuId mem)).Bounded) : SpuFits h mem len ↔
    (∀ a ∈ spuAccesses h mem len, a.Inside) ∧
      (spuCase h mem len = .whole → (spuSize (spuPayload mem) : Int) ≤ spuBody mem len) := by
  have hspec := spuCase_spec h mem len
  have h4 := @header_ge mem
  have hbody : spuBody mem len = (len : Int) - spuHeader mem := rfl
  unfold spuAccesses
  generalize hc : spuCase h mem len = c at hspec
  cases c with
  | reject =>
    simp only [List.forall_mem_append, List.forall_mem_cons, List.not_mem_nil, false_implies, implies_true, and_true,
      Access.Inside]
    constructor
    · intro hf
      have := hf.header
      exact ⟨by omega, fun hw => absurd hw (by decide)⟩
    · rintro ⟨hin, -⟩
      have hid : ¬ spuId mem ≤ 31 := by
        dsimp only at hspec
        omega
      exact ⟨by omega, fun hle => absurd hle hid, fun hle => absurd hle hid, fun hle => absurd hle hid,
        fun hle => absurd hle hid⟩
  | whole =>
    obtain ⟨hid, hlen, hsize, hle⟩ := hspec
    have hcmd := @commandsEnd_iff (spuPayload mem) (spuSize (spuPayload mem)) (spuDataSize (spuPayload mem)) (spuStart mem)
    simp only [List.forall_mem_append, List.forall_mem_cons, List.not_mem_nil, false_implies, implies_true, and_true,
      List.forall_mem_flatMap, Access.Inside]
    constructor
    · intro hf
      have hheader := hf.header
      have hstamp := hf.stamp hid
      have hsizes := hf.sizes hid hsize
      obtain ⟨hall, hend⟩ := hf.whole hid hsize hle
      refine ⟨⟨by omega, by omega, fun r hr => ?_⟩, fun _ => by omega⟩
      have := hcmd.mp hend r hr
      omega
    · rintro ⟨⟨hbegin, hmid, hreads⟩, hall⟩
      have hsz := hall trivial
      refine ⟨by omega, fun _ => by omega, fun _ _ => by omega, fun _ _ _ => ⟨by omega, hcmd.mpr fun r hr => ?_⟩,
        fun _ hn => absurd hsize hn⟩
      have := hreads r hr
      omega
  | first =>
    obtain ⟨hid, hlen, hsize, hgt⟩ := hspec
    rw [spuFits_iff_begun hid (fun _ => by omega) fun hn => absurd hsize hn]
    simp only [List.forall_mem_append, List.forall_mem_cons, List.not_mem_nil, false_implies, implies_true, and_true,
      Access.Inside, reduceCtorEq]
    omega
  | tooMuch =>
    obtain ⟨hid, hlen, hsize, hgt⟩ := hspec
    rw [spuFits_iff_begun hid (fun hz => absurd hz hsize) fun _ => by omega]
    simp only [List.forall_mem_append, List.forall_mem_cons, List.not_mem_nil, false_implies, implies_true, and_true,
      Access.Inside, reduceCtorEq]
    omega
  | more =>
    obtain ⟨hid, hlen, hsize, hlt⟩ := hspec
    have hroom := hb hid hsize
    rw [spuFits_iff_begun hid (fun hz => absurd hz hsize) fun _ => by omega]
    simp only [List.forall_mem_append, List.forall_mem_cons, List.not_mem_nil, false_implies, implies_true, and_true,
      Access.Inside, reduceCtorEq]
    omega
  | final =>
    obtain ⟨hid, hlen, hsize, heq⟩ := hspec
    have hroom := hb hid hsize
    have hcmd := @commandsEnd_iff (spuGathered h mem len) (h.spu (spuId mem)).size.toNat (h.spu (spuId mem)).dataSize
      (spuStart mem)
    simp only [List.forall_mem_append, List.forall_mem_cons, List.not_mem_nil, false_implies, implies_true, and_true,
      List.forall_mem_map, Access.Inside]
    constructor
    · intro hf
      have hheader := hf.header
      have hstamp := hf.stamp hid
      have hend := hf.final hid hsize heq
      refine ⟨⟨by omega, by omega, fun r hr => ?_⟩, fun hw => absurd hw (by decide)⟩
      have := hcmd.mp hend r hr
      omega
    · rintro ⟨⟨hbegin, hmid, hreads⟩, -⟩
      refine ⟨by omega, fun _ => by omega, fun _ hz => absurd hz hsize, fun _ hz => absurd hz hsize,
        fun _ _ _ => hcmd.mpr fun r hr => ?_⟩
      have := hreads r hr
      omega

end
end Mvpmc.Demux
