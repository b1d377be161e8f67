import Mvpmc.Demux.SpuCases
import Mvpmc.Lib.Transducer

/-! Subpictures from private stream 1 packets: runs in which the pieces of a picture arrive in any number of
packets, between packets of other substreams. -/
namespace Mvpmc.Demux
open Mvpmc.Lib Mvpmc.Lib.Circular

/-- A private stream 1 packet, and the memory behind it. -/
structure PrivatePacket where
  bytes : List UInt8
  past : Nat → UInt8

def PrivatePacket.mem (k : PrivatePacket) : Nat → UInt8 := memory k.bytes k.past

/-- What follows the header and the substream number. -/
def PrivatePacket.payload (k : PrivatePacket) : List UInt8 := k.bytes.drop (spuHeader k.mem)

/-- Bytes as memory. -/
def asMemory (bs : List UInt8) : Nat → UInt8 := memory bs fun _ => 0

/-- A subpicture has as many bytes as its first two declare, and the offset of its commands. -/
def IsPicture (bs : List UInt8) : Prop := 4 ≤ bs.length ∧ bs.length = spuSize (asMemory bs)

/-- The fragments that arrive behind `got` make up `pictures` one after the other, and then `next`, which still
lacks bytes of a picture. -/
inductive Pieces : List UInt8 → List (List UInt8) → List (List UInt8) → List UInt8 → Prop where
  | rest {got : List UInt8} : Pieces got [] [] got
  | more {got f rest next : List UInt8} {fs pictures : List (List UInt8)} (hp : IsPicture (got ++ f ++ rest))
      (hrest : rest ≠ []) (h : Pieces (got ++ f) fs pictures next) : Pieces got (f :: fs) pictures next
  | last {got f next : List UInt8} {fs pictures : List (List UInt8)} (hp : IsPicture (got ++ f))
      (h : Pieces [] fs pictures next) : Pieces got (f :: fs) ((got ++ f) :: pictures) next

/-- The substream holds the first bytes of a picture, or none. -/
inductive Spu.Gathers (s : Spu) : List UInt8 → Prop where
  | idle (hsize : s.size = 0) : s.Gathers []
  | begun {got : List UInt8} (h4 : 4 ≤ got.length) (hlt : got.length < spuSize (asMemory got))
      (hsize : s.size = spuSize (asMemory got)) (hdata : s.dataSize = spuDataSize (asMemory got))
      (hlen : s.len = got.length) (hbuf : slice (s.buf.getD fun _ => 0) 0 got.length = got) : s.Gathers got

/-- What a packet comes to. -/
structure SpuOutcome where
  accesses : List Access
  parsed : Option (Nat × List UInt8)
  allThere : Bool

/-- A packet, or anything else that happens to the handle and leaves the pictures alone that are being put together. -/
inductive SpuInput where
  | packet (k : PrivatePacket)
  | other (g : Handle)

/-- `g` with the pictures of `h`. -/
def Handle.withPictures (g h : Handle) : Handle :=
  { g with spu := fun k => { h.spu k with item := (g.spu k).item, inuse := (g.spu k).inuse } }

namespace SpuInput

def step (h : Handle) : SpuInput → Handle × List SpuOutcome
  | packet k => (parsePrivateStream1 h k.mem k.bytes.length,
      [⟨spuAccesses h k.mem k.bytes.length, spuParsed h k.mem k.bytes.length, spuAllThere h k.mem k.bytes.length⟩])
  | other g => (g.withPictures h, [])

/-- The payload of a packet of the substream. -/
def fragment (id : Nat) : SpuInput → Option (List UInt8)
  | packet k => if spuId k.mem = id then some k.payload else none
  | other _ => none

def Fits (h : Handle) : SpuInput → Prop
  | packet k => SpuFits h k.mem k.bytes.length
  | other _ => True

end SpuInput

/-- The picture of the substream that is parsed. -/
def SpuOutcome.picture (id : Nat) (o : SpuOutcome) : Option (List UInt8) :=
  match o.parsed with
  | some (k, bs) => if k = id then some bs else none
  | none => none

/-- Every packet of the run fits. -/
def AllFit : Handle → List SpuInput → Prop
  | _, [] => True
  | h, i :: is => i.Fits h ∧ AllFit (i.step h).1 is

instance SpuInput.decidableFits (h : Handle) (i : SpuInput) : Decidable (i.Fits h) :=
  match i with
  | packet k => inferInstanceAs (Decidable (SpuFits h k.mem k.bytes.length))
  | other _ => inferInstanceAs (Decidable True)

instance decidableAllFit : (h : Handle) → (is : List SpuInput) → Decidable (AllFit h is)
  | _, [] => inferInstanceAs (Decidable True)
  | h, i :: is =>
    have := decidableAllFit (i.step h).1 is
    inferInstanceAs (Decidable (i.Fits h ∧ AllFit (i.step h).1 is))

/-- What a run is to do: all reads and copies are inside the packet, the reassembly buffer and the picture; nothing
is taken for a whole picture that is not; no substream holds more than the size of its picture; and of each
substream the pictures are parsed whose pieces have all arrived, byte for byte, while it holds the pieces of the
next one. -/
structure Reassembles (h : Handle) (is : List SpuInput) : Prop where
  inside : ∀ o ∈ (Transducer.run SpuInput.step h is).2, ∀ a ∈ o.accesses, a.Inside
  allThere : ∀ o ∈ (Transducer.run SpuInput.step h is).2, o.allThere = true
  bounded : ∀ id ≤ 31, ((Transducer.run SpuInput.step h is).1.spu id).Bounded
  pictures : ∀ id ≤ 31, ∀ pictures next, Pieces [] (is.filterMap (SpuInput.fragment id)) pictures next →
    (Transducer.run SpuInput.step h is).2.filterMap (·.picture id) = pictures ∧
      ((Transducer.run SpuInput.step h is).1.spu id).Gathers next

theorem memory_of_lt (bs : List UInt8) (past : Nat → UInt8) {i : Nat} (hi : i < bs.length) : memory bs past i = bs[i] := by
  unfold memory
  rw [List.getD_eq_getElem?_getD, List.getElem?_eq_getElem hi]
  rfl

/-- The first four bytes decide the sizes. -/
theorem sizes_of_bytes {bs : List UInt8} (p : Nat → UInt8) (hp : ∀ i < 4, p i = asMemory bs i) :
    spuSize p = spuSize (asMemory bs) ∧ spuDataSize p = spuDataSize (asMemory bs) := by
  unfold spuSize spuDataSize byteAt
  rw [hp 0 (by decide), hp 1 (by decide), hp 2 (by decide), hp 3 (by decide)]
  exact ⟨rfl, rfl⟩

theorem asMemory_append {bs rest : List UInt8} {i : Nat} (hi : i < bs.length) : asMemory (bs ++ rest) i = asMemory bs i := by
  unfold asMemory
  rw [memory_of_lt bs _ hi, memory_of_lt (bs ++ rest) _ (by rw [List.length_append]; omega), List.getElem_append_left hi]

theorem asMemory_slice (p : Nat → UInt8) {n i : Nat} (hi : i < n) : asMemory (slice p 0 n) i = p i := by
  unfold asMemory
  rw [memory_of_lt _ _ (by rw [slice_length]; exact hi)]
  simp [slice]

/-- The payload of a packet lies behind its header. -/
theorem PrivatePacket.payload_mem (k : PrivatePacket) {i : Nat} (hi : i < k.payload.length) :
    spuPayload k.mem i = asMemory k.payload i := by
  have hlen : spuHeader k.mem + i < k.bytes.length := by
    unfold payload at hi
    rw [List.length_drop] at hi
    omega
  have hdrop : k.payload[i] = k.bytes[spuHeader k.mem + i] := List.getElem_drop
  unfold asMemory
  rw [memory_of_lt k.payload _ hi, hdrop]
  exact memory_of_lt k.bytes k.past hlen

theorem PrivatePacket.slice_payload (k : PrivatePacket) {n : Nat} (hn : n ≤ k.payload.length) :
    slice (spuPayload k.mem) 0 n = k.payload.take n := by
  apply List.ext_getElem (by rw [slice_length, List.length_take]; omega)
  intro i h₁ h₂
  rw [slice_length] at h₁
  have hi : i < k.payload.length := by omega
  have hmem := k.payload_mem hi
  unfold asMemory at hmem
  rw [memory_of_lt k.payload _ hi] at hmem
  rw [List.getElem_take, ← hmem]
  simp [slice]

theorem parsePrivateAudio_spu (base mode : Nat) (kind : StreamType) (ac3 : Bool) (h : Handle) (mem : Nat → UInt8)
    (len : Nat) : (parsePrivateAudio base mode kind ac3 h mem len).1.spu = h.spu := by
  unfold parsePrivateAudio
  dsimp only
  split
  · rfl
  · split
    · exact (streamAdd_spu ..).1.trans (setStream_spu ..).1
    · exact (setStream_spu ..).1

/-- Audio parsers do not touch the substreams of pictures. -/
theorem parsePrivateStream1_spu (h : Handle) (mem : Nat → UInt8) (len : Nat) :
    (parsePrivateStream1 h mem len).spu = (parseSpuFrame h mem len).1.spu := by
  have hac3 := parsePrivateAudio_spu 128 AUDIO_MODE_AC3 .ac3 true (parseSpuFrame h mem len).1 mem len
  unfold parsePrivateStream1
  dsimp only
  split
  · rfl
  · split
    · exact hac3
    · exact (parsePrivateAudio_spu ..).trans hac3

/-- A complete picture leaves its substream empty and the others alone. -/
theorem spuComplete_spu (h : Handle) (id : Nat) (p : Nat → UInt8) (size dataSize : Nat) (start : UInt32) :
    ((spuComplete h id p size dataSize start).1.spu id).size = 0 ∧
      ∀ k ≠ id, (spuComplete h id p size dataSize start).1.spu k = h.spu k := by
  have hself (f : Nat → Spu) (s : Spu) (hs : s.size = 0) : (Function.update f id s id).size = 0 := by
    rw [Function.update_self]
    exact hs
  unfold spuComplete
  dsimp only
  split
  · exact ⟨hself _ _ rfl, fun k hk => Function.update_of_ne hk ..⟩
  · split
    · exact ⟨hself _ _ rfl, fun k hk => Function.update_of_ne hk ..⟩
    · exact ⟨hself _ _ rfl, fun k hk => (Function.update_of_ne hk ..).trans (Function.update_of_ne hk ..)⟩

theorem setSpu_self (h : Handle) (mem : Nat → UInt8) (s : Spu) : (h.setSpu mem s).spu (spuId mem) = s :=
  Function.update_self ..

theorem setSpu_of_ne (h : Handle) (mem : Nat → UInt8) (s : Spu) {k : Nat} (hk : k ≠ spuId mem) :
    (h.setSpu mem s).spu k = h.spu k :=
  Function.update_of_ne hk ..

/-- A packet touches no substream but its own. -/
theorem parseSpuFrame_other (h : Handle) (mem : Nat → UInt8) (len : Nat) {k : Nat} (hk : k ≠ spuId mem) :
    (parseSpuFrame h mem len).1.spu k = h.spu k := by
  rw [parseSpuFrame_eq]
  cases spuCase h mem len with
  | reject => rfl
  | whole => exact ((spuComplete_spu ..).2 k hk).trans (setSpu_of_ne h mem _ hk)
  | first => exact setSpu_of_ne h mem _ hk
  | tooMuch => exact setSpu_of_ne h mem _ hk
  | more => exact setSpu_of_ne h mem _ hk
  | final => exact ((spuComplete_spu ..).2 k hk).trans (setSpu_of_ne h mem _ hk)

section
variable {h : Handle} {mem : Nat → UInt8} {len : Nat}

/-- A packet that fits leaves room for what its picture lacks. -/
theorem SpuFits.bounded (hf : SpuFits h mem len) (hb : (h.spu (spuId mem)).Bounded) :
    ((parseSpuFrame h mem len).1.spu (spuId mem)).Bounded := by
  have hspec := spuCase_spec h mem len
  have h4 := @header_ge mem
  have hheader := hf.header
  have hbody : spuBody mem len = (len : Int) - spuHeader mem := rfl
  rw [parseSpuFrame_eq]
  generalize spuCase h mem len = c at hspec
  cases c with
  | reject => exact hb
  | whole => exact fun hn => absurd (spuComplete_spu ..).1 hn
  | first =>
    obtain ⟨-, -, -, hgt⟩ := hspec
    intro _
    dsimp only
    rw [setSpu_self]
    dsimp only
    omega
  | tooMuch =>
    intro hn
    dsimp only at hn
    rw [setSpu_self] at hn
    exact absurd rfl hn
  | more =>
    obtain ⟨-, -, hsize, hlt⟩ := hspec
    have hroom := hb hsize
    intro _
    dsimp only
    rw [setSpu_self]
    dsimp only
    omega
  | final => exact fun hn => absurd (spuComplete_spu ..).1 hn

end

/-- What a packet that fits does with the picture it completes depends on nothing but the bytes of the picture. -/
theorem SpuFits.parses {h : Handle} {mem : Nat → UInt8} {len id : Nat} {bs : List UInt8} (hf : SpuFits h mem len)
    (hp : spuParsed h mem len = some (id, bs)) : ∃ g dataSize,
      parseSpuFrame h mem len = spuComplete g id (asMemory bs) bs.length dataSize (spuStart mem) := by
  have hspec := spuCase_spec h mem len
  rw [parseSpuFrame_eq]
  unfold spuParsed at hp
  generalize spuCase h mem len = c at hspec hp
  cases c with
  | whole =>
    obtain ⟨hid, -, hsize, hle⟩ := hspec
    cases hp
    rw [slice_length]
    exact ⟨_, _, (spuComplete_congr _ _ _ (hf.whole hid hsize hle).2 fun _ hi => asMemory_slice _ hi).symm⟩
  | final =>
    obtain ⟨hid, -, hsize, hlast⟩ := hspec
    cases hp
    rw [slice_length]
    exact ⟨_, _, (spuComplete_congr _ _ _ (hf.final hid hsize hlast) fun _ hi => asMemory_slice _ hi).symm⟩
  | _ => cases hp

theorem sizes_append {bs : List UInt8} (h4 : 4 ≤ bs.length) (rest : List UInt8) :
    spuSize (asMemory (bs ++ rest)) = spuSize (asMemory bs) ∧
      spuDataSize (asMemory (bs ++ rest)) = spuDataSize (asMemory bs) :=
  sizes_of_bytes _ fun _ hi => asMemory_append (by omega)

namespace PrivatePacket
variable {h : Handle} {k : PrivatePacket}

theorem sizes_payload (h4 : 4 ≤ k.payload.length) :
    spuSize (spuPayload k.mem) = spuSize (asMemory k.payload) ∧
      spuDataSize (spuPayload k.mem) = spuDataSize (asMemory k.payload) :=
  sizes_of_bytes _ fun _ hi => k.payload_mem (by omega)

theorem body_eq (hheader : spuHeader k.mem ≤ k.bytes.length) : spuBody k.mem k.bytes.length = k.payload.length := by
  unfold spuBody payload
  rw [List.length_drop]
  omega

/-- The reassembly buffer behind what it held gets the payload. -/
theorem slice_gathered {got : List UInt8} (hheader : spuHeader k.mem ≤ k.bytes.length)
    (hlen : (h.spu (spuId k.mem)).len = got.length)
    (hbuf : slice ((h.spu (spuId k.mem)).buf.getD fun _ => 0) 0 got.length = got) :
    slice (spuGathered h k.mem k.bytes.length) 0 (got ++ k.payload).length = got ++ k.payload := by
  have hpay := k.slice_payload (Nat.le_refl k.payload.length)
  rw [List.take_length] at hpay
  have happend := slice_blit_append ((h.spu (spuId k.mem)).buf.getD fun _ => 0) 0 got.length k.payload
  unfold spuGathered
  rw [hlen, Int.toNat_natCast, body_eq hheader, Int.toNat_natCast, hpay, List.length_append]
  rw [Nat.zero_add, hbuf] at happend
  exact happend

/-- The first piece of a picture. -/
theorem gathers_first {rest : List UInt8} (hf : SpuFits h k.mem k.bytes.length) (hid : spuId k.mem ≤ 31)
    (hsize : (h.spu (spuId k.mem)).size = 0) (hp : IsPicture (k.payload ++ rest)) :
    (rest ≠ [] → spuParsed h k.mem k.bytes.length = none ∧
      ((parseSpuFrame h k.mem k.bytes.length).1.spu (spuId k.mem)).Gathers k.payload) ∧
    (rest = [] → spuParsed h k.mem k.bytes.length = some (spuId k.mem, k.payload) ∧
      ((parseSpuFrame h k.mem k.bytes.length).1.spu (spuId k.mem)).Gathers []) := by
  have hbody := body_eq hf.header
  have hheader := hf.header
  have hdef : spuBody k.mem k.bytes.length = (k.bytes.length : Int) - spuHeader k.mem := rfl
  have h4 : 4 ≤ k.payload.length := by
    have := hf.sizes hid hsize
    omega
  obtain ⟨hs, hd⟩ := sizes_payload h4
  have hpic := hp.2
  rw [(sizes_append h4 rest).1, List.length_append] at hpic
  have hwhole := hf.whole hid hsize
  have hspec := spuCase_spec h k.mem k.bytes.length
  have hpay := k.slice_payload (Nat.le_refl k.payload.length)
  rw [List.take_length] at hpay
  rw [parseSpuFrame_eq]
  unfold spuParsed
  rw [hs] at hwhole
  generalize spuCase h k.mem k.bytes.length = c at hspec
  cases c with
  | reject => exact absurd hspec (by omega)
  | whole =>
    obtain ⟨-, -, -, hle⟩ := hspec
    rw [hs] at hle
    have hall := (hwhole hle).1
    have hnil : rest.length = 0 := by omega
    refine ⟨fun hn => absurd (List.length_eq_zero_iff.mp hnil) hn, fun _ => ⟨?_, .idle (spuComplete_spu ..).1⟩⟩
    dsimp only
    rw [hs, show spuSize (asMemory k.payload) = k.payload.length by omega, hpay]
  | first =>
    obtain ⟨-, -, -, hgt⟩ := hspec
    rw [hs] at hgt
    refine ⟨fun _ => ⟨rfl, ?_⟩, fun hn => ?_⟩
    · dsimp only
      rw [setSpu_self]
      refine .begun h4 (by omega) (by dsimp only; omega) hd hbody ?_
      dsimp only
      rw [hbody, Int.toNat_natCast, hpay]
      exact slice_blit ..
    · rw [hn, List.length_nil] at hpic
      omega
  | tooMuch => exact absurd hsize hspec.2.2.1
  | more => exact absurd hsize hspec.2.2.1
  | final => exact absurd hsize hspec.2.2.1

/-- A later piece. -/
theorem gathers_later {got rest : List UInt8} (hheader : spuHeader k.mem ≤ k.bytes.length) (hid : spuId k.mem ≤ 31)
    (h4 : 4 ≤ got.length) (hlt : got.length < spuSize (asMemory got))
    (hsize : (h.spu (spuId k.mem)).size = spuSize (asMemory got))
    (hdata : (h.spu (spuId k.mem)).dataSize = spuDataSize (asMemory got)) (hlen : (h.spu (spuId k.mem)).len = got.length)
    (hbuf : slice ((h.spu (spuId k.mem)).buf.getD fun _ => 0) 0 got.length = got)
    (hp : IsPicture (got ++ k.payload ++ rest)) :
    (rest ≠ [] → spuParsed h k.mem k.bytes.length = none ∧
      ((parseSpuFrame h k.mem k.bytes.length).1.spu (spuId k.mem)).Gathers (got ++ k.payload)) ∧
    (rest = [] → spuParsed h k.mem k.bytes.length = some (spuId k.mem, got ++ k.payload) ∧
      ((parseSpuFrame h k.mem k.bytes.length).1.spu (spuId k.mem)).Gathers []) := by
  have hbody := body_eq hheader
  have hgathered := slice_gathered hheader hlen hbuf
  have hpic := hp.2
  obtain ⟨hs, hd⟩ := sizes_append h4 k.payload
  rw [List.append_assoc, (sizes_append h4 (k.payload ++ rest)).1] at hpic
  simp only [List.length_append] at hpic
  have hspec := spuCase_spec h k.mem k.bytes.length
  have hpos := @header_ge k.mem
  have hne : (h.spu (spuId k.mem)).size ≠ 0 := by omega
  rw [parseSpuFrame_eq]
  unfold spuParsed
  generalize spuCase h k.mem k.bytes.length = c at hspec
  cases c with
  | reject =>
    dsimp only at hspec
    omega
  | whole => exact absurd hspec.2.2.1 hne
  | first => exact absurd hspec.2.2.1 hne
  | tooMuch =>
    obtain ⟨-, -, -, hgt⟩ := hspec
    omega
  | more =>
    obtain ⟨-, -, -, hmore⟩ := hspec
    refine ⟨fun _ => ⟨rfl, ?_⟩, fun hn => ?_⟩
    · dsimp only
      rw [setSpu_self]
      refine .begun (by rw [List.length_append]; omega) (by rw [List.length_append, hs]; omega) ?_ ?_ ?_ hgathered
      · rw [hs]
        exact hsize
      · rw [hd]
        exact hdata
      · dsimp only
        rw [hlen, hbody, List.length_append, Nat.cast_add]
    · rw [hn, List.length_nil] at hpic
      omega
  | final =>
    obtain ⟨-, -, -, hlast⟩ := hspec
    have hnil : rest.length = 0 := by omega
    refine ⟨fun hn => absurd (List.length_eq_zero_iff.mp hnil) hn, fun _ => ⟨?_, .idle (spuComplete_spu ..).1⟩⟩
    dsimp only
    rw [← hlast, hlen, hbody, ← Nat.cast_add, Int.toNat_natCast, ← List.length_append, hgathered]

/-- A piece of a picture is put behind what has arrived of it, and the picture is parsed when nothing lacks. -/
theorem gathers {got rest : List UInt8} (hf : SpuFits h k.mem k.bytes.length) (hid : spuId k.mem ≤ 31)
    (hg : (h.spu (spuId k.mem)).Gathers got) (hp : IsPicture (got ++ k.payload ++ rest)) :
    (rest ≠ [] → spuParsed h k.mem k.bytes.length = none ∧
      ((parseSpuFrame h k.mem k.bytes.length).1.spu (spuId k.mem)).Gathers (got ++ k.payload)) ∧
    (rest = [] → spuParsed h k.mem k.bytes.length = some (spuId k.mem, got ++ k.payload) ∧
      ((parseSpuFrame h k.mem k.bytes.length).1.spu (spuId k.mem)).Gathers []) := by
  cases hg with
  | idle hsize => exact gathers_first hf hid hsize hp
  | begun h4 hlt hsize hdata hlen hbuf => exact gathers_later hf.header hid h4 hlt hsize hdata hlen hbuf hp

end PrivatePacket

namespace Pieces

/-- The pieces of one picture, none of them empty. -/
theorem of_picture {fs rest : List (List UInt8)} {pictures : List (List UInt8)} {next : List UInt8}
    (h : Pieces [] rest pictures next) (hfs : fs ≠ []) (hne : ∀ f ∈ fs, f ≠ []) {got : List UInt8}
    (hp : IsPicture (got ++ fs.flatten)) : Pieces got (fs ++ rest) ((got ++ fs.flatten) :: pictures) next := by
  induction fs generalizing got with
  | nil => exact absurd rfl hfs
  | cons f fs ih =>
    rw [List.flatten_cons, ← List.append_assoc] at hp ⊢
    cases fs with
    | nil =>
      rw [List.flatten_nil, List.append_nil] at hp ⊢
      exact .last hp h
    | cons f' fs =>
      refine .more hp ?_ (ih (List.cons_ne_nil _ _) (fun x hx => hne x (List.mem_cons_of_mem f hx)) hp)
      rw [List.flatten_cons]
      exact List.append_ne_nil_of_left_ne_nil (hne f' (List.mem_cons_of_mem f List.mem_cons_self)) _

/-- Every way to split pictures into pieces that are not empty. -/
theorem of_pictures {groups : List (List (List UInt8))} (hp : ∀ fs ∈ groups, IsPicture fs.flatten)
    (hne : ∀ fs ∈ groups, ∀ f ∈ fs, f ≠ []) : Pieces [] groups.flatten (groups.map List.flatten) [] := by
  induction groups with
  | nil => exact .rest
  | cons fs groups ih =>
    have hfs : fs ≠ [] := by
      rintro rfl
      exact absurd (hp [] List.mem_cons_self).1 (by decide)
    exact of_picture (ih (fun x hx => hp x (List.mem_cons_of_mem fs hx)) fun x hx => hne x (List.mem_cons_of_mem fs hx))
      hfs (hne fs List.mem_cons_self) (hp fs List.mem_cons_self)

end Pieces

theorem withPictures_bounded {g h : Handle} {id : Nat} (hb : (h.spu id).Bounded) : ((g.withPictures h).spu id).Bounded := hb

theorem withPictures_gathers {g h : Handle} {id : Nat} {got : List UInt8} (hg : (h.spu id).Gathers got) :
    ((g.withPictures h).spu id).Gathers got := by
  cases hg with
  | idle hsize => exact .idle hsize
  | begun h4 hlt hsize hdata hlen hbuf => exact .begun h4 hlt hsize hdata hlen hbuf

theorem picture_self {h : Handle} {mem : Nat → UInt8} {len : Nat} (as : List Access) {bs : Option (List UInt8)}
    {whole : Bool} (hp : spuParsed h mem len = bs.map (spuId mem, ·)) :
    SpuOutcome.picture (spuId mem) ⟨as, spuParsed h mem len, whole⟩ = bs := by
  unfold SpuOutcome.picture
  rw [hp]
  cases bs with
  | none => rfl
  | some bs => exact if_pos rfl

/-- A packet parses a picture of no substream but its own. -/
theorem picture_of_ne {h : Handle} {mem : Nat → UInt8} {len id : Nat} (hne : spuId mem ≠ id) (as : List Access)
    {whole : Bool} : SpuOutcome.picture id ⟨as, spuParsed h mem len, whole⟩ = none := by
  unfold SpuOutcome.picture spuParsed
  dsimp only
  cases spuCase h mem len with
  | whole => exact if_neg hne
  | final => exact if_neg hne
  | _ => rfl

section
open SpuInput Transducer

/-- A step fits exactly when it reads and copies inside, and takes nothing for a whole picture that is not. -/
theorem fits_iff {h : Handle} {i : SpuInput} (hb : ∀ id ≤ 31, (h.spu id).Bounded) :
    i.Fits h ↔ ∀ o ∈ (i.step h).2, (∀ a ∈ o.accesses, a.Inside) ∧ o.allThere = true := by
  cases i with
  | packet k =>
    have hfits := @spuFits_iff h k.mem k.bytes.length (hb _)
    change SpuFits h k.mem k.bytes.length ↔ ∀ o ∈ [_], _
    rw [List.forall_mem_singleton, hfits]
    dsimp only
    rw [spuAllThere, decide_eq_true_iff]
  | other g => exact iff_of_true trivial fun o ho => absurd ho List.not_mem_nil

/-- A step that fits leaves room for what the pictures lack. -/
theorem step_bounded {h : Handle} {i : SpuInput} (hf : i.Fits h) (hb : ∀ id ≤ 31, (h.spu id).Bounded) :
    ∀ id ≤ 31, ((i.step h).1.spu id).Bounded := by
  cases i with
  | packet k =>
    intro id hid
    change ((parsePrivateStream1 h k.mem k.bytes.length).spu id).Bounded
    rw [parsePrivateStream1_spu]
    by_cases hk : id = spuId k.mem
    · subst hk
      exact SpuFits.bounded hf (hb _ hid)
    · rw [parseSpuFrame_other h _ _ hk]
      exact hb id hid
  | other g => exact fun id hid => withPictures_bounded (hb id hid)

theorem allFit_iff {h : Handle} {is : List SpuInput} (hb : ∀ id ≤ 31, (h.spu id).Bounded) :
    AllFit h is ↔ ∀ o ∈ (run step h is).2, (∀ a ∈ o.accesses, a.Inside) ∧ o.allThere = true := by
  induction is generalizing h with
  | nil => exact iff_of_true trivial fun o ho => absurd ho List.not_mem_nil
  | cons i is ih =>
    rw [AllFit, run_cons, List.forall_mem_append, ← fits_iff hb]
    exact and_congr_right fun hi => ih (step_bounded hi hb)

theorem run_bounded {h : Handle} {is : List SpuInput} (hf : AllFit h is) (hb : ∀ id ≤ 31, (h.spu id).Bounded) :
    ∀ id ≤ 31, ((run step h is).1.spu id).Bounded := by
  induction is generalizing h with
  | nil => exact hb
  | cons i is ih => exact ih hf.2 (step_bounded hf.1 hb)

/-- The pieces of a substream come out as its pictures, whatever arrives in between. -/
theorem run_gathers {id : Nat} (hid : id ≤ 31) {h : Handle} {is : List SpuInput} {got next : List UInt8}
    {pictures : List (List UInt8)} (hf : AllFit h is) (hg : (h.spu id).Gathers got)
    (hp : Pieces got (is.filterMap (fragment id)) pictures next) :
    (run step h is).2.filterMap (·.picture id) = pictures ∧ ((run step h is).1.spu id).Gathers next := by
  induction is generalizing h got pictures with
  | nil =>
    cases hp with
    | rest => exact ⟨rfl, hg⟩
  | cons i is ih =>
    obtain ⟨hi, hrest⟩ := hf
    rw [run_cons]
    cases i with
    | other g => exact ih hrest (withPictures_gathers hg) hp
    | packet k =>
      have hspu := parsePrivateStream1_spu h k.mem k.bytes.length
      change SpuFits h k.mem k.bytes.length at hi
      by_cases hk : spuId k.mem = id
      · subst hk
        have hfrag : fragment (spuId k.mem) (.packet k) = some k.payload := if_pos rfl
        rw [List.filterMap_cons_some hfrag] at hp
        cases hp with
        | more hpic hne hp =>
          obtain ⟨hnone, hg'⟩ := (PrivatePacket.gathers hi hid hg hpic).1 hne
          rw [← hspu] at hg'
          obtain ⟨hout, hend⟩ := ih hrest hg' hp
          exact ⟨(List.filterMap_cons_none (picture_self _ hnone)).trans hout, hend⟩
        | last hpic hp =>
          obtain ⟨hsome, hg'⟩ := (PrivatePacket.gathers hi hid hg ((List.append_nil _).symm ▸ hpic)).2 rfl
          rw [← hspu] at hg'
          obtain ⟨hout, hend⟩ := ih hrest hg' hp
          exact ⟨(List.filterMap_cons_some (picture_self _ hsome)).trans (congrArg _ hout), hend⟩
      · have hfrag : fragment id (.packet k) = none := if_neg hk
        rw [List.filterMap_cons_none hfrag] at hp
        have hg' : ((parsePrivateStream1 h k.mem k.bytes.length).spu id).Gathers got := by
          rw [hspu, parseSpuFrame_other h _ _ (Ne.symm hk)]
          exact hg
        obtain ⟨hout, hend⟩ := ih hrest hg' hp
        exact ⟨(List.filterMap_cons_none (picture_of_ne hk _)).trans hout, hend⟩

/-- Substreams that hold nothing put together what arrives exactly when every packet fits. -/
theorem reassembles_iff {h : Handle} (hidle : ∀ id ≤ 31, (h.spu id).size = 0) (is : List SpuInput) :
    Reassembles h is ↔ AllFit h is := by
  have hb (id : Nat) (hid : id ≤ 31) : (h.spu id).Bounded := fun hn => absurd (hidle id hid) hn
  constructor
  · intro hr
    exact (allFit_iff hb).mpr fun o ho => ⟨hr.inside o ho, hr.allThere o ho⟩
  · intro hf
    have hout := (allFit_iff hb).mp hf
    exact ⟨fun o ho => (hout o ho).1, fun o ho => (hout o ho).2, run_bounded hf hb,
      fun id hid _ _ hp => run_gathers hid hf (.idle (hidle id hid)) hp⟩

end

/-- A picture of 16 bytes in two packets, with the first piece of another one in between. -/
def threePackets : List SpuInput :=
  [.packet ⟨[0x80, 0x80, 0, 32, 0, 16, 0, 4], fun _ => 0⟩, .packet ⟨[0x80, 0x80, 0, 33, 0, 10, 0, 4], fun _ => 0⟩,
    .packet ⟨[0x80, 0x80, 1, 0, 32, 0, 0, 0, 0, 5, 0, 0, 1, 0, 0, 1, 0xff], fun _ => 0⟩]

theorem reassembles_three : Reassembles (demuxInit 100 fun _ => 0) threePackets :=
  (reassembles_iff (fun _ _ => rfl) _).mpr (by decide)

/-- Six of the ten bytes of a picture are taken for all of it, since the packet has ten with its header. -/
theorem header_counts_as_picture : ¬ ∀ (h : Handle), (∀ id ≤ 31, (h.spu id).size = 0) →
    ∀ is : List SpuInput, Reassembles h is := by
  intro hall
  have hr := hall (demuxInit 100 fun _ => 0) (fun _ _ => rfl)
    [.packet ⟨[0x80, 0x80, 0, 32, 0, 10, 0, 4, 0, 0], fun _ => 0⟩]
  have hp : IsPicture ([] ++ [0, 10, 0, 4, 0, 0] ++ [0, 0, 0xff, 0]) := ⟨by decide, by decide⟩
  have hnone := (hr.pictures 0 (by decide) [] [0, 10, 0, 4, 0, 0] (.more hp (by decide) .rest)).1
  exact absurd hnone (by decide)

end Mvpmc.Demux
