import Mvpmc.ConfigFile.RoundTrip

/-! The list of items as it is and through the compression. -/
namespace Mvpmc.ConfigFile

namespace Zlib

/-- One call of `deflate` takes the input, a second one finishes the stream. -/
def Deflates (z : Zlib) (data : List UInt8) (room : Nat) (code : List UInt8) : Prop :=
  ∃ state s s', z.deflateInit = some state ∧
    z.deflate { state := state, nextIn := data, availOut := room } .noFlush = (s, .ok) ∧
    z.deflate s .finish = (s', .streamEnd) ∧ z.deflateEnd s' = .ok ∧ s'.nextOut = code

/-- One call of `inflate` reads a whole stream. -/
def Inflates (z : Zlib) (code : List UInt8) (room : Nat) (data : List UInt8) : Prop :=
  ∃ state s, z.inflateInit = some state ∧
    z.inflate { state := state, nextIn := code, availOut := room } .noFlush = (s, .streamEnd) ∧
    z.inflateEnd s = .ok ∧ s.nextOut = data

/-- The bound that the library promises for `n` bytes. -/
def compressBound (n : Nat) : Nat := n + n / 2 ^ 12 + n / 2 ^ 14 + n / 2 ^ 25 + 13

/-- The library works: with room for the bound it compresses any input but the empty one, and
with room for the input it gives back what it has compressed. -/
structure Correct (z : Zlib) : Prop where
  deflates : ∀ data room, data ≠ [] → compressBound data.length ≤ room → ∃ code, z.Deflates data room code
  inflates : ∀ data room code len, z.Deflates data room code → data.length ≤ len → z.Inflates code len data

variable {z : Zlib} {data code : List UInt8} {n : Nat}

theorem doCompress_eq_some_iff : z.doCompress data n = some code ↔ z.Deflates data n code := by
  unfold doCompress Deflates
  constructor
  · intro h
    obtain ⟨state, hi, h⟩ := Option.bind_eq_some_iff.mp h
    dsimp only at h
    split at h
    · cases h
    · rename_i h₁
      split at h
      · cases h
      · rename_i h₂
        split at h
        · cases h
        · rename_i h₃
          exact ⟨state, _, _, hi, Prod.ext rfl (not_not.mp h₁), Prod.ext rfl (not_not.mp h₂), not_not.mp h₃, Option.some.inj h⟩
  · rintro ⟨state, s, s', hi, h₁, h₂, h₃, rfl⟩
    simp [hi, h₁, h₂, h₃]

theorem doUncompress_of_inflates (h : z.Inflates code n data) : z.doUncompress code n = some data := by
  obtain ⟨state, s, hi, h₁, h₂, rfl⟩ := h
  unfold doUncompress
  simp [hi, h₁, h₂]

end Zlib

section
variable {p : Platform} {config : Config} {list out out' code : ConfigList} {override : Bool} {z : Zlib}

theorem configCompress_isSome (hz : z.Correct) (hn : list.items ≠ []) (hl : list.items.length ≤ 9000) :
    (z.configCompress list out).isSome = true := by
  have hroom : Zlib.compressBound list.items.length ≤ configMaxCompressedSize := by
    unfold Zlib.compressBound configMaxCompressedSize
    omega
  obtain ⟨code, hc⟩ := hz.deflates list.items configMaxCompressedSize hn hroom
  unfold Zlib.configCompress
  rw [Zlib.doCompress_eq_some_iff.mpr hc]
  rfl

/-- `config_uncompress` gives back the header and the items. -/
theorem configUncompress_configCompress (hz : z.Correct) (hl : list.items.length ≤ 9000) (hflags : list.flags = p.flags)
    (hc : z.configCompress list out = some code) :
    ∃ list', z.configUncompress code out' = some list' ∧ list.SameHeader list' ∧ list'.Full ∧ list'.items = list.items := by
  obtain ⟨bytes, hb, hcode⟩ := Option.bind_eq_some_iff.mp hc
  obtain rfl := Option.some.inj hcode
  have hroom : list.items.length ≤ configMaxSize + sizeofConfigList := hl.trans (by decide)
  have hinf := hz.inflates _ _ _ _ (Zlib.doCompress_eq_some_iff.mp hb) hroom
  have hitems (buf : List UInt8) : (bytes ++ buf).take bytes.length = bytes := List.take_left
  unfold Zlib.configUncompress
  dsimp only [ConfigList.items] at hinf ⊢
  rw [hitems, Zlib.doUncompress_of_inflates hinf]
  refine ⟨_, rfl, ⟨rfl, rfl, rfl, ?_⟩, ?_, ?_⟩
  · dsimp only
    rw [hflags]
    cases p <;> decide
  · simp [ConfigList.Full, ConfigList.items]
  · simp

end

/-- What `save_config_file` stores `parse_config` restores, from the list itself as well as from the
compressed one. The list takes at most `CONFIG_MAX_SIZE` bytes. -/
theorem save_load (p : Platform) (crc32 : ConfigList → Nat) (z : Zlib) (config : Config) (buf : List UInt8) (override : Bool)
    (hz : z.Correct) (h : config.Savable) :
    ∃ list, saveConfigList p crc32 config buf = some list ∧ list.buflen ≤ configMaxSize ∧
      (∃ loaded, parseConfig p list override .zero = some loaded ∧ Restores config loaded) ∧
      ∀ out, (list.buflen ≠ 0 → (z.configCompress list out).isSome = true) ∧
        ∀ code out', z.configCompress list out = some code →
          ∃ list', z.configUncompress code out' = some list' ∧ list.SameHeader list' ∧ list'.items = list.items ∧
            ∃ loaded, parseConfig p list' override .zero = some loaded ∧ Restores config loaded := by
  obtain ⟨list, hs, hf, hflags, hi⟩ : ∃ list, saveConfigList p crc32 config buf = some list ∧ _ := saveConfigList_eq crc32 buf
  have hl : list.items.length ≤ 9000 := by
    rw [hi]
    exact Saved.length_stored_le h
  refine ⟨list, hs, ?_, parseConfig_restores h hf hi, ?_⟩
  · rw [← hf]
    exact hl.trans (by decide)
  · intro out
    refine ⟨fun hn => configCompress_isSome hz ?_ hl, ?_⟩
    · intro hnil
      rw [← hf, hnil] at hn
      exact hn rfl
    · intro code out' hc
      obtain ⟨list', hu, hh, hf', hi'⟩ := configUncompress_configCompress hz hl hflags hc
      exact ⟨list', hu, hh, hi', parseConfig_restores h hf' (hi'.trans hi)⟩

/-- The settings with nothing but the PAL mode. -/
def palConfig : Config where
  bitmask := ItemName.mode.bit
  bytes := Function.update Config.zero.bytes .avMode [1, 0, 0, 0]
  recgroup := Config.zero.recgroup
  bytes_length m := by
    by_cases hm : m = .avMode
    · rw [hm, Function.update_self]
      rfl
    · rw [Function.update_of_ne hm, Config.zero.bytes_length]
  recgroup_length := Config.zero.recgroup_length

/-- The item of `palConfig` on a little-endian host, and its `zlib` stream. -/
def palItems : List UInt8 := [2, 0, 4, 0, 1, 0, 0, 0]

def palStream : List UInt8 :=
  [0x78, 0x9c, 0x63, 0x62, 0x60, 0x61, 0x60, 0x64, 0x60, 0x60, 0x00, 0x00, 0x00, 0x34, 0x00, 0x08]

/-- What `zlib` does with `palItems`; other input is stored behind a byte. -/
def encodePal (data : List UInt8) : List UInt8 := if data = palItems then palStream else 0 :: data

def decodePal (code : List UInt8) : List UInt8 := if code = palStream then palItems else code.tail

theorem decodePal_encodePal (data : List UInt8) : decodePal (encodePal data) = data := by
  unfold decodePal encodePal
  by_cases hd : data = palItems
  · rw [if_pos hd, if_pos rfl, hd]
  · rw [if_neg hd, if_neg (by simp [palStream]), List.tail_cons]

def storing : Zlib where
  State := Unit
  deflateInit := some ()
  deflate s flush :=
    match flush with
    | .noFlush => ({ s with nextIn := [], nextOut := s.nextIn }, .ok)
    | .finish =>
      if (encodePal s.nextOut).length ≤ s.availOut then ({ s with nextOut := encodePal s.nextOut }, .streamEnd)
      else (s, .ok)
  deflateEnd _ := .ok
  inflateInit := some ()
  inflate s _ :=
    if (decodePal s.nextIn).length ≤ s.availOut then ({ s with nextIn := [], nextOut := decodePal s.nextIn }, .streamEnd)
    else (s, .ok)
  inflateEnd _ := .ok

theorem storing_correct : storing.Correct where
  deflates data room _ hroom := by
    unfold Zlib.compressBound at hroom
    have hlen : (encodePal data).length ≤ room := by
      unfold encodePal
      split
      · rename_i hd
        subst hd
        exact le_trans (by decide) hroom
      · rw [List.length_cons]
        omega
    exact ⟨encodePal data, (), _, _, rfl, rfl, if_pos hlen, rfl, rfl⟩
  inflates data room code len hd hlen := by
    obtain ⟨_, s, s', -, h₁, h₂, -, rfl⟩ := hd
    obtain rfl : _ = s := congrArg Prod.fst h₁
    have hout : s'.nextOut = encodePal data := by
      unfold storing at h₂
      dsimp only at h₂
      by_cases hr : (encodePal data).length ≤ room
      · rw [if_pos hr] at h₂
        exact (congrArg (fun r => r.1.nextOut) h₂).symm
      · rw [if_neg hr] at h₂
        cases congrArg Prod.snd h₂
    refine ⟨(), { state := (), nextIn := [], availOut := len, nextOut := data }, rfl, ?_, rfl, rfl⟩
    unfold storing
    dsimp only
    rw [hout, decodePal_encodePal, if_pos hlen]

theorem palConfig_savable : palConfig.Savable where
  strings := by decide
  labels := by decide
  groups := by decide

/-- The PAL mode saved on a little-endian host and loaded again. -/
theorem save_load_pal :
    ∃ list, saveConfigList .hostLittleEndian (fun _ => 0) palConfig [] = some list ∧ list.buflen ≤ configMaxSize ∧
      (∃ loaded, parseConfig .hostLittleEndian list false .zero = some loaded ∧ Restores palConfig loaded) ∧
      ∀ out, (list.buflen ≠ 0 → (storing.configCompress list out).isSome = true) ∧
        ∀ code out', storing.configCompress list out = some code →
          ∃ list', storing.configUncompress code out' = some list' ∧ list.SameHeader list' ∧ list'.items = list.items ∧
            ∃ loaded, parseConfig .hostLittleEndian list' false .zero = some loaded ∧ Restores palConfig loaded :=
  save_load .hostLittleEndian (fun _ => 0) storing palConfig [] false storing_correct palConfig_savable

end Mvpmc.ConfigFile
