import Mvpmc.Replaytv.Httpclient

/-! Bodies of responses as they are sent, and when `hc_read_pieces` delivers them. -/
namespace Mvpmc.Replaytv

/-- The line that announces a chunk of `n` bytes: digits, and an extension perhaps. -/
structure SizeLine (n : Nat) where
  digits : List UInt8
  ext : List UInt8 := []
  digits_ne_nil : digits ≠ []
  isHex : ∀ b ∈ digits, (hexDigit b).isSome
  value : hexFrom 0 digits = n
  ext_start : ∀ b ∈ ext.head?, b = 59
  ext_line : 10 ∉ ext

def SizeLine.text {n : Nat} (line : SizeLine n) : List UInt8 := line.digits ++ line.ext

structure Chunk where
  data : List UInt8
  line : SizeLine data.length
  data_ne_nil : data ≠ []

namespace Chunk

/-- The chunk as it is sent, in front of what is sent behind it. -/
def wire (c : Chunk) (rest : List UInt8) : List UInt8 := c.line.text ++ 13 :: 10 :: (c.data ++ 13 :: 10 :: rest)

end Chunk

/-- A body that is sent chunked, with anything behind the line of the last chunk, or plain until the peer closes. -/
inductive Body where
  | chunked (chunks : List Chunk) (last : SizeLine 0) (rest : List UInt8)
  | plain (bytes : List UInt8)

def chunksWire (chunks : List Chunk) (last : SizeLine 0) (rest : List UInt8) : List UInt8 :=
  chunks.foldr Chunk.wire (last.text ++ 13 :: 10 :: rest)

namespace Body

def wire : Body → List UInt8
  | chunked chunks last rest => chunksWire chunks last rest
  | plain bytes => bytes

def content : Body → List UInt8
  | chunked chunks _ _ => chunks.flatMap Chunk.data
  | plain bytes => bytes

def transferEncoding : Body → Option String
  | chunked .. => some "chunked"
  | plain _ => none

end Body

/-- The callback is given exactly `content`, and every byte lands in its buffer. -/
structure Fetched.Good (f : Fetched) (content : List UInt8) : Prop where
  defined : f.defined = true
  whole : f.calls.flatten = content
  inside : ∀ l ∈ f.landings, l.Inside

/-- What the buffer for merged pieces holds when the next piece is read. -/
def Merge.held (mergechunks : Nat) (m : Merge) : List UInt8 :=
  if mergechunks = 0 ∨ m.multichunk = mergechunks then [] else m.pending

def Merge.Ok (mergechunks : Nat) (m : Merge) : Prop :=
  if mergechunks = 0 then m.multichunk = 0 else 1 ≤ m.multichunk ∧ m.multichunk ≤ mergechunks

/-- Pieces of these sizes fit when `k` more go into a buffer that holds `p` bytes. -/
def Packs (mergechunks : Nat) : Nat → Nat → List Nat → Prop
  | _, _, [] => True
  | k, p, s :: sizes =>
    (if mergechunks = 0 then s < 2 ^ 31 else s = 0 ∨ p + s ≤ capacity mergechunks) ∧
      if 1 < k then Packs mergechunks (k - 1) (p + s) sizes else Packs mergechunks mergechunks 0 sizes

section Lines
variable {n : Nat}

theorem hexDigit_ten : hexDigit 10 = none := rfl

/-- A hexadecimal digit is none of the bytes that `strtoul` treats in a special way. -/
theorem hexDigit_bounds {b : UInt8} (h : (hexDigit b).isSome) : 48 ≤ b ∧ b ≤ 102 ∧ b ≠ 88 := by
  have hne : b ≠ 88 ↔ b.toNat ≠ 88 := not_congr UInt8.toNat_inj.symm
  unfold hexDigit at h
  simp only [UInt8.le_iff_toNat_le, UInt8.reduceToNat] at h ⊢
  rw [hne]
  split at h
  · omega
  · split at h
    · omega
    · split at h
      · omega
      · simp at h

theorem hexFrom_append (m : Nat) (digits : List UInt8) {ext : List UInt8} (hd : ∀ b ∈ digits, (hexDigit b).isSome)
    (he : ∀ b ∈ ext.head?, b = 59) : hexFrom m (digits ++ ext) = hexFrom m digits := by
  induction digits generalizing m with
  | nil =>
    cases ext with
    | nil => rfl
    | cons b ext =>
      obtain rfl := he b rfl
      rfl
  | cons b digits ih =>
    obtain ⟨hb, hd⟩ := List.forall_mem_cons.mp hd
    obtain ⟨d, hd'⟩ := Option.isSome_iff_exists.mp hb
    rw [List.cons_append, hexFrom, hexFrom, hd']
    exact ih _ hd

namespace SizeLine

theorem ten_not_mem (line : SizeLine n) : 10 ∉ line.text := by
  rw [text, List.mem_append]
  rintro (hm | hm)
  · have := line.isHex 10 hm
    rw [hexDigit_ten] at this
    simp at this
  · exact line.ext_line hm

theorem skipHexPrefix_text (line : SizeLine n) : skipHexPrefix line.text = line.text := by
  unfold skipHexPrefix
  split
  · rename_i x d text he
    -- the second byte is a digit or the semicolon of an extension
    have hx : ¬ (x = 120 ∨ x = 88) := by
      cases hdigits : line.digits with
      | nil => exact absurd hdigits line.digits_ne_nil
      | cons b digits =>
        have hhex := line.isHex
        have hstart := line.ext_start
        have htext := he
        rw [SizeLine.text, hdigits, List.cons_append] at htext
        rw [hdigits] at hhex
        have htail := (List.cons.inj htext).2
        cases digits with
        | nil =>
          rw [List.nil_append] at htail
          rw [htail] at hstart
          rw [hstart x rfl]
          decide
        | cons c digits =>
          obtain ⟨hlow, hhigh, hne⟩ := hexDigit_bounds (hhex c (by simp))
          rw [(List.cons.inj htail).1] at hhigh hne
          rintro (rfl | rfl)
          · exact absurd hhigh (by decide)
          · exact hne rfl
    rw [if_neg (not_and_of_not_left _ hx), he]
  · rfl

/-- `strtoul` reads the size, or the largest number it knows. -/
theorem strtoul16_text (line : SizeLine n) : strtoul16 line.text = min n ULONG_MAX := by
  have hfrom : hexFrom 0 line.text = n := by
    rw [text, hexFrom_append 0 line.digits line.isHex line.ext_start, line.value]
  cases hdigits : line.digits with
  | nil => exact absurd hdigits line.digits_ne_nil
  | cons b digits =>
    have hhex := line.isHex
    rw [hdigits] at hhex
    obtain ⟨hlow, -, -⟩ := hexDigit_bounds (hhex b (by simp))
    have htext : line.text = b :: (digits ++ line.ext) := by rw [text, hdigits]; rfl
    rw [UInt8.le_iff_toNat_le] at hlow
    have hspace : isspace b = false := by
      unfold isspace
      simp only [Bool.or_eq_false_iff, decide_eq_false_iff_not, Bool.and_eq_false_iff, UInt8.le_iff_toNat_le,
        UInt8.reduceToNat, ← UInt8.toNat_inj] at hlow ⊢
      omega
    have hdrop : line.text.dropWhile isspace = line.text := by
      rw [htext, List.dropWhile_cons_of_neg (by rw [hspace]; simp)]
    have hsign (c : UInt8) (hc : c.toNat < 48) (text : List UInt8) : line.text ≠ c :: text := by
      rintro he
      rw [htext] at he
      rw [(List.cons.inj he).1] at hlow
      exact absurd hlow (Nat.not_le.mpr hc)
    unfold strtoul16
    rw [hdrop]
    split
    · rename_i he
      exact absurd he (hsign 45 (by decide) _)
    · rename_i he
      exact absurd he (hsign 43 (by decide) _)
    · rw [skipHexPrefix_text, hfrom]

end SizeLine
end Lines

section Steps
variable {callback : List UInt8 → Int} {mergechunks fuel : Nat} {m : Merge} {nc : Nc}

theorem capacity_lt (mergechunks : Nat) : capacity mergechunks < 2 ^ 31 := by
  have h := @Int.bmod_lt (RTV_CHUNK_SZ * mergechunks + 1) (2 ^ 32) (by decide)
  unfold capacity
  omega

/-- Nothing gets lost where pieces are merged. -/
theorem storePiece_flatten (len : Nat) (data : List UInt8) (hm : m.Ok mergechunks) :
    (storePiece mergechunks m len data).call.toList.flatten ++ (storePiece mergechunks m len data).merge.held mergechunks =
      m.held mergechunks ++ data ∧ (storePiece mergechunks m len data).merge.Ok mergechunks := by
  unfold Merge.Ok at hm ⊢
  unfold storePiece Merge.held
  by_cases hz : mergechunks = 0
  · simp [hz] at hm ⊢
    exact hm
  · rw [if_neg hz] at hm
    simp only [hz, false_or, if_false]
    by_cases hk : 1 < m.multichunk
    · have hne : m.multichunk - 1 ≠ mergechunks := by omega
      rw [if_pos hk]
      dsimp only
      rw [if_neg hne]
      exact ⟨rfl, by omega⟩
    · rw [if_neg hk]
      dsimp only
      rw [if_pos rfl]
      exact ⟨by simp, by omega⟩

theorem landing_length (len : Nat) (data : List UInt8) :
    (storePiece mergechunks m len data).landing.length = data.length := by
  unfold storePiece
  dsimp only
  split
  · rfl
  · split <;> rfl

/-- A piece lands in its buffer, and those behind it do. -/
theorem storePiece_packs {len : Nat} {data : List UInt8} (hm : m.Ok mergechunks) (hlen : data.length ≤ len)
    (sizes : List Nat) :
    ((storePiece mergechunks m len data).landing.Inside ∧
      Packs mergechunks (storePiece mergechunks m len data).merge.multichunk
        ((storePiece mergechunks m len data).merge.held mergechunks).length sizes) ↔
      Packs mergechunks m.multichunk (m.held mergechunks).length (data.length :: sizes) := by
  unfold Merge.Ok at hm
  unfold storePiece Merge.held Landing.Inside
  rw [Packs]
  by_cases hz : mergechunks = 0
  · rw [if_pos hz] at hm
    simp only [hz, hm, true_or, if_true, List.length_nil]
    rw [if_neg (Nat.not_lt_zero 1)]
    refine and_congr_left fun _ => ⟨fun h => h.1, fun h => ⟨h, ?_⟩⟩
    omega
  · have hcap := capacity_lt mergechunks
    have hroom (p : Nat) : (data.length < 2 ^ 31 ∧ (data.length = 0 ∨ (p : Int) + data.length ≤ capacity mergechunks)) ↔
        (data.length = 0 ∨ (p : Int) + data.length ≤ capacity mergechunks) := by omega
    rw [if_neg hz] at hm
    simp only [hz, false_or, if_false]
    by_cases hk : 1 < m.multichunk
    · have hne : m.multichunk - 1 ≠ mergechunks := by omega
      simp only [if_pos hk, if_neg hne, List.length_append]
      exact and_congr_left' (hroom _)
    · simp only [if_neg hk, if_true, List.length_nil]
      exact and_congr_left' (hroom _)

variable {chunked : Bool}

/-- A round of the loop that reads a piece. -/
theorem fetchLoop_piece (hcb : ∀ data, callback data = 0) {len : Nat} {nc₁ : Nc} (hlen : len ≠ 0)
    (hsize : (if chunked then chunkSize nc else some (4096, nc)) = some (len, nc₁)) :
    fetchLoop callback chunked mergechunks (fuel + 1) m nc =
      let r := ncRead nc₁ len
      let s := storePiece mergechunks m len r.1
      if r.1.length < len then { calls := s.call.toList, landings := [s.landing] }
      else
        let t := fetchLoop callback chunked mergechunks fuel s.merge
          (if chunked then skipLines (r.2.bytes.length + 1) r.2 else r.2)
        { t with calls := s.call.toList ++ t.calls, landings := s.landing :: t.landings } := by
  have hrc : (storePiece mergechunks m len (ncRead nc₁ len).1).call.elim 0 callback = 0 := by
    cases (storePiece mergechunks m len (ncRead nc₁ len).1).call with
    | none => rfl
    | some data => exact hcb data
  rw [fetchLoop, hsize]
  dsimp only
  rw [if_neg hlen, if_neg (not_not.mpr hrc)]

/-- A piece that is followed by others. -/
theorem good_piece_iff {len : Nat} {data content : List UInt8} {t : Fetched} (hm : m.Ok mergechunks) :
    ({ t with
        calls := (storePiece mergechunks m len data).call.toList ++ t.calls
        landings := (storePiece mergechunks m len data).landing :: t.landings } : Fetched).Good
        (m.held mergechunks ++ (data ++ content)) ↔
      (storePiece mergechunks m len data).landing.Inside ∧
        t.Good ((storePiece mergechunks m len data).merge.held mergechunks ++ content) := by
  have hflat := (storePiece_flatten len data hm).1
  have hwhole : ((storePiece mergechunks m len data).call.toList ++ t.calls).flatten =
      m.held mergechunks ++ (data ++ content) ↔
      t.calls.flatten = (storePiece mergechunks m len data).merge.held mergechunks ++ content := by
    rw [List.flatten_append, ← List.append_assoc, ← hflat, List.append_assoc, List.append_cancel_left_eq]
  constructor
  · rintro ⟨hdefined, hcalls, hinside⟩
    obtain ⟨hfirst, hrest⟩ := List.forall_mem_cons.mp hinside
    exact ⟨hfirst, hdefined, hwhole.mp hcalls, hrest⟩
  · rintro ⟨hfirst, hdefined, hcalls, hrest⟩
    exact ⟨hdefined, hwhole.mpr hcalls, List.forall_mem_cons.mpr ⟨hfirst, hrest⟩⟩

end Steps

section Chunks
variable {callback : List UInt8 → Int} {mergechunks fuel : Nat} {m : Merge} {nc : Nc} {n : Nat} {rest : List UInt8}

theorem chunkSize_eq (line : SizeLine n) (h : nc.Open) (hb : nc.bytes = line.text ++ 13 :: 10 :: rest)
    (hl : line.text.length ≤ 30) :
    ∃ nc' : Nc, nc'.Open ∧ nc'.bytes = rest ∧ chunkSize nc = some (min n ULONG_MAX, nc') := by
  obtain ⟨nc', hopen, hbytes, he⟩ := ncReadLine_eq h hb line.ten_not_mem (Nat.add_le_add_right hl 2)
  refine ⟨nc', hopen, hbytes, ?_⟩
  unfold chunkSize
  dsimp only
  rw [he, if_pos rfl, line.strtoul16_text]

theorem chunkSize_long (line : SizeLine n) (h : nc.Open) (hb : nc.bytes = line.text ++ 13 :: 10 :: rest)
    (hl : ¬ line.text.length ≤ 30) : chunkSize nc = none := by
  have hlt : 32 < line.text.length + 2 := by omega
  have hlong := ncReadLine_long h hb line.ten_not_mem hlt
  unfold chunkSize
  dsimp only
  rw [hlong, if_neg Bool.false_ne_true]

/-- The end of a chunk is passed over. -/
theorem skipLines_eq (fuel : Nat) (h : nc.Open) (hb : nc.bytes = 13 :: 10 :: rest) :
    (skipLines (fuel + 1) nc).Open ∧ (skipLines (fuel + 1) nc).bytes = rest := by
  have hline : nc.bytes = [] ++ 13 :: 10 :: rest := hb
  have hle : ([] : List UInt8).length + 2 ≤ 80 := by decide
  obtain ⟨nc', hopen, hbytes, he⟩ := ncReadLine_eq h hline List.not_mem_nil hle
  rw [skipLines, he]
  exact ⟨hopen, hbytes⟩

theorem length_le_chunksWire (chunks : List Chunk) (last : SizeLine 0) (rest : List UInt8) :
    chunks.length ≤ (chunksWire chunks last rest).length := by
  induction chunks with
  | nil => exact Nat.zero_le _
  | cons c chunks ih =>
    have hwire : chunksWire (c :: chunks) last rest = c.wire (chunksWire chunks last rest) := rfl
    rw [hwire, Chunk.wire]
    simp only [List.length_append, List.length_cons]
    omega

/-- A chunk whose size does not fit in an `unsigned long` is read short, and even so outside of any buffer. -/
theorem not_good_big {data content : List UInt8} {t : Fetched} (hlen : data.length = ULONG_MAX) :
    ¬ ({ t with
        calls := (storePiece mergechunks m ULONG_MAX data).call.toList ++ t.calls
        landings := (storePiece mergechunks m ULONG_MAX data).landing :: t.landings } : Fetched).Good content := by
  intro hg
  have hcount := (hg.inside _ List.mem_cons_self).1
  rw [landing_length, hlen] at hcount
  exact absurd hcount (by decide)

/-- A chunked body from any of its chunks on. -/
theorem fetchLoop_chunks (hcb : ∀ data, callback data = 0) (chunks : List Chunk) (last : SizeLine 0)
    (hm : m.Ok mergechunks) (h : nc.Open) (hb : nc.bytes = chunksWire chunks last rest) (hfuel : chunks.length < fuel) :
    (fetchLoop callback true mergechunks fuel m nc).Good (m.held mergechunks ++ chunks.flatMap Chunk.data) ↔
      ((∀ c ∈ chunks, c.line.text.length ≤ 30) ∧ last.text.length ≤ 30) ∧
        Packs mergechunks m.multichunk (m.held mergechunks).length (chunks.map fun c => c.data.length) := by
  induction chunks generalizing m nc fuel with
  | nil =>
    obtain ⟨fuel, rfl⟩ : ∃ k, fuel = k + 1 := ⟨fuel - 1, (Nat.sub_add_cancel hfuel).symm⟩
    by_cases hl : last.text.length ≤ 30
    · obtain ⟨nc', hopen, hbytes, he⟩ := chunkSize_eq last h hb hl
      refine iff_of_true ?_ ⟨⟨by simp, hl⟩, trivial⟩
      rw [fetchLoop, if_pos rfl, he]
      dsimp only
      rw [if_pos (Nat.zero_min _)]
      unfold Merge.held
      by_cases hflush : mergechunks ≠ 0 ∧ m.multichunk ≠ mergechunks
      · rw [if_pos hflush, if_neg (by tauto)]
        exact ⟨rfl, by simp, by simp⟩
      · rw [if_neg hflush, if_pos (by tauto)]
        exact ⟨rfl, rfl, by simp⟩
    · refine iff_of_false ?_ fun hr => hl hr.1.2
      rw [fetchLoop, if_pos rfl, chunkSize_long last h hb hl]
      exact fun hg => Bool.false_ne_true hg.defined
  | cons c chunks ih =>
    rw [List.length_cons] at hfuel
    obtain ⟨fuel, rfl⟩ : ∃ k, fuel = k + 1 := ⟨fuel - 1, (Nat.sub_add_cancel (by omega)).symm⟩
    have hwire : nc.bytes = c.line.text ++ 13 :: 10 :: (c.data ++ 13 :: 10 :: chunksWire chunks last rest) := hb
    by_cases hl : c.line.text.length ≤ 30
    rotate_left
    · refine iff_of_false ?_ fun hr => hl (hr.1.1 c (by simp))
      rw [fetchLoop, if_pos rfl, chunkSize_long c.line h hwire hl]
      exact fun hg => Bool.false_ne_true hg.defined
    obtain ⟨nc₁, hopen₁, hbytes₁, he₁⟩ := chunkSize_eq c.line h hwire hl
    have hpos : c.data.length ≠ 0 := fun hz => c.data_ne_nil (List.eq_nil_of_length_eq_zero hz)
    have hne : min c.data.length ULONG_MAX ≠ 0 := by
      unfold ULONG_MAX
      omega
    have hsize : (if true then chunkSize nc else some (4096, nc)) = some (min c.data.length ULONG_MAX, nc₁) := by
      rw [if_pos rfl, he₁]
    obtain ⟨hread, hleft, hopen₂⟩ := ncRead_eq (min c.data.length ULONG_MAX) hopen₁
    rw [fetchLoop_piece hcb hne hsize]
    dsimp only
    by_cases hbig : c.data.length ≤ ULONG_MAX
    · -- the chunk is read as it was sent
      have hmin : min c.data.length ULONG_MAX = c.data.length := Nat.min_eq_left hbig
      rw [hmin, hbytes₁, List.take_left] at hread
      rw [hmin, hbytes₁, List.drop_left] at hleft
      rw [hmin] at hopen₂
      rw [hmin, hread, if_neg (Nat.lt_irrefl _), if_pos rfl, List.flatMap_cons, good_piece_iff hm]
      obtain ⟨hopen₃, hbytes₃⟩ := skipLines_eq (ncRead nc₁ c.data.length).2.bytes.length hopen₂ hleft
      rw [ih (storePiece_flatten _ _ hm).2 hopen₃ hbytes₃ (by omega), List.map_cons,
        ← storePiece_packs hm (Nat.le_refl _), List.forall_mem_cons]
      tauto
    · -- the size does not fit in an unsigned long
      have hmin : min c.data.length ULONG_MAX = ULONG_MAX := Nat.min_eq_right (Nat.le_of_not_le hbig)
      rw [hmin, hbytes₁, List.take_append_of_le_length (Nat.le_of_not_le hbig)] at hread
      have hlen : (ncRead nc₁ ULONG_MAX).1.length = ULONG_MAX := by
        rw [hread]
        exact List.length_take_of_le (Nat.le_of_not_le hbig)
      rw [hmin, hlen, if_neg (Nat.lt_irrefl _)]
      refine iff_of_false (not_good_big hlen) ?_
      rw [List.map_cons, Packs]
      have hcap := capacity_lt mergechunks
      unfold ULONG_MAX at hbig
      rintro ⟨-, hroom, -⟩
      split at hroom <;> omega

end Chunks

/-- The pieces in which a plain body is read. -/
def pieceSizes (n : Nat) : List Nat := List.replicate (n / 4096) 4096 ++ [n % 4096]

/-- The piece that ends a plain body goes to the callback, or there is nothing in it and in its buffer. -/
def Flushes (mergechunks n : Nat) : Prop :=
  mergechunks = 0 ∨ mergechunks ∣ n / 4096 + 1 ∨ mergechunks ∣ n / 4096 ∧ n % 4096 = 0

section Plain
variable {callback : List UInt8 → Int} {mergechunks fuel : Nat} {m : Merge} {nc : Nc}

theorem pieceSizes_of_lt {n : Nat} (h : n < 4096) : pieceSizes n = [n] := by
  unfold pieceSizes
  rw [Nat.div_eq_of_lt h, Nat.mod_eq_of_lt h]
  rfl

theorem pieceSizes_add (n : Nat) : pieceSizes (4096 + n) = 4096 :: pieceSizes n := by
  unfold pieceSizes
  rw [Nat.add_div_left n (by decide), Nat.add_mod_left, List.replicate_succ]
  rfl

/-- What is left in the buffer by a piece, and how many are still to come. -/
theorem storePiece_merge (len : Nat) (data : List UInt8) (hz : mergechunks ≠ 0) (hm : m.Ok mergechunks) :
    (1 < m.multichunk → (storePiece mergechunks m len data).merge.multichunk = m.multichunk - 1 ∧
      (storePiece mergechunks m len data).merge.held mergechunks = m.held mergechunks ++ data) ∧
    (m.multichunk = 1 → (storePiece mergechunks m len data).merge.multichunk = mergechunks ∧
      (storePiece mergechunks m len data).merge.held mergechunks = []) := by
  unfold Merge.Ok at hm
  rw [if_neg hz] at hm
  unfold storePiece Merge.held
  simp only [hz, false_or, if_false]
  constructor
  · intro hk
    have hne : m.multichunk - 1 ≠ mergechunks := by omega
    rw [if_pos hk]
    dsimp only
    rw [if_neg hne]
    exact ⟨rfl, rfl⟩
  · intro hone
    have hk : ¬ 1 < m.multichunk := by omega
    rw [if_neg hk]
    dsimp only
    rw [if_pos rfl]
    exact ⟨rfl, rfl⟩

/-- The buffer holds a full piece for each that was read into it. -/
theorem storePiece_held_length {data : List UInt8} (hdata : data.length = 4096) (hz : mergechunks ≠ 0)
    (hm : m.Ok mergechunks) (hheld : (m.held mergechunks).length = 4096 * (mergechunks - m.multichunk)) :
    ((storePiece mergechunks m 4096 data).merge.held mergechunks).length =
      4096 * (mergechunks - (storePiece mergechunks m 4096 data).merge.multichunk) := by
  obtain ⟨hmore, hone⟩ := storePiece_merge 4096 data hz hm
  unfold Merge.Ok at hm
  rw [if_neg hz] at hm
  by_cases hlast : m.multichunk = 1
  · rw [(hone hlast).1, (hone hlast).2, Nat.sub_self]
    rfl
  · have hk : 1 < m.multichunk := by omega
    rw [(hmore hk).1, (hmore hk).2, List.length_append, hheld, hdata]
    omega

/-- The count of pieces goes on, modulo `mergechunks`. -/
theorem storePiece_count (len : Nat) (data : List UInt8) (hz : mergechunks ≠ 0) (hm : m.Ok mergechunks) (a : Nat) :
    mergechunks ∣ mergechunks - (storePiece mergechunks m len data).merge.multichunk + a ↔
      mergechunks ∣ mergechunks - m.multichunk + (a + 1) := by
  obtain ⟨hmore, hone⟩ := storePiece_merge len data hz hm
  unfold Merge.Ok at hm
  rw [if_neg hz] at hm
  by_cases hlast : m.multichunk = 1
  · have he : mergechunks - m.multichunk + (a + 1) = mergechunks + a := by omega
    rw [(hone hlast).1, he, Nat.sub_self, Nat.zero_add, Nat.dvd_add_right (Nat.dvd_refl _)]
  · have hk : 1 < m.multichunk := by omega
    have he : mergechunks - (m.multichunk - 1) + a = mergechunks - m.multichunk + (a + 1) := by omega
    rw [(hmore hk).1, he]

/-- Nothing is left behind a last piece that completes a group, or that is empty and begins one. -/
theorem storePiece_held_nil_iff (data : List UInt8) (hz : mergechunks ≠ 0) (hm : m.Ok mergechunks)
    (hheld : (m.held mergechunks).length = 4096 * (mergechunks - m.multichunk)) :
    (storePiece mergechunks m 4096 data).merge.held mergechunks = [] ↔
      mergechunks ∣ mergechunks - m.multichunk + 1 ∨ mergechunks ∣ mergechunks - m.multichunk ∧ data.length = 0 := by
  obtain ⟨hmore, hone⟩ := storePiece_merge 4096 data hz hm
  unfold Merge.Ok at hm
  rw [if_neg hz] at hm
  by_cases hlast : m.multichunk = 1
  · exact iff_of_true (hone hlast).2 (.inl ⟨1, by omega⟩)
  · have hnot : ¬ mergechunks ∣ mergechunks - m.multichunk + 1 := Nat.not_dvd_of_pos_of_lt (by omega) (by omega)
    have hstart : mergechunks ∣ mergechunks - m.multichunk ↔ mergechunks - m.multichunk = 0 :=
      ⟨fun hd => Nat.eq_zero_of_dvd_of_lt hd (by omega), fun he => he ▸ Nat.dvd_zero _⟩
    rw [(hmore (by omega)).2, List.append_eq_nil_iff, ← List.length_eq_zero_iff, hheld, ← List.length_eq_zero_iff, hstart]
    omega

/-- A piece that ends the body. -/
theorem good_last_iff {len : Nat} {data : List UInt8} (hm : m.Ok mergechunks) (hlen : data.length ≤ len) :
    ({ calls := (storePiece mergechunks m len data).call.toList
       landings := [(storePiece mergechunks m len data).landing] } : Fetched).Good (m.held mergechunks ++ data) ↔
      Packs mergechunks m.multichunk (m.held mergechunks).length [data.length] ∧
        (storePiece mergechunks m len data).merge.held mergechunks = [] := by
  have hflat := (storePiece_flatten len data hm).1
  have hpacks := storePiece_packs hm hlen []
  have hwhole : (storePiece mergechunks m len data).call.toList.flatten = m.held mergechunks ++ data ↔
      (storePiece mergechunks m len data).merge.held mergechunks = [] := by
    rw [← hflat, List.self_eq_append_right]
  constructor
  · rintro ⟨-, hcalls, hinside⟩
    exact ⟨hpacks.mp ⟨hinside _ List.mem_cons_self, trivial⟩, hwhole.mp hcalls⟩
  · rintro ⟨hroom, hempty⟩
    refine ⟨rfl, hwhole.mpr hempty, ?_⟩
    rw [List.forall_mem_singleton]
    exact (hpacks.mpr hroom).1

/-- A plain body from any of its pieces on. -/
theorem fetchLoop_plain (hcb : ∀ data, callback data = 0) (j : Nat) {content : List UInt8} (hj : content.length / 4096 = j)
    (hm : m.Ok mergechunks) (hheld : mergechunks ≠ 0 → (m.held mergechunks).length = 4096 * (mergechunks - m.multichunk))
    (h : nc.Open) (hb : nc.bytes = content) (hfuel : j < fuel) :
    (fetchLoop callback false mergechunks fuel m nc).Good (m.held mergechunks ++ content) ↔
      Packs mergechunks m.multichunk (m.held mergechunks).length (pieceSizes content.length) ∧
        (mergechunks = 0 ∨ mergechunks ∣ mergechunks - m.multichunk + j + 1 ∨
          mergechunks ∣ mergechunks - m.multichunk + j ∧ content.length % 4096 = 0) := by
  induction j generalizing m nc content fuel with
  | zero =>
    obtain ⟨fuel, rfl⟩ : ∃ k, fuel = k + 1 := ⟨fuel - 1, (Nat.sub_add_cancel hfuel).symm⟩
    have hlt : content.length < 4096 := by omega
    have hread := (ncRead_eq 4096 h).1
    rw [hb, List.take_of_length_le (Nat.le_of_lt hlt)] at hread
    rw [fetchLoop_piece hcb (by decide) rfl]
    dsimp only
    rw [hread, if_pos hlt, pieceSizes_of_lt hlt, Nat.mod_eq_of_lt hlt,
      Nat.add_zero (mergechunks - m.multichunk), good_last_iff hm (Nat.le_of_lt hlt)]
    refine and_congr_right fun _ => ?_
    by_cases hz : mergechunks = 0
    · refine iff_of_true ?_ (.inl hz)
      unfold Merge.held
      rw [if_pos (.inl hz)]
    · rw [storePiece_held_nil_iff content hz hm (hheld hz)]
      exact (or_iff_right hz).symm
  | succ j ih =>
    obtain ⟨fuel, rfl⟩ : ∃ k, fuel = k + 1 := ⟨fuel - 1, (Nat.sub_add_cancel (by omega)).symm⟩
    have hle : 4096 ≤ content.length := by omega
    obtain ⟨hread, hleft, hopen⟩ := ncRead_eq 4096 h
    rw [hb] at hread hleft
    have hfour : (content.take 4096).length = 4096 := List.length_take_of_le hle
    have hrest : (content.drop 4096).length = content.length - 4096 := List.length_drop
    have hsizes : pieceSizes content.length = (content.take 4096).length :: pieceSizes (content.drop 4096).length := by
      rw [hfour, hrest, ← pieceSizes_add, Nat.add_sub_cancel' hle]
    have hmod : (content.drop 4096).length % 4096 = content.length % 4096 := by omega
    have hsplit : m.held mergechunks ++ content = m.held mergechunks ++ (content.take 4096 ++ content.drop 4096) := by
      rw [List.take_append_drop]
    have hok := (storePiece_flatten 4096 (content.take 4096) hm).2
    rw [fetchLoop_piece hcb (by decide) rfl]
    dsimp only
    rw [hread, hfour, if_neg (Nat.lt_irrefl _), if_neg Bool.false_ne_true]
    rw [hsplit, good_piece_iff hm,
      ih (by omega) hok (fun hz => storePiece_held_length hfour hz hm (hheld hz)) hopen hleft (by omega), hsizes,
      ← storePiece_packs hm (Nat.le_of_eq hfour), hmod]
    by_cases hz : mergechunks = 0
    · simp only [hz, true_or, and_true]
    · rw [Nat.add_assoc, storePiece_count _ _ hz hm, storePiece_count _ _ hz hm, Nat.add_assoc]
      tauto

end Plain

/-- Pieces of these sizes fit: one by one where they are not merged, else in each group that is merged. -/
def Fits (mergechunks : Nat) (sizes : List Nat) : Prop :=
  if mergechunks = 0 then ∀ s ∈ sizes, s < 2 ^ 31
  else
    ∀ q, ((sizes.drop (mergechunks * q)).take mergechunks).sum = 0 ∨
      ((sizes.drop (mergechunks * q)).take mergechunks).sum ≤ capacity mergechunks

section Groups
variable {mergechunks : Nat}

theorem packs_zero_iff (k p : Nat) (sizes : List Nat) : Packs 0 k p sizes ↔ ∀ s ∈ sizes, s < 2 ^ 31 := by
  induction sizes generalizing k p with
  | nil => simp [Packs]
  | cons s sizes ih =>
    rw [Packs, if_pos rfl, List.forall_mem_cons]
    split
    · rw [ih]
    · rw [ih]

theorem forall_mul_iff (k : Nat) (P : Nat → Prop) : (P 0 ∧ ∀ q, P (k + k * q)) ↔ ∀ q, P (k * q) := by
  constructor
  · rintro ⟨hfirst, hrest⟩ q
    cases q with
    | zero => exact hfirst
    | succ q =>
      rw [Nat.mul_succ, Nat.add_comm]
      exact hrest q
  · intro hall
    refine ⟨hall 0, fun q => ?_⟩
    have h := hall (q + 1)
    rw [Nat.mul_succ, Nat.add_comm] at h
    exact h

/-- What is left of the group begun fits, and so do the groups behind it. -/
theorem packs_iff_groups (hz : mergechunks ≠ 0) {k : Nat} (hk : 1 ≤ k) (p : Nat) (sizes : List Nat) :
    Packs mergechunks k p sizes ↔
      ((sizes.take k).sum = 0 ∨ p + (sizes.take k).sum ≤ capacity mergechunks) ∧
        ∀ q, ((sizes.drop (k + mergechunks * q)).take mergechunks).sum = 0 ∨
          ((sizes.drop (k + mergechunks * q)).take mergechunks).sum ≤ capacity mergechunks := by
  induction sizes generalizing k p with
  | nil => simp [Packs]
  | cons s sizes ih =>
    obtain ⟨k, rfl⟩ : ∃ j, k = j + 1 := ⟨k - 1, (Nat.sub_add_cancel hk).symm⟩
    have hdrop (q : Nat) : (s :: sizes).drop (k + 1 + mergechunks * q) = sizes.drop (k + mergechunks * q) := by
      rw [Nat.add_right_comm, List.drop_succ_cons]
    simp only [hdrop]
    rw [Packs, if_neg hz, List.take_succ_cons, List.sum_cons]
    by_cases hone : 1 < k + 1
    · rw [if_pos hone, Nat.add_sub_cancel, ih (by omega), ← and_assoc]
      refine and_congr_left fun _ => ?_
      omega
    · have hk : k = 0 := by omega
      subst hk
      rw [if_neg hone, ih (Nat.one_le_iff_ne_zero.mpr hz)]
      simp only [List.take_zero, List.sum_nil, Nat.add_zero, Nat.zero_add]
      refine and_congr_right fun _ => ?_
      have hgroups := forall_mul_iff mergechunks fun i => ((sizes.drop i).take mergechunks).sum = 0 ∨
        ((sizes.drop i).take mergechunks).sum ≤ capacity mergechunks
      simpa using hgroups

theorem packs_iff_fits (mergechunks : Nat) (sizes : List Nat) :
    Packs mergechunks mergechunks 0 sizes ↔ Fits mergechunks sizes := by
  unfold Fits
  by_cases hz : mergechunks = 0
  · rw [if_pos hz, hz]
    exact packs_zero_iff 0 0 sizes
  · rw [if_neg hz, packs_iff_groups hz (Nat.one_le_iff_ne_zero.mpr hz)]
    have hgroups := forall_mul_iff mergechunks fun i => ((sizes.drop i).take mergechunks).sum = 0 ∨
      ((sizes.drop i).take mergechunks).sum ≤ capacity mergechunks
    simpa using hgroups

end Groups

/-- When a body is delivered whole. -/
def Body.Deliverable (mergechunks : Int) : Body → Prop
  | chunked chunks last _ =>
    ((∀ c ∈ chunks, c.line.text.length ≤ 30) ∧ last.text.length ≤ 30) ∧
      Fits (mergeCount mergechunks) (chunks.map fun c => c.data.length)
  | plain bytes => Fits (mergeCount mergechunks) (pieceSizes bytes.length) ∧ Flushes (mergeCount mergechunks) bytes.length

/-- The body of a successful response is delivered whole exactly when its lines and its pieces fit and, if it is
plain, its last piece is not kept back. -/
theorem delivered_iff {callback : List UInt8 → Int} (hcb : ∀ data, callback data = 0) {status : Option Nat}
    (hstatus : ∀ n ∈ status, n / 100 = 2) (body : Body) (mergechunks : Int) {nc : Nc} (h : nc.Open)
    (hb : nc.bytes = body.wire) :
    (hcReadPieces callback status body.transferEncoding mergechunks nc).Good body.content ↔ body.Deliverable mergechunks := by
  have hsuccess : ¬ status.any (· / 100 ≠ 2) = true := by
    cases status with
    | none => simp
    | some n => simp [hstatus n rfl]
  have hok : (⟨mergeCount mergechunks, []⟩ : Merge).Ok (mergeCount mergechunks) := by
    unfold Merge.Ok
    dsimp only
    split <;> omega
  have hheld : (⟨mergeCount mergechunks, []⟩ : Merge).held (mergeCount mergechunks) = [] := by
    unfold Merge.held
    rw [if_pos (.inr rfl)]
  unfold hcReadPieces
  rw [if_neg hsuccess]
  cases body with
  | chunked chunks last rest =>
    have hfuel : chunks.length < nc.bytes.length + 1 := by
      rw [hb]
      exact Nat.lt_succ_of_le (length_le_chunksWire chunks last rest)
    have hrun := fetchLoop_chunks hcb chunks last hok h hb hfuel
    rw [hheld, List.nil_append] at hrun
    exact hrun.trans (and_congr_right fun _ => packs_iff_fits _ _)
  | plain bytes =>
    have hfuel : bytes.length / 4096 < nc.bytes.length + 1 := by
      rw [hb]
      exact Nat.lt_succ_of_le (Nat.div_le_self _ _)
    have hrun := fetchLoop_plain hcb _ rfl hok (fun _ => by rw [hheld, Nat.sub_self]; rfl) h hb hfuel
    rw [hheld, List.nil_append, Nat.sub_self, Nat.zero_add] at hrun
    exact hrun.trans (and_congr_left fun _ => packs_iff_fits _ _)

/-- Two chunks that are merged, the end of the first one torn. -/
theorem delivered_two_chunks :
    (hcReadPieces (fun _ => 0) (some 200) (some "chunked") 2
      ⟨[50, 13, 10, 97], [[98, 13], [10, 49, 13, 10, 99, 13, 10, 48, 13, 10, 13, 10]]⟩).Good [97, 98, 99] :=
  (delivered_iff (fun _ => rfl) (by simp)
    (.chunked
      [⟨[97, 98], ⟨[50], [], by decide, List.forall_mem_singleton.mpr rfl, rfl, nofun, by decide⟩, by decide⟩,
        ⟨[99], ⟨[49], [], by decide, List.forall_mem_singleton.mpr rfl, rfl, nofun, by decide⟩, by decide⟩]
      ⟨[48], [], by decide, List.forall_mem_singleton.mpr rfl, rfl, nofun, by decide⟩ [13, 10]) 2 (by simp [Nc.Open]) rfl).mpr
    ⟨⟨by decide, by decide⟩, (packs_iff_fits 2 [2, 1]).mp ⟨.inr (by decide), .inr (by decide), trivial⟩⟩

/-- A plain body of one byte where two pieces are merged. -/
theorem last_piece_kept_back : ¬ (hcReadPieces (fun _ => 0) (some 200) none 2 ⟨[], [[65]]⟩).Good [65] := by
  intro h
  exact absurd h.whole (by decide)

end Mvpmc.Replaytv
