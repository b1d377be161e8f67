import Mvpmc.Mclient.CliTouches

/-! Which receives are decoded inside of the buffers. -/
namespace Mvpmc.Mclient.CliTouches
open Mvpmc.Lib
open Mvpmc.Playlist (ascii)
open Mvpmc.Cmyth (atoi)

def AllInside (touches : List Touch) : Prop := ∀ t ∈ touches, t.Inside

/-- The zero that `cli_decode_string` puts behind the decoded word is inside of its buffer. -/
def FitsDecoder (word : List UInt8) : Prop := word.length = MAX_REPLY_LENGTH → 37 ∈ word

/-- The words are decoded inside of the buffer, and the one for the last field leaves room for the zero behind it. -/
def ParamsFit (theChar : Nat → UInt8) (i : Nat) (words : List (Nat × List UInt8)) : Prop :=
  (∀ word ∈ words.take (MAX_PARAMS - i), FitsDecoder word.2) ∧
    (i < MAX_PARAMS → ∀ word, words[MAX_PARAMS - 1 - i]? = some word →
      (paramField (theChar word.1) word.2).length < MAX_PARAM_SIZE)

/-- A parameter that is taken for a tag is one, with a value where it is read. -/
def IsTag (albums : Bool) (text : List UInt8) : Prop :=
  (∃ x ∈ text, x ≠ 58) ∧ ((strtok 58 text).1 ∈ valueTags albums → ∃ x ∈ (strtok 58 text).2.2, x ≠ 10)

/-- The parameters up to the first one without a colon are tags, and there is such a one. -/
def TagsFit (w : Pointer) (albums : Bool) : Nat → List (List UInt8) → Prop
  | 0, _ => False
  | n + 1, param =>
    let i := MAX_PARAMS - (n + 1)
    58 ∈ paramText param i → IsTag albums (paramText param i) ∧ TagsFit w albums n (parseTag w albums param i).param

/-- What the branch for `playlist` copies has room. -/
def PlaylistFits (data : CliData) (param : List (List UInt8)) : Prop :=
  let name := paramText param 0
  let title := paramText param 2
  if (ascii "tracks").isPrefixOf name then
    atoi (paramText param 1) = 1 → data.streamingRadio = false →
      ∀ k, 1 ≤ k → k < 10 → (entry data.title_history k).length < 50
  else if (ascii "artist").isPrefixOf name ∨ (ascii "album").isPrefixOf name then title.length < 50
  else if (ascii "title").isPrefixOf name then
    if data.tracks = 1 then (ascii "Streaming:   " ++ title).length < 200
    else
      let mark := if data.upNext then ascii " <- Up Next" else ascii " <- Now Playing"
      (titleLine data title (if data.index_info = data.index_playing then mark else [])).length < 200
  else True

/-- The reply parser has what it looks for. -/
def ReplyFits (w : Pointer) (data : CliData) (cmd : List UInt8) (param : List (List UInt8)) : Prop :=
  if (ascii "playlist").isPrefixOf cmd then PlaylistFits data param
  else if (ascii "version").isPrefixOf cmd then True
  else if (ascii "albums").isPrefixOf cmd ∨ (ascii "titles").isPrefixOf cmd then
    TagsFit w ((ascii "albums").isPrefixOf cmd) (MAX_PARAMS - 2) param ∧ data.album_index < 6
  else True

section
variable (w : Pointer) (theChar : Nat → UInt8) (decodedPlayerId : List UInt8) (cliData : Nat → CliData)

/-- A line has a word, one of this player has a command behind it, and nothing in it is too long. -/
def LineFits (param : List (List UInt8)) (line : Nat × List UInt8) : Prop :=
  match tokensAt 32 line.1 line.2 with
  | [] => False
  | word :: words =>
    FitsDecoder word.2 ∧ ((cliDecodeString (theChar word.1) word.2).isPrefixOf decodedPlayerId = true →
      match words with
      | [] => False
      | cmd :: params =>
        ParamsFit theChar 0 params ∧
          ReplyFits w (cliData line.1) (cmd.2.take MAX_CMD_SIZE) (parseParameters theChar param 0 params).param)

/-- So have all lines, each with the parameters that the ones in front of it leave. -/
def LinesFit (n : Nat) (param : List (List UInt8)) : List (Nat × List UInt8) → Prop
  | [] => True
  | line :: lines =>
    LineFits w theChar decodedPlayerId cliData param line ∧
      LinesFit n (decodeLine w theChar decodedPlayerId cliData n param line).param lines

end

section Touches
variable {t : Touch} {touches touches' : List Touch}

@[simp] theorem allInside_nil : AllInside [] := List.forall_mem_nil _

@[simp] theorem allInside_cons : AllInside (t :: touches) ↔ t.Inside ∧ AllInside touches := List.forall_mem_cons

@[simp] theorem allInside_append : AllInside (touches ++ touches') ↔ AllInside touches ∧ AllInside touches' :=
  List.forall_mem_append

theorem inside_natCast {place : Place} {n : Nat} : (⟨place, (n : Int)⟩ : Touch).Inside ↔ n < place.size := by
  simp only [Touch.Inside]
  omega

theorem null_not_inside : ¬ (⟨.null, 0⟩ : Touch).Inside := fun h => absurd h.2 (by decide)

end Touches

section Table

/-- A table whose strings end inside of it. -/
structure Ended (param : List (List UInt8)) : Prop where
  length_eq : param.length = MAX_PARAMS
  fits : ∀ (i : Nat) field, param[i]? = some field → field.length ≤ MAX_PARAM_SIZE
  last : ∀ field, param[MAX_PARAMS - 1]? = some field → field.length < MAX_PARAM_SIZE

variable {param : List (List UInt8)}

theorem ended_cliResetCmd : Ended cliResetCmd.param := by
  have hempty (i : Nat) (field : List UInt8) (h : cliResetCmd.param[i]? = some field) : field = [] :=
    List.eq_of_mem_replicate (List.mem_of_getElem? h)
  exact ⟨cliResetCmd.param_length, fun i field h => by simp [hempty i field h],
    fun field h => by simp [hempty _ field h, MAX_PARAM_SIZE]⟩

theorem Ended.modify (h : Ended param) (p : Nat) {f : List UInt8 → List UInt8} (hf : ∀ field, (f field).length ≤ field.length) :
    Ended (param.modify p f) := by
  have hfield (i : Nat) (field : List UInt8) (hi : (param.modify p f)[i]? = some field) :
      ∃ old, param[i]? = some old ∧ field.length ≤ old.length := by
    rw [List.getElem?_modify] at hi
    obtain ⟨old, hold, rfl⟩ := Option.map_eq_some_iff.mp hi
    refine ⟨old, hold, ?_⟩
    split
    · exact hf old
    · exact Nat.le_refl _
  refine ⟨(List.length_modify ..).trans h.length_eq, fun i field hi => ?_, fun field hi => ?_⟩
  · obtain ⟨old, hold, hle⟩ := hfield i field hi
    exact hle.trans (h.fits i old hold)
  · obtain ⟨old, hold, hle⟩ := hfield _ field hi
    exact hle.trans_lt (h.last old hold)

theorem Ended.cutAt (h : Ended param) (p : Nat) : Ended (cutAt p param) :=
  h.modify _ fun field => List.length_take_le' _ field

theorem Ended.set (h : Ended param) (i : Nat) {field : List UInt8} (hle : field.length ≤ MAX_PARAM_SIZE)
    (hlast : i = MAX_PARAMS - 1 → field.length < MAX_PARAM_SIZE) : Ended (param.set i field) := by
  refine ⟨(List.length_set ..).trans h.length_eq, fun j g hj => ?_, fun g hj => ?_⟩
  · rw [List.getElem?_set] at hj
    split at hj
    · split at hj
      · exact Option.some.inj hj ▸ hle
      · cases hj
    · exact h.fits j g hj
  · rw [List.getElem?_set] at hj
    split at hj
    · next heq =>
      split at hj
      · exact Option.some.inj hj ▸ hlast heq
      · cases hj
    · exact h.last g hj

theorem Ended.storeParam (h : Ended param) (i : Nat) {field : List UInt8} (hle : field.length ≤ MAX_PARAM_SIZE)
    (hlast : i = MAX_PARAMS - 1 → field.length < MAX_PARAM_SIZE) : Ended (storeParam param i field) := by
  rw [CliTouches.storeParam]
  split
  · exact (h.set i hle hlast).cutAt _
  · exact h.set i hle hlast

/-- A string of the table ends in front of the end of the table; the induction is on the fields behind its first. -/
theorem Ended.paramText_length (h : Ended param) {i : Nat} (hi : i < MAX_PARAMS) :
    (paramText param i).length < MAX_PARAM_SIZE * (MAX_PARAMS - i) := by
  obtain ⟨n, hn⟩ : ∃ n, MAX_PARAMS = i + n + 1 := ⟨MAX_PARAMS - i - 1, by omega⟩
  induction n generalizing i with
  | zero =>
    have hlen : i < param.length := by rw [h.length_eq]; omega
    have hlast := h.last param[i] (by rw [hn]; exact List.getElem?_eq_getElem hlen)
    rw [paramText, List.drop_eq_getElem_cons hlen, textOf, if_pos hlast, hn, Nat.add_zero, Nat.add_sub_cancel_left,
      Nat.mul_one]
    exact hlast
  | succ n ih =>
    have hlen : i < param.length := by rw [h.length_eq]; omega
    have hfits := h.fits i param[i] (List.getElem?_eq_getElem hlen)
    have hbehind := ih (show i + 1 < MAX_PARAMS by omega) (by omega)
    have hroom : MAX_PARAM_SIZE * (MAX_PARAMS - i) = MAX_PARAM_SIZE + MAX_PARAM_SIZE * (MAX_PARAMS - (i + 1)) := by
      rw [show MAX_PARAMS - i = MAX_PARAMS - (i + 1) + 1 by omega, Nat.mul_succ, Nat.add_comm]
    rw [paramText] at hbehind
    rw [paramText, List.drop_eq_getElem_cons hlen, textOf, hroom]
    split
    · omega
    · rw [List.length_append]
      omega

theorem Ended.touchParam_inside (h : Ended param) {i n : Nat} (hi : i < MAX_PARAMS) (hn : n ≤ (paramText param i).length) :
    (touchParam i n).Inside := by
  have hend := h.paramText_length hi
  rw [Nat.mul_sub] at hend
  rw [touchParam, inside_natCast]
  change MAX_PARAM_SIZE * i + n < MAX_PARAMS * MAX_PARAM_SIZE
  rw [Nat.mul_comm MAX_PARAMS]
  omega

/-- The bytes of a field that are not behind its end. -/
theorem touchParam_inside_of_lt {i n : Nat} (hi : i < MAX_PARAMS) (hn : n < MAX_PARAM_SIZE) : (touchParam i n).Inside := by
  rw [touchParam, inside_natCast]
  change MAX_PARAM_SIZE * i + n < MAX_PARAMS * MAX_PARAM_SIZE
  simp only [MAX_PARAM_SIZE, MAX_PARAMS] at *
  omega

/-- A parameter that fills the last field has no zero behind it. -/
theorem touchParam_set_inside_iff (h : Ended param) {i : Nat} (hi : i < MAX_PARAMS) {field : List UInt8}
    (hle : field.length ≤ MAX_PARAM_SIZE) :
    (touchParam i (paramText (param.set i field) i).length).Inside ↔ (i = MAX_PARAMS - 1 → field.length < MAX_PARAM_SIZE) := by
  constructor
  · rintro hin rfl
    have hlen : MAX_PARAMS - 1 < (param.set (MAX_PARAMS - 1) field).length := by rw [List.length_set, h.length_eq]; decide
    have hnil : (param.set (MAX_PARAMS - 1) field).drop (MAX_PARAMS - 1 + 1) = [] :=
      List.drop_eq_nil_of_le (by rw [List.length_set, h.length_eq]; decide)
    rw [paramText, List.drop_eq_getElem_cons hlen, List.getElem_set_self, hnil, textOf, touchParam] at hin
    by_contra hfull
    rw [if_neg hfull, textOf, List.append_nil, inside_natCast] at hin
    change MAX_PARAM_SIZE * (MAX_PARAMS - 1) + field.length < MAX_PARAMS * MAX_PARAM_SIZE at hin
    simp only [MAX_PARAM_SIZE, MAX_PARAMS] at *
    omega
  · intro hlast
    exact (h.set i hle hlast).touchParam_inside hi (Nat.le_refl _)

end Table

section Decoder

theorem length_decodeFrom_le (c : UInt8) (text : List UInt8) : (decodeFrom c text).length ≤ text.length := by
  induction c, text using decodeFrom.induct with
  | case1 c => exact Nat.le_refl _
  | case2 c x y text c' ih =>
    have hle : (decodeFrom ((sscanfHex x y).getD c) text).length ≤ text.length := ih
    rw [decodeFrom]
    simp only [List.length_cons]
    omega
  | case3 c text hshort ih =>
    rw [decodeFrom.eq_3 _ _ hshort]
    exact ih.trans (Nat.le_succ _)
  | case4 c b text hb hb' ih =>
    rw [decodeFrom.eq_4 _ _ _ hb hb']
    exact Nat.succ_le_succ ih

/-- Only an escape makes a word shorter. -/
theorem length_decodeFrom_eq_iff (c : UInt8) (text : List UInt8) :
    (decodeFrom c text).length = text.length ↔ 37 ∉ text := by
  induction c, text using decodeFrom.induct with
  | case1 c => simp [decodeFrom]
  | case2 c x y text c' ih =>
    have hle := length_decodeFrom_le ((sscanfHex x y).getD c) text
    rw [decodeFrom]
    simp only [List.length_cons, List.mem_cons, true_or, not_true_eq_false, iff_false]
    omega
  | case3 c text hshort ih =>
    have hle := length_decodeFrom_le c text
    rw [decodeFrom.eq_3 _ _ hshort]
    simp only [List.length_cons, List.mem_cons, true_or, not_true_eq_false, iff_false]
    omega
  | case4 c b text hb hb' ih =>
    rw [decodeFrom.eq_4 _ _ _ hb hb', List.length_cons, List.length_cons, Nat.succ_inj, ih, List.mem_cons, not_or]
    exact ⟨fun h => ⟨fun heq => hb' heq.symm, h⟩, fun h => h.2⟩

theorem length_cliDecodeString_le (c : UInt8) (word : List UInt8) : (cliDecodeString c word).length ≤ word.length := by
  rw [cliDecodeString]
  split
  · exact Nat.le_refl _
  · exact (List.takeWhile_sublist _).length_le.trans (length_decodeFrom_le c word)

theorem decodeTouches_inside_iff (theChar : Nat → UInt8) {word : Nat × List UInt8} (h : word.1 + word.2.length < RECV_BUF_SIZE_CLI) :
    AllInside (decodeTouches theChar word) ↔ FitsDecoder word.2 := by
  have hle := length_decodeFrom_le (theChar word.1) word.2
  have heq := length_decodeFrom_eq_iff (theChar word.1) word.2
  have hcopy := length_cliDecodeString_le (theChar word.1) word.2
  rw [decodeTouches, FitsDecoder, allInside_cons, inside_natCast, and_iff_right (show _ < Place.recvbufBack.size from h)]
  split
  · next hlong => exact ⟨fun _ hlen => by omega, fun _ => allInside_nil⟩
  · next hshort =>
    rw [allInside_cons, allInside_cons, inside_natCast, inside_natCast,
      and_iff_left (show _ from ⟨(by change _ < RECV_BUF_SIZE_CLI; omega), allInside_nil⟩)]
    change _ < MAX_REPLY_LENGTH ↔ _
    constructor
    · intro hroom hfull
      by_contra hno
      rw [heq.mpr hno] at hroom
      omega
    · intro hfits
      rcases Nat.lt_or_ge word.2.length MAX_REPLY_LENGTH with hlt | hge
      · omega
      · have hne : (decodeFrom (theChar word.1) word.2).length ≠ word.2.length := fun h' => heq.mp h' (hfits (by omega))
        omega

end Decoder
section Parameters
variable (theChar : Nat → UInt8) {param : List (List UInt8)}

theorem paramsFit_cons {i : Nat} {word : Nat × List UInt8} {words : List (Nat × List UInt8)} (hi : i < MAX_PARAMS) :
    ParamsFit theChar i (word :: words) ↔ FitsDecoder word.2 ∧
      (i = MAX_PARAMS - 1 → (paramField (theChar word.1) word.2).length < MAX_PARAM_SIZE) ∧
        ParamsFit theChar (i + 1) words := by
  have htake : (word :: words).take (MAX_PARAMS - i) = word :: words.take (MAX_PARAMS - (i + 1)) := by
    rw [show MAX_PARAMS - i = MAX_PARAMS - (i + 1) + 1 by omega, List.take_succ_cons]
  rw [ParamsFit, ParamsFit, htake, List.forall_mem_cons, and_assoc]
  refine and_congr_right fun _ => ?_
  rcases Nat.lt_or_ge (i + 1) MAX_PARAMS with hlt | hge
  · have hget : (word :: words)[MAX_PARAMS - 1 - i]? = words[MAX_PARAMS - 1 - (i + 1)]? := by
      rw [show MAX_PARAMS - 1 - i = MAX_PARAMS - 1 - (i + 1) + 1 by omega, List.getElem?_cons_succ]
    rw [hget]
    constructor
    · rintro ⟨hfits, hlast⟩
      exact ⟨fun heq => by omega, hfits, fun _ => hlast hi⟩
    · rintro ⟨-, hfits, hlast⟩
      exact ⟨hfits, fun _ => hlast hlt⟩
  · have heq : i = MAX_PARAMS - 1 := by omega
    have hget : (word :: words)[MAX_PARAMS - 1 - i]? = some word := by rw [heq, Nat.sub_self]; rfl
    rw [hget]
    constructor
    · rintro ⟨hfits, hlast⟩
      exact ⟨fun _ => hlast hi word rfl, hfits, fun h => absurd h (by omega)⟩
    · rintro ⟨hlast, hfits, -⟩
      refine ⟨hfits, fun _ other hother => ?_⟩
      rw [← Option.some.inj hother]
      exact hlast heq

/-- The parameters of a line: the loop touches nothing else if and only if they fit, and then leaves an ended table. -/
theorem parseParameters_inside_iff (h : Ended param) (i : Nat) {words : List (Nat × List UInt8)}
    (hwords : ∀ word ∈ words, word.1 + word.2.length < RECV_BUF_SIZE_CLI) :
    (AllInside (parseParameters theChar param i words).touches ↔ ParamsFit theChar i words) ∧
      (ParamsFit theChar i words → Ended (parseParameters theChar param i words).param) := by
  induction words generalizing param i with
  | nil => simp [parseParameters, ParamsFit, h]
  | cons word words ih =>
    obtain ⟨hword, hwords⟩ := List.forall_mem_cons.mp hwords
    rw [parseParameters]
    split
    · next hi =>
      have hle : (paramField (theChar word.1) word.2).length ≤ MAX_PARAM_SIZE := List.length_take_le _ _
      have hfull := touchParam_inside_of_lt hi (show MAX_PARAM_SIZE - 1 < MAX_PARAM_SIZE by decide)
      rw [paramsFit_cons theChar hi]
      dsimp only
      rw [allInside_append, allInside_cons, allInside_cons, decodeTouches_inside_iff theChar hword, and_iff_right hfull,
        touchParam_set_inside_iff h hi hle]
      constructor
      · refine and_congr_right fun _ => and_congr_right fun hlast => ?_
        exact (ih (h.storeParam i hle hlast) (i + 1) hwords).1
      · rintro ⟨-, hlast, hfits⟩
        exact (ih (h.storeParam i hle hlast) (i + 1) hwords).2 hfits
    · next hi =>
      have hnone : MAX_PARAMS - i = 0 := by omega
      simp [ParamsFit, hnone, hi, h]

end Parameters

section Strtok
variable {d : UInt8} {text : List UInt8} {param : List (List UInt8)}

theorem strtok_eq_nil_iff : (strtok d text).1 = [] ↔ ¬ ∃ x ∈ text, x ≠ d := by
  have hfound : text.dropWhile (· = d) = [] ↔ ¬ ∃ x ∈ text, x ≠ d := by simp
  rw [← hfound, strtok]
  dsimp only
  cases h : text.dropWhile (· = d) with
  | nil => exact ⟨fun _ => rfl, fun _ => rfl⟩
  | cons b found =>
    have hb : ¬ b = d := by
      have := List.head?_dropWhile_not (fun x : UInt8 => decide (x = d)) text
      rw [h] at this
      simpa using this
    simp [hb]

theorem strtok_stop_le : (strtok d text).2.1 ≤ text.length := by
  have hfound : (text.dropWhile (· = d)).length ≤ text.length := List.length_dropWhile_le _ text
  have htoken := (List.takeWhile_sublist (p := fun x : UInt8 => decide (x ≠ d)) (l := text.dropWhile (· = d))).length_le
  rw [strtok]
  dsimp only
  omega

theorem strtok_rest_le : (strtok d text).2.2.length ≤ text.length := by
  have hfound : (text.dropWhile (· = d)).length ≤ text.length := List.length_dropWhile_le _ text
  have hrest := List.length_dropWhile_le (fun x : UInt8 => decide (x ≠ d)) (text.dropWhile (· = d))
  rw [strtok]
  dsimp only
  rw [List.length_tail]
  omega

theorem Ended.strtokParam (h : Ended param) (i start : Nat) : Ended (strtokParam d i start text param).param := by
  rw [CliTouches.strtokParam]
  split
  · exact h.cutAt _
  · exact h

theorem strtokParam_crashed {i start : Nat} : (strtokParam d i start text param).crashed = true ↔ ¬ ∃ x ∈ text, x ≠ d := by
  rw [strtokParam, decide_eq_true_eq, strtok_eq_nil_iff]

end Strtok

section Tags
variable {w : Pointer} {albums : Bool} {param : List (List UInt8)}

theorem idBuffer_inside : (⟨.idBuffer, ↑(w.size - 1)⟩ : Touch).Inside := by
  rw [inside_natCast]
  cases w <;> decide

theorem tag_inside : (⟨.tag, 49⟩ : Touch).Inside := ⟨by decide, by decide⟩

theorem strtokParam_inside (h : Ended param) {d : UInt8} {i start : Nat} {text : List UInt8} (hi : i < MAX_PARAMS)
    (hstart : start + text.length ≤ (paramText param i).length) {param' : List (List UInt8)} :
    AllInside (strtokParam d i start text param').touches := by
  have hstop : (strtok d text).2.1 ≤ text.length := strtok_stop_le
  rw [strtokParam, allInside_cons]
  exact ⟨h.touchParam_inside hi (by omega), allInside_nil⟩

/-- One turn of the loop over the tags. -/
theorem parseTag_spec (h : Ended param) {i : Nat} (hi : i < MAX_PARAMS) :
    (AllInside (parseTag w albums param i).touches ↔ IsTag albums (paramText param i)) ∧
      ((parseTag w albums param i).crashed = true ↔ ¬ IsTag albums (paramText param i)) ∧
      Ended (parseTag w albums param i).param := by
  let text := paramText param i
  let value := (strtok 58 text).2.2
  let tag := strtokParam 58 i 0 text param
  let number := strtokParam 10 i (text.length - value.length) value tag.param
  have hrest : value.length ≤ text.length := strtok_rest_le
  have htag : AllInside tag.touches := strtokParam_inside h hi (by rw [Nat.zero_add])
  have hnumber : AllInside number.touches := strtokParam_inside h hi (by rw [Nat.sub_add_cancel hrest])
  have hended : Ended tag.param := h.strtokParam i 0
  have hcrashed : tag.crashed = true ↔ ¬ ∃ x ∈ text, x ≠ 58 := strtokParam_crashed
  have hmissing : number.crashed = true ↔ ¬ ∃ x ∈ value, x ≠ 10 := strtokParam_crashed
  by_cases hname : ∃ x ∈ text, x ≠ 58
  · have hfound : ¬ tag.crashed = true := fun hc => hcrashed.mp hc hname
    by_cases hval : (strtok 58 text).1 ∈ valueTags albums
    · have heq : parseTag w albums param i = { number with
          touches := ⟨.idBuffer, ↑(w.size - 1)⟩ :: tag.touches ++ ⟨.tag, 49⟩ :: number.touches ++
            if number.crashed then [⟨.null, 0⟩] else [] } := by
        rw [parseTag, if_neg hfound, if_pos hval]
      have hneeds : IsTag albums text ↔ ∃ x ∈ value, x ≠ 10 := ⟨fun h => h.2 hval, fun h => ⟨hname, fun _ => h⟩⟩
      rw [heq, hneeds]
      refine ⟨?_, hmissing, hended.strtokParam i _⟩
      by_cases hnum : ∃ x ∈ value, x ≠ 10
      · have hnone : ¬ number.crashed = true := fun hc => hmissing.mp hc hnum
        simp [hnum, hnone, idBuffer_inside, tag_inside, htag, hnumber]
      · simp [hnum, hmissing.mpr hnum, null_not_inside]
    · have heq : parseTag w albums param i = { tag with
          touches := (⟨.idBuffer, ↑(w.size - 1)⟩ :: tag.touches) ++ [⟨.tag, 49⟩] } := by
        rw [parseTag, if_neg hfound, if_neg hval]
      have hneeds : IsTag albums text := ⟨hname, fun h => absurd h hval⟩
      rw [heq]
      refine ⟨iff_of_true ?_ hneeds, iff_of_false hfound (not_not.mpr hneeds), hended⟩
      simp [idBuffer_inside, tag_inside, htag]
  · have heq : parseTag w albums param i = { tag with
        touches := (⟨.idBuffer, ↑(w.size - 1)⟩ :: tag.touches) ++ [⟨.null, 0⟩] } := by
      rw [parseTag, if_pos (hcrashed.mpr hname)]
    have hneeds : ¬ IsTag albums text := fun h => hname h.1
    rw [heq]
    refine ⟨iff_of_false ?_ hneeds, iff_of_true (hcrashed.mpr hname) hneeds, hended⟩
    simp [null_not_inside]

/-- The loop over the tags. -/
theorem parseTags_spec (n : Nat) (hn : n < MAX_PARAMS) (h : Ended param) :
    (AllInside (parseTags w albums n param).touches ↔ TagsFit w albums n param) ∧
      (TagsFit w albums n param → (parseTags w albums n param).crashed = false) ∧
      Ended (parseTags w albums n param).param := by
  induction n generalizing param with
  | zero =>
    have hend (k : Nat) : ¬ (touchParam MAX_PARAMS k).Inside := by
      rw [touchParam, inside_natCast]
      change ¬ MAX_PARAM_SIZE * MAX_PARAMS + _ < MAX_PARAMS * MAX_PARAM_SIZE
      rw [Nat.mul_comm]
      omega
    rw [parseTags, TagsFit, allInside_cons]
    exact ⟨⟨fun hin => hend _ hin.1, False.elim⟩, False.elim, h⟩
  | succ n ih =>
    let i := MAX_PARAMS - (n + 1)
    have hi : i < MAX_PARAMS := by omega
    obtain ⟨hinside, hcrashed, hended⟩ : (AllInside (parseTag w albums param i).touches ↔ _) ∧ _ ∧ _ := parseTag_spec h hi
    have hlook : (touchParam i ((paramText param i).takeWhile (· ≠ 58)).length).Inside :=
      h.touchParam_inside hi (List.takeWhile_sublist _).length_le
    have hfits : TagsFit w albums (n + 1) param ↔
        (58 ∈ paramText param i → IsTag albums (paramText param i) ∧ TagsFit w albums n (parseTag w albums param i).param) :=
      Iff.rfl
    by_cases hcolon : 58 ∈ paramText param i
    · rw [forall_prop_of_true hcolon] at hfits
      by_cases htag : IsTag albums (paramText param i)
      · have hgoes : ¬ (parseTag w albums param i).crashed = true := fun hc => hcrashed.mp hc htag
        obtain ⟨hrest, hrun, hleft⟩ := ih (by omega) hended
        let rest := parseTags w albums n (parseTag w albums param i).param
        have heq : parseTags w albums (n + 1) param = { rest with
            touches := touchParam i ((paramText param i).takeWhile (· ≠ 58)).length ::
              (parseTag w albums param i).touches ++ rest.touches } := by
          rw [parseTags, if_pos hcolon, if_neg hgoes]
        rw [heq, hfits, and_iff_right htag]
        refine ⟨?_, hrun, hleft⟩
        rw [allInside_append, allInside_cons, and_iff_right ⟨hlook, hinside.mpr htag⟩]
        exact hrest
      · have hstops : (parseTag w albums param i).crashed = true := hcrashed.mpr htag
        have heq : parseTags w albums (n + 1) param = { parseTag w albums param i with
            touches := touchParam i ((paramText param i).takeWhile (· ≠ 58)).length ::
              (parseTag w albums param i).touches } := by
          rw [parseTags, if_pos hcolon, if_pos hstops]
        have hno : ¬ TagsFit w albums (n + 1) param := fun hf => htag (hfits.mp hf).1
        rw [heq]
        refine ⟨iff_of_false ?_ hno, fun hf => absurd hf hno, hended⟩
        rw [allInside_cons, hinside]
        exact fun hin => htag hin.2
    · have heq : parseTags w albums (n + 1) param =
          { param := param, touches := [touchParam i ((paramText param i).takeWhile (· ≠ 58)).length] } := by
        rw [parseTags, if_neg hcolon]
      rw [heq]
      refine ⟨iff_of_true ?_ (hfits.mpr fun hc => absurd hc hcolon), fun _ => rfl, h⟩
      rw [allInside_cons]
      exact ⟨hlook, allInside_nil⟩

end Tags

section Short
variable {w : Pointer} {albums : Bool} {param : List (List UInt8)} {field : List UInt8} {i j : Nat}

theorem paramText_of_short (h : param[i]? = some field) (hshort : field.length < MAX_PARAM_SIZE) :
    paramText param i = field := by
  obtain ⟨hi, hfield⟩ := List.getElem?_eq_some_iff.mp h
  rw [paramText, List.drop_eq_getElem_cons hi, hfield, textOf, if_pos hshort]

/-- A token of a string that ends in its field changes no other field. -/
theorem strtokParam_getElem? {d : UInt8} {start : Nat} {text : List UInt8} (hroom : start + text.length < MAX_PARAM_SIZE)
    (hj : j ≠ i) : (strtokParam d i start text param).param[j]? = param[j]? := by
  have hstop : (strtok d text).2.1 ≤ text.length := strtok_stop_le
  have hplace : (MAX_PARAM_SIZE * i + start + (strtok d text).2.1) / MAX_PARAM_SIZE = i := by
    rw [Nat.add_assoc, Nat.mul_add_div (by decide), Nat.div_eq_of_lt (by omega), Nat.add_zero]
  rw [strtokParam]
  dsimp only
  split
  · rw [cutAt, hplace]
    exact List.getElem?_modify_ne _ _ hj.symm
  · rfl

theorem parseTag_getElem? (h : param[i]? = some field) (hshort : field.length < MAX_PARAM_SIZE) (hj : j ≠ i) :
    (parseTag w albums param i).param[j]? = param[j]? := by
  have htext := paramText_of_short h hshort
  have hvalue : (strtok 58 field).2.2.length ≤ field.length := strtok_rest_le
  rw [parseTag, htext]
  dsimp only
  split
  · exact strtokParam_getElem? (by rwa [Nat.zero_add]) hj
  · split
    · rw [strtokParam_getElem? (by omega) hj]
      exact strtokParam_getElem? (by rwa [Nat.zero_add]) hj
    · exact strtokParam_getElem? (by rwa [Nat.zero_add]) hj

/-- Where no parameter fills its field, the tags are told by the parameters one by one. -/
theorem tagsFit_iff_of_short (n : Nat) (hn : n ≤ MAX_PARAMS) {fields : Nat → List UInt8}
    (hfields : ∀ k, MAX_PARAMS - n ≤ k → k < MAX_PARAMS → param[k]? = some (fields k) ∧ (fields k).length < MAX_PARAM_SIZE) :
    TagsFit w albums n param ↔ ∃ k, MAX_PARAMS - n ≤ k ∧ k < MAX_PARAMS ∧ 58 ∉ fields k ∧
      ∀ j, MAX_PARAMS - n ≤ j → j < k → IsTag albums (fields j) := by
  induction n generalizing param with
  | zero =>
    refine iff_of_false not_false ?_
    rintro ⟨k, hk, hlt, -⟩
    omega
  | succ n ih =>
    obtain ⟨i, hdef⟩ : ∃ i, i = MAX_PARAMS - (n + 1) := ⟨_, rfl⟩
    have hnext : MAX_PARAMS - n = i + 1 := by omega
    have hi : i < MAX_PARAMS := by omega
    obtain ⟨hfield, hshort⟩ := hfields i hdef.ge hi
    have htext : paramText param i = fields i := paramText_of_short hfield hshort
    have hkept (k : Nat) (hk : MAX_PARAMS - n ≤ k) (hlt : k < MAX_PARAMS) :
        (parseTag w albums param i).param[k]? = some (fields k) ∧ (fields k).length < MAX_PARAM_SIZE := by
      rw [parseTag_getElem? hfield hshort (show k ≠ i by omega)]
      exact hfields k (by omega) hlt
    have hfits : TagsFit w albums (n + 1) param ↔
        (58 ∈ fields i → IsTag albums (fields i) ∧ TagsFit w albums n (parseTag w albums param i).param) := by
      rw [← htext, hdef]
      exact Iff.rfl
    rw [hfits, ih (by omega) hkept, ← hdef, hnext]
    constructor
    · intro h
      by_cases hcolon : 58 ∈ fields i
      · obtain ⟨htag, k, hk, hlt, hnone, htags⟩ := h hcolon
        refine ⟨k, Nat.le_of_succ_le hk, hlt, hnone, fun j hj hjk => ?_⟩
        rcases Nat.eq_or_lt_of_le hj with rfl | hj
        · exact htag
        · exact htags j hj hjk
      · exact ⟨i, Nat.le_refl i, hi, hcolon, fun j hj hji => absurd hj (Nat.not_le.mpr hji)⟩
    · rintro ⟨k, hk, hlt, hnone, htags⟩ hcolon
      have hne : i ≠ k := fun heq => hnone (heq ▸ hcolon)
      have hik : i < k := Nat.lt_of_le_of_ne hk hne
      exact ⟨htags i (Nat.le_refl i) hik, k, hik, hlt, hnone, fun j hj hjk => htags j (Nat.le_of_succ_le hj) hjk⟩

end Short

section Reply
variable {w : Pointer} {data : CliData} {param : List (List UInt8)}

theorem read_inside (h : Ended param) {i : Nat} (hi : i < MAX_PARAMS) : (touchParam i (paramText param i).length).Inside :=
  h.touchParam_inside hi (Nat.le_refl _)

/-- The titles that a radio station played are looked at from the second one on. -/
theorem history_inside_iff : AllInside (((List.range (CLI_MAX_TRACKS + 1)).reverse).map fun i =>
    ⟨.titleHistory, ↑(entry data.title_history (i + 1)).length⟩) ↔
      ∀ k, 1 ≤ k → k < 10 → (entry data.title_history k).length < 50 := by
  rw [AllInside, List.forall_mem_map]
  constructor
  · intro h k hk hlt
    have hmem : k - 1 ∈ (List.range (CLI_MAX_TRACKS + 1)).reverse := by
      rw [List.mem_reverse, List.mem_range]
      simp only [CLI_MAX_TRACKS]
      omega
    have hk' := inside_natCast.mp (h (k - 1) hmem)
    rwa [Nat.sub_add_cancel hk] at hk'
  · intro h i hi
    rw [List.mem_reverse, List.mem_range] at hi
    simp only [CLI_MAX_TRACKS] at hi
    exact inside_natCast.mpr (h (i + 1) (by omega) (by omega))

theorem length_titleLine_nil_le (data : CliData) (title mark : List UInt8) :
    (titleLine data title []).length ≤ (titleLine data title mark).length := by
  simp only [titleLine, List.append_nil, List.length_append]
  omega

/-- The longer one of the two lines for a title decides. -/
theorem titleLines_inside_iff (h : Ended param) (mark : List UInt8) :
    AllInside ((if data.index_info = data.index_playing then
        [⟨.string, ↑(titleLine data (paramText param 2) mark).length⟩] else []) ++
      [touchParam 2 (paramText param 2).length, ⟨.string, ↑(titleLine data (paramText param 2) []).length⟩]) ↔
        (titleLine data (paramText param 2) (if data.index_info = data.index_playing then mark else [])).length < 200 := by
  have hread := read_inside h (show 2 < MAX_PARAMS by decide)
  have hshorter := length_titleLine_nil_le data (paramText param 2) mark
  split
  · rw [List.singleton_append, allInside_cons, allInside_cons, allInside_cons, inside_natCast, inside_natCast,
      and_iff_right hread, and_iff_left allInside_nil]
    exact ⟨fun hin => hin.1, fun hlt => ⟨hlt, hshorter.trans_lt hlt⟩⟩
  · rw [List.nil_append, allInside_cons, allInside_cons, inside_natCast, and_iff_right hread, and_iff_left allInside_nil]
    exact Iff.rfl

theorem parsePlaylist_inside_iff (h : Ended param) : AllInside (parsePlaylist data param) ↔ PlaylistFits data param := by
  have hname : (touchParam 0 5).Inside := touchParam_inside_of_lt (by decide) (by decide)
  have hnumber := read_inside h (show 1 < MAX_PARAMS by decide)
  have hread := read_inside h (show 2 < MAX_PARAMS by decide)
  rw [parsePlaylist, PlaylistFits]
  dsimp only
  rw [allInside_cons, and_iff_right hname]
  by_cases htracks : (ascii "tracks").isPrefixOf (paramText param 0) = true
  · rw [if_pos htracks, if_pos htracks, allInside_cons, and_iff_right hnumber]
    split
    · next hone => rw [history_inside_iff, forall_prop_of_true hone.1, forall_prop_of_true hone.2]
    · next hone => exact iff_of_true allInside_nil fun hnum hstream => absurd ⟨hnum, hstream⟩ hone
  rw [if_neg htracks, if_neg htracks]
  by_cases hartist : (ascii "artist").isPrefixOf (paramText param 0) = true
  · rw [if_pos hartist, if_pos (.inl hartist), allInside_cons, allInside_cons, inside_natCast, and_iff_right hread,
      and_iff_left allInside_nil]
    exact Iff.rfl
  rw [if_neg hartist]
  by_cases halbum : (ascii "album").isPrefixOf (paramText param 0) = true
  · rw [if_pos halbum, if_pos (.inr halbum), allInside_cons, allInside_cons, inside_natCast, and_iff_right hread,
      and_iff_left allInside_nil]
    exact Iff.rfl
  rw [if_neg halbum, if_neg (not_or.mpr ⟨hartist, halbum⟩)]
  by_cases htitle : (ascii "title").isPrefixOf (paramText param 0) = true
  · rw [if_pos htitle, if_pos htitle]
    split
    · rw [allInside_cons, allInside_cons, inside_natCast, and_iff_right hread, and_iff_left allInside_nil]
      exact Iff.rfl
    · exact titleLines_inside_iff h _
  rw [if_neg htitle, if_neg htitle, iff_true]
  split
  · rw [allInside_cons]
    exact ⟨hnumber, allInside_nil⟩
  · exact allInside_nil

theorem Ended.parseVersion (h : Ended param) : Ended (parseVersion param) := by
  rw [CliTouches.parseVersion]
  split
  · exact h.strtokParam 0 0
  · split
    · exact (h.strtokParam 0 0).strtokParam 0 _
    · exact ((h.strtokParam 0 0).strtokParam 0 _).strtokParam 0 _

/-- The reply parser touches nothing else if and only if it has what it looks for, and then leaves an ended table. -/
theorem parseResponse_spec (h : Ended param) (cmd : List UInt8) :
    (AllInside (parseResponse w data cmd param).touches ↔ ReplyFits w data cmd param) ∧
      (ReplyFits w data cmd param → (parseResponse w data cmd param).crashed = false) ∧
      Ended (parseResponse w data cmd param).param := by
  rw [parseResponse, ReplyFits]
  by_cases hplaylist : (ascii "playlist").isPrefixOf cmd = true
  · rw [if_pos hplaylist, if_pos hplaylist]
    exact ⟨parsePlaylist_inside_iff h, fun _ => rfl, h⟩
  rw [if_neg hplaylist, if_neg hplaylist]
  by_cases hversion : (ascii "version").isPrefixOf cmd = true
  · rw [if_pos hversion, if_pos hversion]
    exact ⟨iff_of_true allInside_nil trivial, fun _ => rfl, h.parseVersion⟩
  rw [if_neg hversion, if_neg hversion]
  by_cases htags : (ascii "albums").isPrefixOf cmd = true ∨ (ascii "titles").isPrefixOf cmd = true
  · rw [if_pos htags, if_pos htags]
    obtain ⟨hinside, hruns, hended⟩ :
        (AllInside (parseTags w ((ascii "albums").isPrefixOf cmd) (MAX_PARAMS - 2) param).touches ↔ _) ∧ _ ∧ _ :=
      parseTags_spec _ (by decide) h
    dsimp only
    split
    · next hstops =>
      have hno : ¬ TagsFit w ((ascii "albums").isPrefixOf cmd) (MAX_PARAMS - 2) param := fun hf => by
        rw [hruns hf] at hstops
        exact absurd hstops (by decide)
      exact ⟨iff_of_false (fun hin => hno (hinside.mp hin)) (fun hf => hno hf.1), fun hf => absurd hf.1 hno, hended⟩
    · next hgoes =>
      refine ⟨?_, fun _ => Bool.eq_false_iff.mpr hgoes, hended⟩
      rw [allInside_append, allInside_cons, hinside, inside_natCast, and_iff_left allInside_nil]
      exact Iff.rfl
  · rw [if_neg htags, if_neg htags]
    exact ⟨iff_of_true allInside_nil trivial, fun _ => rfl, h⟩

end Reply

section Lines
variable {w : Pointer} (theChar : Nat → UInt8) (decodedPlayerId : List UInt8) (cliData : Nat → CliData)
  {param : List (List UInt8)} {n : Nat} {line : Nat × List UInt8}

/-- A line of a text with room for the pointers that `strtok_r` saves. -/
theorem decodeLine_spec (h : Ended param) (hn : w.size ≤ n) (hline : line.1 + line.2.length < RECV_BUF_SIZE_CLI) :
    (AllInside (decodeLine w theChar decodedPlayerId cliData n param line).touches ↔
        LineFits w theChar decodedPlayerId cliData param line) ∧
      (LineFits w theChar decodedPlayerId cliData param line →
        (decodeLine w theChar decodedPlayerId cliData n param line).crashed = false ∧
          Ended (decodeLine w theChar decodedPlayerId cliData n param line).param) := by
  have hbuf (t : Nat × List UInt8) (ht : t ∈ tokensAt 32 line.1 line.2) : t.1 + t.2.length < RECV_BUF_SIZE_CLI :=
    (end_le_of_mem_tokensAt ht).trans_lt hline
  have hfront : AllInside [⟨.recvbufBack, ↑(line.1 + line.2.length)⟩, ⟨.tokenBuffer n, ↑(w.size - 1)⟩] := by
    have hsave : w.size - 1 < n := by cases w <;> simp only [Pointer.size] at * <;> omega
    rw [allInside_cons, allInside_cons, inside_natCast, inside_natCast]
    exact ⟨hline, hsave, allInside_nil⟩
  have hid : (⟨.playerId, ↑(MAX_ID_SIZE - 1)⟩ : Touch).Inside := ⟨by decide, by decide⟩
  have hcommand : (⟨.cmd, ↑(MAX_CMD_SIZE - 1)⟩ : Touch).Inside := ⟨by decide, by decide⟩
  have hnull (touches : List Touch) : ¬ AllInside (touches ++ [⟨.null, 0⟩]) := by
    rw [allInside_append, allInside_cons]
    exact fun hin => null_not_inside hin.2.1
  unfold decodeLine LineFits
  cases htokens : tokensAt 32 line.1 line.2 with
  | nil => exact ⟨iff_of_false (hnull _) not_false, False.elim⟩
  | cons word words =>
    rw [htokens] at hbuf
    obtain ⟨hword, hwords⟩ := List.forall_mem_cons.mp hbuf
    have hdecode : AllInside ([⟨.recvbufBack, ↑(line.1 + line.2.length)⟩, ⟨.tokenBuffer n, ↑(w.size - 1)⟩] ++
        decodeTouches theChar word ++ [⟨.playerId, ↑(MAX_ID_SIZE - 1)⟩]) ↔ FitsDecoder word.2 := by
      rw [allInside_append, allInside_append, decodeTouches_inside_iff theChar hword, and_iff_right hfront, allInside_cons]
      exact and_iff_left ⟨hid, allInside_nil⟩
    dsimp only
    by_cases hown : (cliDecodeString (theChar word.1) word.2).isPrefixOf decodedPlayerId = true
    · rw [if_pos hown, forall_prop_of_true hown]
      cases words with
      | nil => exact ⟨iff_of_false (hnull _) fun hf => hf.2, fun hf => hf.2.elim⟩
      | cons cmd params =>
        obtain ⟨hcmd, hparams⟩ := List.forall_mem_cons.mp hwords
        obtain ⟨hinside, hended⟩ := parseParameters_inside_iff theChar h 0 hparams
        have hcmd' : (⟨.recvbufBack, ↑(cmd.1 + cmd.2.length)⟩ : Touch).Inside := inside_natCast.mpr hcmd
        dsimp only
        constructor
        · rw [allInside_append, allInside_append, hdecode, allInside_cons, allInside_cons, and_iff_right hcmd',
            and_iff_right hcommand, hinside, and_assoc]
          exact and_congr_right fun _ => and_congr_right fun hp => (parseResponse_spec (hended hp) _).1
        · rintro ⟨hf, hp, hr⟩
          exact (parseResponse_spec (hended hp) _).2.imp (fun hc => hc hr) id
    · rw [if_neg hown, hdecode]
      exact ⟨⟨fun hf => ⟨hf, fun ho => absurd ho hown⟩, fun hf => hf.1⟩, fun _ => ⟨rfl, h⟩⟩

theorem decodeLines_inside_iff (h : Ended param) (hn : w.size ≤ n) {lines : List (Nat × List UInt8)}
    (hlines : ∀ line ∈ lines, line.1 + line.2.length < RECV_BUF_SIZE_CLI) :
    AllInside (decodeLines w theChar decodedPlayerId cliData n param lines) ↔
      LinesFit w theChar decodedPlayerId cliData n param lines := by
  induction lines generalizing param with
  | nil => exact iff_of_true allInside_nil trivial
  | cons line lines ih =>
    obtain ⟨hline, hlines⟩ := List.forall_mem_cons.mp hlines
    obtain ⟨hinside, hgoes⟩ := decodeLine_spec theChar decodedPlayerId cliData h hn hline
    rw [decodeLines, LinesFit]
    split
    · next hstops =>
      have hno : ¬ LineFits w theChar decodedPlayerId cliData param line := fun hf => by
        rw [(hgoes hf).1] at hstops
        exact absurd hstops (by decide)
      rw [hinside]
      exact iff_of_false hno fun hf => hno hf.1
    · rw [allInside_append, hinside]
      exact and_congr_right fun hf => ih (hgoes hf).2 hlines

end Lines

/-- A receive is decoded inside of the buffers if and only if it does not fail, leaves a byte of the buffer free, is as long
as a pointer, and all its lines have what the decoder takes for granted. -/
theorem readData_inside_iff (w : Pointer) (theChar : Nat → UInt8) (decodedPlayerId : List UInt8) (cliData : Nat → CliData)
    (received : Option Message) :
    (∀ t ∈ readData w theChar decodedPlayerId cliData received, t.Inside) ↔
      ∃ m, received = some m ∧ m.bytes.length < RECV_BUF_SIZE_CLI ∧
        (m.bytes ≠ [] → w.size ≤ m.bytes.length ∧
          LinesFit w theChar decodedPlayerId cliData m.bytes.length cliResetCmd.param (tokensAt 10 0 m.bytes)) := by
  change AllInside _ ↔ _
  cases received with
  | none =>
    refine iff_of_false ?_ fun ⟨m, hm, _⟩ => by cases hm
    rw [readData, allInside_cons]
    exact fun hin => absurd hin.1.1 (by decide)
  | some m =>
    simp only [Option.some.injEq, exists_eq_left']
    rw [readData]
    split
    · next hnil =>
      have hzero : (⟨.recvbufBack, 0⟩ : Touch).Inside := ⟨by decide, by decide⟩
      simp only [hnil, ne_eq, not_true_eq_false, false_imp_iff, and_true, allInside_cons, allInside_nil, hzero, true_iff]
      decide
    · next hne =>
      have hpos : 0 < m.bytes.length := List.length_pos_iff.mpr hne
      have hle := m.length_le
      have hstored : (⟨.recvbufBack, ↑(m.bytes.length - 1)⟩ : Touch).Inside :=
        inside_natCast.mpr (show m.bytes.length - 1 < RECV_BUF_SIZE_CLI by omega)
      have hreset : AllInside resetTouches := by
        rw [resetTouches, allInside_cons, allInside_cons, allInside_cons]
        exact ⟨⟨by decide, by decide⟩, ⟨by decide, by decide⟩, touchParam_inside_of_lt (by decide) (by decide), allInside_nil⟩
      have hsave : (⟨.tokenBuffer m.bytes.length, ↑(w.size - 1)⟩ : Touch).Inside ↔ w.size ≤ m.bytes.length := by
        rw [inside_natCast]
        change w.size - 1 < m.bytes.length ↔ _
        cases w <;> simp only [Pointer.size] <;> omega
      have hterminated : (⟨.recvbufBack, ↑m.bytes.length⟩ : Touch).Inside ↔ m.bytes.length < RECV_BUF_SIZE_CLI :=
        inside_natCast
      rw [forall_prop_of_true hne, allInside_append, allInside_cons, allInside_cons, allInside_cons, and_iff_right hstored,
        hterminated, hsave, and_assoc, and_iff_right hreset]
      refine and_congr_right fun hroom => and_congr_right fun hsize => ?_
      refine decodeLines_inside_iff theChar decodedPlayerId cliData ended_cliResetCmd hsize fun line hline => ?_
      have hend := end_le_of_mem_tokensAt hline
      omega

/-- `cli_data` before anything has arrived. -/
def noData : CliData where
  tracks := 0
  index_info := 0
  index_playing := 0
  upNext := false
  streamingRadio := false
  title_history := fun _ => 0
  album_index := 0

/-- A line of four spaces. -/
def blankLine : Message := ⟨[32, 32, 32, 32, 10], by decide, by decide⟩

/-- A receive that fails writes in front of the buffer, and a line without a word is read through a null pointer. -/
theorem readData_outside : ¬ (∀ t ∈ readData .bits32 (fun _ => 0) [] (fun _ => noData) none, t.Inside) ∧
    ¬ ∀ t ∈ readData .bits32 (fun _ => 0) [] (fun _ => noData) (some blankLine), t.Inside := by
  constructor
  · intro h
    exact absurd (h ⟨.recvbufBack, -1⟩ (by decide)).1 (by decide)
  · intro h
    exact null_not_inside (h ⟨.null, 0⟩ (by decide))

end Mvpmc.Mclient.CliTouches
