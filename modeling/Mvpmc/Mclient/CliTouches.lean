import Mvpmc.Mclient.TitleHistory
import Mvpmc.Mclient.CoverCache
import Mvpmc.Playlist.FileList

/-! The memory that one receive of the command line interface touches (`cli_read_data`, `mclient_cli.c`): the reading, the
decoding, and of the reply parser the branches for `playlist`, `albums` and `titles`, with what the branch for `version`
does to the parameters. A touch of memory behind a string stands for the bytes in front of it too. -/
namespace Mvpmc.Mclient.CliTouches
open Mvpmc.Lib
open Mvpmc.Playlist (ascii)
open Mvpmc.Cmyth (atoi)

def RECV_BUF_SIZE_CLI : Nat := 32768

/-- A pointer in memory, which `strtok_r` saves. -/
inductive Pointer where
  | bits32
  | bits64

def Pointer.size : Pointer → Nat
  | bits32 => 4
  | bits64 => 8

inductive Place where
  | null
  | recvbufBack
  /-- `buf` of `cli_decode_string` -/
  | decodeBuf
  /-- `token_buffer` and `token_buffer_overall`, of as many bytes as the text has -/
  | tokenBuffer (n : Nat)
  | playerId
  | cmd
  | param
  | artist
  | album
  /-- an entry of `title_history` -/
  | titleHistory
  /-- `string` of `cli_parse_playlist` -/
  | string
  /-- `tag`, and `id_buffer`, of the reply parser -/
  | tag
  | idBuffer
  /-- the tables of six albums -/
  | coverArt
  deriving DecidableEq

def Place.size : Place → Nat
  | null => 0
  | recvbufBack => RECV_BUF_SIZE_CLI
  | decodeBuf => MAX_REPLY_LENGTH
  | tokenBuffer n => n
  | playerId => MAX_ID_SIZE
  | cmd => MAX_CMD_SIZE
  | param => MAX_PARAMS * MAX_PARAM_SIZE
  | artist => 50
  | album => 50
  | titleHistory => 50
  | string => 200
  | tag => 50
  | idBuffer => 20
  | coverArt => 6

/-- The last of the bytes that are read or written in a row. -/
structure Touch where
  place : Place
  last : Int
  deriving DecidableEq

def Touch.Inside (t : Touch) : Prop := 0 ≤ t.last ∧ t.last < t.place.size

/-- Of `cli_data` and the clock what the branches look at. -/
structure CliData where
  tracks : Int
  index_info : Int
  index_playing : Int
  /-- `now_playing_timeout > time(NULL)` -/
  upNext : Bool
  /-- `cli_fullscreen_widget_state == STREAMING_RADIO` -/
  streamingRadio : Bool
  title_history : Nat → UInt8
  /-- `album_index_1_of_6_for_cover_art` -/
  album_index : Nat

/-- The parameters after a piece of the work, the memory touched in it, and whether it ended at a missing token. -/
structure Outcome where
  param : List (List UInt8)
  touches : List Touch
  crashed : Bool := false

section Table

/-- The string that begins in the first of some fields. -/
def textOf : List (List UInt8) → List UInt8
  | [] => []
  | field :: fields => if field.length < MAX_PARAM_SIZE then field else field ++ textOf fields

/-- The string at `param[i]`. -/
def paramText (param : List (List UInt8)) (i : Nat) : List UInt8 := textOf (param.drop i)

/-- A zero is written to the table. -/
def cutAt (p : Nat) (param : List (List UInt8)) : List (List UInt8) :=
  param.modify (p / MAX_PARAM_SIZE) fun field => field.take (p % MAX_PARAM_SIZE)

/-- A byte of the string at `param[i]`, or the zero behind it. -/
def touchParam (i n : Nat) : Touch := ⟨.param, ↑(MAX_PARAM_SIZE * i + n)⟩

/-- `strtok_r` on a string: the token (nothing where there is none), where it ends, and what is left for the next call. -/
def strtok (d : UInt8) (text : List UInt8) : List UInt8 × Nat × List UInt8 :=
  let found := text.dropWhile (· = d)
  let token := found.takeWhile (· ≠ d)
  (token, text.length - found.length + token.length, (found.dropWhile (· ≠ d)).tail)

/-- `strtok_r` at a byte of the string at `param[i]`, with what is left there of the string. -/
def strtokParam (d : UInt8) (i start : Nat) (text : List UInt8) (param : List (List UInt8)) : Outcome :=
  let stop := (strtok d text).2.1
  { param := if stop < text.length ∧ (strtok d text).1 ≠ [] then cutAt (MAX_PARAM_SIZE * i + start + stop) param else param
    touches := [touchParam i (start + stop)]
    crashed := (strtok d text).1 = [] }

end Table

section Parse

/-- The tags whose value the reply parser reads. -/
def valueTags (albums : Bool) : List (List UInt8) :=
  [ascii "id", ascii "artist", ascii "rescan", ascii "artwork_track_id"] ++ if albums then [ascii "album"] else []

instance (albums : Bool) (text : List UInt8) : Decidable (text ∈ valueTags albums) :=
  decidable_of_iff ((valueTags albums).any (· == text) = true) (by simp)

/-- One turn of the loop over the tags. -/
def parseTag (w : Pointer) (albums : Bool) (param : List (List UInt8)) (i : Nat) : Outcome :=
  let text := paramText param i
  let tag := strtokParam 58 i 0 text param
  let value := (strtok 58 text).2.2
  let front : List Touch := ⟨.idBuffer, ↑(w.size - 1)⟩ :: tag.touches
  if tag.crashed then { tag with touches := front ++ [⟨.null, 0⟩] }
  else if (strtok 58 text).1 ∈ valueTags albums then
    let number := strtokParam 10 i (text.length - value.length) value tag.param
    { number with touches := front ++ ⟨.tag, 49⟩ :: number.touches ++ if number.crashed then [⟨.null, 0⟩] else [] }
  else { tag with touches := front ++ [⟨.tag, 49⟩] }

/-- The loop over the tags, where `n` fields are left; the field is looked at before the index. -/
def parseTags (w : Pointer) (albums : Bool) : Nat → List (List UInt8) → Outcome
  | 0, param => { param := param, touches := [touchParam MAX_PARAMS ((paramText param MAX_PARAMS).takeWhile (· ≠ 58)).length] }
  | n + 1, param =>
    let i := MAX_PARAMS - (n + 1)
    let look := touchParam i ((paramText param i).takeWhile (· ≠ 58)).length
    if 58 ∈ paramText param i then
      let turn := parseTag w albums param i
      if turn.crashed then { turn with touches := look :: turn.touches }
      else
        let rest := parseTags w albums n turn.param
        { rest with touches := look :: turn.touches ++ rest.touches }
    else { param := param, touches := [look] }

/-- The numbered line for a title. -/
def titleLine (data : CliData) (title mark : List UInt8) : List UInt8 :=
  printInt (data.index_info + 1) ++ ascii ") " ++ title ++ mark

/-- `cli_parse_playlist` -/
def parsePlaylist (data : CliData) (param : List (List UInt8)) : List Touch :=
  let name := paramText param 0
  let number := touchParam 1 (paramText param 1).length
  let title := paramText param 2
  let read := touchParam 2 title.length
  touchParam 0 5 ::
    if (ascii "tracks").isPrefixOf name then
      number :: if atoi (paramText param 1) = 1 ∧ data.streamingRadio = false then
        ((List.range (CLI_MAX_TRACKS + 1)).reverse).map fun i => ⟨.titleHistory, ↑(entry data.title_history (i + 1)).length⟩
      else []
    else if (ascii "artist").isPrefixOf name then [read, ⟨.artist, ↑title.length⟩]
    else if (ascii "album").isPrefixOf name then [read, ⟨.album, ↑title.length⟩]
    else if (ascii "title").isPrefixOf name then
      if data.tracks = 1 then [read, ⟨.string, ↑(ascii "Streaming:   " ++ title).length⟩]
      else
        (if data.index_info = data.index_playing then
          let mark := if data.upNext then ascii " <- Up Next" else ascii " <- Now Playing"
          [⟨.string, ↑(titleLine data title mark).length⟩]
        else []) ++ [read, ⟨.string, ↑(titleLine data title []).length⟩]
    else if (ascii "index").isPrefixOf name then [number]
    else []

/-- The branch for `version`, which takes three numbers off the first parameter. -/
def parseVersion (param : List (List UInt8)) : List (List UInt8) :=
  let text := paramText param 0
  let major := strtokParam 46 0 0 text param
  let text' := (strtok 46 text).2.2
  let minor := strtokParam 46 0 (text.length - text'.length) text' major.param
  let text'' := (strtok 46 text').2.2
  if major.crashed then major.param
  else if minor.crashed then minor.param
  else (strtokParam 46 0 (text.length - text''.length) text'' minor.param).param

/-- `cli_parse_response` -/
def parseResponse (w : Pointer) (data : CliData) (cmd : List UInt8) (param : List (List UInt8)) : Outcome :=
  if (ascii "playlist").isPrefixOf cmd then { param := param, touches := parsePlaylist data param }
  else if (ascii "version").isPrefixOf cmd then { param := parseVersion param, touches := [] }
  else if (ascii "albums").isPrefixOf cmd ∨ (ascii "titles").isPrefixOf cmd then
    let tags := parseTags w ((ascii "albums").isPrefixOf cmd) (MAX_PARAMS - 2) param
    if tags.crashed then tags else { tags with touches := tags.touches ++ [⟨.coverArt, data.album_index⟩] }
  else { param := param, touches := [] }

end Parse

section Decode
variable (w : Pointer) (theChar : Nat → UInt8) (decodedPlayerId : List UInt8) (cliData : Nat → CliData)

/-- `cli_decode_string` on a word in the receive buffer. -/
def decodeTouches (word : Nat × List UInt8) : List Touch :=
  ⟨.recvbufBack, ↑(word.1 + word.2.length)⟩ ::
    if MAX_REPLY_LENGTH < word.2.length then []
    else
      [⟨.decodeBuf, ↑(decodeFrom (theChar word.1) word.2).length⟩,
        ⟨.recvbufBack, ↑(word.1 + (cliDecodeString (theChar word.1) word.2).length)⟩]

/-- A parameter is copied, and a newline at its end is taken away. -/
def storeParam (param : List (List UInt8)) (i : Nat) (field : List UInt8) : List (List UInt8) :=
  let param := param.set i field
  let text := paramText param i
  if text.getLast? = some 10 then cutAt (MAX_PARAM_SIZE * i + (text.length - 1)) param else param

/-- `cli_parse_parameters`, from some field on. -/
def parseParameters (param : List (List UInt8)) (i : Nat) : List (Nat × List UInt8) → Outcome
  | [] => { param := param, touches := [] }
  | word :: words =>
    if i < MAX_PARAMS then
      let field := paramField (theChar word.1) word.2
      let rest := parseParameters (storeParam param i field) (i + 1) words
      { rest with
        touches := decodeTouches theChar word ++ touchParam i (MAX_PARAM_SIZE - 1) ::
          touchParam i (paramText (param.set i field) i).length :: rest.touches }
    else { param := param, touches := [] }

/-- The line of the loop of `cli_decode_response`, in a text of `n` bytes. -/
def decodeLine (n : Nat) (param : List (List UInt8)) (line : Nat × List UInt8) : Outcome :=
  let front : List Touch := [⟨.recvbufBack, ↑(line.1 + line.2.length)⟩, ⟨.tokenBuffer n, ↑(w.size - 1)⟩]
  match tokensAt 32 line.1 line.2 with
  | [] => { param := param, touches := front ++ [⟨.null, 0⟩], crashed := true }
  | word :: words =>
    let front := front ++ decodeTouches theChar word ++ [⟨.playerId, ↑(MAX_ID_SIZE - 1)⟩]
    if (cliDecodeString (theChar word.1) word.2).isPrefixOf decodedPlayerId then
      match words with
      | [] => { param := param, touches := front ++ [⟨.null, 0⟩], crashed := true }
      | cmd :: params =>
        let parsed := parseParameters theChar param 0 params
        let reply := parseResponse w (cliData line.1) (cmd.2.take MAX_CMD_SIZE) parsed.param
        { reply with
          touches := front ++ ⟨.recvbufBack, ↑(cmd.1 + cmd.2.length)⟩ :: ⟨.cmd, ↑(MAX_CMD_SIZE - 1)⟩ ::
            parsed.touches ++ reply.touches }
    else { param := param, touches := front }

def decodeLines (n : Nat) (param : List (List UInt8)) : List (Nat × List UInt8) → List Touch
  | [] => []
  | line :: lines =>
    let o := decodeLine w theChar decodedPlayerId cliData n param line
    if o.crashed then o.touches else o.touches ++ decodeLines n o.param lines

/-- What `recv` stores: no more than it was asked for, and no zero. -/
structure Message where
  bytes : List UInt8
  length_le : bytes.length ≤ RECV_BUF_SIZE_CLI
  no_zero : 0 ∉ bytes

/-- `cli_reset_cmd` -/
def resetTouches : List Touch := [⟨.cmd, 0⟩, ⟨.playerId, 0⟩, touchParam (MAX_PARAMS - 1) 0]

/-- `cli_read_data`, with what `recv` stores, or nothing where it fails. -/
def readData : Option Message → List Touch
  | none => [⟨.recvbufBack, -1⟩]
  | some m =>
    if m.bytes = [] then [⟨.recvbufBack, 0⟩]
    else
      ⟨.recvbufBack, ↑(m.bytes.length - 1)⟩ :: ⟨.recvbufBack, ↑m.bytes.length⟩ ::
        resetTouches ++ ⟨.tokenBuffer m.bytes.length, ↑(w.size - 1)⟩ ::
        decodeLines w theChar decodedPlayerId cliData m.bytes.length cliResetCmd.param (tokensAt 10 0 m.bytes)

end Decode

section Fields

/-- A zero written to one field. -/
theorem cutAt_append {n : Nat} (hn : n < MAX_PARAM_SIZE) (front : List (List UInt8)) (field : List UInt8)
    (fields : List (List UInt8)) :
    cutAt (MAX_PARAM_SIZE * front.length + n) (front ++ field :: fields) = front ++ field.take n :: fields := by
  have hpos : 0 < MAX_PARAM_SIZE := by decide
  have hdiv : (MAX_PARAM_SIZE * front.length + n) / MAX_PARAM_SIZE = front.length := by
    rw [Nat.mul_add_div hpos, Nat.div_eq_of_lt hn, Nat.add_zero]
  have hmod : (MAX_PARAM_SIZE * front.length + n) % MAX_PARAM_SIZE = n := by
    rw [Nat.mul_add_mod, Nat.mod_eq_of_lt hn]
  rw [cutAt, hdiv, hmod, List.modify_eq_take_cons_drop (by simp)]
  simp

/-- The newline at the end of a string that is one field. -/
theorem cutAt_newline {front fields : List (List UInt8)} {field : List UInt8} (hle : field.length ≤ MAX_PARAM_SIZE) :
    (if field.getLast? = some 10 then cutAt (MAX_PARAM_SIZE * front.length + (field.length - 1)) (front ++ field :: fields)
      else front ++ field :: fields) = front ++ chop field :: fields := by
  rw [chop]
  split
  · next hlast =>
    have hpos : 0 < field.length := List.length_pos_of_mem (List.mem_of_getLast? hlast)
    rw [cutAt_append (by omega), List.dropLast_eq_take]
  · rfl

/-- The string runs on through the fields that are full; the induction is on the fields behind its first. -/
theorem cutAt_eq_chopString (front : List (List UInt8)) {fields : List (List UInt8)} {field : List UInt8} (hle : field.length ≤ MAX_PARAM_SIZE)
    (hfields : ∀ f ∈ fields, f.length ≤ MAX_PARAM_SIZE) :
    (if (textOf (field :: fields)).getLast? = some 10 then
        cutAt (MAX_PARAM_SIZE * front.length + ((textOf (field :: fields)).length - 1)) (front ++ field :: fields)
      else front ++ field :: fields) = front ++ (chopString field fields).1 :: (chopString field fields).2 := by
  induction fields generalizing front field with
  | nil =>
    have htext : textOf [field] = field := by
      rw [textOf, textOf, List.append_nil, ite_self]
    rw [htext, chopString]
    exact cutAt_newline hle
  | cons next fields ih =>
    obtain ⟨hnext, hfields⟩ := List.forall_mem_cons.mp hfields
    rw [chopString]
    by_cases hends : field.length < MAX_PARAM_SIZE ∨ next = []
    · rw [if_pos hends]
      have htext : textOf (field :: next :: fields) = field := by
        rcases hends with hshort | rfl
        · rw [textOf, if_pos hshort]
        · have hnil : textOf ([] :: fields) = [] := rfl
          rw [textOf, hnil, List.append_nil, ite_self]
      rw [htext]
      exact cutAt_newline hle
    · rw [if_neg hends]
      obtain ⟨hfull, hne⟩ := not_or.mp hends
      have hrest : textOf (next :: fields) ≠ [] := by
        rw [textOf]
        split
        · exact hne
        · exact List.append_ne_nil_of_left_ne_nil hne _
      have hlen : (textOf (field :: next :: fields)).length = MAX_PARAM_SIZE + (textOf (next :: fields)).length := by
        rw [textOf, if_neg hfull, List.length_append]
        omega
      have hlast : (textOf (field :: next :: fields)).getLast? = (textOf (next :: fields)).getLast? := by
        rw [textOf, if_neg hfull, List.getLast?_append_of_ne_nil _ hrest]
      have hpos : 0 < (textOf (next :: fields)).length := List.length_pos_iff.mpr hrest
      have hplace : MAX_PARAM_SIZE * front.length + ((textOf (field :: next :: fields)).length - 1) =
          MAX_PARAM_SIZE * (front ++ [field]).length + ((textOf (next :: fields)).length - 1) := by
        rw [hlen, List.length_append, List.length_singleton, Nat.mul_succ]
        omega
      have hbehind := ih (front ++ [field]) hnext hfields
      rw [List.append_assoc, List.singleton_append] at hbehind
      rw [hlast, hplace, hbehind, List.append_assoc, List.singleton_append]

theorem storeParam_eq {front fields : List (List UInt8)} {field : List UInt8} (old : List UInt8)
    (hle : field.length ≤ MAX_PARAM_SIZE) (hfields : ∀ f ∈ fields, f.length ≤ MAX_PARAM_SIZE) :
    storeParam (front ++ old :: fields) front.length field =
      front ++ (chopString field fields).1 :: (chopString field fields).2 := by
  have hset : (front ++ old :: fields).set front.length field = front ++ field :: fields := by simp
  have htext : paramText (front ++ field :: fields) front.length = textOf (field :: fields) := by simp [paramText]
  rw [storeParam, hset, htext]
  exact cutAt_eq_chopString front hle hfields

theorem length_chop_le (field : List UInt8) : (chop field).length ≤ field.length := by
  rw [chop]
  split
  · exact (List.dropLast_sublist field).length_le
  · exact Nat.le_refl _

theorem chopString_fits {fields : List (List UInt8)} {field : List UInt8} (hle : field.length ≤ MAX_PARAM_SIZE)
    (hfields : ∀ f ∈ fields, f.length ≤ MAX_PARAM_SIZE) :
    (chopString field fields).1.length ≤ MAX_PARAM_SIZE ∧ ∀ f ∈ (chopString field fields).2, f.length ≤ MAX_PARAM_SIZE := by
  induction fields generalizing field with
  | nil => exact ⟨(length_chop_le field).trans hle, hfields⟩
  | cons next fields ih =>
    obtain ⟨hnext, hrest⟩ := List.forall_mem_cons.mp hfields
    rw [chopString]
    by_cases hends : field.length < MAX_PARAM_SIZE ∨ next = []
    · rw [if_pos hends]
      exact ⟨(length_chop_le field).trans hle, hfields⟩
    · rw [if_neg hends]
      exact ⟨hle, List.forall_mem_cons.mpr (ih hnext hrest)⟩

/-- The parameters are the ones of the decoding that is told without the memory. -/
theorem parseParameters_param (c : UInt8) {front fields : List (List UInt8)} (words : List (Nat × List UInt8))
    (hlen : front.length + fields.length = MAX_PARAMS) (hfields : ∀ f ∈ fields, f.length ≤ MAX_PARAM_SIZE) :
    (parseParameters (fun _ => c) (front ++ fields) front.length words).param =
      front ++ cliParseParameters c fields (words.map Prod.snd) := by
  induction words generalizing front fields with
  | nil => cases fields <;> rfl
  | cons word words ih =>
    rw [parseParameters]
    cases fields with
    | nil =>
      rw [if_neg (by rw [List.length_nil] at hlen; omega)]
      rfl
    | cons old fields =>
      obtain ⟨-, hrest⟩ := List.forall_mem_cons.mp hfields
      rw [List.length_cons] at hlen
      have hle : (paramField c word.2).length ≤ MAX_PARAM_SIZE := List.length_take_le _ _
      have hkept := length_chopString (paramField c word.2) fields
      have hroom : (front ++ [(chopString (paramField c word.2) fields).1]).length +
          (chopString (paramField c word.2) fields).2.length = MAX_PARAMS := by
        rw [List.length_append, List.length_singleton, hkept]
        omega
      have hnext := ih hroom (chopString_fits hle hrest).2
      rw [List.append_assoc, List.singleton_append, List.append_assoc, List.singleton_append, List.length_append,
        List.length_singleton] at hnext
      rw [if_pos (by omega)]
      dsimp only
      rw [storeParam_eq old hle hrest, hnext, List.map_cons, cliParseParameters]

/-- A line leaves the parameters that the decoding without the memory leaves, whatever is handed on. -/
theorem decodeLine_param (w : Pointer) (c : UInt8) (decodedPlayerId : List UInt8) (cliData : Nat → CliData) (n : Nat)
    (line : Nat × List UInt8) {parse : MclientCmd → MclientCmd} {r : MclientCmd}
    (hfields : ∀ f ∈ r.param, f.length ≤ MAX_PARAM_SIZE)
    (hparse : ∀ r, (parse r).param = (parseResponse w (cliData line.1) r.cmd r.param).param) :
    (decodeLine w (fun _ => c) decodedPlayerId cliData n r.param line).param =
      (Mclient.decodeLine c decodedPlayerId parse r line.2).response.param := by
  rw [decodeLine, Mclient.decodeLine, ← map_snd_tokensAt 32 line.1 line.2]
  rcases tokensAt 32 line.1 line.2 with _ | ⟨word, words⟩
  · rfl
  by_cases hmine : (cliDecodeString c word.2).isPrefixOf decodedPlayerId
  · rcases words with _ | ⟨cmd, params⟩
    · simp only [List.map_cons, List.map_nil, if_pos hmine]
    · have hroom : ([] : List (List UInt8)).length + r.param.length = MAX_PARAMS := by
        rw [List.length_nil, Nat.zero_add, r.param_length]
      have hparams : (parseParameters (fun _ => c) r.param 0 params).param = cliParseParameters c r.param (params.map Prod.snd) :=
        parseParameters_param c params hroom hfields
      simp only [List.map_cons, if_pos hmine, hparse, hparams]
  · simp only [List.map_cons, if_neg hmine]

end Fields
end Mvpmc.Mclient.CliTouches
