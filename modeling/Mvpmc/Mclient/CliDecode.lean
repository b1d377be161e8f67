import Mvpmc.Lib.Tokens

/-! The decoding of messages of the command line interface of the music server (`mclient_cli.c`). The save pointers
of `strtok_r` are kept apart from the arrays they are stored in, and what the announcement of a rescan triggers is
left out. -/
namespace Mvpmc.Mclient
open Mvpmc.Lib

def MAX_ID_SIZE : Nat := 32
def MAX_CMD_SIZE : Nat := 1024
def MAX_PARAM_SIZE : Nat := 64
def MAX_PARAMS : Nat := 64
def MAX_REPLY_LENGTH : Nat := 256
def CLI_MAX_TRACKS : Nat := 8

/-- `mclient_cmd`: the bytes in front of the first zero of each field, all of them where there is none. -/
structure MclientCmd where
  playerId : List UInt8
  cmd : List UInt8
  param : List (List UInt8)
  param_length : param.length = MAX_PARAMS
  deriving DecidableEq

/-- `cli_reset_cmd`. -/
def cliResetCmd : MclientCmd where
  playerId := []
  cmd := []
  param := List.replicate MAX_PARAMS []
  param_length := List.length_replicate

/-- The value of a hexadecimal digit. -/
def hexDigitValue (b : UInt8) : Option UInt8 :=
  if 48 ≤ b ∧ b ≤ 57 then some (b - 48)
  else if 97 ≤ b ∧ b ≤ 102 then some (b - 87)
  else if 65 ≤ b ∧ b ≤ 70 then some (b - 55)
  else none

/-- `sscanf` with `%x` on two characters: the value as far as it goes into a `char`, if there is one. -/
def sscanfHex (x y : UInt8) : Option UInt8 :=
  match hexDigitValue x, hexDigitValue y with
  | some a, some b => some (16 * a + b)
  | some a, none => if a = 0 ∧ (y = 120 ∨ y = 88) then none else some a
  | none, some b => if x = 45 then some (0 - b) else if x = 43 ∨ x = 32 ∨ (9 ≤ x ∧ x ≤ 13) then some b else none
  | none, none => none

/-- The loop of `cli_decode_string`. `theChar` keeps its value where nothing is scanned. -/
def decodeFrom (theChar : UInt8) : List UInt8 → List UInt8
  | [] => []
  | 37 :: x :: y :: text =>
    let c := (sscanfHex x y).getD theChar
    c :: decodeFrom c text
  | 37 :: text => decodeFrom theChar text
  | b :: text => b :: decodeFrom theChar text

/-- `cli_decode_string`, where `theChar` is what the variable happens to hold at first. -/
def cliDecodeString (theChar : UInt8) (param : List UInt8) : List UInt8 :=
  if MAX_REPLY_LENGTH < param.length then param else (decodeFrom theChar param).takeWhile (· ≠ 0)

/-- A newline at the end is taken away. -/
def chop (field : List UInt8) : List UInt8 := if field.getLast? = some 10 then field.dropLast else field

/-- The newline is taken away at the end of the string that begins in a field; where the field is full the string
goes on in the next one. Behind the last field there is taken to be a zero. -/
def chopString (field : List UInt8) : List (List UInt8) → List UInt8 × List (List UInt8)
  | [] => (chop field, [])
  | next :: fields =>
    if field.length < MAX_PARAM_SIZE ∨ next = [] then (chop field, next :: fields)
    else
      let r := chopString next fields
      (field, r.1 :: r.2)

/-- What goes into the field of a parameter. -/
def paramField (theChar : UInt8) (param : List UInt8) : List UInt8 :=
  (cliDecodeString theChar param).take MAX_PARAM_SIZE

/-- `cli_parse_parameters`, from some field on. -/
def cliParseParameters (theChar : UInt8) : List (List UInt8) → List (List UInt8) → List (List UInt8)
  | [], _ => []
  | fields, [] => fields
  | _ :: fields, param :: params =>
    let r := chopString (paramField theChar param) fields
    r.1 :: cliParseParameters theChar r.2 params

theorem length_chopString (field : List UInt8) (fields : List (List UInt8)) :
    (chopString field fields).2.length = fields.length := by
  induction fields generalizing field with
  | nil => rfl
  | cons next fields ih =>
    rw [chopString]
    split
    · rfl
    · rw [List.length_cons, ih, List.length_cons]

theorem length_cliParseParameters (theChar : UInt8) (fields params : List (List UInt8)) :
    (cliParseParameters theChar fields params).length = fields.length := by
  induction params generalizing fields with
  | nil => cases fields <;> rfl
  | cons param params ih =>
    cases fields with
    | nil => rfl
    | cons field fields => rw [cliParseParameters, List.length_cons, ih, length_chopString, List.length_cons]

/-- What decoding leaves in the record, the records handed on, and whether a missing word was copied from. -/
structure Decoding where
  response : MclientCmd
  handed : List MclientCmd := []
  crashed : Bool := false

section
variable (theChar : UInt8) (decodedPlayerId : List UInt8) (parse : MclientCmd → MclientCmd)

/-- One line. `parse` is what `cli_parse_response` leaves of the record that it is handed. -/
def decodeLine (r : MclientCmd) (line : List UInt8) : Decoding :=
  match tokens 32 line with
  | [] => { response := r, crashed := true }
  | word :: words =>
    let playerId := cliDecodeString theChar word
    let r := { r with playerId := playerId.take MAX_ID_SIZE }
    if playerId.isPrefixOf decodedPlayerId then
      match words with
      | [] => { response := r, crashed := true }
      | cmd :: params =>
        let r : MclientCmd :=
          { r with
            cmd := cmd.take MAX_CMD_SIZE
            param := cliParseParameters theChar r.param params
            param_length := (length_cliParseParameters ..).trans r.param_length }
        { response := parse r, handed := [r] }
    else { response := r }

/-- The loop of `cli_decode_response`. -/
def decodeLines (r : MclientCmd) : List (List UInt8) → Decoding
  | [] => { response := r }
  | line :: lines =>
    let d := decodeLine theChar decodedPlayerId parse r line
    if d.crashed then d
    else
      let t := decodeLines d.response lines
      { t with handed := d.handed ++ t.handed }

/-- `cli_decode_response`. -/
def cliDecodeResponse (buf : List UInt8) : Decoding :=
  decodeLines theChar decodedPlayerId parse cliResetCmd (tokens 10 (buf.takeWhile (· ≠ 0)))

/-- `cli_read_data`, for one receive after the other: the records handed on, and whether the decoder crashed. -/
def cliReadData : List (List UInt8) → List MclientCmd × Bool
  | [] => ([], false)
  | piece :: pieces =>
    if piece = [] then cliReadData pieces
    else
      let d := cliDecodeResponse theChar decodedPlayerId parse piece
      if d.crashed then (d.handed, true)
      else
        let t := cliReadData pieces
        (d.handed ++ t.1, t.2)

end
end Mvpmc.Mclient
