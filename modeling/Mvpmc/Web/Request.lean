import Mvpmc.Lib.Lines
import Mvpmc.Playlist.FileList

/-! How the web server reads a request, up to the form that is posted with it (`www_mvpmc_start`, `web_config.c`). -/
namespace Mvpmc.Web
open Mvpmc.Lib
open Mvpmc.Cmyth (cstring isSpace)
open Mvpmc.Playlist (ascii toLower strstr)

/-- The size of `line`. -/
def sizeofLine : Nat := 10000

/-- A number as it is kept in `w` bits with a sign. -/
def toSigned (w : Nat) (n : Int) : Int := Int.bmod n (2 ^ w)

/-- `strtol` keeps to the range of a `long`, which has `w` bits. -/
def strtol (w : Nat) (ptr : List UInt8) : Int := max (-2 ^ (w - 1)) (min (2 ^ (w - 1) - 1) (Cmyth.atoi ptr))

/-- `atoi`, which is `strtol` converted to an `int`. -/
def atoi (w : Nat) (ptr : List UInt8) : Int := toSigned 32 (strtol w ptr)

def isxdigit (c : UInt8) : Bool := (48 ≤ c && c ≤ 57) || (65 ≤ c && c ≤ 70) || (97 ≤ c && c ≤ 102)

def hexit (c : UInt8) : UInt8 :=
  if 48 ≤ c ∧ c ≤ 57 then c - 48
  else if 97 ≤ c ∧ c ≤ 102 then c - 97 + 10
  else if 65 ≤ c ∧ c ≤ 70 then c - 65 + 10
  else 0

/-- What `strdecode` stores in front of the zero, for a string. -/
def strdecode : List UInt8 → List UInt8
  | [] => []
  | 37 :: x :: y :: text =>
    if isxdigit x && isxdigit y then (hexit x * 16 + hexit y) :: strdecode text else 37 :: strdecode (x :: y :: text)
  | b :: text => b :: strdecode text

/-- `sscanf` with `"%[^ ] %[^ ] %[^ ]"`: the method, the path and the protocol. -/
def sscanfRequest (line : List UInt8) : Option (List UInt8 × List UInt8 × List UInt8) :=
  let method := line.takeWhile (· ≠ 32)
  let line := (line.dropWhile (· ≠ 32)).dropWhile isSpace
  let path := line.takeWhile (· ≠ 32)
  let line := (line.dropWhile (· ≠ 32)).dropWhile isSpace
  let protocol := line.takeWhile (· ≠ 32)
  if method = [] ∨ path = [] ∨ protocol = [] then none else some (method, path, protocol)

/-- The local variables that the header lines fill. -/
structure Headers where
  contentType : Bool := false
  conlen : Int := 0
  deriving DecidableEq

section
variable (w : Nat)

/-- The number behind `Content-Length:` in a line. -/
def lengthIn (line : List UInt8) : Option Int := (strstr line (ascii "Content-Length:")).map fun ptr => atoi w (ptr.drop 15)

def hasFormType (line : List UInt8) : Bool := (strstr line (ascii "application/x-www-form-urlencoded")).isSome

def isBlank (line : List UInt8) : Bool := line = [10] || line = [13, 10]

/-- The loop over the header lines: the variables behind it, and the lines that have not been read. -/
def readHeaders (h : Headers) : List (List UInt8) → Headers × List (List UInt8)
  | [] => (h, [])
  | line :: lines =>
    let line := cstring line
    let h := if hasFormType line then { h with contentType := true } else h
    match lengthIn w line with
    | some n =>
      let h := { h with conlen := n }
      if n > 5000 then (h, lines) else if isBlank line then (h, lines) else readHeaders h lines
    | none => if isBlank line then (h, lines) else readHeaders h lines

/-- The three forms that can be posted. -/
inductive Form where
  | radio | config | mount
  deriving DecidableEq

/-- What becomes of a request. -/
inductive Answer where
  | error (status : Nat) (title text : String)
  /-- A form is handed on in `line`. -/
  | form (form : Form) (line : List UInt8)
  | file (path : List UInt8)
  deriving DecidableEq

/-- `stored` counts the bytes that `fread` puts into `line`. -/
structure Served where
  stored : Nat := 0
  answer : Answer
  deriving DecidableEq

/-- What is done with the body in `line`. -/
def postForm (mytoken path body : List UInt8) : Answer :=
  match strstr body (ascii "token=") with
  | none => .error 400 "Bad request" "POST received but not accepted"
  | some ptr =>
    let decoded := cstring (strdecode (ptr.drop 6))
    if mytoken.isPrefixOf decoded then
      let line := body.take (body.length - ptr.length + 6) ++ decoded
      if path = ascii "/radio" then .form .radio line
      else if path = ascii "/config" then .form .config line
      else if path = ascii "/mount" then .form .mount line
      else .error 400 "Bad request" "POST received not supported"
    else .error 400 "Request Timeout" "POST Outdated<BR />Please resubmit mvpmc update"

/-- One request, where the stream ends with the last byte that the client sends. A `size_t` has `w` bits too. -/
def serve (mytoken stream : List UInt8) : Served :=
  match lines 10 (sizeofLine - 1) stream with
  | [] => { answer := .error 400 "Bad Request" "No request found." }
  | line :: headers =>
    match sscanfRequest (cstring line) with
    | none => { answer := .error 400 "Bad Request" "Can't parse request." }
    | some (method, path, _) =>
      let (h, rest) := readHeaders w {} headers
      if h.conlen > 5000 ∨ method.map toLower ≠ ascii "get" ∧ method.map toLower ≠ ascii "post" then
        { answer := .error 501 "Not Implemented" "That method is not implemented." }
      else if h.contentType then
        let body := rest.flatten.take (h.conlen % 2 ^ w).toNat
        { stored := body.length, answer := postForm mytoken path (cstring body) }
      else { answer := .file path }

/-- The line that ends the headers: an empty one, or one with a length that is too large. -/
def endsHeaders (line : List UInt8) : Bool := (lengthIn w line).any (· > 5000) || isBlank line

/-- The header lines among all that follow the first one, as strings. -/
def headerLines (lines : List (List UInt8)) : List (List UInt8) :=
  (lines.map cstring).take ((lines.map cstring).findIdx (endsHeaders w) + 1)

/-- The length that the last header about it gives. -/
def contentLength (headers : List (List UInt8)) : Int := ((headers.filterMap (lengthIn w)).getLast?).getD 0

end

section Headers
variable {w : Nat}

theorem readHeaders_cons (h : Headers) (line : List UInt8) (lines : List (List UInt8)) :
    readHeaders w h (line :: lines) =
      let h' : Headers := ⟨h.contentType || hasFormType (cstring line), (lengthIn w (cstring line)).getD h.conlen⟩
      if endsHeaders w (cstring line) then (h', lines) else readHeaders w h' lines := by
  rw [readHeaders, endsHeaders]
  cases hl : lengthIn w (cstring line) <;> cases hf : hasFormType (cstring line) <;> cases hb : isBlank (cstring line) <;>
    simp

/-- What the loop leaves, told by the list of the header lines. -/
theorem readHeaders_eq (h : Headers) (lines : List (List UInt8)) :
    readHeaders w h lines =
      (⟨h.contentType || (headerLines w lines).any hasFormType,
        (((headerLines w lines).filterMap (lengthIn w)).getLast?).getD h.conlen⟩,
        lines.drop (headerLines w lines).length) := by
  induction lines generalizing h with
  | nil => simp [readHeaders, headerLines]
  | cons line lines ih =>
    rw [readHeaders_cons]
    by_cases he : endsHeaders w (cstring line) = true
    · have hl : headerLines w (line :: lines) = [cstring line] := by
        simp [headerLines, List.findIdx_cons, he]
      rw [hl, if_pos he]
      cases hn : lengthIn w (cstring line) <;> simp [hn]
    · have hl : headerLines w (line :: lines) = cstring line :: headerLines w lines := by
        simp [headerLines, List.findIdx_cons, he]
      rw [hl, if_neg he, ih]
      cases hn : lengthIn w (cstring line) <;>
        simp [Bool.or_assoc, List.getLast?_cons, hn]

end Headers
end Mvpmc.Web
