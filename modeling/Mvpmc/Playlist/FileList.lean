import Mvpmc.Playlist.Nodes
import Mvpmc.Playlist.ReadChr
import Mvpmc.Cmyth.Reply
import Mathlib.Data.List.Infix

/-! Building a playlist from a file with one track a line (`build_playlist_from_file`, `playlist.c`). Memory does not
run out. -/
namespace Mvpmc.Playlist
open Mvpmc.Cmyth (atoi)

def ascii (s : String) : List UInt8 := s.toList.map fun c => UInt8.ofNat c.toNat

/-- The two tables of `is_streaming` (`http_stream.c`). -/
def types : List (List UInt8) := [ascii "http://", ascii "vlc://", ascii "mms://", ascii "mmsh://", ascii "rtsp://"]

def vlcTypes : List (List UInt8) := [
  ascii ".wma", ascii ".WMA", ascii ".divx", ascii ".flv", ascii ".wmv", ascii ".avi", ascii ".DIVX", ascii ".FLV",
  ascii ".WMV", ascii ".AVI", ascii ".mp4", ascii ".MP4", ascii ".rm", ascii ".RM", ascii ".ogm", ascii ".OGM",
  ascii ".iso", ascii ".ISO", ascii ".MKV", ascii ".mkv"]

/-- `is_streaming`. Where the string is shorter than a suffix the memory in `front` of it is compared. -/
def isStreaming (front url : List UInt8) : Int :=
  match if ascii "://" <:+: url then types.findIdx? (·.isPrefixOf url) else none with
  | some i => i
  | none =>
    match vlcTypes.findIdx? fun t => t.isSuffixOf (front ++ url) with
    | some i => 100 + i
    | none => -1

/-- `/` and `\`. -/
def isSeparator (b : UInt8) : Bool := b = 0x2F || b = 0x5C

/-- The directory of a file: what is in front of the last separator, or all if there is none. -/
def dirOf (filename : List UInt8) : List UInt8 :=
  match filename.reverse.dropWhile fun b => !isSeparator b with
  | [] => filename
  | _ :: dir => dir.reverse

def strchr (s : List UInt8) (c : UInt8) : Option Nat := s.findIdx? (· = c)

/-- `strrchr`: the string from the last `c` on. -/
def strrchr (s : List UInt8) (c : UInt8) : Option (List UInt8) :=
  if c ∈ s then some (c :: (s.reverse.takeWhile (· ≠ c)).reverse) else none

/-- The place where the first copy of a string begins in another one. -/
def strpos (s t : List UInt8) : Option Nat := s.tails.findIdx? (t.isPrefixOf ·)

/-- `strstr`: the string from the first place on where the other one begins. -/
def strstr (s t : List UInt8) : Option (List UInt8) := (strpos s t).map s.drop

def toLower (b : UInt8) : UInt8 := if 0x41 ≤ b ∧ b ≤ 0x5A then b + 0x20 else b

/-- What a comment line makes of the name and the seconds for the next entry. -/
def readComment (line : List UInt8) (name : Option (List UInt8)) (seconds : Int) : Option (List UInt8) × Int :=
  match strchr line 0x3A with
  | none => (name, seconds)
  | some sep =>
    let arg := line.drop (sep + 1)
    if ((line.take sep).drop 1).map toLower = ascii "extinf" then
      match strchr arg 0x2C with
      | some comma => (some (arg.drop (comma + 1)), atoi arg)
      | none => (name, atoi arg)
    else (name, atoi arg)

/-- The file of an entry. -/
def pathOf (cwd front line : List UInt8) : List UInt8 :=
  if isSeparator (line.headD 0) then line
  else if 0 ≤ isStreaming front line then line
  else cwd ++ 0x2F :: line

/-- What is shown of an entry that has no name. -/
def shownOf (line : List UInt8) : List UInt8 :=
  if isSeparator (line.headD 0) then (strrchr line 0x2F).getD ((strrchr line 0x5C).getD []) else line

/-- A carriage return at the end is cut off. -/
def strip (ptr : List UInt8) : List UInt8 := if ptr.getLast? = some 13 then ptr.dropLast else ptr

/-- What the code finds around its strings when it makes the entry number `k`: the memory in front of the line buffer,
and the byte in front of the name. -/
structure Surroundings where
  stack : Nat → List UInt8
  heap : Nat → UInt8

/-- The local variables of `build_playlist_from_file`, the items in memory, and the playlist. `line` is what has been put
into the line buffer, `top` how far it has ever been filled, and `under` tells whether a byte in front of a name has been
written. -/
structure Build where
  line : List UInt8 := []
  top : Nat := 0
  name : Option (List UInt8) := none
  seconds : Int := -1
  nodes : List Node := []
  dest : Option Nat := none
  count : Nat := 0
  menu : List (List UInt8 × Nat) := []
  playlist : Option Nat := none
  under : Bool := false

section
variable (mem : Surroundings) (cwd : List UInt8)

/-- The track of the entry number `k`. -/
def trackOf (k : Nat) (line : List UInt8) (name : Option (List UInt8)) (seconds : Int) : Track where
  filename :=
    let filename := pathOf cwd (mem.stack k) line
    if isSeparator (line.headD 0) ∧ name = none then strip filename else filename
  name := name.map strip
  label := strip (name.getD (shownOf line))
  seconds := if seconds ≠ 0 then seconds else -1

namespace Build

/-- A new item for the line in the buffer. -/
def addItem (s : Build) : Build :=
  let track := trackOf mem cwd s.count s.line s.name s.seconds
  { s with
    nodes := appendNode s.nodes s.dest track s.count
    menu := s.menu ++ [(track.label, s.count)]
    playlist := if s.dest = none then some s.nodes.length else s.playlist
    dest := some s.nodes.length
    count := s.count + 1
    under := s.under || (s.name = some [] && mem.heap s.count = 13)
    name := none
    seconds := -1 }

/-- The `switch` on the first byte of the line. -/
def endLine (s : Build) : Build :=
  match s.line with
  | [] => s
  | b :: _ =>
    if b = 0x23 then
      let (name, seconds) := readComment s.line s.name s.seconds
      { s with name := name, seconds := seconds }
    else s.addItem mem cwd

/-- One round of the loop. -/
def put (s : Build) (ch : Int) : Build :=
  let ch := if ch < 0 ∨ ch = 10 ∨ ch = 13 then 0 else ch
  let s := { s with top := max s.top (s.line.length + 1) }
  if ch = 0 then { s.endLine mem cwd with line := [] } else { s with line := s.line ++ [UInt8.ofNat ch.toNat] }

end Build

/-- The loop of `build_playlist_from_file`. -/
def buildLoop (signed : Bool) (pieces : Nat → Nat → Nat) (r : Reader) (s : Build) : Build :=
  if (readChr signed pieces r).1 < 0 then s.put mem cwd (readChr signed pieces r).1
  else buildLoop signed pieces (readChr signed pieces r).2 (s.put mem cwd (readChr signed pieces r).1)
  termination_by r.left.length
  decreasing_by exact readChr_lt (by assumption)

/-- `build_playlist_from_file` once the file is open: what it returns is `count`. There is no playlist before, as
`playlist_idle` sees to. -/
def buildPlaylistFromFile (signed : Bool) (pieces : Nat → Nat → Nat) (filename content junk : List UInt8) : Build :=
  buildLoop mem (dirOf filename) signed pieces (Reader.start content junk) {}

end
end Mvpmc.Playlist
