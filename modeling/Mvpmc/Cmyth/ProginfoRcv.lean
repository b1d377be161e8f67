import Mvpmc.Cmyth.Number

/-! Program information as it comes in a message (`cmyth_rcv_proginfo` and the calls it is made of, `socket.c`,
`timestamp.c`). Memory is taken to be there; what `localtime_r` and the printing of a floating point number
give is an argument. -/
namespace Mvpmc.Cmyth

/-- The bytes of a string of ASCII characters. -/
def ascii (s : String) : List UInt8 := s.toList.map fun c => c.toNat.toUInt8

/-- `struct cmyth_timestamp`. -/
structure Timestamp where
  year : Int
  month : Int
  day : Int
  hour : Int
  minute : Int
  second : Int
  isdst : Int
  deriving DecidableEq, Repr

/-- The functions of the C library that depend on more than their argument: `localtime_r`, and
`snprintf(stars, 16, "%3.1f", atof(s) * 4.0)`. -/
structure Libc where
  localtime : Int → Timestamp
  stars : List UInt8 → List UInt8

namespace Timestamp

/-- A number in the text of a timestamp. -/
def part (s : List UInt8) (start width : Nat) : Int := atoi ((s.drop start).take width)

/-- The places of the text that separate its numbers. -/
def marks (datetime : Bool) : List (Nat × UInt8) :=
  [(4, 0x2D), (7, 0x2D)] ++ if datetime then [(10, 0x54), (13, 0x3A), (16, 0x3A)] else []

/-- All but the places that separate are digits. A zero byte ends the text, so there is none in it. -/
def numerals (datetime : Bool) (s : List UInt8) : Bool :=
  (List.range s.length).all fun i => (marks datetime).any (fun m => m.1 = i) || ((s[i]?).map isDigit).getD true

/-- `cmyth_timestamp_from_string`: `yyyy-mm-ddThh:mm:ss`, or the date alone. -/
def fromString (s : List UInt8) : Option Timestamp :=
  let datetime := s.length = 19
  if s.length ≠ 19 ∧ s.length ≠ 10 then none
  else if (marks datetime).any fun m => s[m.1]? ≠ some m.2 then none
  else if numerals datetime s = false then none
  else if 12 < part s 5 2 then none
  else if 31 < part s 8 2 then none
  else if datetime then
    if 23 < part s 11 2 then none
    else if 59 < part s 14 2 then none
    else if 59 < part s 17 2 then none
    else some ⟨part s 0 4, part s 5 2, part s 8 2, part s 11 2, part s 14 2, part s 17 2, 0⟩
  else some ⟨part s 0 4, part s 5 2, part s 8 2, 0, 0, 0, 0⟩

end Timestamp

/-- What a receiving function leaves: the bytes consumed, the error code and the value it sets. -/
structure Got (α : Type) where
  consumed : Nat
  err : Int
  value : α

/-- `cmyth_rcv_timestamp`, where `ts` is the timestamp there. An empty token leaves it, and so does any token
of one byte: the test for a blank assigns. -/
def rcvTimestamp (conn : Conn) (ts : Option Timestamp) (count : Int) : Got (Option Timestamp) × Conn :=
  if count ≤ 0 then (⟨0, EINVAL, ts⟩, conn)
  else
    let r := rcvString conn 0 19 count
    let tbuf := cstring r.1.token
    if r.1.err ≠ 0 then (⟨r.1.consumed, r.1.err, ts⟩, r.2)
    else if tbuf.length ≤ 1 then (⟨r.1.consumed, 0, ts⟩, r.2)
    else (⟨r.1.consumed, if Timestamp.fromString tbuf = none then -EINVAL else 0, Timestamp.fromString tbuf⟩, r.2)

/-- `cmyth_rcv_datetime`. -/
def rcvDatetime (libc : Libc) (conn : Conn) (ts : Option Timestamp) (count : Int) : Got (Option Timestamp) × Conn :=
  if count ≤ 0 then (⟨0, EINVAL, ts⟩, conn)
  else
    let r := rcvString conn 0 11 count
    if r.1.err ≠ 0 then (⟨r.1.consumed, r.1.err, ts⟩, r.2)
    else (⟨r.1.consumed, 0, some (libc.localtime (atoi r.1.token))⟩, r.2)

/-- `cmyth_rcv_ushort`. -/
def rcvUshort (conn : Conn) (count : Int) : Number × Conn :=
  if count ≤ 0 then (⟨0, EINVAL, 0⟩, conn)
  else
    let r := rcvUlong conn count
    if r.1.err ≠ 0 then r
    else if 65535 < r.1.value then (⟨r.1.consumed, ERANGE, 0⟩, r.2)
    else r

namespace Proginfo

/-- The strings of `struct cmyth_proginfo`. -/
inductive StringField where
  | title | subtitle | description | category | chanstr | chansign | channame | chanicon | url | unknown0 | hostname
  | recPriority | recProfile | recgroup | chancommfree | chanOutputFilters | seriesid | programid | inetref | stars
  | pathname | host | playgroup | recpriority2 | storagegroup
  deriving DecidableEq, Repr

/-- Its timestamps. -/
inductive StampField where
  | startTs | endTs | recStartTs | recEndTs | lastmodified | originalairdate
  deriving DecidableEq, Repr

/-- Its numbers, the port and the version apart. -/
inductive NumberField where
  | season | episode | chanId | length | conflicting | recording | override | sourceId | cardId | inputId | recStatus
  | recordId | recType | recDups | unknown1 | repeats | programFlags | hasairdate | parentid | audioproperties
  | videoproperties | subtitletype | year
  deriving DecidableEq, Repr

end Proginfo
open Proginfo (StringField StampField NumberField)

/-- `struct cmyth_proginfo`. A NULL pointer is `none`. -/
structure Proginfo where
  strings : StringField → Option (List UInt8)
  stamps : StampField → Option Timestamp
  numbers : NumberField → Int
  port : Int
  version : Nat

namespace Proginfo

/-- `cmyth_proginfo_create`. -/
def create : Proginfo where
  strings := fun _ => none
  stamps := fun _ => some ⟨0, 0, 0, 0, 0, 0, 0⟩
  numbers := fun _ => 0
  port := -1
  version := 12

def setString (p : Proginfo) (f : StringField) (s : Option (List UInt8)) : Proginfo :=
  { p with strings := Function.update p.strings f s }

def setStamp (p : Proginfo) (f : StampField) (ts : Option Timestamp) : Proginfo :=
  { p with stamps := Function.update p.stamps f ts }

def setNumber (p : Proginfo) (f : NumberField) (x : Int) : Proginfo :=
  { p with numbers := Function.update p.numbers f x }

/-- `strchr`: what stands in front of the first such byte, and behind it. -/
def strchr (b : UInt8) (s : List UInt8) : Option (List UInt8 × List UInt8) :=
  match s.dropWhile (· ≠ b) with
  | [] => none
  | _ :: rest => some (s.takeWhile (· ≠ b), rest)

/-- `myth://<host>:<port>/<filename>`: the host, the port and the path with its slash. -/
def splitUrl (url : List UInt8) : Option (List UInt8 × List UInt8 × List UInt8) := do
  let h ← strchr 0x3A url
  let p ← strchr 0x2F h.2
  return (h.1, p.1, 0x2F :: p.2)

/-- The path that is stored where the url is none of that form: the url itself, but NULL if it has the start of
one and a colon without a slash behind it. -/
def barePath (url : List UInt8) : Option (List UInt8) :=
  if (ascii "myth://").isPrefixOf url ∧ (strchr 0x3A (url.drop 7)).isSome then none else some url

/-- `cmyth_proginfo_parse_url`. -/
def parseUrl (p : Proginfo) : Proginfo :=
  match p.strings .url with
  | none => p
  | some url =>
    if url = ascii "none" ∨ url = ascii " " then p
    else
      match if (ascii "myth://").isPrefixOf url then splitUrl (url.drop 7) else none with
      | some (host, port, path) => { (p.setString .host (some host)).setString .pathname (some path) with port := atoi port }
      | none => { (p.setString .host (p.strings .hostname)).setString .pathname (barePath url) with port := 6543 }

/-- What a token of program information is read as. -/
inductive Slot where
  | string (f : StringField)
  | chanId
  /-- The name of the channel up to version 7, its icon from then on. -/
  | icon
  | stars
  | ulong (f : NumberField)
  | long (f : NumberField)
  | ushort (f : NumberField)
  /-- `proginfo_Length`, two tokens before version 57. -/
  | length
  | datetime (f : StampField)
  | timestamp (f : StampField)
  deriving DecidableEq, Repr

/-- The timestamps are numbers from version 14 on. -/
def stamp (version : Nat) (f : StampField) : Slot := if 14 ≤ version then .datetime f else .timestamp f

/-- Slots of some versions only. -/
def given (c : Bool) (slots : List Slot) : List Slot := if c then slots else []

/-- The tokens of program information in a version of the protocol, in order. -/
def slots (version : Nat) : List Slot :=
  [.string .title, .string .subtitle, .string .description] ++
  given (67 ≤ version) [.ushort .season, .ushort .episode] ++
  [.string .category, .chanId, .string .chanstr, .string .chansign, .icon, .string .url, .length, stamp version .startTs,
    stamp version .endTs] ++
  given (version < 57) [if 8 ≤ version then .string .unknown0 else .ulong .conflicting, .ulong .recording] ++
  [.ulong .override, .string .hostname, .long .sourceId, .long .cardId, .long .inputId, .string .recPriority,
    .long .recStatus, .ulong .recordId, .ulong .recType, .ulong .recDups] ++
  given (8 ≤ version) [.ulong .unknown1] ++
  [stamp version .recStartTs, stamp version .recEndTs] ++
  given (version < 57) [.ulong .repeats] ++
  [.ulong .programFlags] ++
  given (8 ≤ version) [.string .recgroup] ++
  given (8 ≤ version && version < 57) [.string .chancommfree] ++
  given (8 ≤ version) [.string .chanOutputFilters, .string .seriesid, .string .programid] ++
  given (67 ≤ version) [.string .inetref] ++
  given (12 ≤ version) [stamp version .lastmodified, .stars,
    if 14 ≤ version && version ≤ 32 then .datetime .originalairdate else .timestamp .originalairdate] ++
  given (15 ≤ version && version < 57) [.ulong .hasairdate] ++
  given (18 ≤ version) [.string .playgroup] ++
  given (25 ≤ version) [.string .recpriority2] ++
  given (31 ≤ version) [.long .parentid] ++
  given (32 ≤ version) [.string .storagegroup] ++
  given (35 ≤ version) [.ulong .audioproperties, .ulong .videoproperties, .ulong .subtitletype] ++
  given (43 ≤ version) [.ushort .year]

/-- `proginfo_channame` and `proginfo_chanicon`; a channel name is made up of the two other names. -/
def setIcon (p : Proginfo) (s : List UInt8) : Proginfo :=
  if 8 ≤ p.version then
    let null := ascii "(null)"
    (p.setString .chanicon (some s)).setString .channame
      (some ((p.strings .chanstr).getD null ++ [0x20] ++ (p.strings .chansign).getD null))
  else (p.setString .channame (some s)).setString .chanicon (some [])

/-- A string is received into `tmp_str`, which has room for 32767 bytes. -/
def rcvText (conn : Conn) (err : Int) (count : Int) (p : Proginfo) (store : List UInt8 → Proginfo) : Got Proginfo × Conn :=
  let r := rcvString conn err 32767 count
  (⟨r.1.consumed, r.1.err, if r.1.err ≠ 0 then p else store (cstring r.1.token)⟩, r.2)

/-- A number that is received is stored. -/
def rcvNumber (r : Number × Conn) (p : Proginfo) (f : NumberField) : Got Proginfo × Conn :=
  (⟨r.1.consumed, r.1.err, if r.1.err ≠ 0 then p else p.setNumber f r.1.value⟩, r.2)

/-- A timestamp is stored by the function that receives it. -/
def rcvStamp (r : Got (Option Timestamp) × Conn) (p : Proginfo) (f : StampField) : Got Proginfo × Conn :=
  (⟨r.1.consumed, r.1.err, p.setStamp f r.1.value⟩, r.2)

/-- One step of `cmyth_rcv_proginfo`. -/
def Slot.rcv (libc : Libc) (slot : Slot) (conn : Conn) (err : Int) (p : Proginfo) (count : Int) : Got Proginfo × Conn :=
  match slot with
  | .string f => rcvText conn err count p fun s => p.setString f (some s)
  | .chanId => rcvText conn err count p fun s => p.setNumber .chanId (atoi s)
  | .icon => rcvText conn err count p p.setIcon
  | .stars => rcvText conn err count p fun s => p.setString .stars (some (libc.stars s))
  | .ulong f => rcvNumber (rcvUlong conn count) p f
  | .long f => rcvNumber (rcvLong conn (p.numbers f) count) p f
  | .ushort f => rcvNumber (rcvUshort conn count) p f
  | .length => rcvNumber (rcvNewInt64 p.version conn (p.numbers .length) count true) p .length
  | .datetime f => rcvStamp (rcvDatetime libc conn (p.stamps f) count) p f
  | .timestamp f => rcvStamp (rcvTimestamp conn (p.stamps f) count) p f

/-- The steps of `cmyth_rcv_proginfo`, up to the first that fails; the bytes consumed add up. -/
def rcvSlots (libc : Libc) : List Slot → Conn → Int → Proginfo → Int → Got Proginfo × Conn
  | [], conn, err, p, _ => (⟨0, err, p.parseUrl⟩, conn)
  | slot :: slots, conn, err, p, count =>
    let r := slot.rcv libc conn err p count
    if r.1.err ≠ 0 then r
    else
      let t := rcvSlots libc slots r.2 r.1.err r.1.value (count - r.1.consumed)
      (⟨r.1.consumed + t.1.consumed, t.1.err, t.1.value⟩, t.2)

end Proginfo

/-- `cmyth_rcv_proginfo` on a connection of this version; `err` is the value of `*err` before the call. -/
def rcvProginfo (libc : Libc) (version : Nat) (conn : Conn) (err : Int) (p : Proginfo) (count : Int) :
    Got Proginfo × Conn :=
  if count ≤ 0 then (⟨0, EINVAL, p⟩, conn)
  else Proginfo.rcvSlots libc (Proginfo.slots version) conn err { p with version := version } count

end Mvpmc.Cmyth
