import Mvpmc.Cmyth.ProginfoRcv

/-! The messages that the backend sends on the event connection (`cmyth_event_get`, `event.c`). -/
namespace Mvpmc.Cmyth

/-- `cmyth_event_t`. -/
inductive Event where
  | unknown | close | recordingListChange | recordingListChangeAdd | recordingListChangeUpdate
  | recordingListChangeDelete | scheduleChange | doneRecording | quitLivetv | watchLivetv | livetvChainUpdate | signal
  | askRecording | systemEvent | updateFileSize | generatedPixmap | clearSettingsCache
  deriving DecidableEq, Repr

namespace Event

/-- `strncmp(tmp, s, n) == 0`, where `n` is the length of `s`. -/
def begins (tmp : List UInt8) (s : String) : Bool := (ascii s).isPrefixOf tmp

/-- The event that the second token of a message tells, by the comparisons in their order. -/
def ofToken (tmp : List UInt8) : Event :=
  if tmp = ascii "RECORDING_LIST_CHANGE" then .recordingListChange
  else if begins tmp "RECORDING_LIST_CHANGE ADD" then .recordingListChangeAdd
  else if tmp = ascii "RECORDING_LIST_CHANGE UPDATE" then .recordingListChangeUpdate
  else if begins tmp "RECORDING_LIST_CHANGE DELETE" then .recordingListChangeDelete
  else if tmp = ascii "SCHEDULE_CHANGE" then .scheduleChange
  else if begins tmp "DONE_RECORDING" then .doneRecording
  else if begins tmp "QUIT_LIVETV" then .quitLivetv
  else if begins tmp "LIVETV_WATCH" then .watchLivetv
  else if begins tmp "LIVETV_CHAIN UPDATE" then .livetvChainUpdate
  else if begins tmp "SIGNAL" then .signal
  else if begins tmp "ASK_RECORDING" then .askRecording
  else if begins tmp "CLEAR_SETTINGS_CACHE" then .clearSettingsCache
  else if begins tmp "GENERATED_PIXMAP" then .generatedPixmap
  else if begins tmp "SYSTEM_EVENT" then .systemEvent
  else if begins tmp "UPDATE_FILE_SIZE" then .updateFileSize
  else .unknown

/-- Where the part of the second token starts that is copied to `data`. -/
def dataAt : Event → Option Nat
  | recordingListChangeAdd => some 26
  | recordingListChangeDelete => some 29
  | watchLivetv => some 13
  | livetvChainUpdate => some 20
  | systemEvent => some 13
  | updateFileSize => some 17
  | _ => none

/-- The events whose message holds program information, in a version of the protocol. -/
def hasProginfo (version : Nat) : Event → Bool
  | recordingListChangeUpdate => true
  | askRecording => 37 ≤ version
  | _ => false

end Event

/-- `char tmp[1024]`. -/
abbrev Tmp := Nat → UInt8

/-- `tmp` behind a call that receives a string into it. -/
def Received.write (r : Received) (tmp : Tmp) : Tmp := fun i => if r.zero = some i then 0 else (r.buf[i]?).getD (tmp i)

/-- The string that starts at `tmp + k`. -/
def stringAt (tmp : Tmp) (k : Nat) : List UInt8 := cstring ((List.range (1024 - k)).map fun i => tmp (k + i))

/-- `strncpy(data, s, len)`: the bytes written. -/
def strncpy (s : List UInt8) (len : Nat) : List UInt8 := (s ++ List.replicate len 0).take len

/-- The locals of `cmyth_event_get` while it reads a message. -/
structure Getting where
  conn : Conn
  err : Int
  count : Int
  tmp : Tmp

namespace Getting

/-- `cmyth_rcv_string(conn, &err, tmp, sizeof(tmp) - 1, count)`, with `count` as it was. -/
def rcv (g : Getting) : Received × Getting :=
  let r := rcvString g.conn g.err 1023 g.count
  (r.1, { g with conn := r.2, err := r.1.err, tmp := r.1.write g.tmp })

/-- The same, and `count -= consumed`. -/
def next (g : Getting) : Getting := { g.rcv.2 with count := g.count - g.rcv.1.consumed }

/-- A loop `while (count > 0)`. Each of its rounds consumes something, so the count is enough fuel; where one does not,
the loop goes on for ever (`none`). -/
def whileCount (round : Getting → Getting) : Nat → Getting → Option Getting
  | 0, g => if 0 < g.count then none else some g
  | n + 1, g => if 0 < g.count then Getting.whileCount round n (round g) else some g

/-- The loop at the end. -/
def leftover (g : Getting) : Option Getting := Getting.whileCount next g.count.toNat g

/-- `cmyth_rcv_proginfo` into a new structure, which is released. -/
def proginfo (libc : Libc) (version : Nat) (g : Getting) : Getting :=
  let r := rcvProginfo libc version g.conn g.err Proginfo.create g.count
  { g with conn := r.2, err := r.1.err, count := g.count - r.1.consumed }

end Getting

/-- What a call meets: the contents of its uninitialised variables, the length of `data`, and whether program
information can be allocated. -/
structure Env where
  err : Int
  tmp : Tmp
  len : Nat
  created : Bool

/-- What a call returns: the event, and the bytes written to `data`. -/
structure Gotten where
  event : Event
  data : Option (List UInt8)

/-- What follows the second token, which `tmp` holds: the branch of the event, up to the loop at the end, or `none`
where it jumps to `fail`. -/
def Event.body (libc : Libc) (version : Nat) (env : Env) (event : Event) (g : Getting) :
    Option (Option (Option (List UInt8) × Getting)) :=
  match event with
  | .signal => (Getting.whileCount (fun g => g.next.next) g.count.toNat g).map fun g => some (none, g)
  | .generatedPixmap =>
    let name := g.rcv.2
    if Event.begins (stringAt name.tmp 0) "OK" then
      some (some (some (strncpy (stringAt name.rcv.2.tmp 0) env.len), name.rcv.2))
    else some (some (some [0], name))
  | event =>
    if event.hasProginfo version then
      some (if env.created then some (none, g.proginfo libc version) else none)
    else if event = .askRecording then some (some (none, g.next.next.next.next))
    else some (some (event.dataAt.map fun k => strncpy (stringAt g.tmp k) env.len, g))

/-- `cmyth_event_get` on a connection that is not NULL; `none` where it does not return. -/
def eventGet (libc : Libc) (version : Nat) (env : Env) (conn : Conn) : Option (Gotten × Conn) :=
  let l := rcvLength conn
  if l.1 ≤ 0 then some (⟨.close, none⟩, l.2)
  else
    let first := Getting.next ⟨l.2, env.err, l.1, env.tmp⟩
    if stringAt first.tmp 0 ≠ ascii "BACKEND_MESSAGE" then some (⟨.unknown, none⟩, first.conn)
    else do
      let second := first.next
      let event := Event.ofToken (stringAt second.tmp 0)
      match ← event.body libc version env second with
      | none => return (⟨.unknown, none⟩, second.conn)
      | some (data, g) =>
        let g ← g.leftover
        return (⟨event, data⟩, g.conn)

end Mvpmc.Cmyth
