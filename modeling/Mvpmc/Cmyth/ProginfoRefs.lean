import Mvpmc.Lib.Ledger
import Mvpmc.Cmyth.ProginfoRcv

/-! The references that program information is made of (`proginfo.c`, and `cmyth_rcv_proginfo` and
`cmyth_rcv_chaninfo` in `socket.c`). Of the messages only what becomes of each token is here, and of the strings
and timestamps that they are counted. -/
namespace Mvpmc.Cmyth.Refs
open Mvpmc.Lib
open Proginfo (StringField StampField Slot slots)

/-- The fields of `struct cmyth_proginfo` that are references. -/
inductive Field where
  | string (f : StringField)
  | stamp (f : StampField)
  deriving DecidableEq

/-- What is counted: the structures themselves, and the strings and timestamps, which have no destroy function. -/
inductive Block where
  | proginfo (p : Nat)
  | leaf (a : Nat)
  deriving DecidableEq

/-- Blocks are numbered as they are given out. The counters do not wrap: the memory does not last for so many
references. -/
structure Heap where
  refs : Ledger Block
  next : Nat
  fields : Nat → Field → Option Nat

/-- A function of the library. It goes wrong if it holds or releases a block that has been freed. -/
abbrev Run := StateT Heap Option

/-- `ref_alloc` of a string or a timestamp, if there is memory. -/
def refAlloc (mem : Bool) : Run (Option Nat) := fun h =>
  if mem then some (some h.next, { h with refs := h.refs.grant (.leaf h.next), next := h.next + 1 })
  else some (none, h)

/-- `ref_hold` of a string or a timestamp. -/
def refHold : Option Nat → Run (Option Nat)
  | none => pure none
  | some a => fun h => (h.refs.hold (.leaf a)).map fun refs => (some a, { h with refs := refs })

/-- `ref_release` of a string or a timestamp. -/
def refRelease (a : Nat) : Run Unit := fun h =>
  (h.refs.release (.leaf a)).map fun refs => ((), { h with refs := refs })

/-- The fields, after an assignment to one of them. -/
def assign (fields : Nat → Field → Option Nat) (p : Nat) (f : Field) (v : Option Nat) : Nat → Field → Option Nat :=
  Function.update fields p (Function.update (fields p) f v)

def setField (p : Nat) (f : Field) (v : Option Nat) : Run Unit := fun h =>
  some ((), { h with fields := assign h.fields p f v })

/-- `if (p->f) ref_release(p->f)`, which leaves the pointer in the field. -/
def releaseField (p : Nat) (f : Field) : Run Unit := do
  match (← get).fields p f with
  | none => return
  | some a => refRelease a

/-- The fields in the order of `cmyth_proginfo_destroy`. -/
def destroyOrder : List Field :=
  [.string .title, .string .subtitle, .string .description, .string .category, .string .chanstr, .string .chansign,
    .string .channame, .string .chanicon, .string .url, .string .unknown0, .string .hostname, .string .recPriority,
    .string .recProfile, .string .recgroup, .string .chancommfree, .string .chanOutputFilters, .string .seriesid,
    .string .programid, .string .inetref, .string .stars, .string .pathname, .string .host, .string .playgroup,
    .stamp .lastmodified, .stamp .startTs, .stamp .endTs, .stamp .recStartTs, .stamp .recEndTs, .stamp .originalairdate,
    .string .storagegroup, .string .recpriority2]

/-- `cmyth_proginfo_destroy`. -/
def proginfoDestroy (p : Nat) : Run Unit := destroyOrder.forM (releaseField p)

/-- `ref_release` of program information. -/
def proginfoRelease (p : Nat) : Run Unit := fun h => do
  let refs ← h.refs.release (.proginfo p)
  if refs.count (.proginfo p) = 0 then proginfoDestroy p { h with refs := refs } else some ((), { h with refs := refs })

/-- `p->f = make()`. -/
def setMade (p : Nat) (f : Field) (make : Run (Option Nat)) : Run (Option Nat) := do
  let v ← make
  setField p f v
  return v

/-- Whether there is memory for what `cmyth_proginfo_create` allocates. -/
structure Mem where
  block : Bool
  stamp : StampField → Bool

/-- The timestamps in the order in which they are created. -/
def createOrder : List StampField := [.startTs, .endTs, .recStartTs, .recEndTs, .lastmodified, .originalairdate]

/-- Timestamps are created up to the first for which there is no memory; whether there was memory for all. -/
def createStamps (mem : Mem) (p : Nat) : List StampField → Run Bool
  | [] => return true
  | f :: fs => do
    let ts ← setMade p (.stamp f) (refAlloc (mem.stamp f))
    if ts = none then return false else createStamps mem p fs

/-- `ref_alloc` of program information, whose memory is zero. -/
def allocProginfo (mem : Bool) : Run (Option Nat) := fun h =>
  if mem then
    some (some h.next,
      { refs := h.refs.grant (.proginfo h.next)
        next := h.next + 1
        fields := Function.update h.fields h.next fun _ => none })
  else some (none, h)

/-- `cmyth_proginfo_create`. -/
def proginfoCreate (mem : Mem) : Run (Option Nat) := do
  match ← allocProginfo mem.block with
  | none => return none
  | some p =>
    if ← createStamps mem p createOrder then return some p
    else
      proginfoRelease p
      return none

/-- The fields in the order of `cmyth_proginfo_dup`. -/
def dupOrder : List Field :=
  [.stamp .startTs, .stamp .endTs, .stamp .recStartTs, .stamp .recEndTs, .stamp .lastmodified, .stamp .originalairdate,
    .string .title, .string .subtitle, .string .description, .string .category, .string .chanstr, .string .chansign,
    .string .channame, .string .chanicon, .string .url, .string .pathname, .string .host, .string .unknown0,
    .string .hostname, .string .recPriority, .string .recProfile, .string .recgroup, .string .chancommfree,
    .string .chanOutputFilters, .string .seriesid, .string .programid, .string .inetref, .string .stars,
    .string .playgroup, .string .storagegroup, .string .recpriority2]

/-- `ret->f = ref_hold(p->f)`. -/
def copyField (p ret : Nat) (f : Field) : Run Unit := do
  let v ← refHold ((← get).fields p f)
  setField ret f v

/-- `cmyth_proginfo_dup`. -/
def proginfoDup (mem : Mem) (p : Nat) : Run (Option Nat) := do
  match ← proginfoCreate mem with
  | none => return none
  | some ret =>
    dupOrder.forM (copyField p ret)
    return some ret

/-- What becomes of a token: the error with which it is received; whether it is too short for a timestamp; whether
it is the text of one; and whether there is memory for what is made of it (the icon makes two strings). -/
structure Token where
  err : Int
  short : Bool
  valid : Bool
  mem : Bool
  mem' : Bool

/-- `cmyth_timestamp_from_string`. -/
def timestampFromString (valid mem : Bool) : Run (Option Nat) := do
  match ← refAlloc mem with
  | none => return none
  | some ts =>
    if valid then return some ts
    else
      refRelease ts
      return none

/-- `if (p->f) ref_release(p->f); p->f = make()`. -/
def replaceField (p : Nat) (f : Field) (make : Run (Option Nat)) : Run (Option Nat) := do
  releaseField p f
  setMade p f make

/-- A string is copied into a field. -/
def rcvText (p : Nat) (f : StringField) (t : Token) : Run Int := do
  if t.err ≠ 0 then return t.err
  else
    let _ ← replaceField p (.string f) (refAlloc t.mem)
    return 0

/-- A timestamp replaces the one that is there. -/
def rcvStamp (p : Nat) (f : StampField) (make : Run (Option Nat)) : Run Int := do
  let ts ← replaceField p (.stamp f) make
  return if ts = none then -EINVAL else 0

/-- Both names of the channel are released before either is set. -/
def rcvIcon (version : Nat) (p : Nat) (t : Token) : Run Int := do
  if t.err ≠ 0 then return t.err
  else
    releaseField p (.string .chanicon)
    releaseField p (.string .channame)
    if 8 ≤ version then
      let _ ← setMade p (.string .chanicon) (refAlloc t.mem)
      let _ ← setMade p (.string .channame) (refAlloc t.mem')
      return 0
    else
      let _ ← setMade p (.string .channame) (refAlloc t.mem)
      let _ ← setMade p (.string .chanicon) (refAlloc t.mem')
      return 0

/-- One step of `cmyth_rcv_proginfo`; the value of `*err` that it leaves. -/
def rcvSlot (version : Nat) (p : Nat) (t : Token) : Slot → Run Int
  | .string f => rcvText p f t
  | .stars => rcvText p .stars t
  | .icon => rcvIcon version p t
  | .datetime f => if t.err ≠ 0 then return t.err else rcvStamp p f (refAlloc t.mem)
  | .timestamp f =>
    if t.err ≠ 0 then return t.err else if t.short then return 0 else rcvStamp p f (timestampFromString t.valid t.mem)
  | .chanId | .ulong _ | .long _ | .ushort _ | .length => return t.err

/-- Steps up to the first that fails. -/
def rcvAll {α : Type} (rcv : Token → α → Run Int) : List α → (Nat → Token) → Run Int
  | [], _ => return 0
  | c :: cs, tokens => do
    let err ← rcv (tokens 0) c
    if err ≠ 0 then return err else rcvAll rcv cs fun i => tokens (i + 1)

/-- What `cmyth_proginfo_parse_url` makes of a url: whether it is one of the two that it skips, and whether it
comes to a host and a path. -/
structure Url where
  skip : Bool
  host : Bool
  path : Bool

/-- `cmyth_proginfo_parse_url`. -/
def parseUrl (p : Nat) (u : Url) : Run Unit := do
  if (← get).fields p (.string .url) = none ∨ u.skip then return
  else
    let _ ← replaceField p (.string .host) (refAlloc u.host)
    let _ ← replaceField p (.string .pathname) (refAlloc u.path)

/-- A message with program information, by what becomes of its tokens, in a version of the protocol. -/
structure Message where
  version : Nat
  tokens : Nat → Token
  url : Url

/-- `cmyth_rcv_proginfo`. -/
def rcvProginfo (p : Nat) (msg : Message) : Run Int := do
  let err ← rcvAll (rcvSlot msg.version p) (slots msg.version) msg.tokens
  if err ≠ 0 then return err
  else
    parseUrl p msg.url
    return 0

/-- What a token of channel information is read as. -/
inductive ChanSlot where
  | slot (s : Slot)
  /-- The path of the icon, for which the url is set to NULL. -/
  | url
  | skip
  deriving DecidableEq

/-- The tokens of channel information. -/
def chanSlots : List ChanSlot :=
  [.slot (.string .title), .slot (.string .subtitle), .slot (.string .description), .slot (.string .category),
    .slot (.timestamp .startTs), .slot (.timestamp .endTs), .slot (.string .chansign), .url, .slot (.string .channame),
    .slot .chanId, .slot (.string .seriesid), .slot (.string .programid), .skip, .skip, .skip, .skip]

/-- One step of `cmyth_rcv_chaninfo`. None depends on the version of the protocol. -/
def rcvChanSlot (p : Nat) (t : Token) : ChanSlot → Run Int
  | .slot s => rcvSlot 0 p t s
  | .url => do
    if t.err ≠ 0 then return t.err
    else
      setField p (.string .url) none
      return 0
  | .skip => return t.err

/-- `cmyth_rcv_chaninfo`. -/
def rcvChaninfo (p : Nat) (tokens : Nat → Token) : Run Int := rcvAll (rcvChanSlot p) chanSlots tokens

/-- What the connection is to `cmyth_proginfo_fill`: whether there is one, whether the command is sent, the length
of the answer, the answer, and whether all of it is consumed and gives a length that is not zero. -/
structure Control where
  connected : Bool
  sent : Bool
  count : Int
  answer : Message
  whole : Bool
  filled : Bool

/-- `cmyth_proginfo_fill`. The result for a command that is not sent is that of the comparison, 1. -/
def proginfoFill (c : Control) (p : Nat) : Run Int := do
  if c.connected = false then return -EINVAL
  else if c.sent = false then return 1
  else if c.count < 0 then return c.count
  else
    let err ← rcvProginfo p c.answer
    if c.whole = false then return err
    else if c.filled = false then return -1
    else return 0

/-- `cmyth_proginfo_get_detail`. -/
def proginfoGetDetail (mem : Mem) (c : Control) (p : Nat) : Run (Option Nat) := do
  match ← proginfoDup mem p with
  | none => return none
  | some ret =>
    if (← proginfoFill c ret) < 0 then
      proginfoRelease ret
      return none
    else return some ret

/-- The heap, and the program information that the caller has a reference to. -/
structure Sys where
  heap : Heap
  owned : Multiset Nat

/-- Nothing given out yet; `t` references exist elsewhere. -/
def start (t : Nat) : Sys := ⟨⟨⟨fun _ => 0, t⟩, 0, fun _ _ => none⟩, 0⟩

inductive Op where
  | create (mem : Mem)
  | rcvProginfo (p : Nat) (msg : Message)
  | rcvChaninfo (p : Nat) (tokens : Nat → Token)
  | dup (mem : Mem) (p : Nat)
  | getDetail (mem : Mem) (c : Control) (p : Nat)
  | release (p : Nat)

/-- The program information that a call is given. -/
def Op.arg : Op → Option Nat
  | .create _ => none
  | .rcvProginfo p _ | .rcvChaninfo p _ | .dup _ p | .getDetail _ _ p | .release p => some p

namespace Sys

/-- The caller has the reference that a call returns. -/
def gain (owned : Multiset Nat) : Option Nat → Multiset Nat
  | none => owned
  | some p => p ::ₘ owned

/-- A call. The reference given to `cmyth_proginfo_get_detail` is the callee's, as its comment says. -/
def step (s : Sys) : Op → Option Sys
  | .create mem => (proginfoCreate mem s.heap).map fun r => ⟨r.2, gain s.owned r.1⟩
  | .rcvProginfo p msg => (Refs.rcvProginfo p msg s.heap).map fun r => ⟨r.2, s.owned⟩
  | .rcvChaninfo p tokens => (Refs.rcvChaninfo p tokens s.heap).map fun r => ⟨r.2, s.owned⟩
  | .dup mem p => (proginfoDup mem p s.heap).map fun r => ⟨r.2, gain s.owned r.1⟩
  | .getDetail mem c p => (proginfoGetDetail mem c p s.heap).map fun r => ⟨r.2, gain (s.owned.erase p) r.1⟩
  | .release p => (proginfoRelease p s.heap).map fun r => ⟨r.2, s.owned.erase p⟩

/-- Calls one after the other; `none` if one of them goes wrong. -/
def run : List Op → Sys → Option Sys
  | [], s => some s
  | op :: ops, s => (s.step op).bind (run ops)

/-- `P` holds at each call of a run. -/
def Along (P : Sys → Op → Prop) : List Op → Sys → Prop
  | [], _ => True
  | op :: ops, s => P s op ∧ ∀ s' ∈ s.step op, Along P ops s'

/-- The caller passes what it has a reference to. -/
def Allowed (s : Sys) (op : Op) : Prop := ∀ p ∈ op.arg, p ∈ s.owned

instance (s : Sys) (op : Op) : Decidable (s.Allowed op) := inferInstanceAs (Decidable (∀ p ∈ op.arg, p ∈ s.owned))

instance decidableAlong (P : Sys → Op → Prop) [∀ s op, Decidable (P s op)] :
    (ops : List Op) → (s : Sys) → Decidable (Along P ops s)
  | [], _ => isTrue trivial
  | op :: ops, s =>
    have := decidableAlong P ops
    inferInstanceAs (Decidable (P s op ∧ ∀ s' ∈ s.step op, Along P ops s'))

end Sys

end Mvpmc.Cmyth.Refs
