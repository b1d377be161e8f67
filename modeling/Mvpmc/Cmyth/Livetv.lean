import Mvpmc.Cmyth.Mutex

/-! The chain of files of a live TV recorder (`livetv.c`), with the calls of other modules that it makes
while it sets the chain up: program information (`recorder.c`, `proginfo.c`) and the connection of a file
(`connection.c`). -/
namespace Mvpmc.Cmyth.Mutex
open Transfer (File Whence)

/-- The fields of `struct cmyth_proginfo` that are read here; NULL strings are `none`. -/
structure Proginfo where
  host : Option (List UInt8)
  hostname : List UInt8
  pathname : Option (List UInt8)
  length : Int
  deriving DecidableEq, Repr

/-- An entry of the arrays `chain_urls` and `chain_files`. -/
structure Entry where
  url : Option (List UInt8)
  file : Option Nat
  deriving DecidableEq, Repr

/-- `struct cmyth_livetv_chain`. The arrays have fewer than `ct` entries once an allocation has failed in
`cmyth_livetv_chain_add_url`, which counts the new entry first. -/
structure Chain where
  chainid : List UInt8
  ct : Nat
  switchOnCreate : Bool
  current : Int
  entries : List Entry
  le_current : -1 ≤ current
  current_lt : current < ct
  deriving DecidableEq, Repr

/-- The fields of `struct cmyth_recorder` that are read here, and the references to it. `conn` is the
protocol version of the connection. -/
structure Recorder where
  refs : Nat
  port : Nat
  conn : Option Nat
  chain : Option Chain
  file : Option Nat
  deriving DecidableEq, Repr

/-- What `cmyth_recorder_get_cur_proginfo` meets: whether the program information can be allocated, the
answers to its command and the program they describe. -/
structure Info where
  created : Bool
  reply : Exchange
  prog : Proginfo
  deriving DecidableEq, Repr

/-- The program information received, if the whole reply was. -/
def Info.received (o : Info) : Option Proginfo :=
  if o.reply.sent < 0 then none else if o.reply.rcvd ≠ o.reply.count then none else some o.prog

/-- `cmyth_recorder_get_cur_proginfo`, that is `cmyth_recorder_get_program_info`. Without memory it jumps
to the unlock from before the lock. -/
def recorderGetCurProginfo (rec : Recorder) (o : Info) : Act (Option Proginfo) := do
  if o.created = false then
    unlock
    return none
  lock
  let _ ← deref rec.conn
  unlock
  return o.received

/-- What `cmyth_proginfo_get_detail` meets: whether the copy can be allocated, the values of
`fill_command`, `cmyth_rcv_length` and `cmyth_rcv_proginfo`, the error code and the length received. -/
structure Detail where
  dup : Bool
  command : Int
  count : Int
  rcvd : Int
  err : Int
  length : Int
  deriving DecidableEq, Repr

/-- What `cmyth_proginfo_fill` returns and makes of the program information while it holds the mutex. Its
test of `fill_command` stores the outcome of the comparison. -/
def Detail.fill (o : Detail) (prog : Proginfo) : Int × Proginfo :=
  if o.command ≠ 0 then (1, prog)
  else if o.count < 0 then (o.count, prog)
  else if o.rcvd ≠ o.count then (o.err, { prog with length := o.length })
  else if o.length = 0 then (-1, prog)
  else (0, { prog with length := o.length })

/-- `cmyth_proginfo_fill`. -/
def proginfoFill (control : Option Nat) (prog : Proginfo) (o : Detail) : Act (Int × Proginfo) := do
  if control.isNone then return (-EINVAL, prog)
  lock
  unlock
  return o.fill prog

/-- `cmyth_proginfo_get_detail`. The copy reads the fields of its argument. -/
def proginfoGetDetail (control : Option Nat) (prog : Option Proginfo) (o : Detail) : Act (Option Proginfo) := do
  if o.dup = false then return none
  let p ← deref prog
  let r ← proginfoFill control p o
  if r.1 < 0 then return none
  return some r.2

/-- What `cmyth_conn_connect_file` meets: whether the file can be allocated, the data connection made and
the announcement allocated; the values of the send and of `cmyth_rcv_length`, the error codes of the three
receives behind it, whether the reply is `OK`, and the length the backend reports. -/
structure Connect where
  created : Bool
  conn : Bool
  announcement : Bool
  sent : Int
  count : Int
  replyErr : Int
  reply : Bool
  idErr : Int
  lengthErr : Int
  length : Nat
  deriving DecidableEq, Repr

/-- The file transfer is allocated. -/
def Connect.makes (o : Connect) (prog : Proginfo) : Bool :=
  prog.host.isSome && prog.pathname.isSome && o.created

/-- None of the steps behind the allocation fails. -/
def Connect.opens (o : Connect) : Bool :=
  o.conn && o.announcement && decide (0 ≤ o.sent) && decide (0 ≤ o.count) && decide (o.replyErr = 0) && o.reply &&
    decide (o.idErr = 0) && decide (o.lengthErr = 0)

/-- `cmyth_conn_connect_file`; the label `shut` releases the file transfer. -/
def connConnectFile (prog : Proginfo) (control : Option Nat) (o : Connect) : Act (Option Nat) := do
  if o.makes prog = false then return none
  let f ← fileCreate (control.getD 0) o.length
  let _ ← deref control
  if o.opens then return some f
  refRelease (some f)
  return none

/-- `sprintf(url, "myth://%s:%d%s", ...)`; a NULL path is printed as `(null)`. -/
def url (rec : Recorder) (prog : Proginfo) : List UInt8 :=
  [0x6D, 0x79, 0x74, 0x68, 0x3A, 0x2F, 0x2F] ++ prog.hostname ++ [0x3A] ++
    (Nat.toDigits 10 rec.port).map (fun c => c.toNat.toUInt8) ++
    prog.pathname.getD [0x28, 0x6E, 0x75, 0x6C, 0x6C, 0x29]

/-- The loop of `cmyth_livetv_chain_has_url` with `n` rounds to go; `none` when it reads behind the array
or compares with NULL. -/
def findUrl (url : List UInt8) : Nat → List Entry → Nat → Option Int
  | 0, _, _ => some (-1)
  | _ + 1, [], _ => none
  | n + 1, e :: entries, i =>
    match e.url with
    | none => none
    | some u => if u = url then some i else findUrl url n entries (i + 1)

/-- `cmyth_livetv_chain_has_url` on a recorder with a chain. -/
def Chain.hasUrl (ch : Chain) (url : List UInt8) : Option Int :=
  if ch.current = -1 then some (-1) else findUrl url ch.ct ch.entries 0

/-- What `cmyth_livetv_chain_add_url` meets: whether the three arrays and the copy of the url can be
allocated. -/
structure Grow where
  urls : Bool
  files : Bool
  progs : Bool
  dup : Bool
  deriving DecidableEq, Repr

/-- The chain with its new entry counted and the array entries given. -/
def Chain.counted (ch : Chain) (entries : List Entry) : Chain where
  chainid := ch.chainid
  ct := if ch.current = -1 then 1 else ch.ct + 1
  switchOnCreate := ch.switchOnCreate
  current := if ch.current = -1 then 0 else ch.current
  entries := entries
  le_current := by
    split
    · decide
    · exact ch.le_current
  current_lt := by
    have := ch.current_lt
    split
    · simp
    · push_cast
      omega

/-- The entries of the chain before the new one. -/
def Chain.old (ch : Chain) : List Entry := if ch.current = -1 then [] else ch.entries.take ch.ct

/-- `cmyth_livetv_chain_add_url`. -/
def Chain.addUrl (ch : Chain) (url : List UInt8) (o : Grow) : Act (Int × Chain) := do
  let i ← deref (ch.hasUrl url)
  if i ≠ -1 then return (0, ch)
  if (o.urls && o.files) = false then return (-1, ch.counted ch.entries)
  if o.progs = false then throw .crash
  return (0, ch.counted (ch.old ++ [⟨if o.dup then some url else none, none⟩]))

/-- `cmyth_livetv_chain_add_file` on a recorder with a chain. -/
def Chain.addFile (ch : Chain) (url : List UInt8) (ft : Nat) : Act (Int × Chain) := do
  if ch.current = -1 then return (-1, ch)
  let i ← deref (ch.hasUrl url)
  if i = -1 then return (0, ch)
  let e ← deref ch.entries[i.toNat]?
  refHold (some ft)
  refRelease e.file
  return (0, { ch with entries := ch.entries.set i.toNat { e with file := some ft } })

/-- `cmyth_livetv_chain_add`. The programs of the chain, which `cmyth_livetv_chain_add_prog` stores last,
are left out. -/
def Chain.add (ch : Chain) (url : List UInt8) (ft : Nat) (o : Grow) : Act (Int × Chain) := do
  let i ← deref (ch.hasUrl url)
  let r ← (if i = -1 then ch.addUrl url o else pure (0, ch) : Act (Int × Chain))
  if r.1 = -1 then return r
  r.2.addFile url ft

/-- `#define LAST`. -/
def LAST : Int := 0x7FFFFFFF

/-- The chain at another entry. -/
def Chain.moveTo (ch : Chain) (i : Int) : Act (Entry × Chain) :=
  if h : 0 ≤ i ∧ i < ch.ct then do
    let e ← deref ch.entries[i.toNat]?
    return (e, { ch with current := i, le_current := by omega, current_lt := h.2 })
  else throw .crash

/-- How far a switch goes. -/
def Chain.distance (ch : Chain) (dir : Int) : Int := if dir = LAST then ch.ct - ch.current - 1 else dir

/-- The test of `cmyth_livetv_chain_switch`. -/
def Chain.switches (ch : Chain) (dir : Int) : Bool :=
  (ch.distance dir < 0 ∧ 0 ≤ ch.current + ch.distance dir) ∨ ch.current < ch.ct - ch.distance dir

/-- `cmyth_livetv_chain_switch`. The callback it makes is the caller's. -/
def chainSwitch (rec : Recorder) (dir : Int) : Act (Int × Recorder) := do
  let ch ← deref rec.chain
  if ch.switches dir then
    refRelease rec.file
    let r ← ch.moveTo (ch.current + ch.distance dir)
    refHold r.1.file
    return (1, { rec with chain := some r.2, file := r.1.file })
  return (if dir = LAST then 1 else 0, rec)

/-- What the new file of a chain meets. -/
structure Opening where
  connect : Connect
  grow : Grow
  deriving DecidableEq, Repr

/-- The part that `cmyth_livetv_chain_update` and `cmyth_livetv_chain_setup` share: connect the file of
the program and add it to the chain. `none` when that fails. -/
def openFile (rec : Recorder) (ch : Chain) (prog : Proginfo) (o : Opening) : Act (Option Recorder) := do
  let some ft ← connConnectFile prog rec.conn o.connect | return none
  let r ← ch.add (url rec prog) ft o.grow
  if r.1 = -1 then return none
  refRelease (some ft)
  return some { rec with chain := some r.2 }

/-- `cmyth_livetv_chain_update` between its lock and its unlock. -/
def updateLocked (rec : Recorder) (chainid : List UInt8) (prog : Option Proginfo) (o : Opening) : Act Int := do
  let some ch := rec.chain | return -1
  if chainid.isPrefixOf ch.chainid = false then return -1
  let p ← deref prog
  let i ← deref (ch.hasUrl (url rec p))
  if i ≠ -1 then return 0
  let some r ← openFile rec ch p o | return -1
  if ch.switchOnCreate then
    let _ ← chainSwitch r LAST
  return 0

/-- `cmyth_livetv_chain_update`. Without a recorder it jumps to the unlock at its end. -/
def chainUpdate (rec : Option Recorder) (chainid : List UInt8) (info : Info) (o : Opening) : Act Int := do
  let some r := rec | do
    unlock
    return 0
  let prog ← recorderGetCurProginfo r info
  lock
  let ret ← updateLocked r chainid prog o
  unlock
  return ret

/-- The loop of `cmyth_livetv_chain_setup` that waits for a program with a length, with `n` of its rounds
left. -/
def waitLength (rec : Recorder) (infos : Nat → Info) (details : Nat → Detail) : Nat → Option Proginfo → Act Unit
  | 0, _ => return ()
  | n + 1, prog =>
    if prog.all fun p => p.length = 0 then do
      let prog ← recorderGetCurProginfo rec (infos n)
      let prog ← proginfoGetDetail rec.conn prog (details n)
      waitLength rec infos details n prog
    else return ()

/-- `ref_release` of a recorder: the last one releases the file it plays. The rest of what it refers to is
held elsewhere or needs no mutex to go. -/
def recorderRelease (rec : Recorder) : Act Unit := if rec.refs = 1 then refRelease rec.file else return ()

/-- `cmyth_livetv_chain_setup` between its lock and its unlock; `dup` says whether the recorder can be
copied. -/
def setupLocked (rec : Recorder) (prog : Proginfo) (dup : Bool) (o : Opening) : Act (Option Recorder) := do
  if dup = false then return none
  refHold rec.file
  recorderRelease rec
  let newRec := { rec with refs := 1 }
  let some ch := rec.chain | return none
  let i ← deref (ch.hasUrl (url rec prog))
  if i ≠ -1 then return some newRec
  let some r ← openFile newRec ch prog o | return none
  let r ← chainSwitch r 0
  return some r.2

/-- What `cmyth_livetv_chain_setup` meets. -/
structure Setup where
  info : Info
  infos : Nat → Info
  details : Nat → Detail
  dup : Bool
  opening : Opening

/-- `cmyth_livetv_chain_setup`. Without a program it jumps to the unlock from before the lock. -/
def chainSetup (rec : Option Recorder) (o : Setup) : Act (Option Recorder) := do
  let some r := rec | return none
  let prog ← recorderGetCurProginfo r o.info
  waitLength r o.infos o.details 5 prog
  let some p := prog | do
    unlock
    return none
  lock
  let ret ← setupLocked r p o.dup o.opening
  unlock
  return ret

/-- The loop of `cmyth_livetv_chain_request_block`. A switch that is made leaves one file less to switch
to, so `n` is the number of files behind the current one. -/
def requestLoop (replies : Nat → Exchange) : Nat → Recorder → Act (Int × Recorder)
  | 0, rec => do
    let ret ← fileRequestBlock rec.file (replies 0)
    if ret ≠ 0 then return (ret, rec)
    let r ← chainSwitch rec 1
    return (ret, r.2)
  | n + 1, rec => do
    let ret ← fileRequestBlock rec.file (replies (n + 1))
    if ret ≠ 0 then return (ret, rec)
    let r ← chainSwitch rec 1
    if r.1 = 0 then return (ret, r.2)
    requestLoop replies n r.2

/-- The files behind the current one. -/
def Recorder.ahead (rec : Recorder) : Nat :=
  match rec.chain with
  | some ch => (ch.ct - 1 - ch.current).toNat
  | none => 0

/-- `cmyth_livetv_chain_request_block`. -/
def chainRequestBlock (rec : Option Recorder) (replies : Nat → Exchange) : Act Int := do
  let some r := rec | return -EINVAL
  lock
  let ret ← requestLoop replies r.ahead r
  unlock
  return ret.1

/-- The file transfer of an entry of the chain; here and below `none` stands for a crash. -/
def Chain.fileAt (ch : Chain) (cells : List Cell) (i : Int) : Option (Nat × File) := do
  if i < 0 then none
  let e ← ch.entries[i.toNat]?
  let f ← e.file
  let c ← cells[f]?
  if c.refs = 0 then none
  return (f, c.file)

/-- `offset` and the lengths of the `n` files from `i` on. -/
def Chain.addLengths (ch : Chain) (cells : List Cell) : Nat → Int → Int → Option Int
  | 0, _, offset => return offset
  | n + 1, i, offset => do
    let fp ← ch.fileAt cells i
    ch.addLengths cells n (i + 1) (wrapLong (offset + fp.2.length))

/-- The loop of `SEEK_SET` over the last `n` files: the file found and its index, or the last one and the
number of files. -/
def Chain.seekSet (ch : Chain) (cells : List Cell) :
    Nat → Int → Option (Nat × File) → Option (Int × Option (Nat × File) × Int)
  | 0, offset, fp => return (offset, fp, ch.ct)
  | n + 1, offset, _ => do
    let fp ← ch.fileAt cells (ch.ct - (n + 1))
    if offset < wrapLong fp.2.length then return (offset, some fp, ch.ct - (n + 1))
    ch.seekSet cells n (wrapLong (offset - fp.2.length)) (some fp)

/-- The loops of `SEEK_CUR` end at an offset in a file and the index of the file, or return -1. -/
abbrev Found := Option (Int × (Nat × File) × Int)

/-- The first loop of `SEEK_CUR` with `n` files behind `cur`. -/
def Chain.forward (ch : Chain) (cells : List Cell) : Nat → Int → Nat × File → Option Found
  | 0, offset, fp => return if wrapLong fp.2.length < offset then none else some (offset, fp, ch.ct - 1)
  | n + 1, offset, fp => do
    if offset ≤ wrapLong fp.2.length then return some (offset, fp, ch.ct - 1 - (n + 1))
    let next ← ch.fileAt cells (ch.ct - (n + 1))
    ch.forward cells n (wrapLong (offset - fp.2.length)) next

/-- The second loop of `SEEK_CUR`, down from index `cur`. -/
def Chain.backward (ch : Chain) (cells : List Cell) : Nat → Int → Nat × File → Option Found
  | 0, offset, fp => return if offset < 0 then none else some (offset, fp, 0)
  | cur + 1, offset, fp => do
    if 0 ≤ offset then return some (offset, fp, cur + 1)
    let next ← ch.fileAt cells cur
    ch.backward cells cur (wrapLong (offset + next.2.length)) next

/-- Where a seek goes: it returns a position at once, or it seeks in a file whose index is `cur`. -/
inductive Target where
  | returns (ret : Int)
  | seeks (fp : Option Nat) (offset : Int) (whence : Option Whence) (cur : Int)
  deriving DecidableEq, Repr

/-- The part of `SEEK_CUR` behind the test for an offset of 0. -/
def Chain.seekCur (ch : Chain) (cells : List Cell) (offset : Int) (fp : Nat × File) (cur : Int) : Option Target := do
  let some a ← ch.forward cells (ch.ct - 1 - cur).toNat (wrapLong (offset + fp.2.req)) fp | return .returns (-1)
  let some b ← ch.backward cells a.2.2.toNat a.1 a.2.1 | return .returns (-1)
  return .seeks (some b.2.1.1) (wrapLong (b.1 - b.2.1.2.req)) (some .cur) b.2.2

/-- The position in the chain, which `SEEK_CUR` returns for an offset of 0. -/
def Chain.position (ch : Chain) (cells : List Cell) : Option Int := do
  let fp ← ch.fileAt cells ch.current
  ch.addLengths cells ch.current.toNat 0 (wrapLong fp.2.req)

/-- `cmyth_livetv_chain_seek` up to its lock. The pointer `fp` is still NULL for `SEEK_CUR`. -/
def seekTarget (rec : Recorder) (cells : List Cell) (offset : Int) (whence : Option Whence) : Option Target := do
  let ch ← rec.chain
  match whence with
  | none => return .seeks none offset none 0
  | some .set =>
    let r ← ch.seekSet cells ch.ct offset none
    return .seeks (r.2.1.map (·.1)) r.1 (some .set) r.2.2
  | some .cur =>
    if offset = 0 then return .returns (← ch.position cells)
    none
  | some .fromEnd =>
    let playing ← rec.file
    let c ← cells[playing]?
    let offset ← ch.addLengths cells (ch.ct - ch.current).toNat ch.current (wrapLong (offset - c.file.req))
    let fp ← ch.fileAt cells ch.current
    if offset = 0 then return .returns (← ch.position cells)
    ch.seekCur cells offset fp ch.current

/-- `cmyth_livetv_chain_seek` between its lock and its unlock. -/
def seekChainLocked (rec : Recorder) (fp : Option Nat) (offset : Int) (whence : Option Whence) (cur : Int)
    (counts : List Int) (x : Exchange) : Act Int := do
  let ret ← fileSeek fp offset whence counts x
  let ch ← deref rec.chain
  if 0 ≤ ret ∧ cur ≠ ch.current then
    let _ ← chainSwitch rec (cur - ch.current)
  return ret

/-- `cmyth_livetv_chain_seek`. -/
def chainSeek (rec : Option Recorder) (offset : Int) (whence : Option Whence) (counts : List Int) (x : Exchange) :
    Act Int := do
  let some r := rec | return -EINVAL
  let s ← get
  let target ← deref (seekTarget r s.cells offset whence)
  match target with
  | .returns ret => return ret
  | .seeks fp offset whence cur =>
    lock
    let ret ← seekChainLocked r fp offset whence cur counts x
    unlock
    return ret

end Mvpmc.Cmyth.Mutex
