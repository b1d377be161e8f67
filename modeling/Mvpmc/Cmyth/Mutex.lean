import Mvpmc.Cmyth.Conn
import Mvpmc.Cmyth.File

/-! The calls of `libcmyth` that take its mutex, a default one (`PTHREAD_MUTEX_INITIALIZER`). What the
sends, receives and allocations of a call return is an argument of its model; a call that locks inside
another one runs on the same mutex. -/
namespace Mvpmc.Cmyth.Mutex
open Transfer (File Whence wrap64)

/-- How a call can go wrong: it locks the mutex while it is held, unlocks it while it is free, or uses a
pointer that is NULL, freed or outside its array. -/
inductive Fault where
  | relock | unlockFree | crash
  deriving DecidableEq, Repr

/-- A file transfer in memory: its references (none once it is freed) and its counters. -/
structure Cell where
  refs : Nat
  file : File
  deriving DecidableEq, Repr

/-- The mutex and the file transfers; a pointer to one of them is its index. -/
structure Lib where
  held : Bool
  cells : List Cell
  deriving DecidableEq, Repr

abbrev Act := StateT Lib (Except Fault)

/-- `pthread_mutex_lock(&mutex)`. -/
def lock : Act Unit := fun s => if s.held then .error .relock else .ok ((), { s with held := true })

/-- `pthread_mutex_unlock(&mutex)`. -/
def unlock : Act Unit := fun s => if s.held then .ok ((), { s with held := false }) else .error .unlockFree

def deref {α : Type} : Option α → Act α
  | some a => pure a
  | none => throw .crash

/-- The file transfer behind a pointer. -/
def cell (f : Nat) : Act Cell := fun s =>
  match s.cells[f]? with
  | some c => if c.refs = 0 then .error .crash else .ok (c, s)
  | none => .error .crash

def setCell (f : Nat) (c : Cell) : Act Unit := fun s => .ok ((), { s with cells := s.cells.set f c })

/-- What one command is answered with: the values of `cmyth_send_message`, of `cmyth_rcv_length` and of
the function that reads the payload, the error code that function leaves and the number it reads. -/
structure Exchange where
  sent : Int
  count : Int
  rcvd : Int
  err : Int
  value : Int
  deriving DecidableEq, Repr

/-- From the send to the label `out`: the first of the three that fails decides what is returned. -/
def Exchange.answer (x : Exchange) (done : Act Int) : Act Int :=
  if x.sent < 0 then return x.sent
  else if x.count < 0 then return x.count
  else if x.rcvd < 0 then return x.err
  else done

/-- `cmyth_get_commbreaklist`, where `buf` says whether `alloca` gave a buffer. The list it fills is left
out. -/
def getCommbreaklist (buf : Bool) (x : Exchange) : Act Unit := do
  if buf = false then return ()
  lock
  let _ ← x.answer (return x.rcvd)
  unlock

/-- `cmyth_get_cutlist`, which never locks. -/
def getCutlist (buf : Bool) (x : Exchange) : Act Unit := do
  if buf = false then return ()
  let _ ← x.answer (return x.rcvd)
  unlock

/-- The shape of `cmyth_get_delete_list` and `cmyth_schedule_recording`: a send that fails returns at
once, with the mutex held. -/
def sendOrReturn (conn : Option Conn) (x : Exchange) (ret : Int) : Act Int := do
  if conn.isNone then return -1
  lock
  if x.sent < 0 then return x.sent
  unlock
  return ret

/-- `cmyth_get_delete_list`; `value` is the number of programs in the list it has received. -/
def getDeleteList (conn : Option Conn) (x : Exchange) : Act Int := sendOrReturn conn x x.value

/-- `cmyth_schedule_recording`. -/
def scheduleRecording (conn : Option Conn) (x : Exchange) : Act Int := sendOrReturn conn x x.err

/-- `cmyth_file_request_block`. -/
def fileRequestBlock (file : Option Nat) (x : Exchange) : Act Int := do
  let some f := file | return -EINVAL
  lock
  let c ← cell f
  let ret ← x.answer do
    setCell f { c with file.req := wrap64 (c.file.req + x.value) }
    return x.value
  unlock
  return ret

/-- The drain loop of `cmyth_file_seek` when its calls of `cmyth_file_get_block` return `counts` and the
next one fails; the flag says that the loop has ended because of a failure. -/
def drain : List Int → File → File × Bool
  | [], f => (f, f.pos < f.req)
  | c :: counts, f =>
    if f.pos < f.req then
      if c < 0 then (f, true) else drain counts (f.getBlock (min c.toNat f.drainSize))
    else (f, false)

/-- A value stored in a `long long`. -/
def wrapLong (x : Int) : Int := x.bmod (2 ^ 64)

/-- The two early returns of `cmyth_file_seek`. `whence` is `none` for a value that is none of the three. -/
def seekStays (f : File) (offset : Int) : Option Whence → Bool
  | some w => f.seekStays offset w
  | none => false

/-- The counters after a seek the backend has answered. -/
def seekDone (f : File) (offset : Int) : Option Whence → File
  | some w => f.seekDone offset w
  | none => File.grow { f with req := f.pos }

/-- `cmyth_file_seek`. -/
def fileSeek (file : Option Nat) (offset : Int) (whence : Option Whence) (counts : List Int) (x : Exchange) :
    Act Int := do
  let some f := file | return -EINVAL
  let c ← cell f
  if seekStays c.file offset whence then return wrapLong c.file.pos
  let d := drain counts c.file
  setCell f { c with file := d.1 }
  if d.2 then return -1
  lock
  let ret ← x.answer do
    setCell f { c with file := seekDone d.1 offset whence }
    return wrapLong (seekDone d.1 offset whence).pos
  unlock
  return ret

/-- `cmyth_file_destroy`; what the backend answers to `DONE` changes nothing. -/
def fileDestroy : Act Unit := do
  lock
  unlock

/-- `ref_hold` of a file transfer or of NULL. -/
def refHold : Option Nat → Act Unit
  | none => return ()
  | some f => do
    let c ← cell f
    setCell f { c with refs := c.refs + 1 }

/-- `ref_release` of a file transfer or of NULL. -/
def refRelease : Option Nat → Act Unit
  | none => return ()
  | some f => do
    let c ← cell f
    setCell f { c with refs := c.refs - 1 }
    if c.refs = 1 then fileDestroy

/-- `ref_alloc` and the initialisation in `cmyth_file_create`; `length` is stored later, from the reply. -/
def fileCreate (version length : Nat) : Act Nat := fun s =>
  .ok (s.cells.length, { s with cells := s.cells ++ [⟨1, ⟨version, length, 0, 0⟩⟩] })

end Mvpmc.Cmyth.Mutex
