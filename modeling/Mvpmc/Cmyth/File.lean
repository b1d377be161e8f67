import Mathlib.Tactic

/-! The client's side of a file transfer (`file.c`): the three counters of a file, one
round of `cmyth_file_read`'s loop and the parts of `cmyth_file_seek`. The counters are
`uint64_t`; `unsigned long` has at most 64 bits. -/
namespace Mvpmc.Cmyth.Transfer

def ETIMEDOUT : Int := 110

/-- A C integer stored in a `uint64_t`. -/
def wrap64 (x : Int) : Nat := (x % 2 ^ 64).toNat

inductive Whence where
  | set | cur | fromEnd
  deriving DecidableEq, Repr

/-- The counters of `struct cmyth_file`, and `conn_version` of its control connection. -/
structure File where
  version : Nat
  length : Nat
  pos : Nat
  req : Nat
  deriving DecidableEq, Repr

/-- How many calls of `cmyth_file_seek` have succeeded, and how many of them moved the
position, i.e. did not return before its drain loop. -/
structure Seeks where
  calls : Nat
  moves : Nat
  deriving DecidableEq, Repr

/-- A byte on the data connection and the seeks made when it was requested. -/
structure Sent where
  byte : UInt8
  asked : Seeks
  deriving DecidableEq, Repr

/-- A byte in the caller's buffer: the position the client believed it to be at, and the
seeks made when it was requested and when it was received. -/
structure Handed where
  position : Nat
  byte : UInt8
  asked : Seeks
  received : Seeks
  deriving DecidableEq, Repr

/-- A 64 bit argument of `SEEK`: one number from version 66 on, before that the halves
that `%d` prints. -/
inductive Arg where
  | whole (x : Nat)
  | halves (hi lo : BitVec 32)
  deriving DecidableEq, Repr

/-- The commands on the control connection; the file id is left out. -/
inductive Request where
  | requestBlock (n : Nat) (asked : Seeks)
  | seek (offset : Arg) (whence : Whence) (pos : Arg)
  deriving DecidableEq, Repr

namespace File

/-- `file_pos += ret`. -/
def advance (f : File) (ret : Nat) : File := { f with pos := (f.pos + ret) % 2 ^ 64 }

/-- The length grows with the position. -/
def grow (f : File) : File := { f with length := max f.length f.pos }

/-- `cmyth_file_get_block` when `recv` returns `ret` bytes. -/
def getBlock (f : File) (ret : Nat) : File := (f.advance ret).grow

/-- The two returns of `cmyth_file_seek` that come before its drain loop. -/
def seekStays (f : File) (offset : Int) (whence : Whence) : Bool :=
  (offset = 0 ∧ whence = .cur) ∨ (wrap64 offset = f.pos ∧ whence = .set)

/-- The bytes one round of the drain loop asks for: no more than the 128 of `msg`. -/
def drainSize (f : File) : Nat := min (f.req - f.pos) 128

def seekArg (f : File) (x : Nat) : Arg :=
  if 66 ≤ f.version then .whole x else .halves (BitVec.ofNat 32 (x / 2 ^ 32)) (BitVec.ofNat 32 x)

/-- The `SEEK` command. -/
def seekCommand (f : File) (offset : Int) (whence : Whence) : Request :=
  .seek (f.seekArg (wrap64 offset)) whence (f.seekArg f.pos)

/-- The counters once the backend has answered; its reply is read and not used. -/
def seekDone (f : File) (offset : Int) (whence : Whence) : File :=
  let pos := match whence with
    | .set => wrap64 offset
    | .cur => wrap64 (f.pos + offset)
    | .fromEnd => wrap64 (f.length - offset)
  grow { f with pos := pos, req := pos }

/-- The size of the block `cmyth_file_read` requests, if less than `len` bytes are
outstanding. -/
def readAsks (f : File) (len : Nat) : Option Nat :=
  if f.req < (f.pos + len) % 2 ^ 64 then some ((f.pos + len) % 2 ^ 64 - f.req) else none

/-- The bytes received at `file_pos`, as the caller gets them. -/
def handed (f : File) (now : Seeks) (bytes : List Sent) : List Handed :=
  bytes.mapIdx fun i b => ⟨(f.pos + i) % 2 ^ 64, b.byte, b.asked, now⟩

end File

/-- The locals of `cmyth_file_read`: the bytes from `buf` to `cur`, the distance from
`buf` to `end` and the two flags. -/
structure Reading where
  buf : List Handed
  len : Nat
  req : Bool
  recvd : Bool
  deriving DecidableEq, Repr

/-- What a round of the loop leads to. -/
inductive Round where
  | again (f : File) (r : Reading)
  | returned (f : File) (buf : List Handed)
  | failed (ret : Int)
  deriving DecidableEq, Repr

namespace Reading

/-- The test of the loop, and the return behind it. -/
def loop (f : File) (r : Reading) : Round :=
  if r.buf = [] ∨ r.req ∨ r.recvd then .again f r else .returned f.grow r.buf

/-- The data connection, where `ready` is how many bytes `recv` finds at most. -/
def takeData (f : File) (r : Reading) (now : Seeks) (ready : Option Nat) (data : List Sent) : Round × List Sent :=
  match ready with
  | none => (loop f { r with recvd := false }, data)
  | some n =>
    if r.len < r.buf.length then (.failed (-1), data)
    else
      let ret := min n (r.len - r.buf.length)
      let bytes := data.take ret
      (loop (f.advance bytes.length) { r with buf := r.buf ++ f.handed now bytes, recvd := !bytes.isEmpty },
        data.drop ret)

/-- Data that does not come changes nothing but the flag. -/
theorem takeData_nothing {f : File} {r : Reading} {n : Nat} {data : List Sent} (hp : f.pos < 2 ^ 64)
    (hl : r.buf.length ≤ r.len) (hn : data.take (min n (r.len - r.buf.length)) = []) (now : Seeks) :
    r.takeData f now (some n) data = (loop f { r with recvd := false }, data) := by
  have hf : f.advance 0 = f := by
    unfold File.advance
    rw [Nat.add_zero, Nat.mod_eq_of_lt hp]
  have hdrop : data.drop (min n (r.len - r.buf.length)) = data := by
    have h := List.take_append_drop (min n (r.len - r.buf.length)) data
    rw [hn] at h
    exact h
  unfold takeData
  dsimp only
  rw [if_neg (Nat.not_lt.mpr hl), hn, hdrop]
  simp [File.handed, hf]

/-- A grant that is negative or has more than 32 bits counts as none. -/
def bounded (len64 : Int) : Nat := if 2 ^ 32 ≤ len64 ∨ len64 < 0 then 0 else len64.toNat

/-- One round: `control` is the number in the reply when `select` finds the control
connection ready. The second component is what stays in the data connection. -/
def round (f : File) (r : Reading) (now : Seeks) (control : Option Int) (ready : Option Nat) (data : List Sent) :
    Round × List Sent :=
  if control = none ∧ ready = none ∧ r.recvd = false then (.failed (-ETIMEDOUT), data)
  else
    match control with
    | none => takeData f r now ready data
    | some len64 =>
      let f := { f with req := (f.req + bounded len64) % 2 ^ 64 }
      if f.req < f.pos then (.failed (-1), data)
      else if f.pos = f.req then (.returned f.grow r.buf, data)
      else takeData f { r with req := false } now ready data

end Reading
end Mvpmc.Cmyth.Transfer
