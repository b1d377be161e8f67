import Mvpmc.Cmyth.Token

/-! The calls that read a whole reply of the backend (`socket.c`, `file.c`): a length field of eight
characters, then tokens of which each call knows how many it wants. -/
namespace Mvpmc.Cmyth

def ERANGE : Int := 34

/-- `isspace` and `isdigit`. -/
def isSpace (b : UInt8) : Bool := b = 0x20 || (0x09 ≤ b && b ≤ 0x0D)
def isDigit (b : UInt8) : Bool := 0x30 ≤ b && b ≤ 0x39

/-- The bytes of a C string in front of its terminating zero. -/
def cstring (bytes : List UInt8) : List UInt8 := bytes.takeWhile (· ≠ 0)

/-- A number with one more digit. -/
def pushDigit (val : Nat) (b : UInt8) : Nat := val * 10 + (b.toNat - 0x30)

/-- The leading digits of a string as a number. -/
def digits (bytes : List UInt8) : Nat := (bytes.takeWhile isDigit).foldl pushDigit 0

/-- `atoi`, for strings whose number fits. -/
def atoi (bytes : List UInt8) : Int :=
  match (cstring bytes).dropWhile isSpace with
  | 0x2D :: bytes => -digits bytes
  | 0x2B :: bytes => digits bytes
  | bytes => digits bytes

/-- `cmyth_rcv_length`, which reads from the socket and not from `conn_buf`. -/
def rcvLength (conn : Conn) : Int × Conn :=
  if conn.fd < 0 then (-EBADF, conn)
  else
    let r := refillLoop 8 8 conn.pieces
    (if r.1.length < 8 then -conn.errno else atoi r.1, { conn with pieces := r.2 })

/-- The loop of `cmyth_rcv_ulong`: the error code or the number, of the type `unsigned long long`. The test
of the range is the code's own. -/
def parseUlong : List UInt8 → Nat → Int ⊕ Nat
  | [], val => .inr val
  | b :: bytes, val =>
    if isDigit b = false then .inl EINVAL
    else if 0xFFFFFFFF < val ∧ 0x35 < b then .inl ERANGE
    else parseUlong bytes (pushDigit val b % 2 ^ 64)

/-- The loop of `cmyth_rcv_long`: the error code or the absolute value. -/
def parseLong : List UInt8 → Nat → Int ⊕ Nat
  | [], val => .inr val
  | b :: bytes, val =>
    if isDigit b = false then .inl EINVAL
    else if 0x7FFFFFFF < pushDigit val b then .inl ERANGE
    else parseLong bytes (pushDigit val b)

/-- What a call that reads a number leaves: the bytes consumed, the error code and the number, which is
the old one after an error. -/
structure Number where
  consumed : Nat
  err : Int
  value : Int
  deriving DecidableEq, Repr

/-- `cmyth_rcv_ulong`. A token of 32 bytes or more, which has no terminating zero in `num`, is cut there. -/
def rcvUlong (conn : Conn) (count : Int) : Number × Conn :=
  if count ≤ 0 then (⟨0, EINVAL, 0⟩, conn)
  else
    let r := rcvString conn 0 32 count
    if r.1.err ≠ 0 then (⟨r.1.consumed, r.1.err, 0⟩, r.2)
    else
      match parseUlong (cstring r.1.token) 0 with
      | .inl err => (⟨r.1.consumed, err, 0⟩, r.2)
      | .inr val => (⟨r.1.consumed, 0, val⟩, r.2)

/-- `cmyth_rcv_long`, where `old` is in the variable it would set. -/
def rcvLong (conn : Conn) (old : Int) (count : Int) : Number × Conn :=
  if count ≤ 0 then (⟨0, EINVAL, old⟩, conn)
  else
    let r := rcvString conn 0 32 count
    if r.1.err ≠ 0 then (⟨r.1.consumed, r.1.err, old⟩, r.2)
    else
      let num := cstring r.1.token
      let sign := if num.head? = some 0x2D then -1 else 1
      match parseLong (if num.head? = some 0x2D then num.tail else num) 0 with
      | .inl err => (⟨r.1.consumed, err, old⟩, r.2)
      | .inr val => (⟨r.1.consumed, 0, sign * val⟩, r.2)

/-- The loop of `cmyth_rcv_new_int64`, whose `val` is an `unsigned long long`. -/
def parseInt64 : List UInt8 → Nat → Int ⊕ Nat
  | [], val => .inr val
  | b :: bytes, val =>
    if isDigit b = false then .inl EINVAL
    else if 0x7FFFFFFFFFFFFFFF < pushDigit val b % 2 ^ 64 then .inl ERANGE
    else parseInt64 bytes (pushDigit val b % 2 ^ 64)

/-- `cmyth_rcv_old_int64`: two numbers, of which the second gives the low 32 bits. The old values of `hi` and
`lo` are of no account. -/
def rcvOldInt64 (conn : Conn) (old : Int) (count : Int) : Number × Conn :=
  if count ≤ 0 then (⟨0, EINVAL, old⟩, conn)
  else
    let hi := rcvLong conn 0 count
    if hi.1.err ≠ 0 then (⟨hi.1.consumed, hi.1.err, old⟩, hi.2)
    else
      let lo := rcvLong hi.2 0 (count - hi.1.consumed)
      if lo.1.err ≠ 0 then (⟨hi.1.consumed + lo.1.consumed, lo.1.err, old⟩, lo.2)
      else (⟨hi.1.consumed + lo.1.consumed, 0, hi.1.value * 2 ^ 32 + lo.1.value % 2 ^ 32⟩, lo.2)

/-- The protocol has two numbers for one of 64 bits: up to version 56, and up to version 65 if `forced` is not set. -/
def twoNumbers (version : Nat) (forced : Bool) : Bool := version < 57 || (version < 66 && !forced)

/-- `cmyth_rcv_new_int64` on a connection of this version; `cmyth_rcv_int64` is the one that is not `forced`. -/
def rcvNewInt64 (version : Nat) (conn : Conn) (old : Int) (count : Int) (forced : Bool) : Number × Conn :=
  if twoNumbers version forced then rcvOldInt64 conn old count
  else if count ≤ 0 then (⟨0, EINVAL, old⟩, conn)
  else
    let r := rcvString conn 0 32 count
    if r.1.err ≠ 0 then (⟨r.1.consumed, r.1.err, old⟩, r.2)
    else
      let num := cstring r.1.token
      let sign := if num.head? = some 0x2D then -1 else 1
      match parseInt64 (if num.head? = some 0x2D then num.tail else num) 0 with
      | .inl err => (⟨r.1.consumed, err, old⟩, r.2)
      | .inr val => (⟨r.1.consumed, 0, sign * val⟩, r.2)

/-- `cmyth_rcv_okay`, where `err` is what its uninitialised variable holds. -/
def rcvOkay (conn : Conn) (err : Int) (ok : List UInt8) : Int × Conn :=
  let l := rcvLength conn
  if l.1 < 0 then l
  else
    let r := rcvString l.2 err 8 l.1
    if r.1.err ≠ 0 then (-r.1.err, r.2)
    else (if cstring r.1.token = ok then 0 else -1, r.2)

/-- `cmyth_rcv_version`: the value returned, the version and the connection. -/
def rcvVersion (conn : Conn) (err old : Int) : Int × Int × Conn :=
  let l := rcvLength conn
  if l.1 < 0 then (l.1, old, l.2)
  else
    let r := rcvString l.2 err 8 l.1
    if r.1.err ≠ 0 then (-r.1.err, old, r.2)
    else
      let n := rcvUlong r.2 (l.1 - r.1.consumed)
      (-n.1.err, n.1.value, n.2)

/-- The reply to `cmyth_file_request_block`: the value returned and the connection. The count that
`cmyth_rcv_long` returns is never negative, so its errors go unnoticed. -/
def requestBlockReply (conn : Conn) (old : Int) : Int × Conn :=
  let l := rcvLength conn
  if l.1 < 0 then l
  else
    let r := rcvLong l.2 old l.1
    (r.1.value, r.2)

end Mvpmc.Cmyth
