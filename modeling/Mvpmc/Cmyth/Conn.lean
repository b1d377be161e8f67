import Mvpmc.Lib.Circular

/-! Connections of `libcmyth` and the tokens of a message (`socket.c`). The socket is
the list of pieces in which the bytes arrive. -/
namespace Mvpmc.Cmyth
open Mvpmc.Lib.Circular

def EBADF : Int := 9
def EINVAL : Int := 22

/-- `struct cmyth_conn`. A NULL `conn_buf` is `none`; `errno` is what a failing `recv`
leaves behind. The timeouts of `select` only set `conn_hang` and are left out. -/
structure Conn where
  fd : Int
  buf : Option (Nat → UInt8)
  buflen : Nat
  pos : Nat
  len : Nat
  pieces : List (List UInt8)
  errno : Nat

/-- `recv` of at most `n` bytes, and what is left in the socket. Nothing is received at
the end of the stream. -/
def recv (n : Nat) : List (List UInt8) → List UInt8 × List (List UInt8)
  | [] => ([], [])
  | piece :: pieces => (piece.take n, if piece.length ≤ n then pieces else piece.drop n :: pieces)

/-- The loop of `cmyth_conn_refill`; every round receives something, so `len` is enough fuel. -/
def refillLoop : Nat → Nat → List (List UInt8) → List UInt8 × List (List UInt8)
  | 0, _, pieces => ([], pieces)
  | fuel + 1, len, pieces =>
    if len = 0 then ([], pieces)
    else
      let r := recv len pieces
      if r.1 = [] then ([], r.2)
      else
        let t := refillLoop fuel (len - r.1.length) r.2
        (r.1 ++ t.1, t.2)

/-- `cmyth_conn_refill`: the value returned and the connection after the call. -/
def refill (conn : Conn) (len : Nat) : Int × Conn :=
  match conn.buf with
  | none => (-EINVAL, conn)
  | some buf =>
    let len := min len conn.buflen
    let r := refillLoop len len conn.pieces
    if len ≠ 0 ∧ r.1 = [] then (-conn.errno, { conn with pieces := r.2 })
    else (0, { conn with buf := some (blit buf 0 r.1), pos := 0, len := r.1.length, pieces := r.2 })

/-- The separator of the tokens in a message, `[]:[]`. -/
def separator : List UInt8 := [0x5B, 0x5D, 0x3A, 0x5B, 0x5D]

/-- The locals of `cmyth_rcv_string` that do not touch the connection: the bytes consumed,
those in the output buffer, the length of the separator matched so far and where its
match started in the output buffer. -/
structure Scan where
  consumed : Nat := 0
  placed : List UInt8 := []
  state : Nat := 0
  sepStart : Option Nat := none
  deriving DecidableEq, Repr

namespace Scan

/-- One byte of the message. A byte that breaks a match is not tried as the start of another. -/
def byte (buflen : Nat) (s : Scan) (b : UInt8) : Scan where
  consumed := s.consumed + 1
  placed := if s.placed.length < buflen then s.placed ++ [b] else s.placed
  state := if separator[s.state]? = some b then s.state + 1 else 0
  sepStart :=
    if separator[s.state]? = some b then
      if s.state = 0 ∧ s.placed.length < buflen then some s.placed.length else s.sepStart
    else none

/-- Where the output buffer is terminated behind the bytes placed. -/
def atEnd (buflen : Nat) (s : Scan) : Option Nat := if s.placed.length < buflen then some s.placed.length else none

/-- Where it is terminated once a separator is complete. -/
def atSeparator (buflen : Nat) (s : Scan) : Option Nat := s.sepStart.or (s.atEnd buflen)

end Scan

/-- A call of `cmyth_rcv_string` under way. -/
structure Rcv where
  conn : Conn
  err : Int
  scan : Scan := {}

/-- Refill an empty buffer; the flag says that this failed. -/
def Rcv.fill (s : Rcv) (n : Nat) : Rcv × Bool :=
  if s.conn.len ≤ s.conn.pos then
    let r := refill s.conn n
    if r.1 < 0 then ({ s with conn := r.2, err := -r.1 }, true)
    else ({ s with conn := r.2, err := r.1 }, false)
  else (s, false)

/-- The byte at `conn_pos`. -/
def Rcv.next (s : Rcv) (buflen : Nat) : Rcv :=
  { s with
    conn.pos := s.conn.pos + 1
    scan := s.scan.byte buflen ((s.conn.buf.getD fun _ => 0) s.conn.pos) }

/-- The loop of `cmyth_rcv_string` with `n` bytes of `count` left: the locals at its end
and the index of the terminating zero. -/
def rcvLoop (buflen : Nat) : Nat → Rcv → Rcv × Option Nat
  | 0, s => ({ s with conn.pos := 0, conn.len := 0 }, s.scan.atEnd buflen)
  | n + 1, s =>
    let r := s.fill (n + 1)
    if r.2 then (r.1, none)
    else
      let s := r.1.next buflen
      if s.scan.state = separator.length then (s, s.scan.atSeparator buflen) else rcvLoop buflen n s

/-- What a call of `cmyth_rcv_string` leaves: the count returned, the error code, the bytes
in the output buffer and the index of the terminating zero. -/
structure Received where
  consumed : Nat
  err : Int
  buf : List UInt8
  zero : Option Nat
  deriving DecidableEq, Repr

/-- The string in the output buffer. -/
def Received.token (r : Received) : List UInt8 :=
  match r.zero with
  | some k => r.buf.take k
  | none => r.buf

/-- `cmyth_rcv_string` with the value of `*err` before the call. -/
def rcvString (conn : Conn) (err : Int) (buflen : Nat) (count : Int) : Received × Conn :=
  if count < 0 then (⟨0, EINVAL, [], none⟩, conn)
  else if conn.fd < 0 ∨ conn.buf = none then (⟨0, EBADF, [], none⟩, conn)
  else
    let r := rcvLoop buflen count.toNat { conn := conn, err := err }
    (⟨r.1.scan.consumed, r.1.err, r.1.scan.placed, r.2⟩, r.1.conn)

/-- The arguments of a call other than the byte count. -/
structure Request where
  err : Int
  buflen : Nat

/-- Calls of `cmyth_rcv_string` that pass the remaining count: what each one leaves, the
count that remains and the connection. -/
def rcvStrings : List Request → Nat → Conn → List Received × Nat × Conn
  | [], count, conn => ([], count, conn)
  | q :: qs, count, conn =>
    let r := rcvString conn q.err q.buflen count
    let t := rcvStrings qs (count - r.1.consumed) r.2
    (r.1 :: t.1, t.2)

end Mvpmc.Cmyth
