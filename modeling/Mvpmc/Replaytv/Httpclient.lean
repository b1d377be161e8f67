import Mvpmc.Replaytv.Netclient
import Mathlib.Tactic

/-! Reading the body of a response in pieces (`hc_read_pieces`, `httpclient.c`). `unsigned long` and `size_t` have
32 bits. -/
namespace Mvpmc.Replaytv

def EBADMSG : Int := 74
def ECONNABORTED : Int := 103
def RTV_CHUNK_SZ : Nat := 32768
def ULONG_MAX : Nat := 4294967295

/-- The value of a hexadecimal digit. -/
def hexDigit (b : UInt8) : Option Nat :=
  if 48 ≤ b ∧ b ≤ 57 then some (b.toNat - 48)
  else if 97 ≤ b ∧ b ≤ 102 then some (b.toNat - 87)
  else if 65 ≤ b ∧ b ≤ 70 then some (b.toNat - 55)
  else none

/-- The digits that a text begins with, read behind those of `n`. -/
def hexFrom (n : Nat) : List UInt8 → Nat
  | [] => n
  | b :: text =>
    match hexDigit b with
    | some d => hexFrom (16 * n + d) text
    | none => n

def isspace (b : UInt8) : Bool := b = 32 || (9 ≤ b && b ≤ 13)

/-- `0x` in front of a digit is passed over. -/
def skipHexPrefix : List UInt8 → List UInt8
  | 48 :: x :: d :: text => if (x = 120 ∨ x = 88) ∧ (hexDigit d).isSome then d :: text else 48 :: x :: d :: text
  | text => text

/-- `strtoul` in base 16. -/
def strtoul16 (text : List UInt8) : Nat :=
  match text.dropWhile isspace with
  | 45 :: text =>
    let n := hexFrom 0 (skipHexPrefix text)
    if ULONG_MAX < n then ULONG_MAX else (ULONG_MAX + 1 - n) % (ULONG_MAX + 1)
  | 43 :: text => min (hexFrom 0 (skipHexPrefix text)) ULONG_MAX
  | text => min (hexFrom 0 (skipHexPrefix text)) ULONG_MAX

/-- Bytes read to an offset in a buffer of `size` bytes. -/
structure Landing where
  offset : Nat
  length : Nat
  size : Int
  deriving DecidableEq, Repr

/-- They are in the buffer, and `nc_read` can count them in an `int`. -/
def Landing.Inside (l : Landing) : Prop := l.length < 2 ^ 31 ∧ (l.length = 0 ∨ l.offset + l.length ≤ l.size)

/-- How many pieces are still to come before the callback, and what `bufstart` holds. -/
structure Merge where
  multichunk : Nat
  pending : List UInt8 := []

/-- The size of a buffer for merged pieces, computed in `int`. A negative one is no buffer. -/
def capacity (mergechunks : Nat) : Int := Int.bmod (RTV_CHUNK_SZ * mergechunks + 1) (2 ^ 32)

/-- A piece put into its buffer. -/
structure Stored where
  merge : Merge
  call : Option (List UInt8)
  landing : Landing

/-- What is done with the bytes read for a piece of `len` bytes. -/
def storePiece (mergechunks : Nat) (m : Merge) (len : Nat) (data : List UInt8) : Stored :=
  if mergechunks = 0 then ⟨m, some data, ⟨0, data.length, len + 1⟩⟩
  else
    let held := if m.multichunk = mergechunks then [] else m.pending
    let landing := ⟨held.length, data.length, capacity mergechunks⟩
    if 1 < m.multichunk then ⟨⟨m.multichunk - 1, held ++ data⟩, none, landing⟩
    else ⟨⟨mergechunks, held ++ data⟩, some (held ++ data), landing⟩

/-- What `hc_read_pieces` returns, the data it calls back with, and where the bytes read landed. It is undefined
once `strtoul` is given a line that was not terminated. -/
structure Fetched where
  rc : Int := 0
  calls : List (List UInt8) := []
  landings : List Landing := []
  defined : Bool := true

/-- The size of the next chunk. -/
def chunkSize (nc : Nc) : Option (Nat × Nc) :=
  let line := ncReadLine nc 32
  if line.terminated then some (strtoul16 line.text, line.nc) else none

/-- The lines behind a chunk, up to an empty one. -/
def skipLines : Nat → Nc → Nc
  | 0, nc => nc
  | fuel + 1, nc =>
    let line := ncReadLine nc 80
    if line.text.length = 0 then line.nc else skipLines fuel line.nc

/-- The loop of `hc_read_pieces`; every round but the last reads something. -/
def fetchLoop (callback : List UInt8 → Int) (chunked : Bool) (mergechunks : Nat) : Nat → Merge → Nc → Fetched
  | 0, _, _ => { defined := false }
  | fuel + 1, m, nc =>
    match if chunked then chunkSize nc else some (4096, nc) with
    | none => { defined := false }
    | some (len, nc) =>
      if len = 0 then
        if mergechunks ≠ 0 ∧ m.multichunk ≠ mergechunks then { rc := callback m.pending, calls := [m.pending] } else {}
      else
        let r := ncRead nc len
        let s := storePiece mergechunks m len r.1
        if s.call.elim 0 callback ≠ 0 then
          { rc := -ECONNABORTED, calls := s.call.toList, landings := [s.landing] }
        else
          let nc := if chunked then skipLines (r.2.bytes.length + 1) r.2 else r.2
          if r.1.length < len then { calls := s.call.toList, landings := [s.landing] }
          else
            let t := fetchLoop callback chunked mergechunks fuel s.merge nc
            { t with calls := s.call.toList ++ t.calls, landings := s.landing :: t.landings }

/-- The number of pieces merged; 0 if they are not. -/
def mergeCount (mergechunks : Int) : Nat := if 1 < mergechunks then mergechunks.toNat else 0

/-- `hc_read_pieces`, with the status and the `Transfer-Encoding` of the response. -/
def hcReadPieces (callback : List UInt8 → Int) (status : Option Nat) (te : Option String) (mergechunks : Int) (nc : Nc) :
    Fetched :=
  if status.any (· / 100 ≠ 2) then { rc := -EBADMSG }
  else
    fetchLoop callback (te = some "chunked") (mergeCount mergechunks) (nc.bytes.length + 1)
      ⟨mergeCount mergechunks, []⟩ nc

end Mvpmc.Replaytv
