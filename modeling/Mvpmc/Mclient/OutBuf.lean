import Mvpmc.Lib.Circular

/-! The audio output ring (`ring_buf`, `mclient.h`) and the functions that fill and empty it. Pausing and
resetting the hardware is left out. -/
namespace Mvpmc.Mclient
open Mvpmc.Lib.Circular

def RECV_BUF_SIZE : Nat := 65536

def OUT_BUF_SIZE : Nat := 131072

def STREAM_PACKET_SIZE : Nat := 1448

/-- `ring_buf`. -/
structure RingBuf where
  buf : Nat → UInt8
  head : Nat := 0
  tail : Int := 0
  playmode : Nat := 0

namespace RingBuf

/-- The copy of received bytes behind `head`, in one piece or split at the end of the buffer. -/
def put (b : RingBuf) (data : List UInt8) : RingBuf :=
  if b.head + data.length ≤ OUT_BUF_SIZE then
    { b with
      buf := blit b.buf b.head data
      head := if b.head + data.length = OUT_BUF_SIZE then 0 else b.head + data.length }
  else
    { b with
      buf := blit (blit b.buf b.head (data.take (OUT_BUF_SIZE - b.head))) 0 (data.drop (OUT_BUF_SIZE - b.head))
      head := data.length - (OUT_BUF_SIZE - b.head) }

/-- `bufferFull`, as `http_read_stream` computes it. -/
def bufferFull (b : RingBuf) : Int :=
  if b.tail ≤ b.head then b.head - b.tail else b.head + (OUT_BUF_SIZE - b.tail)

/-- `http_read_stream` receives only when there is room for two packets. -/
def hasRoom (b : RingBuf) : Bool := decide (b.bufferFull < OUT_BUF_SIZE - 2 * STREAM_PACKET_SIZE)

/-- `n` bytes from `tail` on, the first cell standing in for one in front of the buffer. -/
def fromTail (b : RingBuf) (n : Int) : List UInt8 := slice b.buf b.tail.toNat n.toNat

/-- The case of data that is split between the end of the buffer and its beginning. -/
def sendSplit (b : RingBuf) (first second : Int) : RingBuf × List UInt8 :=
  if first = 0 then (b, [])
  else if first = OUT_BUF_SIZE - b.tail then
    let sent := b.fromTail first
    let b := { b with tail := 0 }
    if second = 0 then (b, sent)
    else if second = b.head then ({ b with tail := b.head }, sent ++ b.fromTail second)
    else ({ b with tail := second }, sent ++ b.fromTail second)
  else ({ b with tail := b.tail + first }, b.fromTail first)

/-- The case of data in one piece. -/
def sendStraight (b : RingBuf) (first : Int) : RingBuf × List UInt8 :=
  if first = 0 then (b, []) else ({ b with tail := b.tail + first }, b.fromTail first)

end RingBuf

/-- `http_buffer` with the bytes it is told to take out of `recvbuf`. -/
def httpBuffer (b : RingBuf) (data : List UInt8) : RingBuf := if data.length ≠ 0 then b.put data else b

/-- `send_mpeg_data` with the descriptor of the audio device and what the two calls of `write` return, and the
bytes the device accepts. -/
def sendMpegData (b : RingBuf) (afd first second : Int) : RingBuf × List UInt8 :=
  match b.playmode with
  | 0 =>
    if afd < 0 then ({ b with head := 0, tail := 0 }, [])
    else if (b.head : Int) < b.tail then b.sendSplit first second
    else b.sendStraight first
  | 3 => ({ b with tail := 0 }, [])
  | _ => (b, [])

namespace RingBuf
variable {b : RingBuf} {data : List UInt8}

/-- Both cases of the copy are the write that wraps at the end of the buffer. -/
theorem put_eq (hh : b.head < OUT_BUF_SIZE) (hl : data.length < OUT_BUF_SIZE) :
    b.put data = { b with buf := store b.buf OUT_BUF_SIZE b.head data, head := (b.head + data.length) % OUT_BUF_SIZE } := by
  unfold put store
  split
  · rename_i hfit
    rw [List.take_of_length_le (by omega), List.drop_of_length_le (by omega), blit_nil]
    congr 1
    split
    · rename_i hend
      rw [hend, Nat.mod_self]
    · rename_i hend
      rw [Nat.mod_eq_of_lt (by omega)]
  · rename_i hfit
    congr 1
    rw [Nat.mod_eq_sub_mod (by omega), Nat.mod_eq_of_lt (by omega)]
    omega

end RingBuf
end Mvpmc.Mclient
