import Mvpmc.Demux.Handle

/-! `parse_spu_frame`: reassembly of DVD subpictures and their control sequence. -/
namespace Mvpmc.Demux
open Mvpmc.Lib.Circular

/-- The locals filled in by the control sequence of a subpicture. -/
structure SpuControl where
  start : UInt32 := 0
  finish : UInt32 := 0
  color : Nat := 0
  alpha : Nat := 0
  x : Nat := 0
  y : Nat := 0
  w : Nat := 0
  h : Nat := 0
  line1 : Nat := 0
  line2 : Nat := 0

def byteAt (p : Nat → UInt8) (i : Nat) : Nat := (p i).toNat

/-- The command loop; `none` is the unknown command. Every command moves on, so
`size` rounds are enough. -/
def spuCommands (p : Nat → UInt8) (size : Nat) (start : UInt32) : Nat → Nat → SpuControl → Option SpuControl
  | 0, _, c => some c
  | fuel + 1, cmd, c =>
    if cmd < size then
      let b := byteAt p
      match b cmd with
      | 0 => spuCommands p size start fuel (cmd + 1) { c with start := start }
      | 1 => spuCommands p size start fuel (cmd + 1) { c with start := start }
      | 2 => spuCommands p size start fuel (cmd + 1) { c with finish := start }
      | 3 => spuCommands p size start fuel (cmd + 3) { c with color := (b (cmd + 1) * 256) ||| b (cmd + 2) }
      | 4 => spuCommands p size start fuel (cmd + 3) { c with alpha := (b (cmd + 1) * 256) ||| b (cmd + 2) }
      | 5 =>
        let x := (b (cmd + 1) <<< 4) + (b (cmd + 2) >>> 4)
        let y := (b (cmd + 4) <<< 4) + (b (cmd + 5) >>> 4)
        spuCommands p size start fuel (cmd + 7) { c with
          x := x
          w := u32 ((((b (cmd + 2) &&& 0x0f) <<< 8) + b (cmd + 3) : Nat) - (x : Int) + 1)
          y := y
          h := u32 ((((b (cmd + 5) &&& 0x0f) <<< 8) + b (cmd + 6) : Nat) - (y : Int) + 1) }
      | 6 => spuCommands p size start fuel (cmd + 5) { c with
          line1 := (b (cmd + 1) <<< 8) + b (cmd + 2)
          line2 := (b (cmd + 3) <<< 8) + b (cmd + 4) }
      | 0xff => some c
      | _ => none
    else some c

/-- The number of queued items that move down by one slot. -/
def spuShift (item : Nat → SpuItem) (last : Nat) : Nat → Nat
  | 0 => 0
  | i + 1 => if spuShift item last i = i ∧ i < last ∧ (item (i + 1)).data.isSome then i + 1 else spuShift item last i

/-- Store a decoded subpicture: the oldest item goes, the queue moves down. -/
def Spu.push (s : Spu) (it : SpuItem) : Spu :=
  let last := if s.inuse then SPU_MAX - 1 else 3
  let item := Function.update s.item 0 { s.item 0 with data := none }
  let k := spuShift item last last
  { s with item := fun j => if j < k then item (j + 1) else if j = k then it else item j, buf := none }

/-- A complete subpicture at `p`; the result is 0 or -1. -/
def spuComplete (h : Handle) (id : Nat) (p : Nat → UInt8) (size dataSize : Nat) (start : UInt32) : Handle × Int :=
  let s := h.spu id
  let attr := h.attrSpu id
  let s := { s with len := 0, size := 0 }
  let h := { h with
    attrSpu := Function.update h.attrSpu id { bytes := attr.bytes + (h.spu id).len, frames := attr.frames + 1 }
    spu := Function.update h.spu id s }
  match spuCommands p size start size (dataSize + 4) {} with
  | none => (h, -1)
  | some c =>
    if c.w = 0 ∨ c.h = 0 then (h, -1)
    else
      let it : SpuItem := ⟨some (slice p 0 dataSize), dataSize, c.x, c.y, c.w, c.h, c.start, c.finish,
        c.color, c.alpha, c.line1, c.line2⟩
      ({ h with spu := Function.update h.spu id (s.push it) }, 0)

/-- `parse_spu_frame` on the `len` bytes at `mem`; nothing bounds the reads. -/
def parseSpuFrame (h : Handle) (mem : Nat → UInt8) (len : Nat) : Handle × Int :=
  let id := u32 ((byteAt mem (byteAt mem 2 + 3) : Int) - 32)
  let header := byteAt mem 2 + 4
  if 31 < id then (h, -1)
  else if len = 0 then (h, -1)
  else
    let start := ((mem 7).toUInt32 >>> 1) ||| ((mem 6).toUInt32 <<< 7) ||| (((mem 5).toUInt32 >>> 1) <<< 14) |||
      ((mem 4).toUInt32 <<< 22) ||| ((((mem 3).toUInt32 >>> 1) &&& 7) <<< 29)
    let s := h.spu id
    let p : Nat → UInt8 := fun i => mem (header + i)
    let body : Int := (len : Int) - header
    if s.size = 0 then
      let size := byteAt p 0 * 256 + byteAt p 1
      let dataSize := byteAt p 2 * 256 + byteAt p 3
      if size ≤ len then
        spuComplete { h with spu := Function.update h.spu id { s with len := size } } id p size dataSize start
      else
        -- first frame: a negative `body` is a wild `memcpy` in the source
        ({ h with spu := Function.update h.spu id { s with
            size := size, dataSize := dataSize, len := body
            buf := some (blit (fun _ => 0) 0 (slice p 0 body.toNat)) } }, 0)
    else if s.size < s.len + body then
      ({ h with spu := Function.update h.spu id { s with size := 0 } }, -1)
    else
      let buf := blit (s.buf.getD fun _ => 0) s.len.toNat (slice p 0 body.toNat)
      let s := { s with buf := some buf, len := s.len + body }
      let h := { h with spu := Function.update h.spu id s }
      if s.len ≠ s.size then (h, 0)
      else spuComplete h id buf s.size.toNat s.dataSize start

end Mvpmc.Demux
