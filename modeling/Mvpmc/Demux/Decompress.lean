import Mvpmc.Demux.Handle
import Mvpmc.Lib.Loop

/-! `demux_spu_decompress`: the run-length decoder of subpictures. -/
namespace Mvpmc.Demux
open Mvpmc.Lib

/-- The variables of the decoder. `state` says that the low half of byte `i` is next. -/
structure Decoder where
  i : Nat
  state : Bool := false
  x : Nat := 0
  y : Nat := 0
  img : Nat → UInt8

namespace Decoder
variable (data : Nat → UInt8) (size w h line2 : Nat)

/-- `get_nibble`. -/
def getNibble (d : Decoder) : Nat × Decoder :=
  if d.state then ((data d.i &&& 0x0f).toNat, { d with i := d.i + 1, state := false })
  else ((data d.i >>> 4).toNat, { d with state := true })

/-- `c = (c << 4) | get_nibble(..)`. -/
def more (r : Nat × Decoder) : Nat × Decoder :=
  let n := r.2.getNibble data
  ((r.1 <<< 4) ||| n.1, n.2)

/-- A code of one to four nibbles. -/
def readCode (d : Decoder) : Nat × Decoder :=
  let r := d.getNibble data
  if r.1 < 0x4 then
    let r := more data r
    if r.1 < 0x10 then
      let r := more data r
      if r.1 < 0x40 then more data r else r
    else r
  else r

/-- A line ends on a whole byte. -/
def align (d : Decoder) : Decoder := { d with i := if d.state then d.i + 1 else d.i, state := false }

/-- A run of `j` pixels. A line that it fills is left, towards the next one of the same field. -/
def run (c : UInt8) : Nat → Decoder → Decoder
  | 0, d => d
  | j + 1, d =>
    let d := { d with img := Function.update d.img (d.y * w + d.x) c }
    run c j (if w ≤ d.x + 1 then { d.align with x := 0, y := d.y + 2 } else { d with x := d.x + 1 })

/-- The code that fills the line to its end, and goes on to the other field behind the last even line. -/
def fillLine (c : UInt8) (d : Decoder) : Decoder :=
  let d := d.align
  let d := { d with img := fun k => if d.y * w + d.x ≤ k ∧ k < d.y * w + w then c else d.img k, y := d.y + 2, x := 0 }
  if h ≤ d.y ∧ d.y % 2 = 0 then { d with y := 1, i := line2 } else d

/-- One round of the loop. -/
def step (d : Decoder) : Decoder :=
  let r := d.readCode data
  if r.1 ≤ 3 then r.2.fillLine w h line2 (UInt8.ofNat r.1)
  else run w (UInt8.ofNat (r.1 &&& 3)) (r.1 >>> 2) r.2

def goesOn (d : Decoder) : Bool := decide (d.i < size) && decide (d.y < h)

def loop (fuel : Nat) (d : Decoder) : Decoder := Loop.run (goesOn size h) (step data w h line2) fuel d

end Decoder

/-- The memory behind the data pointer. -/
def SpuItem.byte (spu : SpuItem) (i : Nat) : UInt8 := (spu.data.getD []).getD i 0

/-- `demux_spu_decompress`. Every round reads a nibble and the field changes once, so twice the
nibbles of the data are rounds enough. -/
def demuxSpuDecompress (spu : SpuItem) : Nat → UInt8 :=
  (Decoder.loop spu.byte spu.size spu.w spu.h spu.line2 (4 * spu.size + 1) { i := spu.line1, img := fun _ => 0 }).img

end Mvpmc.Demux
