import Mvpmc.Lib.Transducer
import Mvpmc.Demux.Frame

/-! The program stream as a machine that reads one byte at a time and emits the bytes
for the audio ring. It does not know about buffers, so it says what the demuxer
should do however its input is cut. Where the demuxer's own code depends on the cut
the machine stops in the place `cut`. -/
namespace Mvpmc.Demux.ProgramStream
open Mvpmc.Lib Mvpmc.Lib.Transducer Mvpmc.Lib.Circular

/-- Where in the program stream the machine is. -/
inductive Place where
  /-- The search for a start code, in the states 1 to 4 of `add_buffer`. -/
  | search (state : Nat)
  /-- The search after a pack header whose tenth byte is zero: `add_buffer` may or
  may not have seen that byte, and is in one of two neighbouring states. -/
  | doubt (state : Nat)
  | pack (got : List UInt8)
  /-- An MPEG-2 pack header with this many bytes after the seventh. -/
  | pack2 (got : Nat)
  /-- A pack header that announces two or more stuffing bytes. -/
  | stuffed
  | other (type : Nat) (got : List UInt8)
  | skip (n : Nat)
  | private1 (n : Nat) (got : List UInt8)
  | av (sid : StreamId) (type : Nat) (got : List UInt8)
  | copy (sid : StreamId) (n : Nat)
  /-- An empty packet of a stream that is not played: the demuxer never leaves it. -/
  | stuck
  | cut
  deriving DecidableEq

structure Config where
  place : Place
  audio : Nat
  video : Nat
  deriving DecidableEq

namespace Config

def goto (c : Config) (p : Place) : Config := { c with place := p }

def current (c : Config) : StreamId → Nat
  | .audio => c.audio
  | .video => c.video

def select (c : Config) (sid : StreamId) (type : Nat) : Config :=
  match sid with
  | .audio => { c with audio := if c.audio = noStream then type else c.audio }
  | .video => { c with video := if c.video = noStream then type else c.video }

end Config

/-- A packet with `n` bytes left to read, or the search if there are none. -/
def remaining (n : Nat) (p : Nat → Place) : Place := if n = 0 then .search 1 else p n

/-- The length from two bytes. -/
def lengthOf (got : List UInt8) : Nat := (got.getD 0 0).toNat * 256 + (got.getD 1 0).toNat

def packDone (c : Config) (got : List UInt8) : Config × List UInt8 :=
  (c.goto (if got.getD 0 0 &&& 0xc0 = 0x40 then .pack2 0 else .search 1), [])

/-- The tenth byte of a pack header: its low bits count the stuffing bytes. -/
def tenthByte (b : UInt8) : Place :=
  if b &&& 7 = 0 then if b = 0 then .doubt 1 else .search 1
  else if b &&& 7 = 1 then .search 1 else .stuffed

/-- A complete private stream 1 packet. The audio substreams are 128 to 191. A header
that points out of the packet matters only while no audio stream is selected, and
`full` says that a ring may refuse the audio, which is then lost. -/
def privateDone (full : Bool) (c : Config) (pkt : List UInt8) : Config × List UInt8 :=
  let header := (pkt.getD 2 0).toNat
  if pkt.length ≤ header + 3 then (c.goto (if c.audio = noStream then .cut else .search 1), [])
  else
    let sub := (pkt.getD (header + 3) 0).toNat
    if 128 ≤ sub ∧ sub < 192 then
      let c := c.select .audio sub
      if sub = c.audio then (c.goto (if full then .cut else .search 1), pkt.drop (header + 7))
      else (c.goto (.search 1), [])
    else (c.goto (.search 1), [])

def otherDone (full : Bool) (type : Nat) (c : Config) (got : List UInt8) : Config × List UInt8 :=
  if type = private_stream_1 then
    if lengthOf got = 0 then privateDone full c [] else (c.goto (.private1 (lengthOf got) []), [])
  else (c.goto (remaining (lengthOf got) .skip), [])

/-- The length of an audio or video packet is known. -/
def avDone (sid : StreamId) (type : Nat) (c : Config) (got : List UInt8) : Config × List UInt8 :=
  if type = c.current sid then
    (c.goto (remaining (lengthOf got) (.copy sid)), if sid = .audio then startCode type ++ got else [])
  else (c.goto (if lengthOf got = 0 then .stuck else .skip (lengthOf got)), [])

/-- The type byte behind a start code prefix. -/
def start (c : Config) (type : Nat) : Config :=
  if type = MPEG_program_end_code then c.goto (.search 1)
  else if type = pack_start_code then c.goto (.pack [])
  else if isOtherStream type then c.goto (.other type [])
  else if isVideoStream type then (c.select .video type).goto (.av .video type [])
  else if isAudioStream type then (c.select .audio type).goto (.av .audio type [])
  else c.goto (.search 1)

/-- Keep a byte until there are `k` of them. -/
def keep (c : Config) (k : Nat) (place : List UInt8 → Place) (done : Config → List UInt8 → Config × List UInt8)
    (got : List UInt8) (b : UInt8) : Config × List UInt8 :=
  if got.length + 1 < k then (c.goto (place (got ++ [b])), []) else done c (got ++ [b])

/-- One byte of the program stream, and the bytes it sends to the audio ring. -/
def step (full : Bool) (c : Config) (b : UInt8) : Config × List UInt8 :=
  match c.place with
  | .search state => if state = 4 then (start c b.toNat, []) else (c.goto (.search (scanByte state b)), [])
  | .doubt state =>
    if state = 1 then (c.goto (if b = 0 then .doubt 2 else .search 1), [])
    else (c.goto (if b = 1 then .cut else if b = 0 then .search 3 else .search 1), [])
  | .pack got => keep c 7 .pack packDone got b
  | .pack2 got => (c.goto (if got < 2 then .pack2 (got + 1) else tenthByte b), [])
  | .stuffed => (c.goto .cut, [])
  | .other type got => keep c 2 (.other type) (otherDone full type) got b
  | .skip n => (c.goto (remaining (n - 1) .skip), [])
  | .private1 n got => keep c n (.private1 n) (privateDone full) got b
  | .av sid type got => keep c 2 (.av sid type) (avDone sid type) got b
  | .copy sid n => (c.goto (remaining (n - 1) (.copy sid)), if sid = .audio then [b] else [])
  | .stuck => (c, [])
  | .cut => (c, [])

section Runs
variable (full : Bool) (c : Config)

theorem collects_pack : Collects (step full) 7 (fun got => c.goto (.pack got)) (packDone c) := fun _ _ => rfl

theorem collects_other (type : Nat) :
    Collects (step full) 2 (fun got => c.goto (.other type got)) (otherDone full type c) := fun _ _ => rfl

theorem collects_av (sid : StreamId) (type : Nat) :
    Collects (step full) 2 (fun got => c.goto (.av sid type got)) (avDone sid type c) := fun _ _ => rfl

theorem collects_private (n : Nat) :
    Collects (step full) n (fun got => c.goto (.private1 n got)) (privateDone full c) := fun _ _ => rfl

theorem goto_place : c.goto c.place = c := rfl

theorem run_skip (n : Nat) (hn : n ≠ 0) (xs : List UInt8) (hl : xs.length ≤ n) :
    run (step full) (c.goto (.skip n)) xs = (c.goto (remaining (n - xs.length) .skip), []) := by
  induction xs generalizing n with
  | nil =>
    rw [List.length_nil, Nat.sub_zero, remaining, if_neg hn]
    rfl
  | cons x xs ih =>
    rw [List.length_cons] at hl
    have hstep : step full (c.goto (.skip n)) x = (c.goto (remaining (n - 1) .skip), []) := rfl
    rw [run_cons, hstep]
    by_cases h1 : n - 1 = 0
    · have hx : xs = [] := List.length_eq_zero_iff.mp (by omega)
      subst hx
      rw [List.length_singleton, run_nil]
      rfl
    · rw [show remaining (n - 1) .skip = .skip (n - 1) from if_neg h1, ih (n - 1) h1 (by omega),
        List.length_cons, Nat.sub_sub, Nat.add_comm 1]
      rfl

theorem run_copy (sid : StreamId) (n : Nat) (hn : n ≠ 0) (xs : List UInt8) (hl : xs.length ≤ n) :
    run (step full) (c.goto (.copy sid n)) xs =
      (c.goto (remaining (n - xs.length) (.copy sid)), if sid = .audio then xs else []) := by
  induction xs generalizing n with
  | nil =>
    rw [List.length_nil, Nat.sub_zero, remaining, if_neg hn, ite_self]
    rfl
  | cons x xs ih =>
    rw [List.length_cons] at hl
    have hstep : step full (c.goto (.copy sid n)) x =
        (c.goto (remaining (n - 1) (.copy sid)), if sid = .audio then [x] else []) := rfl
    rw [run_cons, hstep]
    by_cases h1 : n - 1 = 0
    · have hx : xs = [] := List.length_eq_zero_iff.mp (by omega)
      subst hx
      rw [List.length_singleton, run_nil, List.append_nil]
    · rw [show remaining (n - 1) (.copy sid) = .copy sid (n - 1) from if_neg h1, ih (n - 1) h1 (by omega),
        List.length_cons, Nat.sub_sub, Nat.add_comm 1]
      cases sid <;> rfl

theorem run_cut (hc : c.place = .cut) (xs : List UInt8) : run (step full) c xs = (c, []) :=
  run_of_fixed _ (fun x => by rw [step, hc]) xs

theorem run_stuck (hc : c.place = .stuck) (xs : List UInt8) : run (step full) c xs = (c, []) :=
  run_of_fixed _ (fun x => by rw [step, hc]) xs

end Runs
end Mvpmc.Demux.ProgramStream
