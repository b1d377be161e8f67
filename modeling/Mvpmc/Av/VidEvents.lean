import Mvpmc.Lib.Reach
import Mvpmc.Lib.Linked

/-! The queue of video events (`videvents.c`), a doubly linked ring in the order of the
presentation times. Times are `unsigned int`; how long a reader sleeps is left out. -/
namespace Mvpmc.Av
open Mvpmc.Lib Mvpmc.Lib.Linked

def ptsHz : Nat := 90000

/-- `eventq_type_t`. -/
inductive EventType where
  | aspect | subtitles
  deriving DecidableEq, Repr

/-- `event_queue_t`; pointers are numbers. -/
structure Node where
  pNext : Nat
  pPrev : Nat
  pts : Nat
  type : EventType
  info : Nat
  deriving DecidableEq, Repr

abbrev Heap := Nat → Node

namespace Heap

def setNext (heap : Heap) (a b : Nat) : Heap := Function.update heap a { heap a with pNext := b }

def setPrev (heap : Heap) (a b : Nat) : Heap := Function.update heap a { heap a with pPrev := b }

/-- The four assignments that put `x` between `p` and `n`. -/
def splice (heap : Heap) (x p n : Nat) : Heap :=
  let heap := (heap.setPrev x p).setNext x n
  (heap.setNext p x).setPrev n x

/-- The two assignments that join `p` and `n`. -/
def join (heap : Heap) (p n : Nat) : Heap := (heap.setNext p n).setPrev n p

end Heap

/-- The memory and `pNextEvent`. -/
structure Queue where
  heap : Heap
  pNextEvent : Option Nat

namespace Queue

def next (q : Queue) (a : Nat) : Nat := (q.heap a).pNext
def prev (q : Queue) (a : Nat) : Nat := (q.heap a).pPrev
def pts (q : Queue) (a : Nat) : Nat := (q.heap a).pts

/-- The loop of `vid_event_add` that goes forwards from `start`, an event not after `pts`. -/
def forward (q : Queue) (start pts fuel : Nat) : Option Nat :=
  walk q.next (fun c => q.pts c < q.pts (q.prev c) || c == start || !(q.pts c ≤ pts)) fuel start

/-- The loop that goes backwards from `start`, an event after `pts`. -/
def backward (q : Queue) (start pts fuel : Nat) : Option Nat :=
  walk q.prev (fun c => q.pts c < q.pts (q.next c) || c == start || !(pts < q.pts c)) fuel start

/-- The event to add, at the address `x` from `malloc`. -/
def fill (q : Queue) (x pts : Nat) (type : EventType) (info : Nat) : Queue :=
  { q with heap := Function.update q.heap x { q.heap x with pts := pts, type := type, info := info } }

/-- `vid_event_add`; without enough fuel it does not return. -/
def add (fuel : Nat) (q : Queue) (x pts : Nat) (type : EventType) (info : Nat) : Option Queue :=
  let q := q.fill x pts type info
  match q.pNextEvent with
  | none => some ⟨(q.heap.setNext x x).setPrev x x, some x⟩
  | some start =>
    if q.pts start ≤ pts then
      (q.forward start pts fuel).map fun c => { q with heap := q.heap.splice x (q.prev c) c }
    else
      (q.backward start pts fuel).map fun c => { q with heap := q.heap.splice x c (q.next c) }

/-- The first loop of `vid_event_wait_next`, to an event before `seek` if there is one. -/
def before (q : Queue) (seek fuel start : Nat) : Option Nat :=
  if seek ≤ q.pts start then
    walk q.prev (fun c => q.pts c < q.pts (q.prev c) || c == start || !(seek ≤ q.pts c)) fuel start
  else some start

/-- The second loop, to the first event from there on that is not before `seek`. -/
def after (q : Queue) (seek fuel start : Nat) : Option Nat :=
  if q.pts start < seek then
    walk q.next (fun c => q.pts (q.next c) < q.pts c || c == start || !(q.pts c < seek)) fuel start
  else some start

/-- Thirty seconds before `now`. -/
def seekPts (now : Nat) : Nat := (now + 2 ^ 32 - ptsHz * 30) % 2 ^ 32

/-- Whether an event at `pts` is handed out at the time `now`: it is neither more than
thirty seconds late nor more than forty ahead, and less than a frame ahead. -/
def isDue (now pts : Nat) : Bool :=
  let seek := seekPts now
  let maxSeek := (now + ptsHz * 40) % 2 ^ 32
  let maxPts := (now + ptsHz / 30 - 1) % 2 ^ 32
  let outside := if maxSeek < seek then pts < seek ∧ maxSeek < pts else pts < seek ∨ maxSeek < pts
  ¬ outside ∧ (pts ≤ maxPts ∨ maxPts < seek ∧ seek ≤ pts)

/-- The event that `vid_event_wait_next` hands out at the time `now`, if there is one. -/
def due (fuel : Nat) (q : Queue) (now : Nat) : Option Nat := do
  let start ← q.pNextEvent
  let c ← q.before (seekPts now) fuel start
  let c ← q.after (seekPts now) fuel c
  if isDue now (q.pts c) then some c else none

/-- The end of `vid_event_wait_next`, which takes `c` out of the ring. -/
def remove (q : Queue) (c : Nat) : Queue :=
  if q.next c = c then { q with pNextEvent := none }
  else
    { heap := q.heap.join (q.prev c) (q.next c)
      pNextEvent := if q.pNextEvent = some c then some (q.next c) else q.pNextEvent }

/-- A round of `vid_event_wait_next` at the time `now`; without an event due it sleeps. -/
def waitNext (fuel : Nat) (q : Queue) (now : Nat) : Queue :=
  match q.due fuel now with
  | some c => q.remove c
  | none => q

end Queue
end Mvpmc.Av
