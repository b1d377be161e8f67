import Mvpmc.Replaytv.EvtFile
import Mvpmc.Lib.Sweep

/-! The edit points of a recording, told without the arrays that the second pass keeps them in. -/
namespace Mvpmc.Replaytv.EvtFile
open Mvpmc.Lib

/-- What a fade is taken for: a point inside of a commercial block, or the start of one. -/
inductive Mark where
  | add (time : UInt32)
  | start (time : UInt32)

section Marks
variable (progsegMin sceneMin : UInt32)

/-- A fade against the time of the last one; in the first minute it is never a start. -/
def classify (last time : UInt32) : Option Mark :=
  if last = 0 ∨ sceneMin ≤ time - last then
    if last ≠ 0 ∧ time - last < progsegMin ∨ last = 0 ∧ time < 60000 then some (.add time) else some (.start time)
  else none

/-- The time that the next fade is compared with. -/
def lastAfter (last time : UInt32) : UInt32 := if last = 0 ∧ time < 60000 then last else time

def marks (last : UInt32) : List UInt32 → List Mark
  | [] => []
  | time :: times => (classify progsegMin sceneMin last time).toList ++ marks (lastAfter last time) times

end Marks

/-- Where the block ends that was started last: at the last point added before the next start, if there is any, and
otherwise wherever the memory says; the end of the recording comes in at the last block. -/
def endOf (fresh : Nat → UInt32) (k : Nat) (start last : UInt32) (added : UInt32) : List Mark → UInt32
  | [] => if start < added then added else last
  | .add time :: ms => endOf fresh k start last time ms
  | .start _ :: _ => if added = 0 then fresh k else added

/-- The blocks from the one with the number `k` on. -/
def blocksOf (fresh : Nat → UInt32) (last : UInt32) (k : Nat) (added : UInt32) : List Mark → List ProgSeg
  | [] => []
  | .add time :: ms => blocksOf fresh last k time ms
  | .start time :: ms => ⟨time, endOf fresh k time last added ms⟩ :: blocksOf fresh last (k + 1) added ms

def addTime : Mark → Option UInt32
  | .add time => if time = 0 then none else some time
  | .start _ => none

/-- The points that go into the history. -/
def addsOf (ms : List Mark) : List UInt32 := ms.filterMap addTime

/-- The point before the last one, if more than a minute lies between them. -/
def earlierAdd (adds : List UInt32) : Option UInt32 :=
  match adds.reverse with
  | a :: b :: _ => if 60000 < a - b then some b else none
  | _ => none

/-- A last block that begins before the end of the one in front of it is left out. -/
def withoutBogus (blocks : List ProgSeg) : List ProgSeg :=
  match blocks.reverse with
  | last :: before :: _ => if last.start ≤ before.stop then blocks.dropLast else blocks
  | _ => blocks

/-- The last block ends at the point before the last one. -/
def withEarlierEnd (adds : List UInt32) (blocks : List ProgSeg) : List ProgSeg :=
  match earlierAdd adds with
  | some time => blocks.modify (blocks.length - 1) fun b => { b with stop := time }
  | none => blocks

namespace Segments
variable (fresh : Nat → UInt32)

/-- What the second pass does with a mark. -/
def mark (s : Segments) : Mark → Segments
  | .add time => { s with lastAdded := time }.addPoint
  | .start time => s.startBlock fresh time

def withTime (s : Segments) (last : UInt32) : Segments := { s with lasttime := last }

theorem mark_withTime (s : Segments) (m : Mark) (last : UInt32) :
    (s.withTime last).mark fresh m = (s.mark fresh m).withTime last := by
  cases m with
  | add time =>
    by_cases h0 : time = 0
    · simp [mark, addPoint, withTime, h0]
    · by_cases hfull : 20 < s.addcount <;> simp [mark, addPoint, compact, withTime, h0, hfull]
  | start time =>
    by_cases hc : s.lastAdded ≠ 0 ∧ 0 < s.blocks.length
    · have hc' : (s.withTime last).lastAdded ≠ 0 ∧ 0 < (s.withTime last).blocks.length := hc
      rw [mark, mark, startBlock, startBlock, if_pos hc, if_pos hc']
      rfl
    · have hc' : ¬ ((s.withTime last).lastAdded ≠ 0 ∧ 0 < (s.withTime last).blocks.length) := hc
      rw [mark, mark, startBlock, startBlock, if_neg hc, if_neg hc']
      rfl

theorem foldl_mark_withTime (s : Segments) (ms : List Mark) (last : UInt32) :
    ms.foldl (mark fresh) (s.withTime last) = (ms.foldl (mark fresh) s).withTime last := by
  induction ms generalizing s with
  | nil => rfl
  | cons m ms ih => rw [List.foldl_cons, List.foldl_cons, mark_withTime, ih]

theorem edit_eq (progsegMin sceneMin : UInt32) (s : Segments) (time : UInt32) :
    s.edit progsegMin sceneMin fresh time =
      (classify progsegMin sceneMin s.lasttime time).toList.foldl (mark fresh) (s.withTime (lastAfter s.lasttime time)) := by
  rw [edit, classify, lastAfter, withTime]
  by_cases h0 : s.lasttime = 0
  · by_cases hearly : time < 60000
    · simp only [h0, UInt32.sub_zero, true_or, if_true, hearly, and_self, or_true, Option.toList_some, List.foldl_cons,
        List.foldl_nil, mark]
    · simp [h0, hearly, mark]
  · by_cases hscene : sceneMin ≤ time - s.lasttime
    · by_cases hseg : time - s.lasttime < progsegMin <;> simp [h0, hscene, hseg, mark]
    · simp [h0, hscene]

/-- The second pass goes through the marks. -/
theorem foldl_edit (progsegMin sceneMin : UInt32) (s : Segments) (times : List UInt32) :
    times.foldl (edit progsegMin sceneMin fresh) s =
      ((marks progsegMin sceneMin s.lasttime times).foldl (mark fresh) s).withTime (times.foldl lastAfter s.lasttime) := by
  induction times generalizing s with
  | nil => rfl
  | cons time times ih =>
    rw [List.foldl_cons, ih, edit_eq, foldl_mark_withTime, foldl_mark_withTime, marks, List.foldl_append, List.foldl_cons]
    rfl

theorem addPoint_blocks (s : Segments) : s.addPoint.blocks = s.blocks := by
  by_cases h0 : s.lastAdded = 0
  · simp [addPoint, h0]
  · by_cases hfull : 20 < s.addcount <;> simp [addPoint, compact, h0, hfull]

theorem addPoint_lastAdded (s : Segments) : s.addPoint.lastAdded = s.lastAdded := by
  by_cases h0 : s.lastAdded = 0
  · simp [addPoint, h0]
  · by_cases hfull : 20 < s.addcount <;> simp [addPoint, compact, h0, hfull]

theorem modify_concat (front : List ProgSeg) (b : ProgSeg) (rest : List ProgSeg) (f : ProgSeg → ProgSeg) :
    (front ++ b :: rest).modify front.length f = front ++ f b :: rest := by
  induction front with
  | nil => rfl
  | cons c front ih => rw [List.cons_append, List.length_cons, List.modify_succ_cons, ih, List.cons_append]

theorem setStop_blocks {s : Segments} {front rest : List ProgSeg} {b : ProgSeg} (h : s.blocks = front ++ b :: rest)
    {i : Int} (hi : i = front.length) (stop : UInt32) :
    (s.setStop i stop).blocks = front ++ { b with stop := stop } :: rest := by
  subst hi
  rw [setStop]
  simp only [Int.natCast_nonneg, if_true, Int.toNat_natCast]
  rw [h, modify_concat]

/-- The block in front of a new one ends at the last point added. -/
theorem startBlock_blocks {s : Segments} {front : List ProgSeg} {cur : UInt32}
    (h : s.blocks = front ++ [⟨cur, fresh front.length⟩]) (time : UInt32) :
    (s.startBlock fresh time).blocks =
      front ++ [⟨cur, if s.lastAdded = 0 then fresh front.length else s.lastAdded⟩, ⟨time, fresh (front.length + 1)⟩] := by
  have hlen : s.blocks.length = front.length + 1 := by simp [h]
  have hpush : (s.pushBlock fresh time).blocks = front ++ ⟨cur, fresh front.length⟩ :: [⟨time, fresh (front.length + 1)⟩] := by
    simp [pushBlock, h]
  rw [startBlock]
  by_cases hadded : s.lastAdded = 0
  · rw [if_neg (by simp [hadded]), if_pos hadded, hpush]
  · rw [if_pos ⟨hadded, by omega⟩, if_neg hadded, setStop_blocks hpush (by omega)]

theorem startBlock_lastAdded (s : Segments) (time : UInt32) : (s.startBlock fresh time).lastAdded = s.lastAdded := by
  rw [startBlock]
  split <;> rfl

/-- The end of the last block. -/
theorem endLast_blocks {s : Segments} {front : List ProgSeg} {b : ProgSeg} (h : s.blocks = front ++ [b]) :
    s.endLast.blocks = front ++ [⟨b.start, if b.start < s.lastAdded then s.lastAdded else s.lasttime⟩] := by
  have hlen : s.blocks.length = front.length + 1 := by simp [h]
  have hlast : s.blocks.getLast? = some b := by rw [h, List.getLast?_concat]
  have hi : (s.blocks.length : Int) - 1 = front.length := by omega
  have hend := setStop_blocks h hi s.lasttime
  rw [endLast, hlast]
  by_cases hadded : b.start < s.lastAdded
  · simp only [if_pos hadded]
    split
    · exact setStop_blocks hend hi s.lastAdded
    · next hn => exact absurd hadded hn
  · simp only [if_neg hadded]
    split
    · next hn => exact absurd hn hadded
    · exact hend

/-- The blocks in the array are the ones that the marks tell. -/
theorem blocks_of_marks {s : Segments} {front : List ProgSeg} {cur : UInt32}
    (h : s.blocks = front ++ [⟨cur, fresh front.length⟩]) (ms : List Mark) (last : UInt32) :
    ((ms.foldl (mark fresh) s).withTime last).endLast.blocks =
      front ++ ⟨cur, endOf fresh front.length cur last s.lastAdded ms⟩ ::
        blocksOf fresh last (front.length + 1) s.lastAdded ms := by
  induction ms generalizing s front cur with
  | nil =>
    have hs : (s.withTime last).blocks = front ++ [⟨cur, fresh front.length⟩] := h
    exact endLast_blocks hs
  | cons m ms ih =>
    rw [List.foldl_cons]
    cases m with
    | add time =>
      have hblocks : (s.mark fresh (.add time)).blocks = front ++ [⟨cur, fresh front.length⟩] := (addPoint_blocks _).trans h
      rw [ih hblocks, mark, addPoint_lastAdded]
      rfl
    | start time =>
      let closed : ProgSeg := ⟨cur, if s.lastAdded = 0 then fresh front.length else s.lastAdded⟩
      have hclosed : (front ++ [closed]).length = front.length + 1 := by simp
      have hblocks : (s.mark fresh (.start time)).blocks =
          (front ++ [closed]) ++ [⟨time, fresh (front ++ [closed]).length⟩] := by
        rw [mark, startBlock_blocks fresh h, hclosed, List.append_assoc]
        rfl
      rw [ih hblocks, mark, startBlock_lastAdded, hclosed, List.append_assoc]
      rfl

end Segments
end Mvpmc.Replaytv.EvtFile
