import Mvpmc.Emulate.Seek

/-! `media_queue_data`: a media block goes into the pipe in pieces, and the next one is asked for. -/
namespace Mvpmc.Emulate

/-- `emu_state_t`. -/
inductive EmuState where
  | running
  | rdcStop
  | stopPending
  | stopped
  | stoppedAgain
  | emptyBuffer
  | step
  | stepPending
  | stepSeek
  | stepAck
  | stepToPlay
  | seekToPlay
  | off
  | replayPending
  | skipPending
  | skipReplayOk
  | percentPending
  | percentRunning
  | percent
  | live
  deriving DecidableEq, Repr

/-- What is sent on the two sockets. -/
inductive Sent where
  | pauseFileAck (type : Nat)
  | requestAck (type responding : Nat)
  | progress (position : Int)
  | read (blocklen : Nat)
  | step (forward : Bool)
  deriving DecidableEq, Repr

def Sent.isRead : Sent → Bool
  | .read _ => true
  | _ => false

def rdcPlay : Nat := 1

def typeVideo : Nat := 1

/-- The part of `mystream` and of the globals that `media_queue_data` uses, the pipe, and the messages sent. -/
structure MediaQueue where
  mvpState : EmuState := .running
  isStopping : EmuState := .running
  paused : Bool := false
  mediatype : Nat := typeVideo
  blocklen : Nat := 200000
  currentPosition : Int := 0
  direction : Bool := false
  numRead : Int := 0
  resetTime : Int := 0
  currentTime : Int := 0
  queued : Int := 0
  inbuf : List UInt8 := []
  inbuflen : Nat := 0
  inbufpos : Nat := 0
  pipe : List UInt8 := []
  sent : List Sent := []

/-- What `write` returns for a request of `n` bytes: -1, or a count from 1 to `n`. -/
def accepted (n : Nat) : Option Nat → Int
  | none => -1
  | some k => min (k + 1) n

namespace MediaQueue
variable (s : MediaQueue)

def send (m : Sent) : MediaQueue := { s with sent := s.sent ++ [m] }

/-- `pauseFileAck`, for a file that has a name. -/
def pauseFileAck (type : Nat) : MediaQueue :=
  if s.mediatype = typeVideo ∨ type = 0 then s.send (.pauseFileAck type) else s

/-- `media_send_read`. -/
def mediaSendRead : MediaQueue := if s.mvpState = .stopPending then s else s.send (.read s.blocklen)

/-- `FREENULL(stream->inbuf)` with its position and length. -/
def release : MediaQueue := { s with inbuf := [], inbuflen := 0, inbufpos := 0 }

/-- `resetTime = currentTime + RESETTIMEOUT`. -/
def armReset : MediaQueue := { s with resetTime := s.currentTime + 3 }

/-- The acknowledgement after the second and the fifth block. -/
def countRead : MediaQueue :=
  let s := { s with numRead := s.numRead + 1 }
  if s.numRead = 2 then (s.pauseFileAck 5).send (.requestAck rdcPlay 1)
  else if s.numRead = 5 then s.send (.requestAck rdcPlay 1)
  else s

/-- What comes after the block, by the state of the player. -/
def next : MediaQueue :=
  if s.isStopping = .running then
    match s.mvpState with
    | .running => if s.paused then s else s.mediaSendRead
    | .stepPending => { s with mvpState := .stepSeek }.armReset
    | .stepSeek => s.armReset
    | .seekToPlay => s.armReset
    | .step => s.send (.step s.direction)
    | _ => s.armReset
  else s.armReset

/-- The block is through. -/
def finish : MediaQueue := (s.countRead.send (.progress s.currentPosition)).release.next

/-- The bytes that are skipped or written, and their number. -/
def writeSome (w : Option Nat) : Int × MediaQueue :=
  if s.mvpState = .live then (s.inbuflen - s.inbufpos, { s with inbufpos := s.inbuflen })
  else
    let n := accepted (s.inbuflen - s.inbufpos) w
    (n, { s with pipe := s.pipe ++ (s.inbuf.drop s.inbufpos).take n.toNat })

/-- One round of the loop, and whether it goes on. -/
def tryWrite (retry : Nat) (w : Option Nat) : MediaQueue × Bool :=
  let (n, s) := s.writeSome w
  if 0 < n then
    let s := { s with queued := s.queued + n, inbufpos := s.inbufpos + n.toNat }
    if s.inbufpos = s.inbuflen ∨ s.isStopping ≠ .running then (s.finish, false) else (s, true)
  else if 0 < retry then
    let s := s.release
    (if s.mvpState = .running then s.mediaSendRead else s, false)
  else (s, false)

/-- `media_queue_data`, with the results of its writes. -/
def mediaQueueData (w₁ w₂ : Option Nat) : MediaQueue :=
  let (s, goesOn) := s.tryWrite 0 w₁
  if goesOn then (s.tryWrite 1 w₂).1 else s

/-- The calls while there is a block. Each has the results of its writes, of which it may need the first only. -/
def run (calls : List (Option Nat × Option Nat)) : MediaQueue :=
  calls.foldl (fun s w => if s.inbuflen = 0 then s else s.mediaQueueData w.1 w.2) s

/-- `media_read_message` has read a block. -/
def load (block : List UInt8) : MediaQueue := { s with inbuf := block, inbuflen := block.length, inbufpos := 0 }

def reads : Nat := s.sent.countP Sent.isRead

/-- Not paused, and nothing else going on. -/
structure Runs : Prop where
  state : s.mvpState = .running
  stopping : s.isStopping = .running
  paused : s.paused = false

/-- Of a block that came in state `s₀` the first `m` bytes are in the pipe, and no more is. The next one has been asked
for if these are all. -/
structure Through (s₀ : MediaQueue) (block : List UInt8) (m : Nat) : Prop where
  le : m ≤ block.length
  pipe : s.pipe = s₀.pipe ++ block.take m
  queued : s.queued = s₀.queued + m
  held : s.inbuflen = 0 ↔ m = block.length
  asked : s.reads = s₀.reads + if m = block.length then 1 else 0

/-- The block goes through whole, as far as it has come. -/
def Whole (s₀ : MediaQueue) (block : List UInt8) : Prop := ∃ m, s.Through s₀ block m

end MediaQueue

/-- With `left` bytes to go no call has a write that takes some of them and then one that fails. -/
def NoneCleanedOut : Nat → List (Option Nat × Option Nat) → Prop
  | _, [] => True
  | left, (none, _) :: calls => NoneCleanedOut left calls
  | left, (some k, none) :: _ => left ≤ k + 1
  | left, (some k, some k₂) :: calls => left ≤ k + 1 + (k₂ + 1) ∨ NoneCleanedOut (left - (k + 1) - (k₂ + 1)) calls

namespace MediaQueue
variable {s s₀ : MediaQueue} {block : List UInt8} {m : Nat}

/-- The block is there, and its first `m` bytes are in the pipe. -/
structure Holds (s s₀ : MediaQueue) (block : List UInt8) (m : Nat) : Prop where
  runs : s.Runs
  lt : m < block.length
  inbuf : s.inbuf = block
  inbuflen : s.inbuflen = block.length
  inbufpos : s.inbufpos = m
  pipe : s.pipe = s₀.pipe ++ block.take m
  queued : s.queued = s₀.queued + m
  reads : s.reads = s₀.reads

theorem Holds.through (h : Holds s s₀ block m) : s.Through s₀ block m := by
  have hlt := h.lt
  refine ⟨hlt.le, h.pipe, h.queued, ?_, ?_⟩
  · rw [h.inbuflen]
    omega
  · rw [if_neg (by omega)]
    exact h.reads

@[simp] theorem reads_send (m : Sent) : (s.send m).reads = s.reads + if m.isRead then 1 else 0 := by
  simp [reads, send, List.countP_append, List.countP_singleton]

/-- The acknowledgements change nothing but the messages sent, and ask for no block. -/
theorem countRead_keeps (s : MediaQueue) : s.countRead = { s with numRead := s.numRead + 1, sent := s.countRead.sent } ∧
    s.countRead.reads = s.reads := by
  unfold countRead
  dsimp only
  split
  · unfold pauseFileAck
    split
    · exact ⟨rfl, by simp [reads, send, Sent.isRead]⟩
    · exact ⟨rfl, by simp [reads, send, Sent.isRead]⟩
  · split
    · exact ⟨rfl, by simp [reads, send, Sent.isRead]⟩
    · exact ⟨rfl, rfl⟩

/-- Behind the last byte the block is gone and the next one asked for. -/
theorem finish_runs (h : s.Runs) :
    s.finish.inbuflen = 0 ∧ s.finish.pipe = s.pipe ∧ s.finish.queued = s.queued ∧ s.finish.reads = s.reads + 1 := by
  obtain ⟨hkeep, hreads⟩ := countRead_keeps s
  have hread : (s.countRead.send (.progress s.currentPosition)).release.next =
      (s.countRead.send (.progress s.currentPosition)).release.send (.read s.countRead.blocklen) := by
    rw [hkeep]
    simp [next, mediaSendRead, release, send, h.state, h.stopping, h.paused]
  have hsent : ((s.countRead.send (.progress s.currentPosition)).release).reads = s.reads := by
    rw [← hreads]
    exact (reads_send _).trans (by simp [Sent.isRead])
  rw [finish, hread]
  refine ⟨rfl, ?_, ?_, ?_⟩
  · rw [hkeep]
    rfl
  · rw [hkeep]
    rfl
  · rw [reads_send, hsent]
    rfl

section
variable {k : Nat}

/-- What a write that succeeds makes of the state before the test for the end. -/
theorem tryWrite_some (retry : Nat) (h : s.Holds s₀ block m) :
    s.tryWrite retry (some k) =
      let s' := { s with
        pipe := s₀.pipe ++ block.take (m + min (k + 1) (block.length - m))
        queued := s₀.queued + (m + min (k + 1) (block.length - m) : Nat)
        inbufpos := m + min (k + 1) (block.length - m) }
      if m + min (k + 1) (block.length - m) = block.length then (s'.finish, false) else (s', true) := by
  have hlt := h.lt
  have hpos : 0 < min (k + 1) (block.length - m) := by omega
  have hcount : accepted (s.inbuflen - s.inbufpos) (some k) = (min (k + 1) (block.length - m) : Nat) := by
    rw [h.inbuflen, h.inbufpos, accepted]
    push_cast
    rfl
  have hpipe : s.pipe ++ (s.inbuf.drop s.inbufpos).take (min (k + 1) (block.length - m)) =
      s₀.pipe ++ block.take (m + min (k + 1) (block.length - m)) := by
    rw [h.pipe, h.inbuf, h.inbufpos, List.append_assoc, ← List.take_add]
  unfold tryWrite writeSome
  rw [if_neg (by rw [h.runs.state]; decide)]
  dsimp only
  rw [hcount, Int.toNat_natCast, hpipe, if_pos (by exact_mod_cast hpos), h.queued, h.inbufpos, h.inbuflen, h.runs.stopping,
    Int.add_assoc]
  push_cast
  by_cases he : m + min (k + 1) (block.length - m) = block.length
  · rw [if_pos he, if_pos (.inl he)]
  · rw [if_neg he, if_neg (not_or.mpr ⟨he, not_not_intro rfl⟩)]

/-- A write that takes the rest ends the block. -/
theorem tryWrite_rest (retry : Nat) (h : s.Holds s₀ block m) (hk : block.length - m ≤ k + 1) :
    ∃ s', s.tryWrite retry (some k) = (s', false) ∧ s'.Through s₀ block block.length ∧ s'.inbuflen = 0 := by
  have hlt := h.lt
  have hall : m + min (k + 1) (block.length - m) = block.length := by omega
  rw [tryWrite_some retry h, hall]
  dsimp only
  rw [if_pos rfl]
  obtain ⟨hlen, hpipe, hqueued, hreads⟩ := finish_runs (s := { s with
    pipe := s₀.pipe ++ block.take block.length
    queued := s₀.queued + (block.length : Nat)
    inbufpos := block.length }) ⟨h.runs.state, h.runs.stopping, h.runs.paused⟩
  refine ⟨_, rfl, ⟨le_refl _, hpipe, hqueued, iff_of_true hlen rfl, ?_⟩, hlen⟩
  rw [hreads, if_pos rfl]
  exact congrArg (· + 1) h.reads

/-- One that takes less leaves the rest to the next round. -/
theorem tryWrite_part (retry : Nat) (h : s.Holds s₀ block m) (hk : k + 1 < block.length - m) :
    ∃ s', s.tryWrite retry (some k) = (s', true) ∧ s'.Holds s₀ block (m + (k + 1)) := by
  have hpart : m + min (k + 1) (block.length - m) = m + (k + 1) := by omega
  rw [tryWrite_some retry h, hpart]
  dsimp only
  rw [if_neg (by omega)]
  exact ⟨_, rfl, ⟨h.runs.state, h.runs.stopping, h.runs.paused⟩, by omega, h.inbuf, h.inbuflen, rfl, rfl, rfl, h.reads⟩

/-- The first write of a call may fail. -/
theorem tryWrite_fails (h : s.Holds s₀ block m) : s.tryWrite 0 none = (s, false) := by
  unfold tryWrite writeSome
  rw [if_neg (by rw [h.runs.state]; decide)]
  simp [accepted]

/-- The second one may not: the rest of the block is thrown away. -/
theorem tryWrite_cleans (h : s.Holds s₀ block m) :
    ∃ s', s.tryWrite 1 none = (s', false) ∧ s'.inbuflen = 0 ∧ s'.pipe = s₀.pipe ++ block.take m := by
  unfold tryWrite writeSome
  rw [if_neg (by rw [h.runs.state]; decide)]
  simp [accepted, release, mediaSendRead, send, h.runs.state, h.pipe]

end

theorem mediaQueueData_stop {w₁ : Option Nat} {s' : MediaQueue} (h : s.tryWrite 0 w₁ = (s', false)) (w₂ : Option Nat) :
    s.mediaQueueData w₁ w₂ = s' := by
  rw [mediaQueueData, h]
  rfl

theorem mediaQueueData_again {w₁ : Option Nat} {s' : MediaQueue} (h : s.tryWrite 0 w₁ = (s', true)) (w₂ : Option Nat) :
    s.mediaQueueData w₁ w₂ = (s'.tryWrite 1 w₂).1 := by
  rw [mediaQueueData, h]
  rfl

theorem run_cons (w : Option Nat × Option Nat) (calls : List (Option Nat × Option Nat)) :
    s.run (w :: calls) = (if s.inbuflen = 0 then s else s.mediaQueueData w.1 w.2).run calls := rfl

/-- Without a block there are no more calls. -/
theorem run_of_empty (h : s.inbuflen = 0) (calls : List (Option Nat × Option Nat)) : s.run calls = s := by
  induction calls with
  | nil => rfl
  | cons w calls ih => rwa [run_cons, if_pos h]

/-- A block that is thrown away is not whole. -/
theorem not_whole_of_empty (hlen : s.inbuflen = 0) (hpipe : s.pipe = s₀.pipe ++ block.take m) (hlt : m < block.length) :
    ¬ s.Whole s₀ block := by
  rintro ⟨n, hn⟩
  have hall := hn.held.mp hlen
  have hsame := congrArg List.length (hpipe.symm.trans hn.pipe)
  simp only [List.length_append, List.length_take] at hsame
  omega

/-- The first call, and the ones behind it. -/
theorem whole_cons (h : s.Holds s₀ block m) (w : Option Nat × Option Nat) (calls : List (Option Nat × Option Nat)) :
    (∀ n, (s.run ((w :: calls).take n)).Whole s₀ block) ↔
      ∀ n, ((s.mediaQueueData w.1 w.2).run (calls.take n)).Whole s₀ block := by
  have hne : s.inbuflen ≠ 0 := by
    have := h.lt
    rw [h.inbuflen]
    omega
  constructor
  · intro hall n
    have hn := hall (n + 1)
    rwa [List.take_succ_cons, run_cons, if_neg hne] at hn
  · intro hall n
    cases n with
    | zero => exact ⟨m, h.through⟩
    | succ n =>
      rw [List.take_succ_cons, run_cons, if_neg hne]
      exact hall n

/-- From a state with `m` bytes in the pipe on. -/
theorem run_whole_iff (h : s.Holds s₀ block m) (calls : List (Option Nat × Option Nat)) :
    (∀ n, (s.run (calls.take n)).Whole s₀ block) ↔ NoneCleanedOut (block.length - m) calls := by
  induction calls generalizing s m with
  | nil => exact iff_of_true (fun n => ⟨m, by rw [List.take_nil]; exact h.through⟩) trivial
  | cons w calls ih =>
    obtain ⟨w₁, w₂⟩ := w
    rw [whole_cons h]
    cases w₁ with
    | none =>
      rw [mediaQueueData_stop (tryWrite_fails h)]
      exact ih h
    | some k =>
      by_cases hk : block.length - m ≤ k + 1
      · obtain ⟨s', hs', hthrough, hempty⟩ := tryWrite_rest 0 h hk
        rw [mediaQueueData_stop hs']
        refine iff_of_true (fun n => ⟨_, by rw [run_of_empty hempty]; exact hthrough⟩) ?_
        cases w₂ with
        | none => exact hk
        | some k₂ => exact .inl (by omega)
      · obtain ⟨s', hs', hpart⟩ := tryWrite_part 0 h (Nat.lt_of_not_le hk)
        rw [mediaQueueData_again hs']
        cases w₂ with
        | none =>
          obtain ⟨s'', hs'', hempty, hpipe⟩ := tryWrite_cleans hpart
          rw [hs'']
          exact iff_of_false (fun hall => not_whole_of_empty hempty hpipe hpart.lt (hall 0)) hk
        | some k₂ =>
          rw [NoneCleanedOut]
          by_cases hk₂ : block.length - m ≤ k + 1 + (k₂ + 1)
          · obtain ⟨s'', hs'', hthrough, hempty⟩ := tryWrite_rest 1 hpart
              (show block.length - (m + (k + 1)) ≤ k₂ + 1 by omega)
            rw [hs'']
            exact iff_of_true (fun n => ⟨_, by rw [run_of_empty hempty]; exact hthrough⟩) (.inl hk₂)
          · obtain ⟨s'', hs'', hrest⟩ := tryWrite_part 1 hpart
              (show k₂ + 1 < block.length - (m + (k + 1)) by omega)
            rw [hs'', ih hrest, or_iff_right hk₂,
              show block.length - (m + (k + 1) + (k₂ + 1)) = block.length - m - (k + 1) - (k₂ + 1) by omega]

/-- A block goes through whole, in order and with one request behind its last byte, if and only if no call cleans it
out. -/
theorem block_whole_iff (s : MediaQueue) (h : s.Runs) (block : List UInt8) (hb : 0 < block.length)
    (calls : List (Option Nat × Option Nat)) :
    (∀ n, ((s.load block).run (calls.take n)).Whole s block) ↔ NoneCleanedOut block.length calls := by
  have hholds : (s.load block).Holds s block 0 :=
    ⟨⟨h.state, h.stopping, h.paused⟩, hb, rfl, rfl, rfl, by simp [load], by simp [load], rfl⟩
  exact run_whole_iff hholds calls

theorem block_whole_two : (∀ n, ((load {} [1, 2, 3]).run (List.take n [(none, none), (some 0, some 5)])).Whole {} [1, 2, 3]) ↔
    NoneCleanedOut 3 [(none, none), (some 0, some 5)] :=
  block_whole_iff {} ⟨rfl, rfl, rfl⟩ [1, 2, 3] (by decide) [(none, none), (some 0, some 5)]

/-- One byte of two is written, then the pipe is full: the other byte is lost. -/
theorem second_write_fails : ¬ ∀ (s : MediaQueue), s.Runs → ∀ block : List UInt8, 0 < block.length →
    ∀ calls n, ((s.load block).run (List.take n calls)).Whole s block := by
  intro hall
  have hwhole := hall {} ⟨rfl, rfl, rfl⟩ [1, 2] (by decide) [(some 0, none)] 1
  exact not_whole_of_empty (m := 1) (by decide) (by decide) (by decide) hwhole

end MediaQueue
end Mvpmc.Emulate
