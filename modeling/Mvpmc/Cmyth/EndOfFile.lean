import Mvpmc.Cmyth.Framing
import Mvpmc.Cmyth.File
import Mvpmc.Lib.Loop

/-! The loops that receive file data, once the data connection has reached its end. `recv` then returns 0
each time, and `select` finds the connection ready each time. -/
namespace Mvpmc.Cmyth.Transfer
open Mvpmc.Lib

/-- `cmyth_rcv_data` under way: the bytes still to receive, those received, and what comes before
the end of the data. -/
structure RcvData where
  count : Int
  total : Nat
  pieces : List (List UInt8)

namespace RcvData

def goesOn (s : RcvData) : Bool := 0 < s.count

/-- A round of the loop. -/
def step (s : RcvData) : RcvData :=
  let r := recv s.count.toNat s.pieces
  { count := s.count - r.1.length, total := s.total + r.1.length, pieces := r.2 }

end RcvData

/-- The drain loop of `cmyth_file_seek`, with what comes before the end of the data. -/
structure Drain where
  file : File
  pieces : List (List UInt8)

namespace Drain

def goesOn (s : Drain) : Bool := s.file.pos < s.file.req

/-- A round of the loop, which calls `cmyth_file_get_block`. -/
def step (s : Drain) : Drain :=
  let r := recv s.file.drainSize s.pieces
  { file := s.file.getBlock r.1.length, pieces := r.2 }

end Drain

/-- What `select` finds on the control connection in a round: nothing, an end or an error on which
`cmyth_rcv_length` fails, or a reply with a number. -/
inductive Control (α : Type) where
  | silent
  | fails
  | reply (n : α)

/-- The control connection is looked at only until the reply has come. -/
def Control.when {α : Type} (req : Bool) (c : Control α) : Control α := if req then c else .silent

/-- An end, or a reply with such a number. -/
def Control.Meets {α : Type} (ok : α → Prop) : Control α → Prop
  | silent => False
  | fails => True
  | reply n => ok n

def Round.goesOn (s : Round × Nat) : Bool :=
  match s.1 with
  | .again _ _ => true
  | _ => false

/-- A round of `cmyth_file_read` at the end of the data; rounds are numbered. -/
def Round.step (control : Nat → Control Int) (s : Round × Nat) : Round × Nat :=
  match s.1 with
  | .again f r =>
    (match (control s.2).when r.req with
      | .silent => (r.round f ⟨0, 0⟩ none (some 0) []).1
      | .fails => .failed (-1)
      | .reply n => (r.round f ⟨0, 0⟩ (some n) (some 0) []).1, s.2 + 1)
  | r => (r, s.2 + 1)

/-- The locals of `cmyth_ringbuf_read`: the distances from `buf` to `cur` and to `end` and the flag, and
`file_pos` of the ring buffer. -/
structure RingReading where
  cur : Nat
  len : Nat
  req : Bool
  filePos : Nat

namespace RingReading

/-- The test of the loop. -/
def more (r : RingReading) : Bool := r.cur < r.len || r.req

/-- `end - cur` as the size of a buffer. -/
def room (r : RingReading) : Nat := if r.cur ≤ r.len then r.len - r.cur else 2 ^ 64 - (r.cur - r.len)

/-- One round, or a `goto out`. A reply also moves `end`. -/
def round (r : RingReading) (control : Control Nat) (ready : Bool) (pieces : List (List UInt8)) :
    Option RingReading × List (List UInt8) :=
  let data (r : RingReading) : Option RingReading × List (List UInt8) :=
    if ready then
      let g := recv r.room pieces
      (some { r with cur := r.cur + g.1.length }, g.2)
    else (some r, pieces)
  match control with
  | .silent => if ready then data r else (none, pieces)
  | .fails => (none, pieces)
  | .reply n => data { r with filePos := (r.filePos + n) % 2 ^ 64, req := false, len := n }

def goesOn (s : Option RingReading × Nat) : Bool := s.1.any more

/-- A round of `cmyth_ringbuf_read` at the end of the data. -/
def step (control : Nat → Control Nat) (s : Option RingReading × Nat) : Option RingReading × Nat :=
  (s.1.bind fun r => (r.round ((control s.2).when r.req) true []).1, s.2 + 1)

end RingReading

/-- A data transfer that is under way; the two that read also wait for the reply to their request. -/
inductive Pending where
  | rcvData (s : RcvData)
  | seekDrain (s : Drain)
  | fileRead (f : File) (r : Reading) (control : Nat → Control Int)
  | ringbufRead (r : RingReading) (control : Nat → Control Nat)

namespace Pending

/-- The call returns. -/
def Returns : Pending → Prop
  | rcvData s => Loop.Ends RcvData.goesOn RcvData.step s
  | seekDrain s => Loop.Ends Drain.goesOn Drain.step s
  | fileRead f r control => Loop.Ends Round.goesOn (Round.step control) (r.loop f, 0)
  | ringbufRead r control => Loop.Ends RingReading.goesOn (RingReading.step control) (some r, 0)

/-- What the types and the loops themselves ensure. -/
def Valid : Pending → Prop
  | rcvData s => Pieces s.pieces
  | seekDrain s => Pieces s.pieces ∧ s.file.req < 2 ^ 64
  | fileRead f r _ => f.pos < 2 ^ 64 ∧ r.buf.length ≤ r.len
  | ringbufRead _ _ => True

/-- The first event on the control connection is an end or a reply with such a number. -/
def Answered {α : Type} (control : Nat → Control α) (ok : α → Prop) : Prop :=
  ∃ k, (∀ j < k, control j = .silent) ∧ (control k).Meets ok

/-- The bytes that have been promised come before the end of the data. -/
def Covered : Pending → Prop
  | rcvData s => s.count ≤ s.pieces.flatten.length
  | seekDrain s => s.file.req ≤ s.file.pos + s.pieces.flatten.length
  | fileRead f r control =>
    r.req = false ∧ r.buf ≠ [] ∨
      r.req = true ∧ Answered control fun n => r.buf ≠ [] ∨ (f.req + Reading.bounded n) % 2 ^ 64 ≤ f.pos
  | ringbufRead r control =>
    r.req = false ∧ r.len ≤ r.cur ∨ r.req = true ∧ Answered control fun n => n ≤ r.cur

end Pending

/-- What a call of `recv` takes from the stream. -/
theorem recv_lengths (n : Nat) {pieces : List (List UInt8)} (hp : Pieces pieces) (hn : n ≠ 0) :
    (recv n pieces).1.length + (recv n pieces).2.flatten.length = pieces.flatten.length ∧ (recv n pieces).1.length ≤ n ∧
      Pieces (recv n pieces).2 ∧ (0 < pieces.flatten.length → 0 < (recv n pieces).1.length) := by
  obtain ⟨hs, hp', hle, hend⟩ := recv_spec n pieces hp hn
  refine ⟨?_, hle, hp', fun hpos => List.length_pos_iff.mpr fun he => ?_⟩
  · rw [← hs, List.length_append]
  · rw [hend he] at hpos
    exact absurd hpos (Nat.lt_irrefl 0)

namespace RcvData
variable {s : RcvData}

theorem ends_iff (hp : Pieces s.pieces) : Loop.Ends goesOn step s ↔ s.count ≤ s.pieces.flatten.length := by
  refine (Loop.ends_supply_iff (fun s : RcvData => Pieces s.pieces) (fun s => s.count.toNat)
    (fun s => s.pieces.flatten.length) ?_ ?_ hp).trans (by omega)
  · intro s _
    simp only [goesOn, decide_eq_true_eq]
    omega
  · intro s hp hg
    have hc : 0 < s.count := by simpa [goesOn] using hg
    obtain ⟨hs, hle, hp', hpos⟩ := recv_lengths s.count.toNat hp (by omega)
    refine ⟨hp', (recv s.count.toNat s.pieces).1.length, ?_, ?_, hpos⟩
    · change s.count.toNat = (s.count - (recv s.count.toNat s.pieces).1.length).toNat + _
      omega
    · change _ = (recv s.count.toNat s.pieces).2.flatten.length + _
      omega

end RcvData

namespace Drain
variable {s : Drain}

theorem ends_iff (hp : Pieces s.pieces) (hr : s.file.req < 2 ^ 64) :
    Loop.Ends goesOn step s ↔ s.file.req ≤ s.file.pos + s.pieces.flatten.length := by
  refine (Loop.ends_supply_iff (fun s : Drain => Pieces s.pieces ∧ s.file.req < 2 ^ 64)
    (fun s => s.file.req - s.file.pos) (fun s => s.pieces.flatten.length) ?_ ?_ ⟨hp, hr⟩).trans (by omega)
  · intro s _
    simp only [goesOn, decide_eq_true_eq]
    omega
  · rintro s ⟨hp, hr⟩ hg
    have hc : s.file.pos < s.file.req := by simpa [goesOn] using hg
    have hsize : s.file.drainSize ≠ 0 ∧ s.file.drainSize ≤ s.file.req - s.file.pos := by
      unfold File.drainSize
      omega
    obtain ⟨hs, hle, hp', hpos⟩ := recv_lengths s.file.drainSize hp hsize.1
    have hadv : s.step.file.pos = s.file.pos + (recv s.file.drainSize s.pieces).1.length := by
      change (s.file.pos + _) % 2 ^ 64 = _
      exact Nat.mod_eq_of_lt (by omega)
    refine ⟨⟨hp', hr⟩, (recv s.file.drainSize s.pieces).1.length, ?_, ?_, hpos⟩
    · change _ = s.file.req - s.step.file.pos + _
      omega
    · change _ = (recv s.file.drainSize s.pieces).2.flatten.length + _
      omega

end Drain

/-- A call that waits for the first event that is not silent, seen from its first round. -/
theorem answered_iff {α : Type} {control : Nat → Control α} {ok : α → Prop} :
    (∃ k, (∀ j < k, control (0 + j) = .silent) ∧ control (0 + k) ≠ .silent ∧ (control (0 + k)).Meets ok) ↔
      Pending.Answered control ok := by
  unfold Pending.Answered
  simp only [Nat.zero_add]
  refine exists_congr fun k => and_congr_right fun _ => and_iff_right_of_imp ?_
  intro hm hs
  rw [hs] at hm
  exact hm

section FileRead
variable {f : File} {r : Reading} {control : Nat → Control Int}

/-- A silent round. -/
theorem round_silent (hp : f.pos < 2 ^ 64) (hl : r.buf.length ≤ r.len) (now : Seeks) :
    (r.round f now none (some 0) []).1 = Reading.loop f { r with recvd := false } := by
  unfold Reading.round
  rw [if_neg (by simp)]
  exact congrArg Prod.fst (Reading.takeData_nothing hp hl List.take_nil now)

theorem loop_of_waits (h : r.buf = [] ∨ r.req = true) : Reading.loop f r = .again f r := by
  unfold Reading.loop
  rw [if_pos]
  rcases h with h | h
  · exact .inl h
  · exact .inr (.inl h)

/-- Without a reply to wait for the call returns if it has any bytes. -/
theorem ends_read_iff (hp : f.pos < 2 ^ 64) (hl : r.buf.length ≤ r.len) (hr : r.req = false) (i : Nat) :
    Loop.Ends Round.goesOn (Round.step control) (r.loop f, i) ↔ r.buf ≠ [] := by
  constructor
  · rintro he hb
    refine Loop.not_ends_of_invariant (fun s => ∃ b i, s = (Round.again f { r with recvd := b }, i)) ?_
      ⟨r.recvd, i, by rw [loop_of_waits (.inl hb)]⟩ he
    rintro _ ⟨b, i, rfl⟩
    refine ⟨rfl, false, i + 1, ?_⟩
    have hsilent := round_silent (r := { r with recvd := b }) hp hl ⟨0, 0⟩
    unfold Round.step Control.when
    dsimp only at hsilent ⊢
    rw [hr, if_neg Bool.false_ne_true]
    rw [hr] at hsilent
    dsimp only
    rw [hsilent, loop_of_waits (.inl (by exact hb))]
  · intro hb
    have hstop (r : Reading) (i : Nat) (hb : r.buf ≠ []) (hr : r.req = false) (hv : r.recvd = false) :
        Loop.Ends Round.goesOn (Round.step control) (r.loop f, i) := by
      refine Loop.ends_of_stopped ?_
      unfold Reading.loop
      rw [if_neg (by simp [hb, hr, hv])]
      rfl
    cases hv : r.recvd with
    | false => exact hstop r i hb hr hv
    | true =>
      have hg : r.loop f = .again f r := by
        unfold Reading.loop
        rw [if_pos (.inr (.inr hv))]
      rw [hg]
      refine (Loop.ends_step_iff rfl).mpr ?_
      unfold Round.step Control.when
      dsimp only
      rw [hr, if_neg Bool.false_ne_true]
      dsimp only
      rw [round_silent hp hl]
      exact hstop _ (i + 1) hb hr rfl

/-- What a reply leads to. -/
theorem ends_reply_iff (hp : f.pos < 2 ^ 64) (hl : r.buf.length ≤ r.len) (n : Int) (i : Nat) :
    Loop.Ends Round.goesOn (Round.step control) ((r.round f ⟨0, 0⟩ (some n) (some 0) []).1, i) ↔
      r.buf ≠ [] ∨ (f.req + Reading.bounded n) % 2 ^ 64 ≤ f.pos := by
  unfold Reading.round
  rw [if_neg (by simp)]
  dsimp only
  by_cases hlt : (f.req + Reading.bounded n) % 2 ^ 64 < f.pos
  · rw [if_pos hlt]
    exact ⟨fun _ => .inr hlt.le, fun _ => Loop.ends_of_stopped rfl⟩
  · rw [if_neg hlt]
    by_cases heq : f.pos = (f.req + Reading.bounded n) % 2 ^ 64
    · rw [if_pos heq]
      exact ⟨fun _ => .inr heq.symm.le, fun _ => Loop.ends_of_stopped rfl⟩
    · have hdata := congrArg Prod.fst (Reading.takeData_nothing (f := { f with req := (f.req + Reading.bounded n) % 2 ^ 64 })
        (r := { r with req := false }) (n := 0) hp hl List.take_nil ⟨0, 0⟩)
      rw [if_neg heq, hdata, ends_read_iff (f := { f with req := (f.req + Reading.bounded n) % 2 ^ 64 })
        (r := { r with req := false, recvd := false }) hp hl rfl]
      exact ⟨.inl, fun h => h.resolve_right (by omega)⟩

/-- While it waits for the reply the call goes on. -/
theorem ends_waiting_iff (hp : f.pos < 2 ^ 64) (hl : r.buf.length ≤ r.len) (hr : r.req = true) :
    Loop.Ends Round.goesOn (Round.step control) (r.loop f, 0) ↔
      Pending.Answered control fun n => r.buf ≠ [] ∨ (f.req + Reading.bounded n) % 2 ^ 64 ≤ f.pos := by
  have hstep (b : Bool) (i : Nat) : Round.step control (.again f { r with recvd := b }, i) =
      (match control i with
        | .silent => .again f { r with recvd := false }
        | .fails => .failed (-1)
        | .reply n => (Reading.round f { r with recvd := b } ⟨0, 0⟩ (some n) (some 0) []).1, i + 1) := by
    unfold Round.step Control.when
    dsimp only
    rw [hr, if_pos rfl]
    cases control i with
    | silent =>
      have hsilent := round_silent (r := { r with recvd := b }) hp hl ⟨0, 0⟩
      dsimp only at hsilent ⊢
      rw [hr] at hsilent
      rw [hsilent, loop_of_waits (.inr rfl)]
    | fails => rfl
    | reply n => rfl
  refine (Loop.ends_wait_iff control (fun s => ∃ b, s = Round.again f { r with recvd := b }) (fun c => c = .silent)
    (Control.Meets fun n => r.buf ≠ [] ∨ (f.req + Reading.bounded n) % 2 ^ 64 ≤ f.pos) ?_ ?_
    ⟨r.recvd, by rw [loop_of_waits (.inr hr)]⟩ 0).trans answered_iff
  · rintro s i ⟨b, rfl⟩ hq
    refine ⟨rfl, _, ?_, false, rfl⟩
    rw [hstep, hq]
  · rintro s i ⟨b, rfl⟩ hq
    rw [Loop.ends_step_iff rfl, hstep]
    cases hc : control i with
    | silent => exact absurd hc hq
    | fails => exact ⟨fun _ => trivial, fun _ => Loop.ends_of_stopped rfl⟩
    | reply n => exact ends_reply_iff hp hl n (i + 1)

end FileRead
namespace RingReading
variable {r : RingReading} {control : Nat → Control Nat}

/-- Without a reply to wait for the call returns if `cur` is at the end. -/
theorem ends_iff (hr : r.req = false) (i : Nat) : Loop.Ends goesOn (step control) (some r, i) ↔ r.len ≤ r.cur := by
  constructor
  · intro he
    by_contra hlt
    refine Loop.not_ends_of_invariant (fun s => s.1 = some r) ?_ rfl he
    rintro ⟨s, j⟩ hs
    obtain rfl : s = some r := hs
    have hmore : r.more = true := by simp [more, hr, not_le.mp hlt]
    refine ⟨by simpa [goesOn] using hmore, ?_⟩
    have hround : (r.round .silent true []).1 = some r := by simp [round, recv]
    simp [step, Control.when, hr, hround]
  · intro hle
    refine Loop.ends_of_stopped ?_
    simp [goesOn, more, hr, hle]

/-- While it waits for the reply the call goes on; the reply says how many bytes there should be. -/
theorem ends_waiting_iff (hr : r.req = true) :
    Loop.Ends goesOn (step control) (some r, 0) ↔ Pending.Answered control fun n => n ≤ r.cur := by
  have hmore (i : Nat) : goesOn (some r, i) = true := by simp [goesOn, more, hr]
  have hstep (i : Nat) : step control (some r, i) = ((r.round (control i) true []).1, i + 1) := by
    simp [step, Control.when, hr]
  refine (Loop.ends_wait_iff control (fun s => s = some r) (fun c => c = .silent) (Control.Meets fun n => n ≤ r.cur)
    ?_ ?_ rfl 0).trans answered_iff
  · rintro s i rfl hq
    refine ⟨hmore i, some r, ?_, rfl⟩
    rw [hstep, hq]
    simp [round, recv]
  · rintro s i rfl hq
    rw [Loop.ends_step_iff (hmore i), hstep]
    cases hc : control i with
    | silent => exact absurd hc hq
    | fails => exact ⟨fun _ => trivial, fun _ => Loop.ends_of_stopped rfl⟩
    | reply n =>
      have hround : (r.round (.reply n) true []).1 =
          some { r with filePos := (r.filePos + n) % 2 ^ 64, req := false, len := n } := by
        simp [round, recv]
      rw [hround]
      exact ends_iff rfl (i + 1)

end RingReading

end Mvpmc.Cmyth.Transfer
