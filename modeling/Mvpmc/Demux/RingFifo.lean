import Mvpmc.Lib.Fifo
import Mvpmc.Demux.Untouched

/-! The audio ring refines a bounded byte queue: over every run of its operations
the ring answers as the queue does and holds the same bytes. -/
namespace Mvpmc.Demux.RingFifo
open Mvpmc.Lib Mvpmc.Lib.Circular

/-- The calls on a ring without a parser. A `drainFd` carries what its two `write`
calls accept. -/
inductive Op where
  | add (data : List UInt8)
  | peek (max : Int)
  | drain (max : Int)
  | drainFd (max : Int) (first second : Option Nat)
  | empty

/-- The count returned and the bytes handed out or accepted. -/
abbrev Out := Int × List UInt8

def step (h : Handle) : Op → Handle × Out
  | .add data => let r := streamAdd h .audio data true; (r.1, r.2, [])
  | .peek max => let r := h.audio.peek max; ({ h with audio := r.1 }, r.2)
  | .drain max => let r := h.audio.drain max; ({ h with audio := r.1 }, r.2)
  | .drainFd max first second => let r := h.audio.drainFd max first second; ({ h with audio := r.1 }, r.2)
  | .empty => ({ h with audio := h.audio.empty }, 0, [])

def run : Handle → List Op → Handle × List Out
  | h, [] => (h, [])
  | h, op :: ops =>
    let r := step h op
    let t := run r.1 ops
    (t.1, r.2 :: t.2)

/-- What a bounded queue may answer. Only the number of bytes a descriptor accepts
is left open. -/
def QueueStep {cap : Nat} (q : Fifo UInt8 cap) : Op → Out → Fifo UInt8 cap → Prop
  | .add data, out, q' => q' = (q.push data).1 ∧ out = (((q.push data).2 : Int), [])
  | .peek max, out, q' => q' = q ∧ out = (((q.front max.toNat).length : Int), q.front max.toNat)
  | .drain max, out, q' =>
      q' = q.pop max.toNat ∧ out = (((q.front max.toNat).length : Int), q.front max.toNat)
  | .drainFd max _ _, out, q' => ∃ n ≤ q.items.length, (0 ≤ max → n ≤ max.toNat) ∧
      q' = q.pop n ∧ out = ((n : Int), q.front n)
  | .empty, out, q' => q' = Fifo.empty ∧ out = (0, [])

def QueueRun {cap : Nat} : Fifo UInt8 cap → List Op → List Out → Fifo UInt8 cap → Prop
  | q, [], outs, q' => outs = [] ∧ q' = q
  | q, op :: ops, outs, q' => ∃ out rest mid, outs = out :: rest ∧ QueueStep q op out mid ∧ QueueRun mid ops rest q'

/-- The ring holds what the queue holds; six bytes are kept in reserve. -/
structure Sim (size : Nat) (h : Handle) (q : Fifo UInt8 (size - 7)) : Prop where
  ok : h.audio.Ok
  size_eq : h.audio.size = size
  plain : h.audio.parserCallback = false
  contents_eq : h.audio.contents = q.items

private theorem drainFd_static (s : Stream) (max : Int) (first second : Option Nat) :
    (s.drainFd max first second).1.size = s.size ∧
      (s.drainFd max first second).1.parserCallback = s.parserCallback := by
  unfold Stream.drainFd
  dsimp only
  generalize (if max ≥ 0 then Stream.clip max s.spans else s.spans) = sizes
  split
  · split
    · exact ⟨rfl, rfl⟩
    · split
      · exact ⟨rfl, rfl⟩
      · split <;> exact ⟨rfl, rfl⟩
  · split <;> exact ⟨rfl, rfl⟩

/-- One operation: the answer is one the queue may give, and the two stay related. -/
theorem step_sim {size : Nat} {h : Handle} {q : Fifo UInt8 (size - 7)} (hsim : Sim size h q) (op : Op)
    (hl : ∀ data, op = .add data → data.length + 6 < size) :
    ∃ q', QueueStep q op (step h op).2 q' ∧ Sim size (step h op).1 q' := by
  obtain ⟨ok, hz, hp, hc⟩ := hsim
  have hav : h.audio.avail = q.items.length := by rw [← hc, Stream.contents_length]
  cases op with
  | add data =>
    have hlen := hl data rfl
    obtain ⟨ok', hz', hcase⟩ := Stream.append_eq ok h.seeking data (by omega)
    have hp' := (h.audio.append_same h.seeking data).parserCallback
    simp only [step, streamAdd_audio h data hp]
    refine ⟨(q.push data).1, ⟨rfl, ?_⟩, ⟨ok', hz'.trans hz, hp'.trans hp, ?_⟩⟩
    · rcases hcase with ⟨hfit, -, hn⟩ | ⟨⟨-, hno⟩, -, hn⟩
      · rw [hn]
        rcases hfit with rfl | hfit
        · simp [(q.push_of_fits [] (by simpa using q.le_cap)).2]
        · rw [(q.push_of_fits data (by omega)).2]
      · rw [hn, q.push_of_full data (by omega)]
    · rcases hcase with ⟨hfit, hcon, -⟩ | ⟨⟨-, hno⟩, hcon, -⟩
      · have hle := q.le_cap
        rw [hcon, hc, (q.push_of_fits data ?_).1]
        rcases hfit with rfl | hfit
        · simpa using hle
        · omega
      · rw [hcon, hc, q.push_of_full data (by omega)]
  | peek max =>
    obtain ⟨hb, hh, hz', hp'⟩ := h.audio.peek_ring max
    have ht : (h.audio.peek max).1.tail = h.audio.tail := by
      unfold Stream.peek Stream.countEmpty
      split
      · rfl
      · split <;> rfl
    refine ⟨q, ⟨rfl, ?_⟩, ?_, hz'.trans hz, hp'.trans hp, ?_⟩
    · simpa [step, Fifo.front, hc] using Stream.peek_eq ok max
    · exact ⟨by simpa [step, hz'] using ok.size_lt, by simpa [step, hz', hh] using ok.head_lt,
        by simpa [step, hz', ht] using ok.tail_lt, by simpa [step, hh, ht] using ok.head_ne⟩
    · rw [← hc]
      simp only [step, Stream.contents, Stream.avail, hb, hh, hz', ht]
  | drain max =>
    obtain ⟨ok', hcon, hout⟩ := Stream.drain_eq ok max
    obtain ⟨-, -, hz', hp'⟩ := h.audio.peek_ring max
    refine ⟨q.pop max.toNat, ⟨rfl, ?_⟩, ok', hz'.trans hz, hp'.trans hp, ?_⟩
    · simpa [step, Fifo.front, hc] using hout
    · simpa [step, hc] using hcon
  | drainFd max first second =>
    obtain ⟨n, hn, hm, ok', hcon, hout⟩ := Stream.drainFd_eq ok max first second
    obtain ⟨hz', hp'⟩ := drainFd_static h.audio max first second
    refine ⟨q.pop n, ⟨n, by omega, hm, rfl, ?_⟩, ok', hz'.trans hz, hp'.trans hp, ?_⟩
    · simpa [step, Fifo.front, hc] using hout
    · simpa [step, hc] using hcon
  | empty =>
    obtain ⟨ok', hcon⟩ := Stream.empty_eq ok
    exact ⟨Fifo.empty, ⟨rfl, rfl⟩, ok', hz, hp, hcon⟩

theorem run_sim {size : Nat} (ops : List Op) {h : Handle} {q : Fifo UInt8 (size - 7)} (hsim : Sim size h q)
    (hl : ∀ data, Op.add data ∈ ops → data.length + 6 < size) :
    ∃ q', QueueRun q ops (run h ops).2 q' ∧ Sim size (run h ops).1 q' := by
  induction ops generalizing h q with
  | nil => exact ⟨q, ⟨rfl, rfl⟩, hsim⟩
  | cons op ops ih =>
    obtain ⟨mid, hstep, hmid⟩ := step_sim hsim op (fun data he => hl data (by simp [he]))
    obtain ⟨q', hrun, hend⟩ := ih hmid (fun data hd => hl data (List.mem_cons_of_mem _ hd))
    exact ⟨q', ⟨_, _, mid, rfl, hstep, hrun⟩, hend⟩

private theorem queueStep_nonneg {cap : Nat} {q q' : Fifo UInt8 cap} {op : Op} {out : Out}
    (h : QueueStep q op out q') : 0 ≤ out.1 := by
  cases op with
  | add data => obtain ⟨-, rfl⟩ := h; exact Int.natCast_nonneg _
  | peek max => obtain ⟨-, rfl⟩ := h; exact Int.natCast_nonneg _
  | drain max => obtain ⟨-, rfl⟩ := h; exact Int.natCast_nonneg _
  | drainFd max first second => obtain ⟨n, -, -, -, rfl⟩ := h; exact Int.natCast_nonneg _
  | empty => obtain ⟨-, rfl⟩ := h; exact le_refl _

private theorem queueRun_nonneg {cap : Nat} {q q' : Fifo UInt8 cap} {ops : List Op} {outs : List Out}
    (h : QueueRun q ops outs q') : ∀ out ∈ outs, 0 ≤ out.1 := by
  induction ops generalizing q outs with
  | nil => obtain ⟨rfl, -⟩ := h; simp
  | cons op ops ih =>
    obtain ⟨out, rest, mid, rfl, hstep, hrun⟩ := h
    intro o ho
    rcases List.mem_cons.mp ho with rfl | ho
    · exact queueStep_nonneg hstep
    · exact ih hrun o ho

private theorem init_sim {size : Nat} (hs : 2 ≤ size) (hz : size < 2147483648) {h : Handle}
    (hi : h.audio = { Stream.init size with attr := h.audio.attr }) : Sim size h Fifo.empty := by
  have ok : h.audio.Ok := by
    rw [hi]
    exact ⟨hz, by simp [Stream.init]; omega, by simp [Stream.init]; omega, by simp [Stream.init]; omega⟩
  refine ⟨ok, by rw [hi]; rfl, by rw [hi]; rfl, ?_⟩
  have ha : h.audio.avail = 0 := by
    rw [hi]
    simp only [Stream.avail, Stream.init]
    rw [show 0 + size - (size - 1) - 1 = 0 by omega, Nat.zero_mod]
  exact List.length_eq_zero_iff.mp (by simpa using ha)

/-- From `stream_init` on, a ring of at least two bytes is a bounded queue with room
for `size - 7` bytes: blocks go in whole or not at all, bytes come out in order, the
indices stay apart and no count is negative. -/
theorem ring_refines_fifo (size : Nat) (hs : 2 ≤ size) (hz : size < 2147483648) (h : Handle)
    (hi : h.audio = { Stream.init size with attr := h.audio.attr }) (ops : List Op)
    (hl : ∀ data, Op.add data ∈ ops → data.length + 6 < size) :
    ∃ q : Fifo UInt8 (size - 7), QueueRun Fifo.empty ops (run h ops).2 q ∧
      (run h ops).1.audio.contents = q.items ∧ (run h ops).1.audio.head ≠ (run h ops).1.audio.tail ∧
      (run h ops).1.audio.head < size ∧ (run h ops).1.audio.tail < size ∧
      ∀ out ∈ (run h ops).2, 0 ≤ out.1 := by
  obtain ⟨q, hrun, hsim⟩ := run_sim ops (init_sim hs hz hi) hl
  have hsize := hsim.size_eq
  exact ⟨q, hrun, hsim.contents_eq, hsim.ok.head_ne, hsize ▸ hsim.ok.head_lt, hsize ▸ hsim.ok.tail_lt,
    queueRun_nonneg hrun⟩

/-- A wrapping run on a ring of 16 bytes with a short and a failing write. -/
theorem ring_refines_fifo_sixteen :
    let ops := [Op.add [1, 2, 3, 4, 5, 6], .drain 4, .add [7, 8, 9, 10, 11], .drainFd (-1) (some 3) none,
      .add [12, 13, 14, 15], .drainFd (-1) none (some 1), .peek 9]
    ∃ q : Fifo UInt8 9, QueueRun Fifo.empty ops (run (demuxInit 80 fun _ => 0) ops).2 q ∧
      (run (demuxInit 80 fun _ => 0) ops).1.audio.contents = q.items ∧
      (run (demuxInit 80 fun _ => 0) ops).1.audio.head ≠ (run (demuxInit 80 fun _ => 0) ops).1.audio.tail ∧
      (run (demuxInit 80 fun _ => 0) ops).1.audio.head < 16 ∧
      (run (demuxInit 80 fun _ => 0) ops).1.audio.tail < 16 ∧
      ∀ out ∈ (run (demuxInit 80 fun _ => 0) ops).2, 0 ≤ out.1 := by
  intro ops
  refine ring_refines_fifo 16 (by decide) (by decide) (demuxInit 80 fun _ => 0) rfl ops ?_
  intro data hd
  simp only [ops, List.mem_cons, Op.add.injEq, reduceCtorEq, List.not_mem_nil, or_false, false_or] at hd
  rcases hd with rfl | rfl | rfl <;> decide

/-- A demuxer of five bytes has an audio ring of one byte: there `head = tail` from
the start, and a peek returns -1. -/
theorem ring_of_one_byte :
    let h := demuxInit 5 fun _ => 0
    h.audio.head = h.audio.tail ∧ (run h [.peek 1]).2 = [(-1, [])] := by
  decide

end Mvpmc.Demux.RingFifo
