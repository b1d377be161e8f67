import Mvpmc.Lib.Reach
import Mvpmc.Cmyth.File

/-! A file transfer: a client that reads and seeks, a backend that answers, and the two
connections between them, which deliver independently of each other. -/
namespace Mvpmc.Cmyth.Transfer
open Mvpmc.Lib

/-- The file the backend serves. -/
structure Contents where
  size : Nat
  byte : Nat → UInt8
  size_lt : size < 2 ^ 64

inductive Reply where
  | block (g : Nat)
  | seek
  deriving DecidableEq, Repr

/-- Where the client is. -/
inductive Phase where
  | idle
  | reading (r : Reading)
  | draining (offset : Int) (whence : Whence)
  | seeking (offset : Int) (whence : Whence)
  | failed (ret : Int)
  deriving DecidableEq, Repr

/-- The counters and the phase of the client, the commands and replies on the control
connection, the bytes on the data connection, the backend's position in the file and all
bytes that reads have handed to the caller. -/
structure Sys where
  file : File
  phase : Phase := .idle
  seeks : Seeks := ⟨0, 0⟩
  requests : List Request := []
  replies : List Reply := []
  data : List Sent := []
  offset : Nat := 0
  handed : List Handed := []

/-- A connection after `cmyth_conn_connect_file`. -/
def Sys.opened (version length : Nat) : Sys where
  file := ⟨version, length, 0, 0⟩

def Arg.value : Arg → Nat
  | whole x => x
  | halves hi lo => hi.toNat * 2 ^ 32 + lo.toNat

/-- The absolute position a `SEEK` asks for. Nothing is assumed about `SEEK_END`. -/
def target (offset : Arg) (whence : Whence) (pos : Arg) : Option Nat :=
  match whence with
  | .set => some offset.value
  | .cur => some ((pos.value + offset.value) % 2 ^ 64)
  | .fromEnd => none

/-- The bytes of the file from `off` on. -/
def Contents.slice (c : Contents) (asked : Seeks) (off n : Nat) : List Sent :=
  (List.range' off n).map fun p => ⟨c.byte p, asked⟩

/-- The client calls `read` or `seek` or takes a step of such a call, or the backend answers
the oldest command, a block request with a grant of `g`. A `select` says whether the
control connection is ready and how many bytes the data connection has ready; it
may miss what is there. `fail` is an error of a system call or of a reply. -/
inductive Event where
  | read (len : Nat)
  | select (control : Bool) (ready : Option Nat)
  | seek (offset : Int) (whence : Whence)
  | drain (ready : Nat)
  | sendSeek
  | seekReply
  | answer (g : Nat)
  | fail (ret : Int)
  deriving DecidableEq, Repr

namespace Sys

/-- `cmyth_file_read` up to its loop. -/
def read (s : Sys) (len : Nat) : Sys :=
  if len = 0 then s
  else
    match s.file.readAsks len with
    | some n =>
      { s with
        phase := .reading ⟨[], len, true, false⟩
        requests := s.requests ++ [.requestBlock n s.seeks] }
    | none => { s with phase := .reading ⟨[], len, false, false⟩ }

/-- A round of its loop. -/
def round (s : Sys) (r : Reading) (control : Option Int) (ready : Option Nat) : Sys :=
  let t := r.round s.file s.seeks control ready s.data
  match t.1 with
  | .again f r => { s with file := f, phase := .reading r, data := t.2 }
  | .returned f buf => { s with file := f, phase := .idle, data := t.2, handed := s.handed ++ buf }
  | .failed ret => { s with phase := .failed ret, data := t.2 }

/-- `cmyth_file_seek` up to its drain loop. -/
def seek (s : Sys) (offset : Int) (whence : Whence) : Sys :=
  if s.file.seekStays offset whence then { s with seeks.calls := s.seeks.calls + 1 }
  else { s with phase := .draining offset whence }

/-- A round of the drain loop. -/
def drain (s : Sys) (ready : Nat) : Sys :=
  let ret := min ready s.file.drainSize
  { s with file := s.file.getBlock (s.data.take ret).length, data := s.data.drop ret }

/-- The end of `cmyth_file_seek`. -/
def seekReply (s : Sys) (offset : Int) (whence : Whence) : Sys :=
  { s with
    file := s.file.seekDone offset whence
    phase := .idle
    seeks := ⟨s.seeks.calls + 1, s.seeks.moves + 1⟩ }

/-- What an event does, if it can happen. -/
def next (c : Contents) (s : Sys) : Event → Option Sys
  | .read len => if s.phase = .idle ∧ len < 2 ^ 64 then some (s.read len) else none
  | .select control ready =>
    match s.phase with
    | .reading r =>
      if control then
        -- the control connection is only looked at while a reply is due
        match r.req, s.replies with
        | true, .block g :: replies => some ({ s with replies := replies }.round r (some g) ready)
        | _, _ => none
      else some (s.round r none ready)
    | _ => none
  | .seek offset whence => if s.phase = .idle then some (s.seek offset whence) else none
  | .drain ready =>
    match s.phase with
    | .draining _ _ => if s.file.pos < s.file.req then some (s.drain ready) else none
    | _ => none
  | .sendSeek =>
    match s.phase with
    | .draining offset whence =>
      if s.file.pos < s.file.req then none
      else some { s with
        phase := .seeking offset whence
        requests := s.requests ++ [s.file.seekCommand offset whence] }
    | _ => none
  | .seekReply =>
    match s.phase, s.replies with
    | .seeking offset whence, .seek :: replies => some ({ s with replies := replies }.seekReply offset whence)
    | _, _ => none
  | .answer g =>
    match s.requests with
    | .requestBlock n asked :: requests =>
      if g ≤ n ∧ (0 < g → s.offset + g ≤ c.size) then
        some { s with
          requests := requests
          replies := s.replies ++ [.block g]
          data := s.data ++ c.slice asked s.offset g
          offset := s.offset + g }
      else none
    | .seek offset whence pos :: requests =>
      (target offset whence pos).map fun off =>
        { s with requests := requests, replies := s.replies ++ [.seek], offset := off }
    | [] => none
  | .fail ret => if s.phase = .idle then none else some { s with phase := .failed ret }

end Sys

/-- A byte that is the file's byte at the position the client believed in, and that was
requested after the last seek that moved the position. -/
structure Handed.Right (c : Contents) (h : Handed) : Prop where
  within : h.position < c.size
  byte : h.byte = c.byte h.position
  moves : h.asked.moves = h.received.moves

/-- The data connection holds the file's bytes from the client's position `pos` to the
backend's position `off`, all requested after the last move. -/
structure Stream (c : Contents) (moves pos off : Nat) (data : List Sent) : Prop where
  bytes : data.map (·.byte) = (List.range' pos (off - pos)).map c.byte
  moves : ∀ b ∈ data, b.asked.moves = moves
  le : pos ≤ off
  within : pos < off → off ≤ c.size

namespace Stream
variable {c : Contents} {moves pos off : Nat} {data : List Sent}

theorem length (h : Stream c moves pos off data) : data.length = off - pos := by
  have hb := congrArg List.length h.bytes
  simpa using hb

theorem empty (c : Contents) (moves pos : Nat) : Stream c moves pos pos [] where
  bytes := by simp
  moves := by simp
  le := Nat.le_refl pos
  within h := absurd h (Nat.lt_irrefl pos)

theorem eq_nil (h : Stream c moves pos off data) (hp : off ≤ pos) : data = [] := by
  have hl := h.length
  exact List.eq_nil_of_length_eq_zero (by omega)

theorem take_length_le (h : Stream c moves pos off data) (n : Nat) : pos + (data.take n).length ≤ off := by
  have hl := h.length
  have hle := h.le
  rw [List.length_take]
  omega

/-- The backend sends a block. -/
theorem append (h : Stream c moves pos off data) {g : Nat} (hg : 0 < g → off + g ≤ c.size) {asked : Seeks}
    (ha : asked.moves = moves) : Stream c moves pos (off + g) (data ++ c.slice asked off g) where
  bytes := by
    have hr : off + g - pos = (off - pos) + g := by have := h.le; omega
    have ho : pos + 1 * (off - pos) = off := by have := h.le; omega
    rw [hr, ← List.range'_append, ho, List.map_append, List.map_append, h.bytes]
    simp [Contents.slice]
  moves := by
    intro b hb
    rcases List.mem_append.mp hb with hb | hb
    · exact h.moves b hb
    · obtain ⟨p, -, rfl⟩ := List.mem_map.mp hb
      exact ha
  le := by have := h.le; omega
  within hp := by
    rcases Nat.eq_zero_or_pos g with rfl | hpos
    · exact h.within hp
    · exact hg hpos

/-- The client receives a piece. -/
theorem drop (h : Stream c moves pos off data) (n : Nat) :
    Stream c moves (pos + (data.take n).length) off (data.drop n) where
  bytes := by
    have hl := h.length
    rw [List.map_drop, h.bytes, ← List.map_drop, List.drop_range', List.length_take, hl]
    rcases Nat.le_total n (off - pos) with hn | hn
    · rw [Nat.min_eq_left hn, Nat.mul_one, Nat.sub_add_eq]
    · rw [Nat.min_eq_right hn, Nat.sub_eq_zero_of_le hn, Nat.sub_add_eq, Nat.sub_self]
      rfl
  moves b hb := h.moves b (List.mem_of_mem_drop hb)
  le := h.take_length_le n
  within hp := h.within (by omega)

/-- What a piece contains is right at the positions the client counts. -/
theorem right (h : Stream c moves pos off data) (hoff : off < 2 ^ 64) {f : File} (hf : f.pos = pos) {now : Seeks}
    (hn : now.moves = moves) (n : Nat) : ∀ x ∈ f.handed now (data.take n), x.Right c := by
  intro x hx
  obtain ⟨i, hi, rfl⟩ := List.mem_mapIdx.mp hx
  have hi' : i < data.length := by
    rw [List.length_take] at hi
    omega
  have hio : pos + i < off := by
    have := h.length
    omega
  have hp : (f.pos + i) % 2 ^ 64 = pos + i := by rw [hf, Nat.mod_eq_of_lt (by omega)]
  have hb : (data.map (·.byte))[i]? = some (c.byte (pos + i)) := by
    rw [h.bytes, List.getElem?_map, List.getElem?_range' (by omega)]
    simp
  have hd : data[i].byte = c.byte (pos + i) := by simpa [hi'] using hb
  refine ⟨?_, ?_, ?_⟩
  · exact hp ▸ Nat.lt_of_lt_of_le hio (h.within (by omega))
  · change (data.take n)[i].byte = c.byte ((f.pos + i) % 2 ^ 64)
    rw [hp, List.getElem_take]
    exact hd
  · simpa [hn] using h.moves data[i] (List.getElem_mem hi')

end Stream

/-- What a round leaves when the backend has reached `off`: the data connection still runs
from the client's position to there, and a read that returns owes no reply. -/
def Round.Keeps (c : Contents) (moves off req : Nat) (due : Bool) (data : List Sent) : Round → Prop
  | .again f r => f.req = req ∧ r.req = due ∧ Stream c moves f.pos off data ∧ ∀ x ∈ r.buf, x.Right c
  | .returned f buf => f.req = req ∧ due = false ∧ Stream c moves f.pos off data ∧ ∀ x ∈ buf, x.Right c
  | .failed _ => True

namespace Reading
variable {c : Contents} {off : Nat} {data : List Sent} {f : File} {r : Reading} {now : Seeks}

theorem loop_keeps (h : Stream c now.moves f.pos off data) (hr : ∀ x ∈ r.buf, x.Right c) :
    (loop f r).Keeps c now.moves off f.req r.req data := by
  unfold loop
  split
  · exact ⟨rfl, rfl, h, hr⟩
  · rename_i hl
    exact ⟨rfl, by grind, h, hr⟩

theorem takeData_keeps (h : Stream c now.moves f.pos off data) (hoff : off < 2 ^ 64)
    (hr : ∀ x ∈ r.buf, x.Right c) (ready : Option Nat) :
    (takeData f r now ready data).1.Keeps c now.moves off f.req r.req (takeData f r now ready data).2 := by
  unfold takeData
  cases ready with
  | none => exact loop_keeps h hr
  | some n =>
    dsimp only
    split
    · trivial
    · have hp : (f.pos + (data.take (min n (r.len - r.buf.length))).length) % 2 ^ 64 =
          f.pos + (data.take (min n (r.len - r.buf.length))).length :=
        Nat.mod_eq_of_lt (Nat.lt_of_le_of_lt (h.take_length_le _) hoff)
      refine loop_keeps (f := f.advance _) ?_ ?_
      · simpa only [File.advance, hp] using h.drop _
      · intro x hx
        rcases List.mem_append.mp hx with hx | hx
        · exact hr x hx
        · exact h.right hoff rfl rfl _ x hx

/-- A round without a reply. -/
theorem round_keeps (h : Stream c now.moves f.pos off data) (hoff : off < 2 ^ 64)
    (hr : ∀ x ∈ r.buf, x.Right c) (ready : Option Nat) :
    (round f r now none ready data).1.Keeps c now.moves off f.req r.req (round f r now none ready data).2 := by
  unfold round
  split
  · trivial
  · exact takeData_keeps h hoff hr ready

/-- A round that takes the reply with the grant `g`, whose bytes are all on their way. -/
theorem round_grant_keeps {g : Nat} (hg : g < 2 ^ 32) (h : Stream c now.moves f.pos (f.req + g) data)
    (hoff : f.req + g < 2 ^ 64) (hr : ∀ x ∈ r.buf, x.Right c) (ready : Option Nat) :
    (round f r now (some g) ready data).1.Keeps c now.moves (f.req + g) (f.req + g) false
      (round f r now (some g) ready data).2 := by
  have hb : bounded g = g := by
    unfold bounded
    rw [if_neg (by omega)]
    rfl
  have hm : (f.req + bounded g) % 2 ^ 64 = f.req + g := by rw [hb, Nat.mod_eq_of_lt hoff]
  unfold round
  rw [if_neg (by simp)]
  dsimp only
  rw [hm]
  split
  · trivial
  · split
    · exact ⟨rfl, rfl, h, hr⟩
    · exact takeData_keeps (f := { f with req := f.req + g }) (r := { r with req := false }) h hoff hr ready

end Reading

theorem wrap64_lt (x : Int) : wrap64 x < 2 ^ 64 := by
  unfold wrap64
  omega

/-- Both spellings of a `SEEK` argument carry all its 64 bits. -/
theorem seekArg_value (f : File) {x : Nat} (hx : x < 2 ^ 64) : (f.seekArg x).value = x := by
  unfold File.seekArg
  split
  · rfl
  · simp only [Arg.value, BitVec.toNat_ofNat]
    omega

/-- The backend moves to where the client will believe it is. -/
theorem target_seekDone {f : File} (hf : f.pos < 2 ^ 64) {offset : Int} {whence : Whence} {off : Nat}
    (h : target (f.seekArg (wrap64 offset)) whence (f.seekArg f.pos) = some off) :
    off = (f.seekDone offset whence).pos := by
  simp only [target, seekArg_value f (wrap64_lt offset), seekArg_value f hf] at h
  cases whence with
  | set => exact (Option.some.inj h).symm
  | cur =>
    rw [← Option.some.inj h]
    simp only [File.seekDone, File.grow, wrap64]
    omega
  | fromEnd => exact absurd h (by simp)

theorem seekDone_pos_lt (f : File) (offset : Int) (whence : Whence) : (f.seekDone offset whence).pos < 2 ^ 64 := by
  cases whence <;> exact wrap64_lt _

namespace Sys

/-- Nothing is under way on the control connection. -/
structure Quiet (s : Sys) : Prop where
  requests : s.requests = []
  replies : s.replies = []
  offset : s.offset = s.file.req

/-- What is under way on the control connection while a read waits for its reply. -/
def Due (s : Sys) : Prop :=
  (∃ n, s.requests = [.requestBlock n s.seeks] ∧ s.replies = [] ∧ s.offset = s.file.req) ∨
    ∃ g < 2 ^ 32, s.requests = [] ∧ s.replies = [.block g] ∧ s.offset = s.file.req + g

/-- The bytes on the data connection, against the two positions. -/
structure Flows (c : Contents) (s : Sys) : Prop where
  stream : Stream c s.seeks.moves s.file.pos s.offset s.data
  offset_lt : s.offset < 2 ^ 64

/-- The connections in each phase of the client. -/
def Linked (c : Contents) (s : Sys) : Prop :=
  match s.phase with
  | .idle => s.Flows c ∧ s.Quiet
  | .reading r => s.Flows c ∧ (∀ x ∈ r.buf, x.Right c) ∧ (if r.req then s.Due else s.Quiet)
  | .draining _ _ => s.Flows c ∧ s.Quiet
  | .seeking offset whence =>
    s.data = [] ∧ s.file.pos < 2 ^ 64 ∧
      (s.requests = [s.file.seekCommand offset whence] ∧ s.replies = [] ∨
        s.requests = [] ∧ s.replies = [.seek] ∧ s.offset = (s.file.seekDone offset whence).pos)
  | .failed _ => True

/-- The invariant of the transfer. -/
structure Inv (c : Contents) (s : Sys) : Prop where
  handed : ∀ x ∈ s.handed, x.Right c
  linked : s.Linked c

variable {c : Contents} {s : Sys}

theorem inv_opened (version length : Nat) : (opened version length).Inv c where
  handed := by simp [opened]
  linked := ⟨⟨Stream.empty c 0 0, by simp [opened]⟩, rfl, rfl, rfl⟩

theorem Inv.idle (h : s.Inv c) (hp : s.phase = .idle) : s.Flows c ∧ s.Quiet := by
  simpa [Linked, hp] using h.linked

theorem Inv.reading {r : Reading} (h : s.Inv c) (hp : s.phase = .reading r) :
    s.Flows c ∧ (∀ x ∈ r.buf, x.Right c) ∧ if r.req then s.Due else s.Quiet := by
  simpa [Linked, hp] using h.linked

theorem Inv.draining {offset : Int} {whence : Whence} (h : s.Inv c) (hp : s.phase = .draining offset whence) :
    s.Flows c ∧ s.Quiet := by
  simpa [Linked, hp] using h.linked

theorem Inv.seeking {offset : Int} {whence : Whence} (h : s.Inv c) (hp : s.phase = .seeking offset whence) :
    s.data = [] ∧ s.file.pos < 2 ^ 64 ∧
      (s.requests = [s.file.seekCommand offset whence] ∧ s.replies = [] ∨
        s.requests = [] ∧ s.replies = [.seek] ∧ s.offset = (s.file.seekDone offset whence).pos) := by
  simpa [Linked, hp] using h.linked

theorem inv_read (h : s.Inv c) (hi : s.phase = .idle) (len : Nat) : (s.read len).Inv c := by
  obtain ⟨hf, hq⟩ := h.idle hi
  unfold read
  split
  · exact h
  · split
    · rename_i n _
      refine ⟨h.handed, ⟨hf.stream, hf.offset_lt⟩, by simp, .inl ⟨n, ?_, hq.replies, hq.offset⟩⟩
      simp [hq.requests]
    · exact ⟨h.handed, ⟨hf.stream, hf.offset_lt⟩, by simp, hq.requests, hq.replies, hq.offset⟩

/-- A round that keeps the data connection in step keeps the invariant, when the control
connection fits the flags it leaves. -/
theorem inv_round (h : ∀ x ∈ s.handed, x.Right c) (ho : s.offset < 2 ^ 64) (r : Reading) (control : Option Int) (ready : Option Nat) {req : Nat} {due : Bool}
    (hk : (r.round s.file s.seeks control ready s.data).1.Keeps c s.seeks.moves s.offset req due
      (r.round s.file s.seeks control ready s.data).2)
    (hc : ∀ f : File, f.req = req → ∀ p d, if due then ({ s with file := f, phase := p, data := d } : Sys).Due
      else ({ s with file := f, phase := p, data := d } : Sys).Quiet) :
    (s.round r control ready).Inv c := by
  unfold round
  dsimp only
  split
  · rename_i f r' ht
    rw [ht] at hk
    obtain ⟨hreq, hdue, hs, hb⟩ := hk
    refine ⟨h, ⟨hs, ho⟩, hb, ?_⟩
    simpa [hdue] using hc f hreq _ _
  · rename_i f buf ht
    rw [ht] at hk
    obtain ⟨hreq, rfl, hs, hb⟩ := hk
    refine ⟨?_, ⟨hs, ho⟩, ?_, ?_, ?_⟩
    · intro x hx
      rcases List.mem_append.mp hx with hx | hx
      · exact h x hx
      · exact hb x hx
    · exact (hc f hreq .idle []).requests
    · exact (hc f hreq .idle []).replies
    · exact (hc f hreq .idle []).offset
  · exact ⟨h, trivial⟩

theorem inv_select {r : Reading} (h : s.Inv c) (hp : s.phase = .reading r) (ready : Option Nat) :
    (s.round r none ready).Inv c := by
  obtain ⟨hf, hb, hc⟩ := h.reading hp
  refine inv_round h.handed hf.offset_lt r none ready (Reading.round_keeps hf.stream hf.offset_lt hb ready) ?_
  intro f hreq p d
  cases hr : r.req with
  | true =>
    rw [hr, if_pos rfl] at hc
    simpa [Due, hreq] using hc
  | false =>
    rw [hr] at hc
    exact ⟨hc.requests, hc.replies, by simpa [hreq] using hc.offset⟩

theorem inv_select_grant {r : Reading} {g : Nat} {replies : List Reply} (h : s.Inv c) (hp : s.phase = .reading r)
    (hr : r.req = true) (hg : s.replies = .block g :: replies) (ready : Option Nat) :
    (({ s with replies := replies } : Sys).round r (some g) ready).Inv c := by
  obtain ⟨hf, hb, hc⟩ := h.reading hp
  rw [if_pos hr] at hc
  -- a grant has come, so the request has been answered and the data is under way
  obtain ⟨-, -, hn, -⟩ | ⟨g', hlt, hreq, hrep, hoff⟩ := hc
  · simp [hn] at hg
  · obtain ⟨rfl, rfl⟩ : g' = g ∧ replies = [] := by simpa [hrep, eq_comm] using hg
    have hs : Stream c s.seeks.moves s.file.pos (s.file.req + g') s.data := hoff ▸ hf.stream
    have ho : s.file.req + g' < 2 ^ 64 := hoff ▸ hf.offset_lt
    have hk := Reading.round_grant_keeps hlt hs ho hb ready
    rw [← hoff] at hk
    exact inv_round (s := { s with replies := [] }) h.handed hf.offset_lt r (some g') ready hk fun f hf' p d => ⟨hreq, rfl, hf'.symm⟩

theorem inv_seek (h : s.Inv c) (hi : s.phase = .idle) (offset : Int) (whence : Whence) :
    (s.seek offset whence).Inv c := by
  obtain ⟨hf, hq⟩ := h.idle hi
  unfold seek
  split
  · refine ⟨h.handed, ?_⟩
    simp only [Linked, hi]
    exact ⟨⟨hf.stream, hf.offset_lt⟩, hq.requests, hq.replies, hq.offset⟩
  · exact ⟨h.handed, ⟨hf.stream, hf.offset_lt⟩, hq.requests, hq.replies, hq.offset⟩

theorem inv_drain {offset : Int} {whence : Whence} (h : s.Inv c) (hp : s.phase = .draining offset whence)
    (ready : Nat) : (s.drain ready).Inv c := by
  obtain ⟨hf, hq⟩ := h.draining hp
  refine ⟨h.handed, ?_⟩
  simp only [Linked, drain, hp]
  refine ⟨⟨?_, hf.offset_lt⟩, hq.requests, hq.replies, hq.offset⟩
  simp only [File.getBlock, File.advance, File.grow]
  rw [Nat.mod_eq_of_lt (Nat.lt_of_le_of_lt (hf.stream.take_length_le _) hf.offset_lt)]
  exact hf.stream.drop _

/-- The drain loop has ended, so no byte is on its way when the `SEEK` goes out. -/
theorem inv_sendSeek {offset : Int} {whence : Whence} (h : s.Inv c) (hp : s.phase = .draining offset whence)
    (hd : ¬ s.file.pos < s.file.req) :
    ({ s with
      phase := .seeking offset whence
      requests := s.requests ++ [s.file.seekCommand offset whence] } : Sys).Inv c := by
  obtain ⟨hf, hq⟩ := h.draining hp
  have ho := hq.offset
  refine ⟨h.handed, hf.stream.eq_nil (by omega), ?_, .inl ⟨?_, hq.replies⟩⟩
  · exact Nat.lt_of_le_of_lt hf.stream.le hf.offset_lt
  · simp [hq.requests]

theorem inv_seekReply {offset : Int} {whence : Whence} {replies : List Reply} (h : s.Inv c)
    (hp : s.phase = .seeking offset whence) (hr : s.replies = .seek :: replies) :
    (({ s with replies := replies } : Sys).seekReply offset whence).Inv c := by
  obtain ⟨hd, -, hc⟩ := h.seeking hp
  obtain ⟨-, hn⟩ | ⟨hq, hrep, ho⟩ := hc
  · simp [hn] at hr
  · obtain rfl : replies = [] := by simpa [hrep, eq_comm] using hr
    refine ⟨h.handed, ⟨?_, ho ▸ seekDone_pos_lt _ _ _⟩, hq, rfl, ho⟩
    simp only [seekReply, hd, ho]
    exact Stream.empty c _ _

/-- A block request waits for its answer only while the read that made it does. -/
theorem Inv.requestBlock {n : Nat} {asked : Seeks} {requests : List Request} (h : s.Inv c)
    (hr : s.requests = .requestBlock n asked :: requests) :
    (∃ ret, s.phase = .failed ret) ∨
      ∃ r, s.phase = .reading r ∧ r.req = true ∧ asked = s.seeks ∧ requests = [] ∧ s.replies = [] ∧
        s.offset = s.file.req := by
  cases hp : s.phase with
  | idle => simp [(h.idle hp).2.requests] at hr
  | reading r =>
    obtain ⟨-, -, hc⟩ := h.reading hp
    cases hq : r.req with
    | true =>
      rw [if_pos hq] at hc
      obtain ⟨m, hreq, hrep, hoff⟩ | ⟨_, _, hreq, _⟩ := hc
      · obtain ⟨⟨-, rfl⟩, rfl⟩ : (m = n ∧ s.seeks = asked) ∧ [] = requests := by simpa [hreq] using hr
        exact .inr ⟨r, rfl, hq, rfl, rfl, hrep, hoff⟩
      · simp [hreq] at hr
    | false =>
      rw [hq, if_neg (by simp)] at hc
      simp [hc.requests] at hr
  | draining offset whence => simp [(h.draining hp).2.requests] at hr
  | seeking offset whence =>
    obtain ⟨-, -, ⟨hreq, -⟩ | ⟨hreq, -⟩⟩ := h.seeking hp
    · simp [hreq, File.seekCommand] at hr
    · simp [hreq] at hr
  | failed ret => exact .inl ⟨ret, rfl⟩

theorem inv_answer_block {n g : Nat} {asked : Seeks} {requests : List Request} (h : s.Inv c)
    (hr : s.requests = .requestBlock n asked :: requests) (hg : g < 2 ^ 32) (hs : 0 < g → s.offset + g ≤ c.size) :
    ({ s with
      requests := requests
      replies := s.replies ++ [.block g]
      data := s.data ++ c.slice asked s.offset g
      offset := s.offset + g } : Sys).Inv c := by
  refine ⟨h.handed, ?_⟩
  obtain ⟨ret, hp⟩ | ⟨r, hp, hq, rfl, rfl, hrep, hoff⟩ := h.requestBlock hr
  · simp only [Linked, hp]
  · obtain ⟨hf, hb, -⟩ := h.reading hp
    have ho : s.offset + g < 2 ^ 64 := by
      rcases Nat.eq_zero_or_pos g with rfl | hpos
      · exact hf.offset_lt
      · exact Nat.lt_of_le_of_lt (hs hpos) c.size_lt
    simp only [Linked, hp, hq, if_true]
    exact ⟨⟨hf.stream.append hs rfl, ho⟩, hb, .inr ⟨g, hg, rfl, by simp [hrep], by simp [hoff]⟩⟩

/-- A `SEEK` waits for its answer only while the seek that sent it does. -/
theorem Inv.seekRequest {offset : Arg} {whence : Whence} {pos : Arg} {requests : List Request} (h : s.Inv c)
    (hr : s.requests = .seek offset whence pos :: requests) :
    (∃ ret, s.phase = .failed ret) ∨
      ∃ o, s.phase = .seeking o whence ∧ offset = s.file.seekArg (wrap64 o) ∧ pos = s.file.seekArg s.file.pos ∧
        requests = [] ∧ s.replies = [] := by
  cases hp : s.phase with
  | idle => simp [(h.idle hp).2.requests] at hr
  | reading r =>
    obtain ⟨-, -, hc⟩ := h.reading hp
    cases hq : r.req with
    | true =>
      rw [if_pos hq] at hc
      obtain ⟨m, hreq, -⟩ | ⟨_, _, hreq, _⟩ := hc
      · simp [hreq] at hr
      · simp [hreq] at hr
    | false =>
      rw [hq, if_neg (by simp)] at hc
      simp [hc.requests] at hr
  | draining o w => simp [(h.draining hp).2.requests] at hr
  | seeking o w =>
    obtain ⟨-, -, ⟨hreq, hrep⟩ | ⟨hreq, -⟩⟩ := h.seeking hp
    · rw [hreq] at hr
      simp only [File.seekCommand, List.cons.injEq, Request.seek.injEq] at hr
      obtain ⟨⟨rfl, rfl, rfl⟩, rfl⟩ := hr
      exact .inr ⟨o, rfl, rfl, rfl, rfl, hrep⟩
    · simp [hreq] at hr
  | failed ret => exact .inl ⟨ret, rfl⟩

theorem inv_answer_seek {offset : Arg} {whence : Whence} {pos : Arg} {requests : List Request} {off : Nat}
    (h : s.Inv c) (hr : s.requests = .seek offset whence pos :: requests) (ht : target offset whence pos = some off) :
    ({ s with requests := requests, replies := s.replies ++ [.seek], offset := off } : Sys).Inv c := by
  refine ⟨h.handed, ?_⟩
  obtain ⟨ret, hp⟩ | ⟨o, hp, rfl, rfl, rfl, hrep⟩ := h.seekRequest hr
  · simp only [Linked, hp]
  · obtain ⟨hd, hlt, -⟩ := h.seeking hp
    simp only [Linked, hp]
    exact ⟨hd, hlt, .inr ⟨by trivial, by simp [hrep], target_seekDone hlt ht⟩⟩

end Sys

/-- A grant that fits the 32 bits the client keeps of it. Only a read of `2 ^ 32` bytes or
more can be granted more than that. -/
def Event.modest : Event → Bool
  | .answer g => g < 2 ^ 32
  | _ => true

namespace Sys
variable {c : Contents} {s s' : Sys}

theorem inv_next {e : Event} (h : s.Inv c) (he : e.modest = true) (hn : s.next c e = some s') : s'.Inv c := by
  cases e with
  | read len =>
    simp only [next, Option.ite_none_right_eq_some, Option.some.injEq] at hn
    obtain ⟨⟨hi, -⟩, rfl⟩ := hn
    exact inv_read h hi len
  | select control ready =>
    simp only [next] at hn
    split at hn
    · rename_i r hp
      cases control with
      | true =>
        rw [if_pos rfl] at hn
        split at hn
        · rename_i g replies hr hg
          obtain rfl := Option.some.inj hn
          exact inv_select_grant h hp hr hg ready
        · exact absurd hn (by simp)
      | false =>
        obtain rfl := Option.some.inj hn
        exact inv_select h hp ready
    · exact absurd hn (by simp)
  | seek offset whence =>
    simp only [next, Option.ite_none_right_eq_some, Option.some.injEq] at hn
    obtain ⟨hi, rfl⟩ := hn
    exact inv_seek h hi offset whence
  | drain ready =>
    simp only [next] at hn
    split at hn
    · rename_i hp
      simp only [Option.ite_none_right_eq_some, Option.some.injEq] at hn
      obtain ⟨-, rfl⟩ := hn
      exact inv_drain h hp ready
    · exact absurd hn (by simp)
  | sendSeek =>
    simp only [next] at hn
    split at hn
    · rename_i hp
      simp only [Option.ite_none_left_eq_some, Option.some.injEq] at hn
      obtain ⟨hd, rfl⟩ := hn
      exact inv_sendSeek h hp hd
    · exact absurd hn (by simp)
  | seekReply =>
    simp only [next] at hn
    split at hn
    · rename_i hp hr
      obtain rfl := Option.some.inj hn
      exact inv_seekReply h hp hr
    · exact absurd hn (by simp)
  | answer g =>
    simp only [next] at hn
    split at hn
    · rename_i hr
      simp only [Option.ite_none_right_eq_some, Option.some.injEq] at hn
      obtain ⟨⟨-, hs⟩, rfl⟩ := hn
      exact inv_answer_block h hr (by simpa [Event.modest] using he) hs
    · rename_i hr
      obtain ⟨off, ht, rfl⟩ := Option.map_eq_some_iff.mp hn
      exact inv_answer_seek h hr ht
    · exact absurd hn (by simp)
  | fail ret =>
    simp only [next, Option.ite_none_left_eq_some, Option.some.injEq] at hn
    obtain ⟨-, rfl⟩ := hn
    exact ⟨h.handed, trivial⟩

/-- Events that happen one after the other. -/
def run (c : Contents) (s : Sys) (events : List Event) : Option Sys := events.foldlM (next c) s

/-- The states of a transfer over a protocol of version 57 or later. -/
def Reachable (allowed : Event → Bool) (c : Contents) : Sys → Prop :=
  Reach (fun s => ∃ version length, 57 ≤ version ∧ s = opened version length)
    fun s e s' => allowed e = true ∧ s.next c e = some s'

theorem Reachable.run {allowed : Event → Bool} {events : List Event} (h : Reachable allowed c s)
    (he : events.all allowed = true) (hr : s.run c events = some s') : Reachable allowed c s' := by
  induction events generalizing s with
  | nil =>
    obtain rfl : s = s' := by simpa [Sys.run] using hr
    exact h
  | cons e events ih =>
    simp only [List.all_cons, Bool.and_eq_true] at he
    simp only [Sys.run, List.foldlM_cons, Option.bind_eq_bind, Option.bind_eq_some_iff] at hr
    obtain ⟨t, ht, hr⟩ := hr
    exact ih (.next e h ⟨he.1, ht⟩) he.2 hr

theorem Reachable.opened {allowed : Event → Bool} (version length : Nat) (h : 57 ≤ version) :
    Reachable allowed c (opened version length) := .start ⟨version, length, h, rfl⟩

theorem Reachable.inv (h : Reachable Event.modest c s) : s.Inv c := by
  refine Reach.invariant ?_ ?_ h
  · rintro _ ⟨version, length, -, rfl⟩
    exact inv_opened version length
  · rintro s e s' hi ⟨he, hn⟩
    exact inv_next hi he hn

/-- Every byte handed to the caller is the file's at the position the client believed in,
and was requested after the last seek that moved the position; between two calls, no more
has been received than was granted. -/
theorem transfer_delivers (h : Reachable Event.modest c s) :
    (∀ x ∈ s.handed, x.Right c) ∧ (s.phase = .idle → s.file.pos ≤ s.file.req) := by
  refine ⟨h.inv.handed, ?_⟩
  intro hi
  obtain ⟨hf, hq⟩ := h.inv.idle hi
  exact hq.offset ▸ hf.stream.le

theorem Reachable.of_run (allowed : Event → Bool) (c : Contents) (events : List Event) (p : Sys → Bool)
    (he : events.all allowed = true) (hr : ((Sys.opened 57 0).run c events).any p = true) :
    ∃ s, Reachable allowed c s ∧ p s = true := by
  obtain ⟨s, hs, hp⟩ := (Option.any_eq_true _ _).mp hr
  exact ⟨s, (Reachable.opened 57 0 (by decide)).run he hs, hp⟩

/-- A file in which byte `p` is `p`, modulo 256. -/
def ramp (size : Nat) (h : size < 2 ^ 64) : Contents := ⟨size, UInt8.ofNat, h⟩

/-- Two bytes are read of a block of four, then one more is read at position 6. -/
theorem transfer_delivers_moved : ∃ s, Reachable Event.modest (ramp 9 (by decide)) s ∧
    s.handed.map (fun x => (x.position, x.byte)) = [(0, 0), (1, 1), (6, 6)] ∧
    ((∀ x ∈ s.handed, x.Right (ramp 9 (by decide))) ∧ (s.phase = .idle → s.file.pos ≤ s.file.req)) := by
  obtain ⟨s, hs, hp⟩ := Reachable.of_run Event.modest (ramp 9 (by decide))
    [.read 4, .answer 4, .select true (some 2), .select false none, .seek 6 .set, .drain 1, .drain 5,
      .sendSeek, .answer 0, .seekReply, .read 1, .answer 1, .select false (some 1), .select true none]
    (fun s => s.handed.map (fun x => (x.position, x.byte)) = [(0, 0), (1, 1), (6, 6)]) (by decide) (by decide)
  exact ⟨s, hs, by simpa using hp, transfer_delivers hs⟩

/-- A seek to the present position does not drain: what was requested before it arrives
after it. And when a grant of `2 ^ 32` bytes counts as none, a seek does not drain them
either, and a byte from before it is handed over at the wrong position. -/
theorem seek_leaves_requested :
    (∃ s, Reachable Event.modest (ramp 9 (by decide)) s ∧ ∃ x ∈ s.handed, x.asked.calls < x.received.calls) ∧
    ∃ s, Reachable (fun _ => true) (ramp (2 ^ 32 + 9) (by decide)) s ∧
      ∃ x ∈ s.handed, x.byte ≠ (ramp (2 ^ 32 + 9) (by decide)).byte x.position ∧ x.asked.moves < x.received.moves := by
  constructor
  · obtain ⟨s, hs, hp⟩ := Reachable.of_run Event.modest (ramp 9 (by decide))
      [.read 4, .answer 4, .select true (some 2), .select false none, .seek 0 .cur, .read 2,
        .select false (some 2), .select false none]
      (fun s => s.handed.any fun x => x.asked.calls < x.received.calls) (by decide) (by decide)
    exact ⟨s, hs, by simpa using hp⟩
  · obtain ⟨s, hs, hp⟩ := Reachable.of_run (fun _ => true) (ramp (2 ^ 32 + 9) (by decide))
      [.read (2 ^ 32), .answer (2 ^ 32), .select true none, .seek 5 .set, .sendSeek, .answer 0,
        .seekReply, .read 1, .answer 1, .select true (some 1), .select false none]
      (fun s => s.handed.any fun x => x.byte ≠ UInt8.ofNat x.position ∧ x.asked.moves < x.received.moves)
      (by decide) (by decide)
    exact ⟨s, hs, by simpa [ramp] using hp⟩

end Sys
end Mvpmc.Cmyth.Transfer
