import Mvpmc.Cmyth.Reply

/-! What the calls that read from a connection report once the peer has closed it. `recv` then returns
nothing and leaves `errno` as it is. -/
namespace Mvpmc.Cmyth
open Mvpmc.Lib.Circular

/-- The bytes neither make up the whole count nor end with a separator. -/
def Incomplete (bytes : List UInt8) (count : Nat) (s : Scan := {}) : Prop :=
  bytes.length < count ∧ (Scan.run 0 bytes s).2 = false

instance (bytes : List UInt8) (count : Nat) (s : Scan) : Decidable (Incomplete bytes count s) :=
  inferInstanceAs (Decidable (_ ∧ _))

theorem Scan.run_flag (buflen : Nat) (bytes : List UInt8) {s t : Scan} (h : s.state = t.state) :
    (run buflen bytes s).2 = (run 0 bytes t).2 := by
  induction bytes generalizing s t with
  | nil => rfl
  | cons b bytes ih =>
    have hb : (s.byte buflen b).state = (t.byte 0 b).state := by
      unfold byte
      dsimp only
      rw [h]
    rw [run, run, hb]
    split
    · rfl
    · exact ih hb

section
variable {b : UInt8} {bytes rest : List UInt8} {n : Nat} {s : Scan}

theorem incomplete_nil : Incomplete [] (n + 1) s := ⟨Nat.succ_pos n, rfl⟩

theorem not_incomplete_zero : ¬ Incomplete bytes 0 s := fun h => Nat.not_lt_zero _ h.1

/-- One byte of the message. -/
theorem incomplete_cons (buflen : Nat) : Incomplete (b :: bytes) (n + 1) s ↔
    (s.byte buflen b).state ≠ separator.length ∧ Incomplete bytes n (s.byte buflen b) := by
  have hstate : (s.byte 0 b).state = (s.byte buflen b).state := rfl
  unfold Incomplete
  rw [Scan.run, hstate, List.length_cons, Nat.succ_lt_succ_iff]
  by_cases hd : (s.byte buflen b).state = separator.length
  · simp [hd]
  · rw [if_neg hd, Scan.run_flag 0 bytes hstate]
    simp [hd]

theorem Incomplete.of_append (h : Incomplete (bytes ++ rest) n s) : Incomplete bytes n s := by
  induction bytes generalizing n s with
  | nil =>
    cases n with
    | zero => exact absurd h not_incomplete_zero
    | succ n => exact incomplete_nil
  | cons b bytes ih =>
    cases n with
    | zero => exact absurd h not_incomplete_zero
    | succ n =>
      obtain ⟨hd, h⟩ := (incomplete_cons 0).mp h
      exact (incomplete_cons 0).mpr ⟨hd, ih h⟩

end

namespace Conn
variable {conn : Conn}

/-- The bytes in `conn_buf` that have not been consumed. -/
def held (conn : Conn) : List UInt8 := slice (conn.buf.getD fun _ => 0) conn.pos conn.buffered

/-- `cmyth_rcv_string` has something to read from. -/
structure Open (conn : Conn) : Prop where
  fd : 0 ≤ conn.fd
  buf : conn.buf ≠ none

/-- A refill at the end of the stream passes for a successful one. -/
def Silent (conn : Conn) : Prop := conn.errno = 0 ∨ conn.buflen = 0

/-- What stays the same on a connection. -/
structure Keeps (c₁ c₂ : Conn) : Prop where
  buf : c₂.buf ≠ none
  buflen : c₂.buflen = c₁.buflen
  errno : c₂.errno = c₁.errno
  pieces : Pieces c₂.pieces

/-- What a refill of an empty buffer does: it brings the next bytes, or it fails with `errno`, or it
succeeds without bringing any. -/
theorem refill_cases (hb : conn.buf ≠ none) (hp : Pieces conn.pieces) {n : Nat} (hn : 0 < n) (h0 : conn.buffered = 0) :
    Keeps conn (refill conn n).2 ∧
      ((refill conn n).1 = 0 ∧ (refill conn n).2.stream = conn.stream ∧ 0 < (refill conn n).2.buffered ∨
        (refill conn n).1 = -conn.errno ∧ conn.buflen ≠ 0 ∧ conn.stream = [] ∧ (refill conn n).2.stream = [] ∧
          (refill conn n).2.buffered = 0 ∨
        (refill conn n).1 = 0 ∧ conn.buflen = 0 ∧ (refill conn n).2.buffered = 0) := by
  obtain ⟨h1, h2, h3⟩ := refillLoop_spec (min n conn.buflen) (min n conn.buflen) conn.pieces hp (le_refl _)
  have hstream : conn.stream = conn.pieces.flatten := by rw [stream, h0, slice_zero, List.nil_append]
  obtain ⟨buf, hbuf⟩ := Option.ne_none_iff_exists'.mp hb
  unfold refill
  rw [hbuf]
  dsimp only
  by_cases hz : conn.buflen = 0
  · have hmin : min n conn.buflen = 0 := by omega
    rw [hmin, if_neg (by simp)]
    rw [hmin] at h1 h3
    refine ⟨⟨Option.some_ne_none _, rfl, rfl, h3⟩, .inr (.inr ⟨rfl, hz, ?_⟩)⟩
    unfold buffered
    rw [h1, List.take_zero]
    rfl
  · have hmin : min n conn.buflen ≠ 0 := by omega
    by_cases hr : (refillLoop (min n conn.buflen) (min n conn.buflen) conn.pieces).1 = []
    · rw [if_pos ⟨hmin, hr⟩]
      rw [h1] at hr
      have hend : conn.pieces.flatten = [] := (List.take_eq_nil_iff.mp hr).resolve_left hmin
      have hend' : (refillLoop (min n conn.buflen) (min n conn.buflen) conn.pieces).2.flatten = [] := by
        rw [h2, hend, List.drop_nil]
      refine ⟨⟨Option.some_ne_none _, rfl, rfl, h3⟩, .inr (.inl ⟨rfl, hz, hstream.trans hend, ?_, h0⟩)⟩
      change slice _ conn.pos conn.buffered ++ _ = []
      rw [h0, slice_zero, hend', List.nil_append]
    · rw [if_neg fun h => hr h.2]
      refine ⟨⟨Option.some_ne_none _, rfl, rfl, h3⟩, .inl ⟨rfl, ?_, List.length_pos_iff.mpr hr⟩⟩
      rw [hstream]
      simp only [stream, buffered, Option.getD_some, Nat.sub_zero, slice_blit]
      rw [h1, h2, List.take_append_drop]

end Conn

namespace Rcv
variable {s : Rcv} {n : Nat}

/-- Where the loop stands before it asks for a byte: with bytes in the buffer nothing is done. -/
theorem fill_of_held (h : 0 < s.conn.buffered) : s.fill n = (s, false) := by
  unfold fill
  rw [if_neg]
  unfold Conn.buffered at h
  omega

/-- With none a refill sets the error code; it fails with `errno`, if that is not zero. -/
theorem fill_of_empty (hb : s.conn.buf ≠ none) (hp : Pieces s.conn.pieces) (hn : 0 < n) (h0 : s.conn.buffered = 0) :
    Conn.Keeps s.conn (s.fill n).1.conn ∧ (s.fill n).1.scan = s.scan ∧
      ((s.fill n).2 = true ∧ (s.fill n).1.err ≠ 0 ∧ s.conn.stream = [] ∧ ¬ s.conn.Silent ∨
        (s.fill n).2 = false ∧ (s.fill n).1.err = 0 ∧
          ((s.fill n).1.conn.stream = s.conn.stream ∧ 0 < (s.fill n).1.conn.buffered ∨ s.conn.Silent)) := by
  obtain ⟨hk, h⟩ := s.conn.refill_cases hb hp hn h0
  unfold fill
  rw [if_pos (Nat.le_of_sub_eq_zero h0)]
  dsimp only
  rcases h with ⟨hr, hst, hpos⟩ | ⟨hr, hz, hnil, -, -⟩ | ⟨hr, hz, -⟩
  · rw [hr, if_neg (by decide)]
    exact ⟨hk, rfl, .inr ⟨rfl, rfl, .inl ⟨hst, hpos⟩⟩⟩
  · rw [hr]
    by_cases he : s.conn.errno = 0
    · rw [he, if_neg (by decide)]
      exact ⟨hk, rfl, .inr ⟨rfl, rfl, .inr (.inl he)⟩⟩
    · rw [if_pos (by omega)]
      refine ⟨hk, rfl, .inl ⟨rfl, ?_, hnil, ?_⟩⟩
      · change - -(s.conn.errno : Int) ≠ 0
        omega
      · rintro (h | h)
        · exact he h
        · exact hz h
  · rw [hr, if_neg (by decide)]
    exact ⟨hk, rfl, .inr ⟨rfl, rfl, .inr (.inr hz)⟩⟩

end Rcv

theorem Conn.Keeps.silent {c₁ c₂ : Conn} (h : Conn.Keeps c₁ c₂) : c₂.Silent ↔ c₁.Silent := by
  unfold Conn.Silent
  rw [h.errno, h.buflen]

theorem Conn.held_cons {conn : Conn} (h : 0 < conn.buffered) :
    conn.held = (conn.buf.getD fun _ => 0) conn.pos :: ({ conn with pos := conn.pos + 1 } : Conn).held := by
  obtain ⟨m, hm⟩ : ∃ m, conn.buffered = 1 + m := ⟨conn.buffered - 1, by omega⟩
  have hrest : ({ conn with pos := conn.pos + 1 } : Conn).buffered = m := by
    change conn.len - (conn.pos + 1) = m
    unfold buffered at hm
    omega
  rw [held, hm, slice_add, held, hrest]
  rfl

/-- The error code a call leaves: the one from before, if the token is in the buffer; else zero, if the
token comes in or the end of the stream passes for success. -/
theorem rcvLoop_err_iff (buflen n : Nat) (s : Rcv) (hb : s.conn.buf ≠ none) (hp : Pieces s.conn.pieces) :
    (¬ Incomplete s.conn.held n s.scan → (rcvLoop buflen n s).1.err = s.err) ∧
      (Incomplete s.conn.held n s.scan →
        ((rcvLoop buflen n s).1.err = 0 ↔ ¬ Incomplete s.conn.stream n s.scan ∨ s.conn.Silent)) := by
  induction n generalizing s with
  | zero => exact ⟨fun _ => rfl, fun h => absurd h not_incomplete_zero⟩
  | succ n ih =>
    -- once a refill has set the code to zero, the rest of the call is as the second part says
    have hrest (t : Rcv) (hb' : t.conn.buf ≠ none) (hp' : Pieces t.conn.pieces) (he : t.err = 0) :
        (rcvLoop buflen n t).1.err = 0 ↔ ¬ Incomplete t.conn.stream n t.scan ∨ t.conn.Silent := by
      obtain ⟨h1, h2⟩ := ih t hb' hp'
      by_cases hi : Incomplete t.conn.held n t.scan
      · exact h2 hi
      · rw [h1 hi, he]
        refine ⟨fun _ => .inl fun h => hi ?_, fun _ => rfl⟩
        exact Incomplete.of_append h
    unfold rcvLoop
    dsimp only
    by_cases hpos : 0 < s.conn.buffered
    · rw [s.fill_of_held hpos, if_neg Bool.false_ne_true]
      have hheld := Conn.held_cons hpos
      obtain ⟨b, hstream, hscan⟩ := s.next_stream buflen hpos
      have hb₁ : (s.conn.buf.getD fun _ => 0) s.conn.pos = b := by
        have h1 : s.conn.stream = s.conn.held ++ s.conn.pieces.flatten := rfl
        rw [hheld, hstream] at h1
        exact (List.cons.inj h1).1.symm
      rw [hheld, hb₁, hstream, incomplete_cons buflen, incomplete_cons buflen, ← hscan]
      by_cases hd : (s.next buflen).scan.state = separator.length
      · rw [if_pos hd]
        exact ⟨fun _ => rfl, fun h => absurd hd h.1⟩
      · rw [if_neg hd]
        obtain ⟨h1, h2⟩ := ih (s.next buflen) hb hp
        refine ⟨fun h => h1 fun hi => h ⟨hd, hi⟩, ?_⟩
        rintro ⟨-, hi⟩
        refine (h2 hi).trans (or_congr ?_ Iff.rfl)
        simp [hd]
    · have h0 : s.conn.buffered = 0 := Nat.eq_zero_of_not_pos hpos
      have hnone : s.conn.held = [] := by rw [Conn.held, h0, slice_zero]
      rw [hnone]
      refine ⟨fun h => absurd incomplete_nil h, fun _ => ?_⟩
      obtain ⟨hk, hscan, h⟩ := s.fill_of_empty hb hp (Nat.succ_pos n) h0
      rcases h with ⟨hflag, herr, hnil, hsil⟩ | ⟨hflag, herr, h⟩
      · rw [if_pos hflag, hnil]
        exact ⟨fun he => absurd he herr, fun h => absurd h (not_or.mpr ⟨not_not.mpr incomplete_nil, hsil⟩)⟩
      · rw [if_neg (by rw [hflag]; decide)]
        have hsil : ((s.fill (n + 1)).1.next buflen).conn.Silent ↔ s.conn.Silent := hk.silent
        have hnext := hrest ((s.fill (n + 1)).1.next buflen) hk.buf hk.pieces herr
        rw [hsil] at hnext
        rcases h with ⟨hst, hpos'⟩ | hs
        · obtain ⟨b, hbyte, hsc⟩ := (s.fill (n + 1)).1.next_stream buflen hpos'
          rw [hscan] at hsc
          rw [← hst, hbyte, incomplete_cons buflen, ← hsc]
          by_cases hd : ((s.fill (n + 1)).1.next buflen).scan.state = separator.length
          · rw [if_pos hd]
            have herr' : ((s.fill (n + 1)).1.next buflen).err = 0 := herr
            simp [hd, herr']
          · rw [if_neg hd]
            simpa [hd] using hnext
        · have hzero : (rcvLoop buflen n ((s.fill (n + 1)).1.next buflen)).1.err = 0 := hnext.mpr (.inr hs)
          split
          · exact ⟨fun _ => .inr hs, fun _ => herr⟩
          · exact ⟨fun _ => .inr hs, fun _ => hzero⟩

/-- A closed connection is reported: by `cmyth_rcv_length`, if the length field is cut short; by
`cmyth_rcv_string`, if the bytes that come in do not complete the token. And a complete token
leaves no error code. -/
structure ClosedReported (conn : Conn) (err : Int) (buflen : Nat) (count : Int) : Prop where
  length : conn.pieces.flatten.length < 8 → (rcvLength conn).1 < 0
  missing : 0 ≤ count → Incomplete conn.stream count.toNat → (rcvString conn err buflen count).1.err ≠ 0
  success : conn.Open → 0 ≤ count → ¬ Incomplete conn.stream count.toNat → (rcvString conn err buflen count).1.err = 0

/-- Where it is reported: `errno` is left over from some error, and the buffer has room; and the error
code is zero before the call, unless the token is not yet in the buffer. -/
structure Reporting (conn : Conn) (err : Int) (count : Int) : Prop where
  length : conn.pieces.flatten.length < 8 → conn.fd < 0 ∨ conn.errno ≠ 0
  missing : conn.Open → 0 ≤ count → Incomplete conn.stream count.toNat → conn.errno ≠ 0 ∧ conn.buflen ≠ 0
  success : conn.Open → 0 ≤ count → ¬ Incomplete conn.stream count.toNat → err = 0 ∨ Incomplete conn.held count.toNat

section
variable {conn : Conn} {err : Int} {buflen : Nat} {count : Int}

theorem rcvLength_closed (hp : Pieces conn.pieces) (hs : conn.pieces.flatten.length < 8) :
    (rcvLength conn).1 < 0 ↔ conn.fd < 0 ∨ conn.errno ≠ 0 := by
  unfold rcvLength
  by_cases hfd : conn.fd < 0
  · rw [if_pos hfd]
    exact ⟨fun _ => .inl hfd, fun _ => show -EBADF < 0 by decide⟩
  · have hall : (refillLoop 8 8 conn.pieces).1 = conn.pieces.flatten := by
      rw [(refillLoop_spec 8 8 conn.pieces hp (le_refl 8)).1, List.take_of_length_le hs.le]
    rw [if_neg hfd]
    dsimp only
    rw [hall, if_pos hs]
    omega

theorem rcvString_err (ho : conn.Open) (hc : 0 ≤ count) (hp : Pieces conn.pieces) :
    (¬ Incomplete conn.held count.toNat → (rcvString conn err buflen count).1.err = err) ∧
      (Incomplete conn.held count.toNat →
        ((rcvString conn err buflen count).1.err = 0 ↔ ¬ Incomplete conn.stream count.toNat ∨ conn.Silent)) := by
  have hopen : ¬ (conn.fd < 0 ∨ conn.buf = none) := not_or.mpr ⟨not_lt.mpr ho.fd, ho.buf⟩
  unfold rcvString
  rw [if_neg (not_lt.mpr hc), if_neg hopen]
  exact rcvLoop_err_iff buflen count.toNat { conn := conn, err := err } ho.buf hp

theorem rcvString_not_open (ho : ¬ conn.Open) (hc : 0 ≤ count) : (rcvString conn err buflen count).1.err ≠ 0 := by
  have hshut : conn.fd < 0 ∨ conn.buf = none := by
    by_contra h
    exact ho ⟨not_lt.mp fun hfd => h (.inl hfd), fun hb => h (.inr hb)⟩
  unfold rcvString
  rw [if_neg (not_lt.mpr hc), if_pos hshut]
  exact show EBADF ≠ 0 by decide

end

/-- A closed connection is reported exactly where `errno` is left over from some error; and an old error
code stays exactly where the whole token is in the buffer. -/
theorem closed_reported_iff (conn : Conn) (hp : ∀ piece ∈ conn.pieces, piece ≠ []) (err : Int) (buflen : Nat) (count : Int) :
    ClosedReported conn err buflen count ↔ Reporting conn err count := by
  constructor
  · rintro ⟨hl, hm, hs⟩
    refine ⟨fun h => (rcvLength_closed hp h).mp (hl h), ?_, ?_⟩
    · intro ho hc hi
      have herr := mt ((rcvString_err ho hc hp).2 hi.of_append).mpr (hm hc hi)
      exact not_or.mp (not_or.mp herr).2
    · intro ho hc hi
      by_contra hn
      obtain ⟨he, hh⟩ := not_or.mp hn
      exact he (((rcvString_err ho hc hp).1 hh).symm.trans (hs ho hc hi))
  · rintro ⟨hl, hm, hs⟩
    refine ⟨fun h => (rcvLength_closed hp h).mpr (hl h), ?_, ?_⟩
    · intro hc hi
      by_cases ho : conn.Open
      · intro he
        have hor := ((rcvString_err ho hc hp).2 hi.of_append).mp he
        exact hor.elim (fun h => h hi) (not_or.mpr (hm ho hc hi))
      · exact rcvString_not_open ho hc
    · intro ho hc hi
      by_cases hh : Incomplete conn.held count.toNat
      · exact ((rcvString_err ho hc hp).2 hh).mpr (.inl hi)
      · rw [(rcvString_err ho hc hp).1 hh]
        exact (hs ho hc hi).resolve_right hh

/-- The peer closes after four of the eight characters, with `errno` from an earlier error; the one byte
of the token is still to come. -/
theorem closed_reported_reset :
    ClosedReported ⟨3, some fun _ => 0, 4096, 0, 0, [[0x32, 0x20, 0x20, 0x20]], 104⟩ 5 32 6 ↔
      Reporting ⟨3, some fun _ => 0, 4096, 0, 0, [[0x32, 0x20, 0x20, 0x20]], 104⟩ 5 6 :=
  closed_reported_iff _ (by decide) 5 32 6

/-- The peer closes an idle connection on which there has been no error: the length of the next message
is 0, and the token of six bytes in it is received without an error code. And a token that is in the
buffer leaves the error code 5 as it was. -/
theorem close_passes_for_message :
    ¬ ClosedReported ⟨3, some fun _ => 0, 4096, 0, 0, [], 0⟩ 0 32 6 ∧
      (rcvLength ⟨3, some fun _ => 0, 4096, 0, 0, [], 0⟩).1 = 0 ∧
      (rcvString ⟨3, some fun _ => 0, 4096, 0, 0, [], 0⟩ 0 32 6).1.err = 0 ∧
      (rcvString ⟨3, some fun _ => 0x30, 4096, 0, 2, [], 0⟩ 5 32 2).1.err = 5 := by
  have hl : (rcvLength ⟨3, some fun _ => 0, 4096, 0, 0, [], 0⟩).1 = 0 := by decide
  refine ⟨fun h => absurd (h.length (by decide)) ?_, hl, by decide, by decide⟩
  rw [hl]
  exact lt_irrefl 0

end Mvpmc.Cmyth
