import Mvpmc.Cmyth.Framing

/-! Tokens of a message. The separator is matched by an automaton that starts over
behind the byte that breaks a match, so a token must not end in the middle of one. -/
namespace Mvpmc.Cmyth
open Mvpmc.Lib.Circular

namespace Scan
variable (buflen : Nat)

/-- The bytes of a message up to the first separator found; the flag says there was one. -/
def run : List UInt8 → Scan → Scan × Bool
  | [], s => (s, false)
  | b :: bytes, s => if (s.byte buflen b).state = separator.length then (s.byte buflen b, true)
    else run bytes (s.byte buflen b)

/-- Where the output buffer is terminated. -/
def zero (t : Scan × Bool) : Option Nat := if t.2 then t.1.atSeparator buflen else t.1.atEnd buflen

theorem run_consumed (bytes : List UInt8) (s : Scan) :
    ∃ m, (run buflen bytes s).1.consumed = s.consumed + m ∧ m ≤ bytes.length := by
  induction bytes generalizing s with
  | nil => exact ⟨0, rfl, le_refl 0⟩
  | cons b bytes ih =>
    rw [run]
    split
    · exact ⟨1, rfl, Nat.succ_le_succ (Nat.zero_le _)⟩
    · obtain ⟨m, hm, hle⟩ := ih (s.byte buflen b)
      refine ⟨m + 1, ?_, Nat.succ_le_succ hle⟩
      rw [hm]
      change s.consumed + 1 + m = _
      omega

end Scan

/-- The bytes of the connection that are still to come, from the buffer and the socket. -/
def Conn.stream (conn : Conn) : List UInt8 :=
  slice (conn.buf.getD fun _ => 0) conn.pos conn.buffered ++ conn.pieces.flatten

/-- A connection with a buffer. -/
structure Conn.Ready (conn : Conn) : Prop where
  fd : 0 ≤ conn.fd
  buf : conn.buf ≠ none
  buflen : 1 ≤ conn.buflen
  pieces : Pieces conn.pieces

/-- An empty buffer is filled as long as the stream goes on. -/
theorem refill_stream (conn : Conn) (n : Nat) (hr : conn.Ready) (hn : 0 < n) (h0 : conn.buffered = 0)
    (hs : n ≤ conn.stream.length) :
    (refill conn n).1 = 0 ∧ (refill conn n).2.Ready ∧ (refill conn n).2.stream = conn.stream ∧
      0 < (refill conn n).2.buffered := by
  have hstream : conn.stream = conn.pieces.flatten := by
    rw [Conn.stream, h0, slice_zero, List.nil_append]
  rw [hstream] at hs ⊢
  obtain ⟨h1, h2, h3⟩ := refillLoop_spec (min n conn.buflen) (min n conn.buflen) conn.pieces hr.pieces (le_refl _)
  have hmin : 0 < min n conn.buflen := Nat.lt_min.mpr ⟨hn, hr.buflen⟩
  have hpos : 0 < (refillLoop (min n conn.buflen) (min n conn.buflen) conn.pieces).1.length := by
    rw [h1, List.length_take]
    omega
  unfold refill
  split
  · rename_i hbuf
    exact absurd hbuf hr.buf
  · dsimp only
    rw [if_neg fun hnil => absurd hnil.2 (List.length_pos_iff.mp hpos)]
    refine ⟨rfl, ⟨hr.fd, Option.some_ne_none _, hr.buflen, h3⟩, ?_, hpos⟩
    simp only [Conn.stream, Conn.buffered, Option.getD_some, Nat.sub_zero, slice_blit]
    rw [h1, h2, List.take_append_drop]

theorem Rcv.fill_stream (s : Rcv) (n : Nat) (hr : s.conn.Ready) (hn : 0 < n) (hs : n ≤ s.conn.stream.length) :
    (s.fill n).2 = false ∧ (s.fill n).1.conn.Ready ∧ (s.fill n).1.conn.stream = s.conn.stream ∧
      0 < (s.fill n).1.conn.buffered ∧ (s.fill n).1.scan = s.scan := by
  unfold Rcv.fill
  split
  · rename_i hle
    obtain ⟨hzero, hready, hstream, hpos⟩ := refill_stream s.conn n hr hn (Nat.sub_eq_zero_of_le hle) hs
    dsimp only
    rw [hzero, if_neg (by decide)]
    exact ⟨rfl, hready, hstream, hpos, rfl⟩
  · rename_i hlt
    exact ⟨rfl, hr, rfl, Nat.sub_pos_of_lt (not_le.mp hlt), rfl⟩

/-- The next byte of the stream. -/
theorem Rcv.next_stream (s : Rcv) (buflen : Nat) (hb : 0 < s.conn.buffered) :
    ∃ b, s.conn.stream = b :: (s.next buflen).conn.stream ∧ (s.next buflen).scan = s.scan.byte buflen b := by
  refine ⟨(s.conn.buf.getD fun _ => 0) s.conn.pos, ?_, rfl⟩
  obtain ⟨m, hm⟩ : ∃ m, s.conn.buffered = 1 + m := ⟨s.conn.buffered - 1, by omega⟩
  have hrest : (s.next buflen).conn.buffered = m := by
    change s.conn.len - (s.conn.pos + 1) = m
    unfold Conn.buffered at hm
    omega
  rw [Conn.stream, hm, slice_add, Conn.stream, hrest]
  rfl

/-- A call on a stream that does not end before the message. -/
theorem rcvLoop_stream (buflen n : Nat) (s : Rcv) (hr : s.conn.Ready) (hb : s.conn.buffered ≤ n)
    (hs : n ≤ s.conn.stream.length) :
    (rcvLoop buflen n s).1.scan = (Scan.run buflen (s.conn.stream.take n) s.scan).1 ∧
      (rcvLoop buflen n s).2 = Scan.zero buflen (Scan.run buflen (s.conn.stream.take n) s.scan) ∧
      (rcvLoop buflen n s).1.conn.Ready ∧
      ∃ m, (rcvLoop buflen n s).1.scan.consumed = s.scan.consumed + m ∧
        (rcvLoop buflen n s).1.conn.stream = s.conn.stream.drop m := by
  induction n generalizing s with
  | zero =>
    have h0 : s.conn.buffered = 0 := Nat.le_zero.mp hb
    refine ⟨rfl, rfl, ⟨hr.fd, hr.buf, hr.buflen, hr.pieces⟩, 0, rfl, ?_⟩
    have hnone : s.conn.stream = s.conn.pieces.flatten := by
      rw [Conn.stream, h0, slice_zero, List.nil_append]
    rw [List.drop_zero, hnone]
    rfl
  | succ n ih =>
    obtain ⟨hflag, hready, hstream, hpos, hscan⟩ := s.fill_stream (n + 1) hr (Nat.succ_pos n) hs
    obtain ⟨k, -, -, hle, -⟩ := s.fill_took (n + 1) hr.pieces hb
    obtain ⟨b, hbyte, hnext⟩ := (s.fill (n + 1)).1.next_stream buflen hpos
    have hready' : ((s.fill (n + 1)).1.next buflen).conn.Ready :=
      ⟨hready.fd, hready.buf, hready.buflen, hready.pieces⟩
    rw [hscan] at hnext
    rw [← hstream, hbyte, List.length_cons] at hs
    rw [← hstream, hbyte, List.take_succ_cons, Scan.run, ← hnext]
    unfold rcvLoop
    dsimp only
    rw [hflag, if_neg (by decide)]
    by_cases hdone : ((s.fill (n + 1)).1.next buflen).scan.state = separator.length
    · rw [if_pos hdone, if_pos hdone]
      refine ⟨rfl, rfl, hready', 1, ?_, rfl⟩
      rw [hnext]
      rfl
    · rw [if_neg hdone, if_neg hdone]
      have hbuf : ((s.fill (n + 1)).1.next buflen).conn.buffered ≤ n := by
        change (s.fill (n + 1)).1.conn.len - ((s.fill (n + 1)).1.conn.pos + 1) ≤ n
        unfold Conn.buffered at hle
        omega
      obtain ⟨h1, h2, h3, m, h4, h5⟩ := ih _ hready' hbuf (Nat.le_of_succ_le_succ hs)
      refine ⟨h1, h2, h3, m + 1, ?_, h5⟩
      rw [h4, hnext]
      change s.scan.consumed + 1 + m = _
      omega

/-- What a call makes of the bytes of a message: the token and the bytes consumed. -/
def receive (buflen : Nat) (bytes : List UInt8) : List UInt8 × Nat :=
  let t := Scan.run buflen bytes {}
  (Received.token ⟨t.1.consumed, 0, t.1.placed, Scan.zero buflen t⟩, t.1.consumed)

theorem rcvString_stream (conn : Conn) (err : Int) (buflen count : Nat) (hr : conn.Ready) (hb : conn.buffered ≤ count)
    (hs : count ≤ conn.stream.length) :
    ((rcvString conn err buflen count).1.token, (rcvString conn err buflen count).1.consumed) =
        receive buflen (conn.stream.take count) ∧
      (rcvString conn err buflen count).2.Ready ∧
      (rcvString conn err buflen count).2.stream = conn.stream.drop (receive buflen (conn.stream.take count)).2 := by
  obtain ⟨h1, h2, h3, m, h4, h5⟩ := rcvLoop_stream buflen count { conn := conn, err := err } hr hb hs
  have hfd : ¬ (conn.fd < 0 ∨ conn.buf = none) := by
    rintro (hfd | hbuf)
    · exact absurd hr.fd (not_le.mpr hfd)
    · exact hr.buf hbuf
  unfold rcvString
  rw [if_neg (by omega), if_neg hfd, Int.toNat_natCast]
  dsimp only
  rw [Nat.zero_add] at h4
  refine ⟨?_, h3, ?_⟩
  · rw [h1, h2]
    rfl
  · rw [h5, ← h4, h1]
    rfl

namespace Scan

/-- The state of the match behind one more byte. -/
def nextState (state : Nat) (b : UInt8) : Nat := if separator[state]? = some b then state + 1 else 0

/-- The state of the match behind some bytes. -/
def stateAfter (bytes : List UInt8) : Nat := bytes.foldl nextState 0

theorem stateAfter_append (bytes : List UInt8) (b : UInt8) :
    stateAfter (bytes ++ [b]) = nextState (stateAfter bytes) b := by
  rw [stateAfter, List.foldl_append]
  rfl

/-- The part of the separator that is matched has just been read. -/
theorem stateAfter_suffix (bytes : List UInt8) :
    stateAfter bytes ≤ 5 ∧ separator.take (stateAfter bytes) <:+ bytes := by
  induction bytes using List.reverseRecOn with
  | nil => exact ⟨Nat.zero_le 5, List.suffix_refl []⟩
  | append_singleton bytes b ih =>
    obtain ⟨-, pre, hpre⟩ := ih
    rw [stateAfter_append, nextState]
    split
    · rename_i hb
      obtain ⟨hlt, hget⟩ := List.getElem?_eq_some_iff.mp hb
      refine ⟨hlt, pre, ?_⟩
      rw [List.take_add_one, hb, ← List.append_assoc, hpre]
      rfl
    · exact ⟨Nat.zero_le 5, List.nil_suffix⟩

/-- A separator is only found where there is one. -/
theorem stateAfter_ne (bytes : List UInt8) (hs : ¬ separator <:+: bytes) : stateAfter bytes ≠ separator.length := by
  intro h5
  obtain ⟨-, hsuf⟩ := stateAfter_suffix bytes
  rw [h5, List.take_length] at hsuf
  exact hs hsuf.isInfix

theorem byte_placed (buflen : Nat) (s : Scan) (b : UInt8) : s.placed <+: (s.byte buflen b).placed := by
  rw [byte]
  dsimp only
  split
  · exact List.prefix_append ..
  · exact List.prefix_refl _

/-- A token that fits into the output buffer is placed there whole. -/
theorem foldl_byte (buflen : Nat) (bytes : List UInt8) (hl : bytes.length ≤ buflen) :
    bytes.foldl (byte buflen) {} = ⟨bytes.length, bytes, stateAfter bytes,
      if stateAfter bytes = 0 then none else some (bytes.length - stateAfter bytes)⟩ := by
  induction bytes using List.reverseRecOn with
  | nil => rfl
  | append_singleton bytes b ih =>
    rw [List.length_append, List.length_singleton] at hl
    have hfit : bytes.length < buflen := hl
    rw [List.foldl_append, ih (by omega), List.foldl_cons, List.foldl_nil, stateAfter_append]
    simp only [byte, nextState, if_pos hfit, List.length_append, List.length_singleton]
    split
    · by_cases h0 : stateAfter bytes = 0
      · simp [h0, hfit]
      · have hle := (stateAfter_suffix bytes).2.length_le
        simp [h0]
    · rfl

/-- Bytes in which no separator is found are all read. -/
theorem run_append (buflen : Nat) (bytes rest : List UInt8) (s : Scan)
    (hq : ∀ p, p <+: bytes → p ≠ [] → p.foldl nextState s.state ≠ separator.length) :
    run buflen (bytes ++ rest) s = run buflen rest (bytes.foldl (byte buflen) s) := by
  induction bytes generalizing s with
  | nil => rfl
  | cons b bytes ih =>
    have hb : (s.byte buflen b).state ≠ separator.length :=
      hq [b] (List.prefix_append [b] bytes) (List.cons_ne_nil _ _)
    rw [List.cons_append, run, if_neg hb, List.foldl_cons]
    refine ih _ fun p hp hne => ?_
    exact hq (b :: p) (List.cons_prefix_cons.mpr ⟨rfl, hp⟩) (List.cons_ne_nil _ _)

/-- After a token without a separator in it. -/
theorem run_token (buflen : Nat) (token rest : List UInt8) (hs : ¬ separator <:+: token) (hl : token.length ≤ buflen) :
    run buflen (token ++ rest) {} = run buflen rest ⟨token.length, token, stateAfter token,
      if stateAfter token = 0 then none else some (token.length - stateAfter token)⟩ := by
  rw [run_append buflen token rest {} ?_, foldl_byte buflen token hl]
  intro p hp _
  exact stateAfter_ne p fun hin => hs (hin.trans hp.isInfix)

/-- A separator that starts where nothing is matched. -/
theorem run_separator (buflen : Nat) (s : Scan) (rest : List UInt8) (h0 : s.state = 0)
    (hl : s.placed.length < buflen) :
    ∃ t, run buflen (separator ++ rest) s = (t, true) ∧ t.consumed = s.consumed + 5 ∧
      t.sepStart = some s.placed.length ∧ s.placed <+: t.placed := by
  obtain ⟨consumed, placed, state, sepStart⟩ := s
  subst h0
  refine ⟨_, rfl, rfl, ?_, ?_⟩
  · change (if 0 = 0 ∧ placed.length < buflen then some placed.length else sepStart) = _
    rw [if_pos ⟨rfl, hl⟩]
  · have hstep (q : Scan) (b : UInt8) : q.placed <+: (byte buflen q b).placed := byte_placed buflen q b
    exact ((((hstep _ _).trans (hstep _ _)).trans (hstep _ _)).trans (hstep _ _)).trans (hstep _ _)

/-- The output buffer is terminated behind its first `k` bytes. -/
def Beyond (k : Nat) (s : Scan) : Prop := k ≤ s.placed.length ∧ ∀ j, s.sepStart = some j → k ≤ j

theorem Beyond.byte {k : Nat} {s : Scan} (hs : Beyond k s) (buflen : Nat) (b : UInt8) :
    Beyond k (Scan.byte buflen s b) := by
  refine ⟨hs.1.trans (byte_placed buflen s b).length_le, fun j hj => ?_⟩
  simp only [Scan.byte] at hj
  split at hj
  · split at hj
    · rw [← Option.some.inj hj]
      exact hs.1
    · exact hs.2 j hj
  · exact absurd hj (by simp)

theorem Beyond.run {k : Nat} {s : Scan} (hs : Beyond k s) (buflen : Nat) (bytes : List UInt8) :
    Beyond k (Scan.run buflen bytes s).1 := by
  induction bytes generalizing s with
  | nil => exact hs
  | cons b bytes ih =>
    rw [Scan.run]
    split
    · exact hs.byte buflen b
    · exact ih (hs.byte buflen b)

theorem Beyond.token {k : Nat} {t : Scan × Bool} (hs : Beyond k t.1) (buflen : Nat) (consumed : Nat) (err : Int) :
    k ≤ (Received.token ⟨consumed, err, t.1.placed, zero buflen t⟩).length := by
  have hend (j : Nat) : t.1.atEnd buflen = some j → k ≤ j := by
    rw [atEnd]
    intro hj
    split at hj
    · rw [← Option.some.inj hj]
      exact hs.1
    · exact absurd hj (by simp)
  have hzero (j : Nat) (hj : zero buflen t = some j) : k ≤ j := by
    rw [zero] at hj
    split at hj
    · rw [atSeparator, Option.or_eq_some_iff] at hj
      exact hj.elim (hs.2 j) fun hj => hend j hj.2
    · exact hend j hj
  cases hz : zero buflen t with
  | none => exact hs.1
  | some j =>
    rw [Received.token, List.length_take]
    exact le_min (hzero j hz) hs.1

end Scan

/-- A token whose end is not in the middle of a match: it is made of blocks, each the
beginning of a separator and then a byte that does not continue it. -/
inductive Clean : List UInt8 → Prop where
  | nil : Clean []
  | block (k : Nat) (b : UInt8) (rest : List UInt8) : k < separator.length → separator[k]? ≠ some b →
      Clean rest → Clean (separator.take k ++ b :: rest)

theorem Clean.append {u v : List UInt8} (hu : Clean u) (hv : Clean v) : Clean (u ++ v) := by
  induction hu with
  | nil => exact hv
  | block k b rest hk hb _ ih =>
    rw [List.append_assoc]
    exact .block k b _ hk hb ih

open Scan in
theorem Clean.stateAfter {token : List UInt8} (hc : Clean token) : stateAfter token = 0 := by
  have htake : ∀ k < 5, (separator.take k).foldl nextState 0 = k := by decide
  induction hc with
  | nil => rfl
  | block k b rest hk hb _ ih =>
    have hbreak : nextState k b = 0 := if_neg hb
    rw [Scan.stateAfter, List.foldl_append, htake k hk, List.foldl_cons, hbreak]
    exact ih

open Scan in
/-- Every token is clean up to the part of a separator at its end. -/
theorem exists_clean (token : List UInt8) (hs : ¬ separator <:+: token) :
    ∃ u, Clean u ∧ token = u ++ separator.take (stateAfter token) := by
  induction token using List.reverseRecOn with
  | nil => exact ⟨[], .nil, rfl⟩
  | append_singleton token b ih =>
    have hs' : ¬ separator <:+: token := fun hin => hs (hin.trans (List.prefix_append ..).isInfix)
    obtain ⟨u, hu, he⟩ := ih hs'
    have hlt : stateAfter token < separator.length :=
      lt_of_le_of_ne (stateAfter_suffix token).1 (stateAfter_ne token hs')
    rw [stateAfter_append, nextState]
    split
    · rename_i hb
      refine ⟨u, hu, ?_⟩
      rw [List.take_add_one, hb, ← List.append_assoc, ← he]
      rfl
    · rename_i hb
      refine ⟨token ++ [b], ?_, (List.append_nil _).symm⟩
      rw [he, List.append_assoc]
      exact hu.append (.block _ b [] hlt hb .nil)

theorem clean_iff (token : List UInt8) (hs : ¬ separator <:+: token) : Clean token ↔ Scan.stateAfter token = 0 := by
  refine ⟨Clean.stateAfter, fun h0 => ?_⟩
  obtain ⟨u, hu, he⟩ := exists_clean token hs
  rw [h0, List.take_zero, List.append_nil] at he
  exact he ▸ hu

section Receive
variable {buflen : Nat} {token : List UInt8} (hs : ¬ separator <:+: token) (hl : token.length < buflen)
include hs hl

open Scan in
/-- The last token of a message. -/
theorem receive_last : receive buflen token = (token, token.length) := by
  have hrun := run_token buflen token [] hs hl.le
  rw [List.append_nil, run] at hrun
  simp only [receive, hrun, zero, atEnd, if_pos hl, Received.token, List.take_length, Bool.false_eq_true, if_false]

open Scan in
/-- A clean token ends at its separator. -/
theorem receive_clean (h0 : stateAfter token = 0) (rest : List UInt8) :
    receive buflen (token ++ (separator ++ rest)) = (token, token.length + 5) := by
  have hrun := run_token buflen token (separator ++ rest) hs hl.le
  rw [h0, if_pos rfl] at hrun
  obtain ⟨t, ht, hcons, hsep, hpre⟩ := run_separator buflen ⟨token.length, token, 0, none⟩ rest rfl hl
  rw [ht] at hrun
  simp only [receive, hrun, zero, atSeparator, hsep, Option.some_or, Received.token, if_true, hcons]
  have htake : token = t.placed.take token.length := List.prefix_iff_eq_take.mp hpre
  rw [← htake]

open Scan in
/-- A token that ends in the middle of a match does not come back: it is cut where the
match started, or the separator behind it is missed. -/
theorem receive_unclean (h0 : stateAfter token ≠ 0) (rest : List UInt8) :
    (receive buflen (token ++ (separator ++ rest))).1 ≠ token := by
  have hrun := run_token buflen token (separator ++ rest) hs hl.le
  rw [if_neg h0] at hrun
  obtain ⟨hle, hsuf⟩ := stateAfter_suffix token
  have h5 := stateAfter_ne token hs
  -- behind the match the first byte of the separator is not tried again
  have hmissed (k : Nat) (hk : k = 1 ∨ k = 2 ∨ k = 4) (hstate : stateAfter token = k) :
      (receive buflen (token ++ (separator ++ rest))).1 ≠ token := by
    have hnext : run buflen (separator ++ rest) ⟨token.length, token, k, some (token.length - k)⟩ =
        run buflen (separator.tail ++ rest)
          ⟨token.length + 1, if token.length < buflen then token ++ [0x5B] else token, 0, none⟩ := by
      rcases hk with rfl | rfl | rfl <;> rfl
    have hbeyond : Beyond (token.length + 1)
        ⟨token.length + 1, if token.length < buflen then token ++ [0x5B] else token, 0, none⟩ := by
      rw [if_pos hl]
      exact ⟨by simp, fun j hj => absurd hj (by simp)⟩
    have hlong := (hbeyond.run buflen (separator.tail ++ rest)).token buflen
      (run buflen (token ++ (separator ++ rest)) {}).1.consumed 0
    rw [hstate, hnext] at hrun
    rw [← hrun] at hlong
    intro he
    have hlen : token.length + 1 ≤ (receive buflen (token ++ (separator ++ rest))).1.length := hlong
    rw [he] at hlen
    omega
  obtain h1 | h2 | h3 | h4 : stateAfter token = 1 ∨ stateAfter token = 2 ∨ stateAfter token = 3 ∨
      stateAfter token = 4 := by
    change stateAfter token ≠ 5 at h5
    omega
  · exact hmissed 1 (.inl rfl) h1
  · exact hmissed 2 (.inr (.inl rfl)) h2
  · -- the match goes on into the separator
    obtain ⟨t, ht, hsep⟩ : ∃ t, run buflen (separator ++ rest) ⟨token.length, token, 3, some (token.length - 3)⟩ =
        (t, true) ∧ t.sepStart = some (token.length - 3) := ⟨_, rfl, rfl⟩
    rw [h3, ht] at hrun
    have hlen := hsuf.length_le
    rw [h3] at hlen
    change 3 ≤ token.length at hlen
    intro he
    simp only [receive, hrun, zero, atSeparator, hsep, Option.some_or, Received.token, if_true] at he
    have := congrArg List.length he
    rw [List.length_take] at this
    omega
  · exact hmissed 4 (.inr (.inr rfl)) h4

end Receive

/-- What the calls should return: the tokens, each with its separator consumed. -/
def expected : List (List UInt8) → List (List UInt8 × Nat)
  | [] => []
  | [token] => [(token, token.length)]
  | token :: tokens => (token, token.length + separator.length) :: expected tokens

/-- The calls return the tokens that were joined and consume the payload. -/
def Recovers (qs : List Request) (tokens : List (List UInt8)) (conn : Conn) : Prop :=
  (rcvStrings qs (separator.intercalate tokens).length conn).1.map (fun r => (r.token, r.consumed)) =
      expected tokens ∧
    (rcvStrings qs (separator.intercalate tokens).length conn).2.1 = 0

theorem intercalate_cons (token token' : List UInt8) (tokens : List (List UInt8)) :
    separator.intercalate (token :: token' :: tokens) =
      token ++ (separator ++ separator.intercalate (token' :: tokens)) := by
  simp [List.intercalate]

theorem rcvStrings_cons (q : Request) (qs : List Request) (count : Nat) (conn : Conn) (bytes : List UInt8)
    (hbytes : bytes <+: conn.stream) (hcount : bytes.length = count) (hr : conn.Ready) (hb : conn.buffered ≤ count) :
    ∃ conn' : Conn, conn'.Ready ∧ conn'.stream = conn.stream.drop (receive q.buflen bytes).2 ∧
      conn'.buffered ≤ count - (receive q.buflen bytes).2 ∧
      (rcvStrings (q :: qs) count conn).1.map (fun r => (r.token, r.consumed)) = receive q.buflen bytes ::
        (rcvStrings qs (count - (receive q.buflen bytes).2) conn').1.map (fun r => (r.token, r.consumed)) ∧
      (rcvStrings (q :: qs) count conn).2.1 = (rcvStrings qs (count - (receive q.buflen bytes).2) conn').2.1 := by
  have hs : count ≤ conn.stream.length := hcount ▸ hbytes.length_le
  have htake : conn.stream.take count = bytes := by
    rw [← hcount]
    exact (List.prefix_iff_eq_take.mp hbytes).symm
  obtain ⟨hret, hready, hstream⟩ := rcvString_stream conn q.err q.buflen count hr hb hs
  obtain ⟨k, -, -, hle⟩ := rcvString_took conn q.err q.buflen count hr.pieces hb
  rw [htake] at hret hstream
  have hcons : (rcvString conn q.err q.buflen count).1.consumed = (receive q.buflen bytes).2 :=
    congrArg Prod.snd hret
  refine ⟨(rcvString conn q.err q.buflen count).2, hready, hstream, by omega, ?_, ?_⟩
  · rw [rcvStrings, List.map_cons, hret, hcons]
  · rw [rcvStrings, hcons]

theorem recovers_iff (tokens : List (List UInt8)) (hne : tokens ≠ []) (hsep : ∀ token ∈ tokens, ¬ separator <:+: token)
    (qs : List Request) (hlen : List.Forall₂ (fun token q => token.length < q.buflen) tokens qs) (conn : Conn)
    (hr : conn.Ready) (hb : conn.buffered ≤ (separator.intercalate tokens).length)
    (hbytes : separator.intercalate tokens <+: conn.stream) :
    Recovers qs tokens conn ↔ ∀ token ∈ tokens.dropLast, Clean token := by
  induction tokens generalizing qs conn with
  | nil => exact absurd rfl hne
  | cons token tokens ih =>
    obtain ⟨q, qs, hl, hlen', rfl⟩ : ∃ q qs', token.length < q.buflen ∧
        List.Forall₂ (fun token q => token.length < q.buflen) tokens qs' ∧ qs = q :: qs' := by
      cases hlen with
      | cons h1 h2 => exact ⟨_, _, h1, h2, rfl⟩
    have hs := hsep token List.mem_cons_self
    obtain ⟨conn', hr', hstream, hb', hmap, hleft⟩ := rcvStrings_cons q qs _ conn _ hbytes rfl hr hb
    unfold Recovers
    rw [hmap, hleft]
    cases tokens with
    | nil =>
      cases hlen'
      have hone : separator.intercalate [token] = token := by simp [List.intercalate]
      rw [hone, receive_last hs hl]
      simp [rcvStrings, expected]
    | cons token' tokens =>
      rw [intercalate_cons] at hbytes hb hb' hstream ⊢
      have hdrop : (token :: token' :: tokens).dropLast = token :: (token' :: tokens).dropLast := rfl
      rw [hdrop, List.forall_mem_cons]
      by_cases h0 : Scan.stateAfter token = 0
      · rw [receive_clean hs hl h0] at hstream hb' ⊢
        have hcount : (token ++ (separator ++ separator.intercalate (token' :: tokens))).length -
            (token.length + 5) = (separator.intercalate (token' :: tokens)).length := by
          rw [List.length_append, List.length_append]
          change token.length + (5 + _) - _ = _
          omega
        have hrest : separator.intercalate (token' :: tokens) <+: conn'.stream := by
          obtain ⟨next, hnext⟩ := hbytes
          refine ⟨next, ?_⟩
          rw [hstream, ← hnext, List.append_assoc, ← List.drop_drop, List.drop_left, List.append_assoc]
          rfl
        dsimp only at hb' ⊢
        rw [hcount] at hb' ⊢
        have htail := ih (List.cons_ne_nil token' tokens) (fun t ht => hsep t (List.mem_cons_of_mem _ ht)) qs hlen' conn' hr' hb'
          hrest
        have hclean : Clean token := (clean_iff token hs).mpr h0
        rw [← htail, Recovers, expected, List.cons.injEq, and_assoc]
        · exact ⟨fun h => ⟨hclean, h.2⟩, fun h => ⟨rfl, h.2⟩⟩
        · exact List.cons_ne_nil token' tokens
      · refine ⟨fun h => ?_, fun h => absurd ((clean_iff token hs).mp h.1) h0⟩
        rw [expected] at h
        · exact absurd (congrArg Prod.fst (List.cons.inj h.1).1) (receive_unclean hs hl h0 _)
        · exact List.cons_ne_nil token' tokens

/-- Tokens that were joined by separators and delivered in any pieces come back exactly if
none of them but the last ends in the middle of a match. -/
theorem tokens_recovered_iff_clean (tokens : List (List UInt8)) (hne : tokens ≠ [])
    (hsep : ∀ token ∈ tokens, ¬ separator <:+: token) (qs : List Request)
    (hlen : List.Forall₂ (fun token q => token.length < q.buflen) tokens qs) (conn : Conn) (hr : conn.Ready)
    (hempty : conn.len ≤ conn.pos) (hbytes : separator.intercalate tokens <+: conn.pieces.flatten) :
    Recovers qs tokens conn ↔ ∀ token ∈ tokens.dropLast, Clean token := by
  have h0 : conn.buffered = 0 := Nat.sub_eq_zero_of_le hempty
  have hstream : conn.stream = conn.pieces.flatten := by
    rw [Conn.stream, h0, slice_zero, List.nil_append]
  refine recovers_iff tokens hne hsep qs hlen conn hr (by rw [h0]; exact Nat.zero_le _) ?_
  rw [hstream]
  exact hbytes

/-- The tokens `a]` and `b`, in two pieces. -/
theorem tokens_recovered_two :
    let conn : Conn := ⟨3, some fun _ => 0, 4, 0, 0, [[0x61, 0x5D, 0x5B, 0x5D, 0x3A], [0x5B, 0x5D, 0x62]], 104⟩
    Recovers [⟨0, 10⟩, ⟨0, 10⟩] [[0x61, 0x5D], [0x62]] conn ↔
      ∀ token ∈ ([[0x61, 0x5D], [0x62]] : List (List UInt8)).dropLast, Clean token :=
  tokens_recovered_iff_clean [[0x61, 0x5D], [0x62]] (by decide) (by decide) _
    (.cons (by decide) (.cons (by decide) .nil)) _ ⟨by decide, by decide, by decide, by decide⟩ (by decide) (by decide)

/-- The token `a[`: the call runs over the separator behind it, so the tokens `a[` and `b`
come back as one. -/
theorem tokens_bracket_lost :
    let conn : Conn := ⟨3, some fun _ => 0, 8, 0, 0, [[0x61, 0x5B, 0x5B, 0x5D, 0x3A, 0x5B, 0x5D, 0x62]], 104⟩
    conn.Ready ∧ (∀ token ∈ ([[0x61, 0x5B], [0x62]] : List (List UInt8)), ¬ separator <:+: token) ∧
      separator.intercalate [[0x61, 0x5B], [0x62]] = conn.pieces.flatten ∧
      ¬ Recovers [⟨0, 10⟩, ⟨0, 10⟩] [[0x61, 0x5B], [0x62]] conn := by
  refine ⟨⟨by decide, by decide, by decide, by decide⟩, by decide, by decide, ?_⟩
  rintro ⟨h, -⟩
  exact absurd h (by decide)

end Mvpmc.Cmyth
