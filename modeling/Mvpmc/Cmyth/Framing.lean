import Mvpmc.Cmyth.Conn

/-! The framing of messages does not depend on how the socket delivers the bytes, and no
byte of the next message is taken from the socket. -/
namespace Mvpmc.Cmyth
open Mvpmc.Lib.Circular

/-- Pieces as `recv` delivers them: none is empty. -/
def Pieces (pieces : List (List UInt8)) : Prop := ∀ piece ∈ pieces, piece ≠ []

instance (pieces : List (List UInt8)) : Decidable (Pieces pieces) :=
  inferInstanceAs (Decidable (∀ piece ∈ pieces, piece ≠ []))

/-- All bytes in one piece. -/
def onePiece (bytes : List UInt8) : List (List UInt8) := if bytes = [] then [] else [bytes]

theorem onePiece_flatten (bytes : List UInt8) : (onePiece bytes).flatten = bytes := by
  unfold onePiece
  split
  · rename_i he
    rw [he]
    rfl
  · exact List.flatten_singleton ..

theorem onePiece_pieces (bytes : List UInt8) : Pieces (onePiece bytes) := by
  intro piece hm
  unfold onePiece at hm
  split at hm
  · exact absurd hm List.not_mem_nil
  · rename_i hne
    rwa [List.mem_singleton.mp hm]

/-- `recv` gives the next bytes of the stream, and some if there are any. -/
theorem recv_spec (n : Nat) (pieces : List (List UInt8)) (hp : Pieces pieces) (hn : n ≠ 0) :
    (recv n pieces).1 ++ (recv n pieces).2.flatten = pieces.flatten ∧ Pieces (recv n pieces).2 ∧
      (recv n pieces).1.length ≤ n ∧ ((recv n pieces).1 = [] → pieces = []) := by
  cases pieces with
  | nil => exact ⟨rfl, hp, Nat.zero_le _, fun _ => rfl⟩
  | cons piece pieces =>
    have hne := hp piece List.mem_cons_self
    have hlen := List.length_pos_iff.mpr hne
    have hp' : Pieces pieces := fun q hq => hp q (List.mem_cons_of_mem _ hq)
    have hsome : (piece.take n) ≠ [] := by
      intro he
      have := congrArg List.length he
      rw [List.length_take, List.length_nil] at this
      omega
    rw [recv]
    refine ⟨?_, ?_, List.length_take_le .., fun he => absurd he hsome⟩
    · dsimp only
      split
      · rename_i hle
        rw [List.take_of_length_le hle, List.flatten_cons]
      · rw [List.flatten_cons, List.flatten_cons, ← List.append_assoc, List.take_append_drop]
    · dsimp only
      split
      · exact hp'
      · rename_i hlt
        intro q hq
        rcases List.mem_cons.mp hq with rfl | hq
        · intro he
          have := congrArg List.length he
          rw [List.length_drop, List.length_nil] at this
          omega
        · exact hp' q hq

/-- The loop receives as many bytes as it asks for, or all there are. -/
theorem refillLoop_spec (fuel len : Nat) (pieces : List (List UInt8)) (hp : Pieces pieces) (hf : len ≤ fuel) :
    (refillLoop fuel len pieces).1 = pieces.flatten.take len ∧
      (refillLoop fuel len pieces).2.flatten = pieces.flatten.drop len ∧ Pieces (refillLoop fuel len pieces).2 := by
  induction fuel generalizing len pieces with
  | zero =>
    obtain rfl := Nat.le_zero.mp hf
    exact ⟨rfl, rfl, hp⟩
  | succ fuel ih =>
    unfold refillLoop
    by_cases h0 : len = 0
    · rw [if_pos h0, h0]
      exact ⟨rfl, rfl, hp⟩
    rw [if_neg h0]
    obtain ⟨hsplit, hp', hle, hend⟩ := recv_spec len pieces hp h0
    by_cases hr : (recv len pieces).1 = []
    · have hnil := hend hr
      subst hnil
      rw [if_pos hr]
      exact ⟨by simp, by simp [recv], hp'⟩
    · have hpos := List.length_pos_iff.mpr hr
      obtain ⟨h1, h2, h3⟩ := ih (len - (recv len pieces).1.length) (recv len pieces).2 hp' (by omega)
      rw [if_neg hr]
      refine ⟨?_, ?_, h3⟩
      · dsimp only
        rw [h1, ← hsplit, List.take_append, List.take_of_length_le hle]
      · dsimp only
        rw [h2, ← hsplit, List.drop_append, List.drop_of_length_le hle, List.nil_append]

/-- Two connections that differ at most in the pieces of the same bytes. -/
structure SameBytes (c₁ c₂ : Conn) : Prop where
  rest : c₂ = { c₁ with pieces := c₂.pieces }
  bytes : c₂.pieces.flatten = c₁.pieces.flatten
  left : Pieces c₁.pieces
  right : Pieces c₂.pieces

namespace SameBytes
variable {c₁ c₂ : Conn}

theorem of_pieces {pieces : List (List UInt8)} (conn : Conn) (hp : Pieces conn.pieces) (hp' : Pieces pieces)
    (hb : pieces.flatten = conn.pieces.flatten) : SameBytes conn { conn with pieces := pieces } :=
  ⟨rfl, hb, hp, hp'⟩

theorem field {β : Type} (f : Conn → β) (hs : SameBytes c₁ c₂) : f c₂ = f { c₁ with pieces := c₂.pieces } :=
  congrArg f hs.rest

theorem fd (hs : SameBytes c₁ c₂) : c₂.fd = c₁.fd := hs.field Conn.fd
theorem buf (hs : SameBytes c₁ c₂) : c₂.buf = c₁.buf := hs.field Conn.buf
theorem pos (hs : SameBytes c₁ c₂) : c₂.pos = c₁.pos := hs.field Conn.pos
theorem len (hs : SameBytes c₁ c₂) : c₂.len = c₁.len := hs.field Conn.len

theorem advance (hs : SameBytes c₁ c₂) :
    SameBytes { c₁ with pos := c₁.pos + 1 } { c₂ with pos := c₂.pos + 1 } := by
  refine ⟨?_, hs.bytes, hs.left, hs.right⟩
  rw [hs.rest]

theorem emptied (hs : SameBytes c₁ c₂) :
    SameBytes { c₁ with pos := 0, len := 0 } { c₂ with pos := 0, len := 0 } := by
  refine ⟨?_, hs.bytes, hs.left, hs.right⟩
  rw [hs.rest]

/-- Refilling gives both connections the same bytes. -/
theorem refill (hs : SameBytes c₁ c₂) (n : Nat) :
    (refill c₂ n).1 = (Cmyth.refill c₁ n).1 ∧ SameBytes (Cmyth.refill c₁ n).2 (Cmyth.refill c₂ n).2 := by
  obtain ⟨hrest, hbytes, hl, hr⟩ := hs
  obtain ⟨fd, buf, buflen, pos, len, pieces, errno⟩ := c₁
  obtain ⟨_, _, _, _, _, pieces', _⟩ := c₂
  cases hrest
  cases buf with
  | none => exact ⟨rfl, rfl, hbytes, hl, hr⟩
  | some buf =>
    obtain ⟨h1, h2, h3⟩ := refillLoop_spec (min n buflen) (min n buflen) pieces hl (le_refl _)
    obtain ⟨g1, g2, g3⟩ := refillLoop_spec (min n buflen) (min n buflen) pieces' hr (le_refl _)
    rw [hbytes] at g1 g2
    unfold Cmyth.refill
    dsimp only
    rw [g1, h1]
    split
    · exact ⟨rfl, rfl, g2.trans h2.symm, h3, g3⟩
    · exact ⟨rfl, rfl, g2.trans h2.symm, h3, g3⟩

end SameBytes

/-- Two calls that are equally far. -/
structure SameRcv (s₁ s₂ : Rcv) : Prop where
  conn : SameBytes s₁.conn s₂.conn
  err : s₂.err = s₁.err
  scan : s₂.scan = s₁.scan

namespace SameRcv
variable {s₁ s₂ : Rcv}

theorem fill (hs : SameRcv s₁ s₂) (n : Nat) :
    (s₂.fill n).2 = (s₁.fill n).2 ∧ SameRcv (s₁.fill n).1 (s₂.fill n).1 := by
  obtain ⟨hret, hconn⟩ := hs.conn.refill n
  unfold Rcv.fill
  dsimp only
  rw [hs.conn.len, hs.conn.pos, hret]
  split
  · split
    · exact ⟨rfl, hconn, rfl, hs.scan⟩
    · exact ⟨rfl, hconn, rfl, hs.scan⟩
  · exact ⟨rfl, hs⟩

theorem next (hs : SameRcv s₁ s₂) (buflen : Nat) : SameRcv (s₁.next buflen) (s₂.next buflen) := by
  refine ⟨hs.conn.advance, hs.err, ?_⟩
  change s₂.scan.byte buflen _ = s₁.scan.byte buflen _
  rw [hs.scan, hs.conn.buf, hs.conn.pos]

end SameRcv

theorem rcvLoop_same (buflen n : Nat) {s₁ s₂ : Rcv} (hs : SameRcv s₁ s₂) :
    (rcvLoop buflen n s₂).2 = (rcvLoop buflen n s₁).2 ∧ SameRcv (rcvLoop buflen n s₁).1 (rcvLoop buflen n s₂).1 := by
  induction n generalizing s₁ s₂ with
  | zero => exact ⟨by rw [rcvLoop, hs.scan]; rfl, hs.conn.emptied, hs.err, hs.scan⟩
  | succ n ih =>
    obtain ⟨hflag, hfill⟩ := hs.fill (n + 1)
    have hnext := hfill.next buflen
    unfold rcvLoop
    dsimp only
    rw [hflag, hnext.scan]
    split
    · exact ⟨rfl, hfill⟩
    · split
      · exact ⟨rfl, hnext⟩
      · exact ih hnext

theorem rcvString_same {c₁ c₂ : Conn} (hs : SameBytes c₁ c₂) (err : Int) (buflen : Nat) (count : Int) :
    (rcvString c₂ err buflen count).1 = (rcvString c₁ err buflen count).1 ∧
      SameBytes (rcvString c₁ err buflen count).2 (rcvString c₂ err buflen count).2 := by
  unfold rcvString
  rw [hs.fd, hs.buf]
  split
  · exact ⟨rfl, hs⟩
  · split
    · exact ⟨rfl, hs⟩
    · have hstart : SameRcv { conn := c₁, err := err } { conn := c₂, err := err } := ⟨hs, rfl, rfl⟩
      obtain ⟨hz, hr⟩ := rcvLoop_same buflen count.toNat hstart
      dsimp only
      rw [hz, hr.err, hr.scan]
      exact ⟨rfl, hr.conn⟩

theorem rcvStrings_same (qs : List Request) (count : Nat) {c₁ c₂ : Conn} (hs : SameBytes c₁ c₂) :
    (rcvStrings qs count c₂).1 = (rcvStrings qs count c₁).1 ∧
      (rcvStrings qs count c₂).2.1 = (rcvStrings qs count c₁).2.1 ∧
      SameBytes (rcvStrings qs count c₁).2.2 (rcvStrings qs count c₂).2.2 := by
  induction qs generalizing count c₁ c₂ with
  | nil => exact ⟨rfl, rfl, hs⟩
  | cons q qs ih =>
    obtain ⟨hret, hconn⟩ := rcvString_same hs q.err q.buflen count
    obtain ⟨h1, h2, h3⟩ := ih (count - (rcvString c₁ q.err q.buflen count).1.consumed) hconn
    simp only [rcvStrings, hret]
    exact ⟨by rw [h1], h2, h3⟩

/-- The bytes of the message that are in the buffer of the connection. -/
def Conn.buffered (conn : Conn) : Nat := conn.len - conn.pos

/-- From `c₁` to `c₂` the socket gave `k` bytes. -/
structure Took (k : Nat) (c₁ c₂ : Conn) : Prop where
  bytes : c₂.pieces.flatten = c₁.pieces.flatten.drop k
  pieces : Pieces c₂.pieces

theorem Took.refl {conn : Conn} (hp : Pieces conn.pieces) : Took 0 conn conn := ⟨rfl, hp⟩

theorem Took.trans {j k : Nat} {c₁ c₂ c₃ : Conn} (h₁₂ : Took j c₁ c₂) (h₂₃ : Took k c₂ c₃) : Took (j + k) c₁ c₃ :=
  ⟨by rw [h₂₃.bytes, h₁₂.bytes, List.drop_drop], h₂₃.pieces⟩

theorem drop_take_length {α : Type} (xs : List α) (n : Nat) : xs.drop (xs.take n).length = xs.drop n := by
  rw [List.length_take]
  rcases Nat.le_total n xs.length with hle | hle
  · rw [Nat.min_eq_left hle]
  · rw [Nat.min_eq_right hle, List.drop_length, List.drop_of_length_le hle]

/-- A refill takes from the socket what it puts into the buffer, and no more than it is asked for. -/
theorem refill_took (conn : Conn) (n : Nat) (hp : Pieces conn.pieces) (he : conn.buffered = 0) :
    ∃ k, Took k conn (refill conn n).2 ∧ k = (refill conn n).2.buffered ∧ k ≤ n := by
  unfold refill
  split
  · exact ⟨0, .refl hp, he.symm, Nat.zero_le n⟩
  · obtain ⟨h1, h2, h3⟩ := refillLoop_spec (min n conn.buflen) (min n conn.buflen) conn.pieces hp (le_refl _)
    dsimp only
    split
    · rename_i hnil
      refine ⟨0, ⟨?_, h3⟩, he.symm, Nat.zero_le n⟩
      rw [h1] at hnil
      have hempty := (List.take_eq_nil_iff.mp hnil.2).resolve_left hnil.1
      rw [h2, hempty, List.drop_nil, List.drop_nil]
    · refine ⟨(conn.pieces.flatten.take (min n conn.buflen)).length, ⟨?_, h3⟩, ?_, ?_⟩
      · rw [drop_take_length]
        exact h2
      · rw [← h1]
        rfl
      · rw [List.length_take]
        omega

theorem Rcv.fill_took (s : Rcv) (n : Nat) (hp : Pieces s.conn.pieces) (hb : s.conn.buffered ≤ n) :
    ∃ k, Took k s.conn (s.fill n).1.conn ∧ k + s.conn.buffered = (s.fill n).1.conn.buffered ∧
      (s.fill n).1.conn.buffered ≤ n ∧ (s.fill n).1.scan = s.scan := by
  unfold Rcv.fill
  split
  · rename_i hle
    have h0 : s.conn.buffered = 0 := Nat.sub_eq_zero_of_le hle
    obtain ⟨k, ht, hk, hn⟩ := refill_took s.conn n hp h0
    dsimp only
    split <;> exact ⟨k, ht, by rw [h0]; exact hk, hk ▸ hn, rfl⟩
  · exact ⟨0, .refl hp, Nat.zero_add _, hb, rfl⟩

/-- A call leaves in the buffer at most what remains of the message. -/
theorem rcvLoop_took (buflen n : Nat) (s : Rcv) (hp : Pieces s.conn.pieces) (hb : s.conn.buffered ≤ n) :
    ∃ m k, Took k s.conn (rcvLoop buflen n s).1.conn ∧
      (rcvLoop buflen n s).1.scan.consumed = s.scan.consumed + m ∧
      k + s.conn.buffered ≤ m + (rcvLoop buflen n s).1.conn.buffered ∧
      m + (rcvLoop buflen n s).1.conn.buffered ≤ n := by
  induction n generalizing s with
  | zero =>
    refine ⟨0, 0, ⟨rfl, hp⟩, rfl, ?_, ?_⟩
    · rw [Nat.zero_add, Nat.le_zero.mp hb]
      exact Nat.zero_le _
    · exact le_refl 0
  | succ n ih =>
    obtain ⟨k, ht, hk, hn, hscan⟩ := s.fill_took (n + 1) hp hb
    have hcount : ((s.fill (n + 1)).1.next buflen).scan.consumed = s.scan.consumed + 1 :=
      congrArg (fun sc : Scan => sc.consumed + 1) hscan
    have hnext : ((s.fill (n + 1)).1.next buflen).conn.buffered = (s.fill (n + 1)).1.conn.buffered - 1 :=
      Nat.sub_succ ..
    unfold rcvLoop
    dsimp only
    split
    · refine ⟨0, k, ht, congrArg Scan.consumed hscan, ?_, ?_⟩ <;> dsimp only <;> omega
    · split
      · refine ⟨1, k, ⟨ht.bytes, ht.pieces⟩, hcount, ?_, ?_⟩ <;> dsimp only <;> omega
      · obtain ⟨m, j, ht', hm, hj, hle⟩ := ih ((s.fill (n + 1)).1.next buflen) ht.pieces (by omega)
        refine ⟨m + 1, k + j, ht.trans ⟨ht'.bytes, ht'.pieces⟩, by rw [hm, hcount]; omega, ?_, ?_⟩ <;> omega

theorem rcvString_took (conn : Conn) (err : Int) (buflen count : Nat) (hp : Pieces conn.pieces)
    (hb : conn.buffered ≤ count) :
    ∃ k, Took k conn (rcvString conn err buflen count).2 ∧
      k + conn.buffered ≤ (rcvString conn err buflen count).1.consumed +
        (rcvString conn err buflen count).2.buffered ∧
      (rcvString conn err buflen count).1.consumed + (rcvString conn err buflen count).2.buffered ≤ count := by
  unfold rcvString
  rw [if_neg (by omega)]
  split
  · exact ⟨0, .refl hp, le_refl _, by rw [Nat.zero_add]; exact hb⟩
  · obtain ⟨m, k, ht, hm, hk, hle⟩ := rcvLoop_took buflen count { conn := conn, err := err } hp hb
    rw [Nat.zero_add] at hm
    dsimp only
    rw [Int.toNat_natCast, hm]
    exact ⟨k, ht, hk, hle⟩

theorem rcvStrings_took (qs : List Request) (count : Nat) (conn : Conn) (hp : Pieces conn.pieces)
    (hb : conn.buffered ≤ count) :
    ∃ k, Took k conn (rcvStrings qs count conn).2.2 ∧
      ((rcvStrings qs count conn).1.map Received.consumed).sum + (rcvStrings qs count conn).2.1 = count ∧
      k + conn.buffered ≤ count := by
  induction qs generalizing count conn with
  | nil => exact ⟨0, .refl hp, Nat.zero_add _, by omega⟩
  | cons q qs ih =>
    obtain ⟨j, ht, hj, hle⟩ := rcvString_took conn q.err q.buflen count hp hb
    obtain ⟨k, ht', hsum, hk⟩ := ih (count - (rcvString conn q.err q.buflen count).1.consumed)
      (rcvString conn q.err q.buflen count).2 ht.pieces (by omega)
    refine ⟨j + k, ht.trans ht', ?_, by omega⟩
    simp only [rcvStrings, List.map_cons, List.sum_cons]
    omega

/-- A message is received the same in one piece and in any pieces, its tokens take no
more bytes than it has, and the bytes of the next message stay in the socket. -/
theorem framing_independent (conn : Conn) (hempty : conn.len ≤ conn.pos) (payload next : List UInt8)
    (hp : ∀ piece ∈ conn.pieces, piece ≠ []) (hbytes : conn.pieces.flatten = payload ++ next) (qs : List Request) :
    (rcvStrings qs payload.length conn).1 =
        (rcvStrings qs payload.length { conn with pieces := onePiece (payload ++ next) }).1 ∧
      ((rcvStrings qs payload.length conn).1.map Received.consumed).sum ≤ payload.length ∧
      ∃ rest, (rcvStrings qs payload.length conn).2.2.pieces.flatten = rest ++ next := by
  have hsame : SameBytes conn { conn with pieces := onePiece (payload ++ next) } :=
    .of_pieces conn hp (onePiece_pieces _) (by rw [onePiece_flatten, hbytes])
  have hb : conn.buffered ≤ payload.length := by
    rw [Conn.buffered, Nat.sub_eq_zero_of_le hempty]
    exact Nat.zero_le _
  obtain ⟨k, ht, hsum, hk⟩ := rcvStrings_took qs payload.length conn hp hb
  refine ⟨(rcvStrings_same qs _ hsame).1.symm, by omega, payload.drop k, ?_⟩
  rw [ht.bytes, hbytes, List.drop_append_of_le_length (by omega)]

/-- Two tokens that arrive in three pieces, the separator cut in two, through a buffer of
two bytes. -/
theorem framing_independent_cut :
    let conn : Conn := ⟨3, some fun _ => 0, 2, 0, 0, [[0x61, 0x5B, 0x5D], [0x3A, 0x5B, 0x5D, 0x62], [0x38]], 104⟩
    let qs : List Request := [⟨0, 10⟩, ⟨0, 10⟩]
    (rcvStrings qs 7 conn).1 =
        (rcvStrings qs 7 { conn with pieces := onePiece [0x61, 0x5B, 0x5D, 0x3A, 0x5B, 0x5D, 0x62, 0x38] }).1 ∧
      ((rcvStrings qs 7 conn).1.map Received.consumed).sum ≤ 7 ∧
      ∃ rest, (rcvStrings qs 7 conn).2.2.pieces.flatten = rest ++ [0x38] :=
  framing_independent _ (by decide) [0x61, 0x5B, 0x5D, 0x3A, 0x5B, 0x5D, 0x62] [0x38] (by decide) (by decide) _

end Mvpmc.Cmyth
