import Mvpmc.Cmyth.Reply

/-! What a call leaves unread of the reply it reads. -/
namespace Mvpmc.Cmyth
open Mvpmc.Lib.Circular

/-- The bytes behind the first separator found, if one is found. -/
inductive Cut : List UInt8 → Option (List UInt8) → Prop where
  | whole (clean : List UInt8) (k : Nat) : Clean clean → k < separator.length → Cut (clean ++ separator.take k) none
  | found (clean rest : List UInt8) : Clean clean → Cut (clean ++ (separator ++ rest)) (some rest)

/-- The payload has at most `n` tokens, or one more that is empty and stands last. A separator that begins
in the middle of a match does not count as one. -/
def Within : Nat → List UInt8 → Prop
  | 0, payload => payload = []
  | n + 1, payload => Cut payload none ∨ ∃ rest, Cut payload (some rest) ∧ Within n rest

/-- Every payload is cut in one of the two ways; here behind some clean bytes and a part of a separator. -/
theorem exists_cut (clean : List UInt8) (k : Nat) (payload : List UInt8) (hc : Clean clean) (hk : k < separator.length) :
    ∃ rest, Cut (clean ++ (separator.take k ++ payload)) rest := by
  induction payload generalizing clean k with
  | nil =>
    rw [List.append_nil]
    exact ⟨none, .whole clean k hc hk⟩
  | cons b payload ih =>
    by_cases hb : separator[k]? = some b
    · have htake : separator.take k ++ b :: payload = separator.take (k + 1) ++ payload := by
        rw [List.take_add_one, hb, List.append_assoc]
        rfl
      rw [htake]
      obtain hlt | hge := Nat.lt_or_ge (k + 1) separator.length
      · exact ih clean (k + 1) hc hlt
      · rw [List.take_of_length_le hge]
        exact ⟨some payload, .found clean payload hc⟩
    · have hbroken : Clean (clean ++ (separator.take k ++ [b])) := hc.append (.block k b [] hk hb .nil)
      obtain ⟨rest, hrest⟩ := ih _ 0 hbroken (by decide)
      refine ⟨rest, ?_⟩
      simpa [List.append_assoc] using hrest

open Scan in
/-- A part of a separator is read and matched. -/
theorem run_part (buflen : Nat) {k : Nat} (hk : k < separator.length) (rest : List UInt8) {s : Scan} (hs : s.state = 0) :
    ∃ t : Scan, run buflen (separator.take k ++ rest) s = run buflen rest t ∧ t.consumed = s.consumed + k ∧ t.state = k := by
  induction k generalizing rest with
  | zero => exact ⟨s, rfl, rfl, hs⟩
  | succ k ih =>
    obtain ⟨b, hb⟩ : ∃ b, separator[k]? = some b := ⟨_, List.getElem?_eq_getElem (by omega)⟩
    obtain ⟨t, hrun, hcons, hstate⟩ := ih (by omega) (b :: rest)
    have hbyte : (byte buflen t b).state = k + 1 := by
      rw [byte, hstate, if_pos hb]
    refine ⟨byte buflen t b, ?_, ?_, hbyte⟩
    · rw [List.take_add_one, hb, List.append_assoc]
      rw [show (some b).toList ++ rest = b :: rest from rfl, hrun, run, hbyte, if_neg (by omega)]
    · rw [show (byte buflen t b).consumed = t.consumed + 1 from rfl, hcons]
      omega

open Scan in
/-- Clean bytes are read and leave no match. -/
theorem run_clean (buflen : Nat) {clean : List UInt8} (hc : Clean clean) (rest : List UInt8) {s : Scan} (hs : s.state = 0) :
    ∃ t : Scan, run buflen (clean ++ rest) s = run buflen rest t ∧ t.consumed = s.consumed + clean.length ∧
      t.state = 0 := by
  induction hc generalizing s with
  | nil => exact ⟨s, rfl, rfl, hs⟩
  | block k b bytes hk hb _ ih =>
    obtain ⟨t, hrun, hcons, hstate⟩ := run_part buflen hk (b :: (bytes ++ rest)) hs
    have hbyte : (byte buflen t b).state = 0 := by
      rw [byte, hstate, if_neg hb]
    obtain ⟨u, hu, hucons, hustate⟩ := ih hbyte
    refine ⟨u, ?_, ?_, hustate⟩
    · rw [List.append_assoc, List.cons_append, hrun, run, hbyte, if_neg (by decide), hu]
    · rw [hucons, show (byte buflen t b).consumed = t.consumed + 1 from rfl, hcons, List.length_append, List.length_cons,
        List.length_take_of_le hk.le]
      omega

theorem receive_le (buflen : Nat) (payload : List UInt8) : (receive buflen payload).2 ≤ payload.length := by
  obtain ⟨m, hm, hle⟩ := Scan.run_consumed buflen payload {}
  change (Scan.run buflen payload {}).1.consumed ≤ _
  change _ = 0 + m at hm
  omega

theorem receive_whole (buflen : Nat) {payload : List UInt8} (h : Cut payload none) :
    (receive buflen payload).2 = payload.length := by
  cases h with
  | whole clean k hc hk =>
    obtain ⟨t, hrun, hcons, hstate⟩ := run_clean buflen hc (separator.take k) (show ({} : Scan).state = 0 from rfl)
    obtain ⟨u, hrun', hcons', -⟩ := run_part buflen hk [] hstate
    rw [List.append_nil] at hrun'
    rw [receive, hrun, hrun']
    change u.consumed = _
    rw [hcons', hcons, List.length_append, List.length_take_of_le hk.le]
    exact congrArg (· + k) (Nat.zero_add _)

theorem receive_found (buflen : Nat) {payload rest : List UInt8} (h : Cut payload (some rest)) :
    payload.drop (receive buflen payload).2 = rest ∧ (receive buflen payload).2 + rest.length = payload.length := by
  cases h with
  | found clean _ hc =>
    obtain ⟨⟨consumed, placed, state, sepStart⟩, hrun, hcons, hstate⟩ :=
      run_clean buflen hc (separator ++ rest) (show ({} : Scan).state = 0 from rfl)
    obtain rfl : state = 0 := hstate
    have hreceive : (receive buflen (clean ++ (separator ++ rest))).2 = clean.length + 5 := by
      rw [receive, hrun]
      change consumed + 1 + 1 + 1 + 1 + 1 = _
      change consumed = 0 + clean.length at hcons
      omega
    rw [hreceive]
    constructor
    · have hl : (clean ++ separator).length = clean.length + 5 := List.length_append
      rw [← List.append_assoc, ← hl, List.drop_left]
    · rw [List.length_append, List.length_append]
      change _ = clean.length + (5 + rest.length)
      omega

theorem Rcv.fill_err (s : Rcv) (n : Nat) (hr : s.conn.Ready) (hn : 0 < n) (hs : n ≤ s.conn.stream.length)
    (he : s.err = 0 ∨ s.conn.buffered = 0) : (s.fill n).1.err = 0 := by
  unfold Rcv.fill
  split
  · rename_i hle
    obtain ⟨hret, -⟩ := refill_stream s.conn n hr hn (Nat.sub_eq_zero_of_le hle) hs
    simp [hret]
  · rename_i hle
    obtain he | he := he
    · exact he
    · exact absurd (Nat.le_of_sub_eq_zero he) hle

/-- A refill sets the error code, and none of the refills fails. -/
theorem rcvLoop_err (buflen n : Nat) (s : Rcv) (hr : s.conn.Ready) (hb : s.conn.buffered ≤ n)
    (hs : n ≤ s.conn.stream.length) (he : s.err = 0 ∨ s.conn.buffered = 0 ∧ 0 < n) : (rcvLoop buflen n s).1.err = 0 := by
  induction n generalizing s with
  | zero =>
    obtain he | ⟨-, he⟩ := he
    · exact he
    · exact absurd he (Nat.lt_irrefl 0)
  | succ n ih =>
    obtain ⟨hflag, hready, hstream, hpos, -⟩ := s.fill_stream (n + 1) hr (Nat.succ_pos n) hs
    obtain ⟨k, -, -, hle, -⟩ := s.fill_took (n + 1) hr.pieces hb
    obtain ⟨b, hbyte, -⟩ := (s.fill (n + 1)).1.next_stream buflen hpos
    have herr := s.fill_err (n + 1) hr (Nat.succ_pos n) hs (he.imp_right And.left)
    unfold rcvLoop
    dsimp only
    rw [hflag, if_neg (by decide)]
    split
    · exact herr
    · refine ih _ ⟨hready.fd, hready.buf, hready.buflen, hready.pieces⟩ ?_ ?_ (.inl herr)
      · change (s.fill (n + 1)).1.conn.len - ((s.fill (n + 1)).1.conn.pos + 1) ≤ n
        unfold Conn.buffered at hle
        omega
      · rw [← hstream, hbyte] at hs
        exact Nat.le_of_succ_le_succ hs

/-- The rest of a message in front of the next one. -/
structure At (conn : Conn) (payload next : List UInt8) : Prop where
  ready : conn.Ready
  bytes : conn.stream = payload ++ next
  buffered : conn.buffered ≤ payload.length

/-- Nothing is left of the message, neither in `conn_buf` nor in the socket. -/
def Emptied (conn : Conn) (next : List UInt8) : Prop := conn.len ≤ conn.pos ∧ conn.pieces.flatten = next

theorem Conn.stream_of_buffered {conn : Conn} (h : conn.buffered = 0) : conn.stream = conn.pieces.flatten := by
  rw [Conn.stream, h, slice_zero, List.nil_append]

namespace At
variable {conn : Conn} {payload next : List UInt8}

theorem emptied_iff (h : At conn payload next) : Emptied conn next ↔ payload = [] := by
  constructor
  · rintro ⟨hempty, hsocket⟩
    have hb := h.bytes
    rw [Conn.stream_of_buffered (Nat.sub_eq_zero_of_le hempty), hsocket] at hb
    exact List.self_eq_append_left.mp hb
  · rintro rfl
    have h0 : conn.buffered = 0 := Nat.le_zero.mp h.buffered
    exact ⟨Nat.le_of_sub_eq_zero h0, (Conn.stream_of_buffered h0).symm.trans h.bytes⟩

theorem rcvString (h : At conn payload next) (err : Int) (buflen : Nat) :
    ((rcvString conn err buflen payload.length).1.token, (Cmyth.rcvString conn err buflen payload.length).1.consumed) =
        receive buflen payload ∧
      At (Cmyth.rcvString conn err buflen payload.length).2 (payload.drop (receive buflen payload).2) next := by
  have htake : conn.stream.take payload.length = payload := by rw [h.bytes, List.take_left]
  have hlen : payload.length ≤ conn.stream.length := by rw [h.bytes, List.length_append]; omega
  obtain ⟨htoken, hready, hstream⟩ := rcvString_stream conn err buflen payload.length h.ready h.buffered hlen
  obtain ⟨k, -, -, hle⟩ := rcvString_took conn err buflen payload.length h.ready.pieces h.buffered
  rw [htake] at htoken hstream
  have hcons : (Cmyth.rcvString conn err buflen payload.length).1.consumed = (receive buflen payload).2 :=
    congrArg Prod.snd htoken
  rw [hcons] at hle
  refine ⟨htoken, hready, ?_, ?_⟩
  · rw [hstream, h.bytes, List.drop_append_of_le_length (by omega)]
  · rw [List.length_drop]
    omega

/-- If there is a code from before, an empty buffer is needed: the first byte is then preceded by a refill, which
sets `*err`. -/
theorem rcvString_err (h : At conn payload next) {err : Int} (he : err = 0 ∨ conn.buffered = 0 ∧ payload ≠ []) (buflen : Nat) :
    (Cmyth.rcvString conn err buflen payload.length).1.err = 0 := by
  have hfd : ¬ (conn.fd < 0 ∨ conn.buf = none) := by
    rintro (hfd | hbuf)
    · exact absurd h.ready.fd (not_le.mpr hfd)
    · exact h.ready.buf hbuf
  have hlen : payload.length ≤ conn.stream.length := by rw [h.bytes, List.length_append]; omega
  unfold Cmyth.rcvString
  rw [if_neg (by omega), if_neg hfd, Int.toNat_natCast]
  exact rcvLoop_err buflen payload.length { conn := conn, err := err } h.ready h.buffered hlen
    (he.imp_right fun h' => ⟨h'.1, List.length_pos_of_ne_nil h'.2⟩)

end At

/-- A length field of eight characters and the payload it announces. -/
structure WellFormed (field payload : List UInt8) : Prop where
  width : field.length = 8
  length : atoi field = payload.length

theorem rcvLength_at {conn : Conn} {field payload next : List UInt8} (hr : conn.Ready) (hempty : conn.len ≤ conn.pos)
    (hw : WellFormed field payload) (hbytes : conn.pieces.flatten = field ++ (payload ++ next)) :
    (rcvLength conn).1 = payload.length ∧ At (rcvLength conn).2 payload next ∧ (rcvLength conn).2.buffered = 0 := by
  obtain ⟨h1, h2, h3⟩ := refillLoop_spec 8 8 conn.pieces hr.pieces (le_refl 8)
  rw [hbytes, ← hw.width, List.take_left] at h1
  rw [hbytes, ← hw.width, List.drop_left] at h2
  rw [hw.width] at h1 h2
  unfold rcvLength
  rw [if_neg (not_lt.mpr hr.fd)]
  dsimp only
  rw [h1, if_neg (by rw [hw.width]; decide)]
  have h0 : conn.buffered = 0 := Nat.sub_eq_zero_of_le hempty
  refine ⟨hw.length, ⟨⟨hr.fd, hr.buf, hr.buflen, h3⟩, ?_, ?_⟩, h0⟩
  · refine (Conn.stream_of_buffered ?_).trans h2
    exact h0
  · exact h0.le.trans (Nat.zero_le _)

theorem within_nil (n : Nat) : Within n [] := by
  cases n with
  | zero => rfl
  | succ n => exact .inl (.whole [] 0 .nil (by decide))

/-- What a call leaves has one token less. -/
theorem within_drop (n buflen : Nat) (payload : List UInt8) :
    Within n (payload.drop (receive buflen payload).2) ↔ Within (n + 1) payload := by
  obtain ⟨rest, hcut⟩ := exists_cut [] 0 payload .nil (by decide)
  rw [List.nil_append, List.take_zero, List.nil_append] at hcut
  cases rest with
  | none =>
    refine iff_of_true ?_ (.inl hcut)
    rw [receive_whole buflen hcut, List.drop_length]
    exact within_nil n
  | some rest =>
    rw [(receive_found buflen hcut).1]
    constructor
    · intro hrest
      exact .inr ⟨rest, hcut, hrest⟩
    · rintro (hwhole | ⟨rest', hcut', hrest⟩)
      · have hdrop := (receive_found buflen hcut).1
        rw [receive_whole buflen hwhole, List.drop_length] at hdrop
        exact hdrop ▸ within_nil n
      · exact (receive_found buflen hcut').1.symm.trans (receive_found buflen hcut).1 ▸ hrest

namespace At
variable {conn : Conn} {payload next : List UInt8}

theorem rcvUlong (h : At conn payload next) :
    At (rcvUlong conn payload.length).2 (payload.drop (receive 32 payload).2) next := by
  obtain ⟨-, hat⟩ := h.rcvString 0 32
  unfold Cmyth.rcvUlong
  split
  · rename_i hle
    obtain rfl : payload = [] := List.length_eq_zero_iff.mp (by omega)
    exact h
  · dsimp only
    split
    · exact hat
    · split
      · exact hat
      · exact hat

theorem rcvLong (h : At conn payload next) (old : Int) :
    At (rcvLong conn old payload.length).2 (payload.drop (receive 32 payload).2) next := by
  obtain ⟨-, hat⟩ := h.rcvString 0 32
  unfold Cmyth.rcvLong
  split
  · rename_i hle
    obtain rfl : payload = [] := List.length_eq_zero_iff.mp (by omega)
    exact h
  · dsimp only
    split
    · exact hat
    · split
      · exact hat
      · exact hat

end At

/-- The calls, each with what its uninitialised variables hold. -/
inductive Reader where
  | okay (err : Int) (ok : List UInt8)
  | version (err old : Int)
  | requestBlock (old : Int)

namespace Reader

/-- The value returned and the connection. -/
def run : Reader → Conn → Int × Conn
  | okay err ok, conn => rcvOkay conn err ok
  | version err old, conn => ((rcvVersion conn err old).1, (rcvVersion conn err old).2.2)
  | requestBlock old, conn => requestBlockReply conn old

/-- The tokens the call asks for. -/
def tokens : Reader → Nat
  | okay _ _ => 1
  | version _ _ => 2
  | requestBlock _ => 1

/-- What the call leaves of the payload. -/
theorem run_at (reader : Reader) {conn : Conn} {field payload next : List UInt8} (hr : conn.Ready)
    (hempty : conn.len ≤ conn.pos) (hw : WellFormed field payload)
    (hbytes : conn.pieces.flatten = field ++ (payload ++ next)) :
    ∃ left, At (reader.run conn).2 left next ∧ (left = [] ↔ Within reader.tokens payload) := by
  obtain ⟨hlen, hat, h0⟩ := rcvLength_at hr hempty hw hbytes
  cases reader with
  | okay err ok =>
    refine ⟨payload.drop (receive 8 payload).2, ?_, within_drop 0 8 payload⟩
    obtain ⟨-, hat'⟩ := hat.rcvString err 8
    unfold run rcvOkay
    dsimp only
    rw [hlen, if_neg (by omega)]
    split
    · exact hat'
    · exact hat'
  | version err old =>
    obtain ⟨htoken, hat'⟩ := hat.rcvString err 8
    have hcons : (Cmyth.rcvString (rcvLength conn).2 err 8 payload.length).1.consumed = (receive 8 payload).2 :=
      congrArg Prod.snd htoken
    have hcount : (payload.length : Int) - (receive 8 payload).2 = (payload.drop (receive 8 payload).2).length := by
      have hle := receive_le 8 payload
      rw [List.length_drop]
      omega
    unfold run rcvVersion
    dsimp only
    rw [hlen, if_neg (by omega)]
    rw [hcons, hcount]
    split
    · rename_i herr
      obtain rfl : payload = [] := by
        by_contra hne
        exact herr (hat.rcvString_err (.inr ⟨h0, hne⟩) 8)
      exact ⟨[], hat', iff_of_true rfl (within_nil 2)⟩
    · exact ⟨_, hat'.rcvUlong, (within_drop 0 32 _).trans (within_drop 1 8 payload)⟩
  | requestBlock old =>
    refine ⟨payload.drop (receive 32 payload).2, ?_, within_drop 0 32 payload⟩
    unfold run requestBlockReply
    dsimp only
    rw [hlen, if_neg (by omega)]
    exact hat.rcvLong old

end Reader

/-- The next message is read from its start: its length field, and its first token. -/
def NextRead (conn : Conn) (next : List UInt8) : Prop :=
  ∀ field payload rest, WellFormed field payload → next = field ++ (payload ++ rest) →
    (rcvLength conn).1 = payload.length ∧ ∀ err buflen,
      ((rcvString (rcvLength conn).2 err buflen payload.length).1.token,
        (rcvString (rcvLength conn).2 err buflen payload.length).1.consumed) = receive buflen payload

/-- A call leaves nothing of the reply exactly when the reply has no more tokens than the call asks for, and
then the next message is read from its start. -/
theorem reply_read_whole_iff (reader : Reader) (conn : Conn) (field payload next : List UInt8) (hr : conn.Ready)
    (hempty : conn.len ≤ conn.pos) (hw : WellFormed field payload)
    (hbytes : conn.pieces.flatten = field ++ (payload ++ next)) :
    (Emptied (reader.run conn).2 next ↔ Within reader.tokens payload) ∧
      (Emptied (reader.run conn).2 next → NextRead (reader.run conn).2 next) := by
  obtain ⟨left, hat, hleft⟩ := reader.run_at hr hempty hw hbytes
  refine ⟨hat.emptied_iff.trans hleft, ?_⟩
  rintro ⟨hempty', hsocket⟩ field' payload' rest hw' hnext
  obtain ⟨hlen, hat', -⟩ := rcvLength_at hat.ready hempty' hw' (hsocket.trans hnext)
  exact ⟨hlen, fun err buflen => (hat'.rcvString err buflen).1⟩

/-- The reply `OK` in two pieces, with the next message behind it. -/
theorem reply_read_whole_okay :
    let conn : Conn := ⟨3, some fun _ => 0, 16, 0, 0,
      [[0x32, 0x20, 0x20, 0x20, 0x20], [0x20, 0x20, 0x20, 0x4F, 0x4B, 0x33]], 104⟩
    (rcvOkay conn 0 [0x4F, 0x4B]).1 = 0 ∧ Emptied ((Reader.okay 0 [0x4F, 0x4B]).run conn).2 [0x33] := by
  intro conn
  refine ⟨by decide, ?_⟩
  have hclean : Clean [0x4F, 0x4B] :=
    .block 0 0x4F [0x4B] (by decide) (by decide) (.block 0 0x4B [] (by decide) (by decide) .nil)
  refine (reply_read_whole_iff (.okay 0 [0x4F, 0x4B]) conn [0x32, 0x20, 0x20, 0x20, 0x20, 0x20, 0x20, 0x20] [0x4F, 0x4B]
    [0x33] ⟨by decide, by simp [conn], by decide, by decide⟩ (by decide) ⟨rfl, by decide⟩ rfl).1.mpr ?_
  exact .inl (.whole [0x4F, 0x4B] 0 hclean (by decide))

/-- The reply has a second token, of which one byte stays in the buffer; it comes out in front of the next
reply. -/
theorem leftover_before_next_reply :
    let conn : Conn := ⟨3, some fun _ => 0, 16, 0, 0,
      [[0x38, 0x20, 0x20, 0x20, 0x20, 0x20, 0x20, 0x20, 0x4F, 0x4B, 0x5B, 0x5D, 0x3A, 0x5B, 0x5D, 0x78],
        [0x32, 0x20, 0x20, 0x20, 0x20, 0x20, 0x20, 0x20, 0x4F, 0x4B]], 104⟩
    let after := (rcvOkay conn 0 [0x4F, 0x4B]).2
    WellFormed [0x38, 0x20, 0x20, 0x20, 0x20, 0x20, 0x20, 0x20] [0x4F, 0x4B, 0x5B, 0x5D, 0x3A, 0x5B, 0x5D, 0x78] ∧
      (rcvOkay conn 0 [0x4F, 0x4B]).1 = 0 ∧
      ¬ Emptied after [0x32, 0x20, 0x20, 0x20, 0x20, 0x20, 0x20, 0x20, 0x4F, 0x4B] ∧
      (rcvLength after).1 = 2 ∧ (rcvString (rcvLength after).2 0 8 2).1.token = [0x78, 0x4F] := by
  refine ⟨⟨rfl, by decide⟩, by decide, ?_, by decide, by decide⟩
  rintro ⟨h, -⟩
  exact absurd h (by decide)

end Mvpmc.Cmyth
