import Mvpmc.Cmyth.Number

/-! What `cmyth_rcv_string` leaves in a buffer that may be too small for the token: the token and a zero byte, or as
many bytes of the token as there is room for and no zero byte. -/
namespace Mvpmc.Cmyth

/-- The bytes of the output buffer that have been set. -/
def Received.cells (r : Received) : List UInt8 :=
  match r.zero with
  | some k => r.buf.take k ++ 0 :: r.buf.drop (k + 1)
  | none => r.buf

/-- The bytes up to the first separator, from a buffer that takes them all. -/
def wholeToken (payload : List UInt8) : List UInt8 := (receive (payload.length + 1) payload).1

/-- The token that stands first in a message, as a C string. -/
def tokenIn (payload : List UInt8) : List UInt8 := cstring (wholeToken payload)

/-- A token without brackets and zero bytes is what stands in front of the separator. -/
theorem tokenIn_plain {token tail : List UInt8} (hp : Plain token) (hz : ∀ b ∈ token, b ≠ 0) (ht : Tail tail) :
    tokenIn (token ++ tail) = token := by
  have hl : token.length < (token ++ tail).length + 1 := by
    rw [List.length_append]
    omega
  obtain ⟨htoken, -⟩ := receive_plain hp hl ht
  unfold tokenIn wholeToken
  rw [htoken, cstring_of_ne_zero hz]

theorem tokenIn_longText (x : Int) {tail : List UInt8} (ht : Tail tail) : tokenIn (longText x ++ tail) = longText x :=
  tokenIn_plain (plain_longText x) (longText_ne (by decide) (by decide) x) ht

namespace Scan

/-- `s` is what is left of `t` in an output buffer of `n` bytes. -/
structure CutTo (n : Nat) (s t : Scan) : Prop where
  consumed : s.consumed = t.consumed
  state : s.state = t.state
  placed : s.placed = t.placed.take n
  sepStart : s.sepStart = t.sepStart.filter (· < n)
  started : t.state = 0 → t.sepStart = none
  within : ∀ j, t.sepStart = some j → j ≤ t.placed.length

theorem cutTo_start (n : Nat) : CutTo n {} {} := ⟨rfl, rfl, List.take_nil.symm, rfl, fun _ => rfl, nofun⟩

theorem take_concat (n : Nat) (bytes : List UInt8) (b : UInt8) :
    (if (bytes.take n).length < n then bytes.take n ++ [b] else bytes.take n) = (bytes ++ [b]).take n := by
  rw [List.length_take]
  by_cases h : bytes.length < n
  · rw [if_pos (by omega), List.take_of_length_le h.le, List.take_of_length_le]
    rw [List.length_append, List.length_singleton]
    exact h
  · rw [if_neg (by omega), List.take_append_of_le_length (Nat.le_of_not_lt h)]

theorem CutTo.byte {n : Nat} {s t : Scan} (h : CutTo n s t) {big : Nat} (hbig : t.placed.length < big) (b : UInt8) :
    CutTo n (Scan.byte n s b) (Scan.byte big t b) := by
  obtain ⟨hc, hs, hp, hsep, hstart, hin⟩ := h
  have hlen : (t.placed ++ [b]).length = t.placed.length + 1 := List.length_append
  unfold Scan.byte
  rw [hc, hs, hp, hsep, if_pos hbig]
  refine ⟨rfl, rfl, take_concat n t.placed b, ?_, ?_, ?_⟩
  · dsimp only
    split
    · by_cases h0 : t.state = 0
      · have hroom : t.state = 0 ∧ t.placed.length < big := ⟨h0, hbig⟩
        rw [hstart h0, if_pos hroom, List.length_take]
        by_cases hn : t.placed.length < n
        · rw [if_pos ⟨h0, by omega⟩, Nat.min_eq_right hn.le, Option.filter_some_pos (by simpa using hn)]
        · have hfull : ¬(t.state = 0 ∧ min n t.placed.length < n) := by omega
          rw [if_neg hfull, Option.filter_some_neg (by simpa using hn)]
          rfl
      · rw [if_neg fun hc => h0 hc.1, if_neg fun hc => h0 hc.1]
    · rfl
  · dsimp only
    split
    · exact fun hc => absurd hc (Nat.succ_ne_zero _)
    · exact fun _ => rfl
  · intro j hj
    dsimp only at hj ⊢
    rw [hlen]
    split at hj
    · split at hj
      · obtain rfl := Option.some.inj hj
        exact Nat.le_succ _
      · exact (hin j hj).trans (Nat.le_succ _)
    · exact nomatch hj

theorem CutTo.run {n big : Nat} {s t : Scan} (h : CutTo n s t) (bytes : List UInt8)
    (hbig : t.placed.length + bytes.length < big) :
    (Scan.run n bytes s).2 = (Scan.run big bytes t).2 ∧ CutTo n (Scan.run n bytes s).1 (Scan.run big bytes t).1 ∧
      (Scan.run big bytes t).1.placed.length < big := by
  induction bytes generalizing s t with
  | nil => exact ⟨rfl, h, hbig⟩
  | cons b bytes ih =>
    rw [List.length_cons] at hbig
    have hfits : t.placed.length < big := by omega
    have hb := h.byte hfits b
    have hlen : (Scan.byte big t b).placed.length = t.placed.length + 1 := by
      unfold Scan.byte
      rw [if_pos (by omega)]
      exact List.length_append
    rw [Scan.run, Scan.run, hb.state]
    split
    · exact ⟨rfl, hb, by rw [hlen]; omega⟩
    · exact ih hb (by rw [hlen]; omega)

/-- The end of the token in a buffer that takes it whole. -/
def stop (t : Scan × Bool) : Nat := if t.2 then t.1.sepStart.getD t.1.placed.length else t.1.placed.length

theorem zero_of_room {big : Nat} {t : Scan × Bool} (h : t.1.placed.length < big) : zero big t = some (stop t) := by
  unfold zero stop atSeparator atEnd
  rw [if_pos h]
  split
  · cases t.1.sepStart <;> rfl
  · rfl

/-- In a smaller buffer the token ends there, or it fills the buffer. -/
theorem CutTo.zero {n : Nat} {s t : Scan} (h : CutTo n s t) (flag : Bool) :
    Scan.zero n (s, flag) = if stop (t, flag) < n then some (stop (t, flag)) else none := by
  obtain ⟨-, -, hp, hsep, -, hin⟩ := h
  have hend : s.atEnd n = if t.placed.length < n then some t.placed.length else none := by
    unfold atEnd
    rw [hp, List.length_take]
    by_cases hn : t.placed.length < n
    · rw [if_pos (by omega), if_pos hn, Nat.min_eq_right hn.le]
    · rw [if_neg (by omega), if_neg hn]
  unfold Scan.zero stop atSeparator
  dsimp only
  rw [hend, hsep]
  cases flag with
  | false => rfl
  | true =>
    cases hj : t.sepStart with
    | none => rfl
    | some j =>
      have hle := hin j hj
      by_cases hn : j < n
      · simp [hn]
      · have hlong : ¬t.placed.length < n := by omega
        rw [Option.filter_some_neg (by simpa using hn)]
        simp [hlong, Nat.le_of_not_lt hn]

theorem CutTo.stop_le {n : Nat} {s t : Scan} (h : CutTo n s t) (flag : Bool) : stop (t, flag) ≤ t.placed.length := by
  unfold stop
  cases flag with
  | false => exact le_refl _
  | true =>
    cases hj : t.sepStart with
    | none => exact le_refl _
    | some j => exact h.within j hj

end Scan

open Scan in
/-- The buffer holds the token and a zero byte, or the beginning of the token. -/
theorem cells_whole (n : Nat) (payload : List UInt8) (consumed : Nat) (err : Int) :
    let t := Scan.run n payload {}
    let r : Received := ⟨consumed, err, t.1.placed, Scan.zero n t⟩
    ((wholeToken payload).length < n ∧ ∃ rest, r.cells = wholeToken payload ++ 0 :: rest) ∨
      (n ≤ (wholeToken payload).length ∧ r.cells = (wholeToken payload).take n) := by
  intro t r
  have hfits : ({} : Scan).placed.length + payload.length < payload.length + 1 := by
    change 0 + payload.length < _
    omega
  obtain ⟨hflag, hcut, hroom⟩ := (cutTo_start n).run payload hfits
  generalize hbig : Scan.run (payload.length + 1) payload {} = T at hflag hcut hroom
  have hstop := hcut.stop_le T.2
  have hwhole : wholeToken payload = T.1.placed.take (stop T) := by
    unfold wholeToken receive
    rw [hbig]
    dsimp only
    rw [zero_of_room hroom]
    rfl
  have hlen : (wholeToken payload).length = stop T := by
    rw [hwhole, List.length_take]
    exact Nat.min_eq_left hstop
  have hzero : Scan.zero n t = if stop T < n then some (stop T) else none := by
    change Scan.zero n ((Scan.run n payload {}).1, (Scan.run n payload {}).2) = _
    rw [hflag]
    exact hcut.zero T.2
  have hplaced : t.1.placed = T.1.placed.take n := hcut.placed
  by_cases hn : stop T < n
  · rw [if_pos hn] at hzero
    refine .inl ⟨hlen ▸ hn, ?_⟩
    have hr : r = ⟨consumed, err, T.1.placed.take n, some (stop T)⟩ := by
      rw [← hplaced, ← hzero]
    refine ⟨(T.1.placed.take n).drop (stop T + 1), ?_⟩
    rw [hr]
    unfold Received.cells
    dsimp only
    rw [List.take_take, Nat.min_eq_left hn.le, ← hwhole]
  · rw [if_neg hn] at hzero
    refine .inr ⟨hlen ▸ Nat.le_of_not_lt hn, ?_⟩
    have hr : r = ⟨consumed, err, T.1.placed.take n, none⟩ := by
      rw [← hplaced, ← hzero]
    rw [hr, hwhole, List.take_take]
    unfold Received.cells
    dsimp only
    rw [Nat.min_eq_left (Nat.le_of_not_lt hn)]

/-- A C string and what stands behind it. -/
theorem cstring_cases (bytes : List UInt8) :
    cstring bytes = bytes ∨ ∃ rest, bytes = cstring bytes ++ 0 :: rest := by
  induction bytes with
  | nil => exact .inl rfl
  | cons b bytes ih =>
    by_cases hb : b = 0
    · subst hb
      exact .inr ⟨bytes, rfl⟩
    · have hcons : cstring (b :: bytes) = b :: cstring bytes := List.takeWhile_cons_of_pos (by simp [hb])
      rw [hcons]
      obtain he | ⟨rest, he⟩ := ih
      · exact .inl (congrArg (b :: ·) he)
      · exact .inr ⟨rest, congrArg (b :: ·) he⟩

theorem ne_zero_of_mem_cstring {bytes : List UInt8} {b : UInt8} (h : b ∈ cstring bytes) : b ≠ 0 := by
  have := List.mem_takeWhile_imp h
  simpa using this

theorem cstring_append_zero {text : List UInt8} (h : ∀ b ∈ text, b ≠ 0) (rest : List UInt8) :
    cstring (text ++ 0 :: rest) = text := by
  have hp : ∀ b ∈ text, decide (b ≠ 0) = true := fun b hb => by simp [h b hb]
  unfold cstring
  rw [List.takeWhile_append_of_pos hp, List.takeWhile_cons_of_neg (by decide), List.append_nil]

/-- The C string in the buffer does not depend on what stands behind its zero byte. -/
theorem Received.cstring_cells (r : Received) : cstring r.cells = cstring r.token := by
  unfold Received.cells Received.token
  cases r.zero with
  | none => rfl
  | some k =>
    dsimp only
    obtain hsame | ⟨rest, hrest⟩ := cstring_cases (r.buf.take k)
    · have hzero : ∀ b ∈ r.buf.take k, b ≠ 0 := fun b hb => ne_zero_of_mem_cstring (hsame ▸ hb)
      rw [cstring_append_zero hzero, hsame]
    · conv_lhs => rw [hrest, List.append_assoc, List.cons_append]
      exact cstring_append_zero (fun b hb => ne_zero_of_mem_cstring hb) _

section
variable {conn : Conn} {payload next : List UInt8}

/-- What a call leaves that reads a token from a message. -/
theorem At.rcvString_received (h : At conn payload next) (buflen : Nat) :
    let t := Scan.run buflen payload {}
    (Cmyth.rcvString conn 0 buflen payload.length).1 = ⟨t.1.consumed, 0, t.1.placed, Scan.zero buflen t⟩ := by
  have htake : conn.stream.take payload.length = payload := by rw [h.bytes, List.take_left]
  have hlen : payload.length ≤ conn.stream.length := by rw [h.bytes, List.length_append]; omega
  obtain ⟨hscan, hzero, -⟩ := rcvLoop_stream buflen payload.length { conn := conn, err := 0 } h.ready h.buffered hlen
  have herr := h.rcvString_err (.inl rfl) buflen
  have hfd : ¬ (conn.fd < 0 ∨ conn.buf = none) := by
    rintro (hfd | hbuf)
    · exact absurd h.ready.fd (not_le.mpr hfd)
    · exact h.ready.buf hbuf
  unfold Cmyth.rcvString at herr ⊢
  rw [if_neg (by omega), if_neg hfd, Int.toNat_natCast] at herr ⊢
  dsimp only at herr hscan hzero ⊢
  rw [htake] at hscan hzero
  rw [herr, hscan, hzero]

/-- The C string in the buffer is the token, or the buffer is full of it. -/
theorem At.cells (h : At conn payload next) (n : Nat) :
    ((tokenIn payload).length < n ∧
        ∃ rest, (Cmyth.rcvString conn 0 n payload.length).1.cells = tokenIn payload ++ 0 :: rest) ∨
      (n ≤ (tokenIn payload).length ∧
        (Cmyth.rcvString conn 0 n payload.length).1.cells = (tokenIn payload).take n) := by
  rw [h.rcvString_received n]
  have hcells := cells_whole n payload (Scan.run n payload {}).1.consumed 0
  dsimp only at hcells ⊢
  generalize Received.cells _ = cells at hcells ⊢
  obtain hsame | ⟨rest, hrest⟩ := cstring_cases (wholeToken payload)
  · have htoken : tokenIn payload = wholeToken payload := hsame
    rw [htoken]
    exact hcells
  · change wholeToken payload = tokenIn payload ++ 0 :: rest at hrest
    obtain ⟨hshort, more, hmore⟩ | ⟨hlong, hfull⟩ := hcells
    · rw [hrest, List.append_assoc, List.cons_append] at hmore
      have hl := congrArg List.length hrest
      rw [List.length_append] at hl
      exact .inl ⟨by omega, _, hmore⟩
    · by_cases hn : (tokenIn payload).length < n
      · refine .inl ⟨hn, rest.take (n - (tokenIn payload).length - 1), ?_⟩
        rw [hfull, hrest, List.take_append, List.take_of_length_le hn.le]
        congr 1
        obtain ⟨k, hk⟩ : ∃ k, n - (tokenIn payload).length = k + 1 := ⟨n - (tokenIn payload).length - 1, by omega⟩
        rw [hk]
        rfl
      · refine .inr ⟨Nat.le_of_not_lt hn, ?_⟩
        rw [hfull, hrest, List.take_append_of_le_length (Nat.le_of_not_lt hn)]

/-- The string that is received is the token, as far as the buffer takes it. -/
theorem At.cstring_token (h : At conn payload next) (n : Nat) :
    cstring (Cmyth.rcvString conn 0 n payload.length).1.token = (tokenIn payload).take n := by
  have hzero : ∀ b ∈ tokenIn payload, b ≠ 0 := fun b hb => ne_zero_of_mem_cstring hb
  rw [← Received.cstring_cells]
  obtain ⟨hshort, rest, hcells⟩ | ⟨-, hcells⟩ := h.cells n
  · rw [hcells, cstring_append_zero hzero, List.take_of_length_le hshort.le]
  · rw [hcells]
    exact cstring_of_ne_zero fun b hb => hzero b (List.mem_of_mem_take hb)

end

/-- A connection on which a message has arrived. -/
def arrived (payload : List UInt8) : Conn := ⟨3, some fun _ => 0, 16, 0, 0, [payload], 104⟩

theorem at_arrived {payload : List UInt8} (h : payload ≠ []) : At (arrived payload) payload [] := by
  have hpieces : Pieces (arrived payload).pieces := by simpa [arrived, Pieces] using h
  have hfd : (0 : Int) ≤ 3 := by decide
  have hbuflen : 1 ≤ 16 := by decide
  refine ⟨⟨hfd, Option.some_ne_none _, hbuflen, hpieces⟩, ?_, Nat.zero_le _⟩
  simp [arrived, Conn.stream, Conn.buffered]

end Mvpmc.Cmyth
