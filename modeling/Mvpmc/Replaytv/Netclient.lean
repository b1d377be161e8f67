import Mathlib.Data.List.Basic

/-! Buffered reads from a socket (`netclient.c`). The socket is the list of pieces in which the bytes arrive; an
empty piece is a `recv` that fails or finds the connection closed. -/
namespace Mvpmc.Replaytv

/-- `struct nc`: what is left of `rcv_buf`, and the socket. -/
structure Nc where
  rcvBuf : List UInt8 := []
  pieces : List (List UInt8)

namespace Nc

/-- The bytes still to be read. -/
def bytes (nc : Nc) : List UInt8 := nc.rcvBuf ++ nc.pieces.flatten

/-- Nothing is lost and the peer closes behind the last piece. -/
def Open (nc : Nc) : Prop := [] ∉ nc.pieces

end Nc

/-- `nc_read` from a buffer and the pieces behind it. -/
def ncReadFrom (len : Nat) (rcvBuf : List UInt8) : List (List UInt8) → List UInt8 × Nc
  | [] => (rcvBuf.take len, ⟨rcvBuf.drop len, []⟩)
  | piece :: pieces =>
    if len ≤ rcvBuf.length then (rcvBuf.take len, ⟨rcvBuf.drop len, piece :: pieces⟩)
    else if piece = [] then (rcvBuf, ⟨[], pieces⟩)
    else
      let r := ncReadFrom (len - rcvBuf.length) piece pieces
      (rcvBuf ++ r.1, r.2)

/-- `nc_read`: the bytes read, and the connection. -/
def ncRead (nc : Nc) (len : Nat) : List UInt8 × Nc := ncReadFrom len nc.rcvBuf nc.pieces

/-- The bytes of a line with the newline left out, whether there was one, and the connection. -/
structure Line where
  text : List UInt8
  terminated : Bool
  nc : Nc

/-- The loop of `nc_read_line`. -/
def ncReadLineLoop : Nat → Nc → Line
  | 0, nc => ⟨[], false, nc⟩
  | maxlen + 1, nc =>
    let r := ncRead nc 1
    match r.1 with
    | [] => ⟨[], false, r.2⟩
    | b :: _ =>
      if b = 10 then ⟨[], true, r.2⟩
      else
        let t := ncReadLineLoop maxlen r.2
        { t with text := b :: t.text }

/-- `nc_read_line`: a carriage return in front of the newline is left out too. -/
def ncReadLine (nc : Nc) (maxlen : Nat) : Line :=
  let line := ncReadLineLoop maxlen nc
  if line.terminated ∧ line.text.getLast? = some 13 then { line with text := line.text.dropLast } else line

section
variable {nc : Nc} {rcvBuf : List UInt8} {pieces : List (List UInt8)}

theorem ncReadFrom_eq (len : Nat) (h : [] ∉ pieces) :
    (ncReadFrom len rcvBuf pieces).1 = (rcvBuf ++ pieces.flatten).take len ∧
      (ncReadFrom len rcvBuf pieces).2.bytes = (rcvBuf ++ pieces.flatten).drop len ∧
      (ncReadFrom len rcvBuf pieces).2.Open := by
  induction pieces generalizing len rcvBuf with
  | nil => simp [ncReadFrom, Nc.bytes, Nc.Open]
  | cons piece pieces ih =>
    have hpiece := List.ne_of_not_mem_cons h
    have hpieces := List.not_mem_of_not_mem_cons h
    rw [ncReadFrom]
    split
    · rename_i hle
      refine ⟨(List.take_append_of_le_length hle).symm, ?_, h⟩
      rw [List.drop_append_of_le_length hle]
      rfl
    · rename_i hgt
      have hgt' : rcvBuf.length ≤ len := by omega
      obtain ⟨htake, hdrop, hopen⟩ := @ih piece (len - rcvBuf.length) hpieces
      rw [if_neg (Ne.symm hpiece)]
      dsimp only
      rw [List.flatten_cons]
      refine ⟨?_, ?_, hopen⟩
      · rw [List.take_append, List.take_of_length_le hgt', htake]
      · rw [List.drop_append, List.drop_eq_nil_of_le hgt', List.nil_append, hdrop]

/-- How the bytes were cut does not matter to `nc_read`. -/
theorem ncRead_eq (len : Nat) (h : nc.Open) :
    (ncRead nc len).1 = nc.bytes.take len ∧ (ncRead nc len).2.bytes = nc.bytes.drop len ∧ (ncRead nc len).2.Open :=
  ncReadFrom_eq len h

theorem ncReadLineLoop_cons (maxlen : Nat) {b : UInt8} {rest : List UInt8} (h : nc.Open) (hb : nc.bytes = b :: rest) :
    ∃ nc' : Nc, nc'.Open ∧ nc'.bytes = rest ∧ ncReadLineLoop (maxlen + 1) nc =
      if b = 10 then ⟨[], true, nc'⟩
      else { ncReadLineLoop maxlen nc' with text := b :: (ncReadLineLoop maxlen nc').text } := by
  obtain ⟨htake, hdrop, hopen⟩ := ncRead_eq 1 h
  rw [hb] at htake hdrop
  refine ⟨(ncRead nc 1).2, hopen, hdrop, ?_⟩
  rw [ncReadLineLoop]
  dsimp only
  rw [htake]
  rfl

/-- A line that fits. -/
theorem ncReadLineLoop_eq {text rest : List UInt8} {maxlen : Nat} (h : nc.Open) (hb : nc.bytes = text ++ 10 :: rest)
    (ht : 10 ∉ text) (hl : text.length < maxlen) :
    ∃ nc' : Nc, nc'.Open ∧ nc'.bytes = rest ∧ ncReadLineLoop maxlen nc = ⟨text, true, nc'⟩ := by
  induction text generalizing maxlen nc with
  | nil =>
    rw [List.length_nil] at hl
    obtain ⟨maxlen, rfl⟩ : ∃ m, maxlen = m + 1 := ⟨maxlen - 1, (Nat.sub_add_cancel hl).symm⟩
    obtain ⟨nc', hopen, hbytes, he⟩ := ncReadLineLoop_cons maxlen h hb
    exact ⟨nc', hopen, hbytes, he⟩
  | cons b text ih =>
    rw [List.length_cons] at hl
    have hne := List.ne_of_not_mem_cons ht
    have ht := List.not_mem_of_not_mem_cons ht
    obtain ⟨maxlen, rfl⟩ : ∃ m, maxlen = m + 1 := ⟨maxlen - 1, (Nat.sub_add_cancel (by omega)).symm⟩
    obtain ⟨nc₁, hopen₁, hbytes₁, he₁⟩ := ncReadLineLoop_cons maxlen h hb
    have hlt : text.length < maxlen := by omega
    obtain ⟨nc', hopen, hbytes, he⟩ := ih hopen₁ hbytes₁ ht hlt
    refine ⟨nc', hopen, hbytes, ?_⟩
    rw [he₁, if_neg (Ne.symm hne), he]

/-- A line that does not fit. -/
theorem ncReadLineLoop_long {text rest : List UInt8} {maxlen : Nat} (h : nc.Open) (hb : nc.bytes = text ++ 10 :: rest)
    (ht : 10 ∉ text) (hl : maxlen ≤ text.length) : (ncReadLineLoop maxlen nc).terminated = false := by
  induction maxlen generalizing text nc with
  | zero => rfl
  | succ maxlen ih =>
    cases text with
    | nil => simp at hl
    | cons b text =>
      rw [List.length_cons] at hl
      have hne := List.ne_of_not_mem_cons ht
      have ht := List.not_mem_of_not_mem_cons ht
      obtain ⟨nc₁, hopen₁, hbytes₁, he₁⟩ := ncReadLineLoop_cons maxlen h hb
      rw [he₁, if_neg (Ne.symm hne)]
      exact ih hopen₁ hbytes₁ ht (by omega)

/-- A line that ends in carriage return and newline. -/
theorem ncReadLine_eq {text rest : List UInt8} {maxlen : Nat} (h : nc.Open) (hb : nc.bytes = text ++ 13 :: 10 :: rest)
    (ht : 10 ∉ text) (hl : text.length + 2 ≤ maxlen) :
    ∃ nc' : Nc, nc'.Open ∧ nc'.bytes = rest ∧ ncReadLine nc maxlen = ⟨text, true, nc'⟩ := by
  have hb' : nc.bytes = (text ++ [13]) ++ 10 :: rest := by rw [hb, List.append_assoc]; rfl
  have hl' : (text ++ [13]).length = text.length + 1 := List.length_append
  have ht' : (10 : UInt8) ∉ text ++ [13] := by
    rw [List.mem_append]
    rintro (hm | hm)
    · exact ht hm
    · simp at hm
  have hlt : (text ++ [13]).length < maxlen := by omega
  obtain ⟨nc', hopen, hbytes, he⟩ := ncReadLineLoop_eq h hb' ht' hlt
  refine ⟨nc', hopen, hbytes, ?_⟩
  unfold ncReadLine
  dsimp only
  rw [he, if_pos ⟨rfl, List.getLast?_concat⟩, List.dropLast_concat]

theorem ncReadLine_long {text rest : List UInt8} {maxlen : Nat} (h : nc.Open) (hb : nc.bytes = text ++ 13 :: 10 :: rest)
    (ht : 10 ∉ text) (hl : maxlen < text.length + 2) : (ncReadLine nc maxlen).terminated = false := by
  have hb' : nc.bytes = (text ++ [13]) ++ 10 :: rest := by rw [hb, List.append_assoc]; rfl
  have hl' : (text ++ [13]).length = text.length + 1 := List.length_append
  have ht' : (10 : UInt8) ∉ text ++ [13] := by
    rw [List.mem_append]
    rintro (hm | hm)
    · exact ht hm
    · simp at hm
  have hle : maxlen ≤ (text ++ [13]).length := by omega
  have hlong := ncReadLineLoop_long h hb' ht' hle
  unfold ncReadLine
  dsimp only
  rw [if_neg (by rw [hlong]; simp)]
  exact hlong

end
end Mvpmc.Replaytv
