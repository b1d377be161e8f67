import Mathlib.Data.List.TakeDrop
import Mathlib.Data.List.GetD

/-! Reading a playlist file character by character (`read_chr`, `playlist.c`). -/
namespace Mvpmc.Playlist

def fdBufsz : Nat := 500

/-- A `char` as the `int` that it is returned as: where the type is signed the bytes from 128 on are negative. -/
def charValue (signed : Bool) (b : UInt8) : Int := if signed ∧ 128 ≤ b.toNat then b.toNat - 256 else b.toNat

/-- The buffer between `read` and `read_chr`, and the bytes of the file that have not been read. -/
structure Reader where
  fdbuf : List UInt8
  wpos : Nat
  rpos : Nat
  file : List UInt8
  reads : Nat
  length_fdbuf : fdbuf.length = fdBufsz
  wpos_le : wpos ≤ fdBufsz
  rpos_le : rpos ≤ wpos

namespace Reader

/-- Before the first character; `junk` is what `malloc` has left in the buffer. -/
def start (content junk : List UInt8) : Reader where
  fdbuf := junk.takeD fdBufsz 0
  wpos := 0
  rpos := 0
  file := content
  reads := 0
  length_fdbuf := List.takeD_length _ _ _
  wpos_le := Nat.zero_le _
  rpos_le := Nat.le_refl _

/-- The bytes that are to come. -/
def left (r : Reader) : List UInt8 := (r.fdbuf.take r.wpos).drop r.rpos ++ r.file

/-- A full buffer is filled from its start again. -/
def rewind (r : Reader) : Reader :=
  if r.wpos = fdBufsz then { r with wpos := 0, rpos := 0, wpos_le := Nat.zero_le _, rpos_le := Nat.le_refl _ } else r

/-- `read` into the rest of the buffer; `pieces k n` is what the call number `k` gives at most when it is asked for `n` bytes. -/
def read (pieces : Nat → Nat → Nat) (r : Reader) : Reader :=
  let room := fdBufsz - r.wpos
  let got := r.file.take (min (pieces r.reads room) room)
  have hgot : got.length ≤ fdBufsz - r.wpos := 
    Nat.le_trans (List.length_take_le _ _) (Nat.min_le_right _ _)
  have hw := r.wpos_le
  { fdbuf := r.fdbuf.take r.wpos ++ got ++ r.fdbuf.drop (r.wpos + got.length)
    wpos := r.wpos + got.length
    rpos := r.rpos
    file := r.file.drop got.length
    reads := r.reads + 1
    length_fdbuf := by
      simp only [List.length_append, List.length_take, List.length_drop, r.length_fdbuf]
      omega
    wpos_le := by omega
    rpos_le := Nat.le_trans r.rpos_le (Nat.le_add_right _ _) }

/-- The buffer as `read_chr` looks at it. -/
def refill (pieces : Nat → Nat → Nat) (r : Reader) : Reader := if r.wpos = r.rpos then r.rewind.read pieces else r

end Reader

/-- `read_chr`: the next character, or -1. -/
def readChr (signed : Bool) (pieces : Nat → Nat → Nat) (r : Reader) : Int × Reader :=
  let r := r.refill pieces
  if h : r.rpos < r.wpos then
    (charValue signed (r.fdbuf.getD r.rpos 0), { r with rpos := r.rpos + 1, rpos_le := h })
  else (-1, r)

namespace Reader
variable {signed : Bool} {pieces : Nat → Nat → Nat}

theorem left_start (content junk : List UInt8) : (start content junk).left = content := rfl

theorem left_rewind (r : Reader) (h : r.wpos = r.rpos) : r.rewind.left = r.left := by
  unfold rewind
  split
  · have hempty : (r.fdbuf.take r.wpos).drop r.rpos = [] := by
      rw [← h]
      exact List.drop_eq_nil_of_le (List.length_take_le _ _)
    unfold left
    rw [hempty]
    rfl
  · rfl

theorem left_read (r : Reader) : (r.read pieces).left = r.left := by
  unfold left read
  dsimp only
  generalize min (pieces r.reads (fdBufsz - r.wpos)) (fdBufsz - r.wpos) = n
  have hlen : (r.fdbuf.take r.wpos).length = r.wpos := by
    rw [List.length_take, r.length_fdbuf]
    exact Nat.min_eq_left r.wpos_le
  have hfilled : (r.fdbuf.take r.wpos ++ r.file.take n ++ r.fdbuf.drop (r.wpos + (r.file.take n).length)).take
      (r.wpos + (r.file.take n).length) = r.fdbuf.take r.wpos ++ r.file.take n := by
    refine List.take_left' ?_
    rw [List.length_append, hlen]
  have hrest : r.file.take n ++ r.file.drop (r.file.take n).length = r.file := by
    rw [List.length_take]
    rcases Nat.le_total n r.file.length with hn | hn
    · rw [Nat.min_eq_left hn, List.take_append_drop]
    · rw [Nat.min_eq_right hn, List.take_of_length_le hn, List.drop_length, List.append_nil]
  rw [hfilled, List.drop_append_of_le_length (by rw [hlen]; exact r.rpos_le), List.append_assoc, hrest]

theorem left_refill (pieces : Nat → Nat → Nat) (r : Reader) : (r.refill pieces).left = r.left := by
  unfold refill
  split
  · rename_i h
    rw [left_read, left_rewind r h]
  · rfl

/-- There is a character in the buffer unless the file has ended. -/
theorem refill_pos (hp : ∀ k n, 0 < n → 1 ≤ pieces k n) (r : Reader) (h : r.left ≠ []) :
    (r.refill pieces).rpos < (r.refill pieces).wpos := by
  unfold refill
  by_cases heq : r.wpos = r.rpos
  · rw [if_pos heq]
    have hempty : (r.fdbuf.take r.wpos).drop r.rpos = [] := by
      rw [← heq]
      exact List.drop_eq_nil_of_le (List.length_take_le _ _)
    have hfile : 0 < r.rewind.file.length := by
      have hsame : r.rewind.file = r.file := by
        unfold rewind
        split <;> rfl
      unfold left at h
      rw [hempty, List.nil_append] at h
      rw [hsame]
      exact List.length_pos_iff.mpr h
    have hroom : 0 < fdBufsz - r.rewind.wpos ∧ r.rewind.wpos = r.rewind.rpos := by
      unfold rewind
      split
      · exact ⟨show 0 < fdBufsz - 0 by decide, rfl⟩
      · rename_i hne
        have hw := r.wpos_le
        exact ⟨by omega, heq⟩
    have hpiece := hp r.rewind.reads (fdBufsz - r.rewind.wpos) hroom.1
    unfold read
    dsimp only
    rw [List.length_take]
    omega
  · rw [if_neg heq]
    have hle := r.rpos_le
    omega

end Reader

/-- `read_chr` fails, or it gives the next byte. -/
theorem readChr_cases (signed : Bool) (pieces : Nat → Nat → Nat) (r : Reader) :
    (readChr signed pieces r).1 = -1 ∧ ¬ (r.refill pieces).rpos < (r.refill pieces).wpos ∨
      ∃ b, r.left = b :: (readChr signed pieces r).2.left ∧ (readChr signed pieces r).1 = charValue signed b := by
  unfold readChr
  dsimp only
  rw [← Reader.left_refill pieces r]
  generalize r.refill pieces = r
  by_cases h : r.rpos < r.wpos
  · rw [dif_pos h]
    refine .inr ⟨r.fdbuf.getD r.rpos 0, ?_, rfl⟩
    have hlen : (r.fdbuf.take r.wpos).length = r.wpos := by
      rw [List.length_take, r.length_fdbuf]
      exact Nat.min_eq_left r.wpos_le
    have hlt : r.rpos < (r.fdbuf.take r.wpos).length := by rwa [hlen]
    have hw : r.rpos < r.fdbuf.length := by
      rw [r.length_fdbuf]
      exact Nat.lt_of_lt_of_le h r.wpos_le
    have hget : (r.fdbuf.take r.wpos)[r.rpos] = r.fdbuf.getD r.rpos 0 := by
      rw [List.getElem_take, List.getD_eq_getElem _ _ hw]
    unfold Reader.left
    dsimp only
    rw [List.drop_eq_getElem_cons hlt, hget, List.cons_append]
  · rw [dif_neg h]
    exact .inl ⟨rfl, h⟩

/-- A character that is no end of the file is one of the bytes that are to come. -/
theorem readChr_lt {signed : Bool} {pieces : Nat → Nat → Nat} {r : Reader} (h : ¬ (readChr signed pieces r).1 < 0) :
    (readChr signed pieces r).2.left.length < r.left.length := by
  rcases readChr_cases signed pieces r with ⟨hfail, -⟩ | ⟨b, hleft, -⟩
  · exact absurd (by rw [hfail]; decide) h
  · rw [hleft]
    exact Nat.lt_succ_self _

section
variable (signed : Bool) {pieces : Nat → Nat → Nat} {r : Reader}

theorem readChr_nil (h : r.left = []) : (readChr signed pieces r).1 = -1 := by
  rcases readChr_cases signed pieces r with ⟨hfail, -⟩ | ⟨b, hleft, -⟩
  · exact hfail
  · rw [h] at hleft
    cases hleft

theorem readChr_cons (hp : ∀ k n, 0 < n → 1 ≤ pieces k n) {b : UInt8} {bytes : List UInt8} (h : r.left = b :: bytes) :
    (readChr signed pieces r).1 = charValue signed b ∧ (readChr signed pieces r).2.left = bytes := by
  rcases readChr_cases signed pieces r with ⟨-, hpos⟩ | ⟨b', hleft, hvalue⟩
  · exact absurd (Reader.refill_pos hp r (by rw [h]; exact List.cons_ne_nil _ _)) hpos
  · obtain ⟨rfl, hrest⟩ := List.cons.inj (h.symm.trans hleft)
    exact ⟨hvalue, hrest.symm⟩

end
end Mvpmc.Playlist
