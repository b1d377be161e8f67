import Mvpmc.Playlist.FileList

/-! The loop over the characters as a loop over the lines. -/
namespace Mvpmc.Playlist

/-- `CR` and `LF`. -/
def isLineEnd (b : UInt8) : Bool := b = 10 || b = 13

/-- The lines of a file. -/
def lines (content : List UInt8) : List (List UInt8) := content.splitOnP isLineEnd

/-- What is read of a file: where `char` is signed a byte from 128 on is taken for its end. -/
def readable (signed : Bool) (content : List UInt8) : List UInt8 :=
  if signed then content.takeWhile (·.toNat < 128) else content

/-- The first line goes on with what is in front of it. -/
theorem lines_append {acc bytes : List UInt8} (h : ∀ b ∈ acc, isLineEnd b = false) :
    lines (acc ++ bytes) = (lines bytes).modifyHead (acc ++ ·) := by
  induction acc with
  | nil =>
    obtain ⟨l, ls, he⟩ := List.exists_cons_of_ne_nil (List.splitOnP_ne_nil isLineEnd bytes)
    unfold lines
    rw [List.nil_append, he]
    rfl
  | cons b acc ih =>
    obtain ⟨hb, hacc⟩ := List.forall_mem_cons.mp h
    have ih := ih hacc
    unfold lines at ih ⊢
    obtain ⟨l, ls, he⟩ := List.exists_cons_of_ne_nil (List.splitOnP_ne_nil isLineEnd bytes)
    rw [List.cons_append, List.splitOnP_cons_eq_if_modifyHead, if_neg (by simp [hb]), ih, he]
    rfl

section
variable (mem : Surroundings) (cwd : List UInt8)

/-- A whole line is put into the buffer, and ends. -/
def Build.takeLine (s : Build) (l : List UInt8) : Build :=
  { Build.endLine mem cwd { s with line := l, top := max s.top (l.length + 1) } with line := [] }

variable {mem cwd} {s : Build}

theorem Build.put_end {ch : Int} (h : ch < 0 ∨ ch = 10 ∨ ch = 13) :
    s.put mem cwd ch = Build.takeLine mem cwd { s with line := [] } s.line := by
  unfold Build.put
  rw [if_pos h]
  rfl

theorem Build.put_byte {b : UInt8} (h : isLineEnd b = false) (h0 : b ≠ 0) :
    s.put mem cwd b.toNat = { s with line := s.line ++ [b], top := max s.top (s.line.length + 1) } := by
  have hb : b ≠ 10 ∧ b ≠ 13 := by simpa [isLineEnd] using h
  have hne (n : UInt8) (hn : b ≠ n) : ¬ (b.toNat : Int) = n.toNat := fun he =>
    hn (UInt8.toNat_inj.mp (Int.ofNat.inj he))
  have hch : ¬ ((b.toNat : Int) < 0 ∨ (b.toNat : Int) = 10 ∨ (b.toNat : Int) = 13) := by
    have h10 := hne 10 hb.1
    have h13 := hne 13 hb.2
    have e10 : (10 : UInt8).toNat = 10 := rfl
    have e13 : (13 : UInt8).toNat = 13 := rfl
    rw [e10] at h10
    rw [e13] at h13
    omega
  unfold Build.put
  rw [if_neg hch]
  dsimp only
  rw [if_neg (show ¬ (b.toNat : Int) = 0 from hne 0 h0)]
  simp

/-- Where a line ends does not depend on how it was filled in before. -/
theorem Build.takeLine_top {n : Nat} {l : List UInt8} (hn : n ≤ l.length + 1) :
    Build.takeLine mem cwd { s with top := max s.top n } l = Build.takeLine mem cwd s l := by
  unfold Build.takeLine
  dsimp only
  rw [Nat.max_assoc, Nat.max_eq_right hn]

/-- The characters up to the end of the file are its lines. -/
theorem foldl_put {bytes : List UInt8} (h0 : 0 ∉ bytes) (hline : ∀ b ∈ s.line, isLineEnd b = false) :
    (bytes.foldl (fun s b => s.put mem cwd b.toNat) s).put mem cwd (-1) =
      (lines (s.line ++ bytes)).foldl (Build.takeLine mem cwd) { s with line := [] } := by
  induction bytes generalizing s with
  | nil =>
    have hone : lines (s.line ++ []) = [s.line] := by
      rw [List.append_nil]
      exact List.splitOnP_eq_singleton hline
    rw [hone, List.foldl_nil, Build.put_end (.inl (by decide))]
    rfl
  | cons b bytes ih =>
    obtain ⟨hb0, h0⟩ : 0 ≠ b ∧ 0 ∉ bytes := by simpa using h0
    rw [List.foldl_cons]
    by_cases hb : isLineEnd b = true
    · have hch : (b.toNat : Int) < 0 ∨ (b.toNat : Int) = 10 ∨ (b.toNat : Int) = 13 := by
        rcases (by simpa [isLineEnd] using hb : b = 10 ∨ b = 13) with rfl | rfl
        · exact .inr (.inl rfl)
        · exact .inr (.inr rfl)
      have hsplit : lines (s.line ++ b :: bytes) = s.line :: lines bytes :=
        List.splitOnP_append_cons_of_forall_mem hline b hb bytes
      rw [hsplit, List.foldl_cons, Build.put_end hch, ih h0 fun b hb => absurd hb List.not_mem_nil]
      rfl
    · have hb : isLineEnd b = false := by simpa using hb
      rw [Build.put_byte hb hb0.symm, ih h0 (by simpa [or_imp, forall_and] using ⟨hline, hb⟩)]
      -- the line goes on with this byte
      obtain ⟨l, ls, he⟩ := List.exists_cons_of_ne_nil (List.splitOnP_ne_nil isLineEnd bytes)
      have hlines : lines (s.line ++ [b] ++ bytes) = (s.line ++ [b] ++ l) :: ls := by
        rw [lines_append (by simpa [or_imp, forall_and] using ⟨hline, hb⟩)]
        unfold lines
        rw [he]
        rfl
      have happ : s.line ++ b :: bytes = s.line ++ [b] ++ bytes := by simp
      have htop : Build.takeLine mem cwd { s with line := [], top := max s.top (s.line.length + 1) } (s.line ++ [b] ++ l) =
          Build.takeLine mem cwd { s with line := [] } (s.line ++ [b] ++ l) :=
        Build.takeLine_top (s := { s with line := [] }) (by
          rw [List.length_append, List.length_append, List.length_singleton]
          omega)
      rw [happ, hlines, List.foldl_cons, List.foldl_cons]
      exact congrArg (fun a => ls.foldl (Build.takeLine mem cwd) a) htop

theorem readable_cons {signed : Bool} {b : UInt8} {bytes : List UInt8} :
    readable signed (b :: bytes) = if charValue signed b < 0 then [] else b :: readable signed bytes := by
  have hlt : b.toNat < 256 := b.toNat_lt
  unfold readable charValue
  cases signed with
  | false => simp
  | true =>
    by_cases hb : b.toNat < 128
    · have hpos : ¬ 128 ≤ b.toNat := by omega
      simp [hb, hpos]
    · have hneg : 128 ≤ b.toNat ∧ (b.toNat : Int) - 256 < 0 := by omega
      simp [hb, hneg.1, hneg.2]

theorem charValue_of_nonneg {signed : Bool} {b : UInt8} (h : ¬ charValue signed b < 0) : charValue signed b = b.toNat := by
  have hlt : b.toNat < 256 := b.toNat_lt
  unfold charValue at h ⊢
  split
  · rename_i hs
    rw [if_pos hs] at h
    omega
  · rfl

/-- The loop puts in what is read, one byte after the other. -/
theorem buildLoop_eq {signed : Bool} {pieces : Nat → Nat → Nat} {r : Reader} (hp : ∀ k n, 0 < n → 1 ≤ pieces k n) :
    buildLoop mem cwd signed pieces r s =
      ((readable signed r.left).foldl (fun s b => s.put mem cwd b.toNat) s).put mem cwd (-1) := by
  induction hleft : r.left generalizing r s with
  | nil =>
    have hread : (readChr signed pieces r).1 = -1 := readChr_nil signed hleft
    have hnone : readable signed [] = [] := by cases signed <;> rfl
    rw [buildLoop, hread, if_pos (by decide), hnone]
    rfl
  | cons b bytes ih =>
    obtain ⟨hvalue, hrest⟩ := readChr_cons signed hp hleft
    rw [buildLoop, hvalue, readable_cons]
    by_cases hneg : charValue signed b < 0
    · rw [if_pos hneg, if_pos hneg, List.foldl_nil, Build.put_end (.inl hneg), Build.put_end (.inl (by decide))]
    · rw [if_neg hneg, if_neg hneg, ih hrest, charValue_of_nonneg hneg]
      rfl

end
end Mvpmc.Playlist
