import Mathlib.Data.List.Basic
import Mathlib.Data.List.Infix
import Mathlib.Tactic.Common

/-! The lines of a text as they come into a buffer that has room for `n` letters: each ends behind a newline, where the
buffer is full or where the text ends. -/
namespace Mvpmc.Lib
variable {α : Type} [DecidableEq α]

/-- The lines of a text that is read behind the letters `line`. -/
def linesFrom (d : α) (n : Nat) (line : List α) : List α → List (List α)
  | [] => if line = [] then [] else [line]
  | b :: text =>
    if b = d ∨ line.length + 1 = n then (line ++ [b]) :: linesFrom d n [] text else linesFrom d n (line ++ [b]) text

def lines (d : α) (n : Nat) (text : List α) : List (List α) := linesFrom d n [] text

/-- No letter is lost between the lines. -/
theorem linesFrom_flatten (d : α) (n : Nat) (line text : List α) : (linesFrom d n line text).flatten = line ++ text := by
  induction text generalizing line with
  | nil => rw [linesFrom]; split <;> simp_all
  | cons b text ih =>
    rw [linesFrom]
    split
    · rw [List.flatten_cons, ih, List.nil_append, List.append_assoc, List.singleton_append]
    · rw [ih, List.append_assoc, List.singleton_append]

theorem lines_flatten (d : α) (n : Nat) (text : List α) : (lines d n text).flatten = text := linesFrom_flatten d n [] text

theorem linesFrom_append {d : α} {n : Nat} (line : List α) {text : List α} (h : d ∉ text)
    (hn : line.length + text.length < n) (rest : List α) :
    linesFrom d n line (text ++ rest) = linesFrom d n (line ++ text) rest := by
  induction text generalizing line with
  | nil => rw [List.nil_append, List.append_nil]
  | cons b text ih =>
    have hb : ¬ (b = d ∨ line.length + 1 = n) := by
      rintro (rfl | hfull)
      · exact h List.mem_cons_self
      · simp only [List.length_cons] at hn
        omega
    rw [List.cons_append, linesFrom, if_neg hb, ih _ (List.not_mem_of_not_mem_cons h), List.append_assoc,
      List.singleton_append]
    simp only [List.length_append, List.length_cons, List.length_nil] at hn ⊢
    omega

/-- A line that ends in a newline and fits. -/
theorem lines_terminated {d : α} {n : Nat} {text : List α} (h : d ∉ text) (hn : text.length < n) (rest : List α) :
    lines d n (text ++ d :: rest) = (text ++ [d]) :: lines d n rest := by
  rw [lines, linesFrom_append [] h (by simpa using hn), List.nil_append, linesFrom, if_pos (.inl rfl), lines]

theorem lines_flatMap_append {d : α} {n : Nat} {ls : List (List α)} (h : ∀ l ∈ ls, d ∉ l ∧ l.length < n) (rest : List α) :
    lines d n (ls.flatMap (· ++ [d]) ++ rest) = ls.map (· ++ [d]) ++ lines d n rest := by
  induction ls with
  | nil => rfl
  | cons l ls ih =>
    obtain ⟨hl, hls⟩ := List.forall_mem_cons.mp h
    rw [List.flatMap_cons, List.append_assoc, List.append_assoc, List.singleton_append, lines_terminated hl.1 hl.2,
      ih hls, List.map_cons, List.cons_append]

/-- Letters in front of a text belong to its first line. -/
theorem splitOnP_append_of_forall {β : Type} {isEnd : β → Bool} {acc : List β} (h : ∀ b ∈ acc, isEnd b = false)
    (text : List β) : (acc ++ text).splitOnP isEnd = (text.splitOnP isEnd).modifyHead (acc ++ ·) := by
  induction acc with
  | nil =>
    obtain ⟨l, ls, he⟩ := List.exists_cons_of_ne_nil (List.splitOnP_ne_nil isEnd text)
    rw [List.nil_append, he]
    rfl
  | cons b acc ih =>
    obtain ⟨hb, hacc⟩ := List.forall_mem_cons.mp h
    obtain ⟨l, ls, he⟩ := List.exists_cons_of_ne_nil (List.splitOnP_ne_nil isEnd text)
    rw [List.cons_append, List.splitOnP_cons_eq_if_modifyHead, if_neg (by simp [hb]), ih hacc, he]
    rfl

/-- No line has what ends one. -/
theorem isEnd_of_mem_splitOnP {β : Type} {isEnd : β → Bool} {text l : List β} (hl : l ∈ text.splitOnP isEnd) :
    ∀ b ∈ l, isEnd b = false := by
  induction text generalizing l with
  | nil =>
    obtain rfl : l = [] := by simpa using hl
    exact fun b hb => absurd hb List.not_mem_nil
  | cons x text ih =>
    obtain ⟨l', ls, he⟩ := List.exists_cons_of_ne_nil (List.splitOnP_ne_nil isEnd text)
    rw [List.splitOnP_cons_eq_if_modifyHead] at hl
    rw [he] at hl ih
    by_cases hx : isEnd x = true
    · rw [if_pos hx] at hl
      rcases List.mem_cons.mp hl with rfl | hl
      · exact fun b hb => absurd hb List.not_mem_nil
      · exact ih hl
    · rw [if_neg hx, List.modifyHead_cons] at hl
      rcases List.mem_cons.mp hl with rfl | hl
      · exact List.forall_mem_cons.mpr ⟨by simpa using hx, ih List.mem_cons_self⟩
      · exact ih (List.mem_cons_of_mem _ hl)

/-- The lines of a text that ends each of them. -/
theorem splitOnP_flatMap {β : Type} {isEnd : β → Bool} {d : β} (hd : isEnd d = true) {ls : List (List β)}
    (h : ∀ l ∈ ls, ∀ b ∈ l, isEnd b = false) : (ls.flatMap (· ++ [d])).splitOnP isEnd = ls ++ [[]] := by
  induction ls with
  | nil => rfl
  | cons l ls ih =>
    obtain ⟨hl, hls⟩ := List.forall_mem_cons.mp h
    rw [List.flatMap_cons, List.append_assoc, List.singleton_append, List.splitOnP_append_cons_of_forall_mem hl d hd, ih hls,
      List.cons_append]

/-- The first of the lines of a text begins it, and the others are in it. -/
theorem splitOnP_infix {β : Type} (isEnd : β → Bool) (text : List β) :
    ∃ l ls, text.splitOnP isEnd = l :: ls ∧ l <+: text ∧ ∀ c ∈ ls, c <:+: text := by
  induction text with
  | nil => exact ⟨[], [], rfl, List.prefix_rfl, fun c hc => absurd hc List.not_mem_nil⟩
  | cons b text ih =>
    obtain ⟨l, ls, he, hl, hls⟩ := ih
    rw [List.splitOnP_cons_eq_if_modifyHead, he]
    by_cases hb : isEnd b = true
    · rw [if_pos hb]
      refine ⟨[], l :: ls, rfl, List.nil_prefix, List.forall_mem_cons.mpr ⟨?_, fun c hc => List.infix_cons (hls c hc)⟩⟩
      exact List.infix_cons hl.isInfix
    · rw [if_neg hb]
      exact ⟨b :: l, ls, rfl, List.cons_prefix_cons.mpr ⟨rfl, hl⟩, fun c hc => List.infix_cons (hls c hc)⟩

theorem infix_of_mem_splitOnP {β : Type} {isEnd : β → Bool} {text c : List β} (hc : c ∈ text.splitOnP isEnd) : c <:+: text := by
  obtain ⟨l, ls, he, hl, hls⟩ := splitOnP_infix isEnd text
  rw [he] at hc
  rcases List.mem_cons.mp hc with rfl | hc
  · exact hl.isInfix
  · exact hls c hc

section Loop
variable {β σ : Type} {isEnd : β → Bool} {step : σ → β → σ} {line : σ → List β} {take : σ → List β → σ}

/-- A loop that collects a line letter by letter and takes it where it ends is a loop over the lines. What it has
collected is `line`, and a line is taken alike however much of it has been collected. -/
theorem foldl_lines (hend : ∀ s b, isEnd b = true → step s b = take s (line s)) (htaken : ∀ s l, line (take s l) = [])
    (hletter : ∀ s b, isEnd b = false → line (step s b) = line s ++ [b])
    (hsame : ∀ s b l, isEnd b = false → line s ++ [b] <+: l → take (step s b) l = take s l) {s : σ}
    (h : ∀ b ∈ line s, isEnd b = false) (text : List β) :
    take (text.foldl step s) (line (text.foldl step s)) = ((line s ++ text).splitOnP isEnd).foldl take s := by
  induction text generalizing s with
  | nil => rw [List.append_nil, List.splitOnP_eq_singleton h, List.foldl_nil, List.foldl_cons, List.foldl_nil]
  | cons b text ih =>
    rw [List.foldl_cons]
    cases hb : isEnd b with
    | true =>
      have hempty : line (step s b) = [] := by rw [hend s b hb, htaken]
      rw [ih (by rw [hempty]; exact fun b hb => absurd hb List.not_mem_nil), hempty, List.nil_append,
        List.splitOnP_append_cons_of_forall_mem h b hb, List.foldl_cons, hend s b hb]
    | false =>
      have hmore : ∀ c ∈ line s ++ [b], isEnd c = false := by
        intro c hc
        rcases List.mem_append.mp hc with hc | hc
        · exact h c hc
        · exact List.mem_singleton.mp hc ▸ hb
      rw [ih (by rw [hletter s b hb]; exact hmore), hletter s b hb, List.append_assoc, List.singleton_append]
      -- the first of the lines goes on with this letter
      obtain ⟨l, ls, hsplit⟩ := List.exists_cons_of_ne_nil (List.splitOnP_ne_nil isEnd (line s ++ b :: text))
      have hfirst : line s ++ [b] <+: l := by
        obtain ⟨l', ls', hrest⟩ := List.exists_cons_of_ne_nil (List.splitOnP_ne_nil isEnd text)
        have hlines := splitOnP_append_of_forall hmore text
        rw [List.append_assoc, List.singleton_append, hsplit, hrest] at hlines
        obtain ⟨rfl, -⟩ := List.cons.inj hlines
        exact List.prefix_append _ _
      rw [hsplit, List.foldl_cons, List.foldl_cons, hsame s b l hb hfirst]

end Loop

end Mvpmc.Lib
