import Mathlib.Data.List.Basic
import Mathlib.Data.List.Infix

/-! The tokens of a text between occurrences of a delimiter, of which none is empty, and the names that a path is made of. -/
namespace Mvpmc.Lib
variable {α : Type} [DecidableEq α]

/-- The tokens of a text that is read behind the letters `token`. -/
def tokensFrom (d : α) (token : List α) : List α → List (List α)
  | [] => if token = [] then [] else [token]
  | b :: text =>
    if b = d then if token = [] then tokensFrom d [] text else token :: tokensFrom d [] text
    else tokensFrom d (token ++ [b]) text

def tokens (d : α) (text : List α) : List (List α) := tokensFrom d [] text

theorem tokensFrom_append {d : α} (token : List α) {text : List α} (h : d ∉ text) (rest : List α) :
    tokensFrom d token (text ++ rest) = tokensFrom d (token ++ text) rest := by
  induction text generalizing token with
  | nil => rw [List.nil_append, List.append_nil]
  | cons b text ih =>
    have hb : b ≠ d := (List.ne_of_not_mem_cons h).symm
    rw [List.cons_append, tokensFrom, if_neg hb, ih _ (List.not_mem_of_not_mem_cons h), List.append_assoc,
      List.singleton_append]

/-- A text that ends in the delimiter and does not contain it elsewhere. -/
theorem tokens_terminated {d : α} {text : List α} (h : d ∉ text) :
    tokens d (text ++ [d]) = if text = [] then [] else [text] := by
  rw [tokens, tokensFrom_append [] h, List.nil_append, tokensFrom, if_pos rfl]
  rfl

/-- The tokens with the places that they begin at, where `token` begins at `start`. -/
def tokensAtFrom (d : α) (start : Nat) (token : List α) : List α → List (Nat × List α)
  | [] => if token = [] then [] else [(start, token)]
  | b :: text =>
    if b = d then
      if token = [] then tokensAtFrom d (start + 1) [] text
      else (start, token) :: tokensAtFrom d (start + token.length + 1) [] text
    else tokensAtFrom d start (token ++ [b]) text

def tokensAt (d : α) (start : Nat) (text : List α) : List (Nat × List α) := tokensAtFrom d start [] text

theorem map_snd_tokensAtFrom (d : α) (start : Nat) (token text : List α) :
    (tokensAtFrom d start token text).map Prod.snd = tokensFrom d token text := by
  induction text generalizing start token with
  | nil =>
    rw [tokensAtFrom, tokensFrom]
    split <;> rfl
  | cons b text ih =>
    rw [tokensAtFrom, tokensFrom]
    split
    · split
      · exact ih _ _
      · rw [List.map_cons, ih]
    · exact ih _ _

theorem map_snd_tokensAt (d : α) (start : Nat) (text : List α) : (tokensAt d start text).map Prod.snd = tokens d text :=
  map_snd_tokensAtFrom d start [] text

theorem end_le_of_mem_tokensAtFrom {d : α} {start : Nat} {token text : List α} {t : Nat × List α}
    (h : t ∈ tokensAtFrom d start token text) : t.1 + t.2.length ≤ start + token.length + text.length := by
  induction text generalizing start token with
  | nil =>
    rw [tokensAtFrom] at h
    split at h
    · cases h
    · rw [List.mem_singleton.mp h]
      exact Nat.le_refl _
  | cons b text ih =>
    rw [tokensAtFrom] at h
    rw [List.length_cons]
    split at h
    · split at h
      · have := ih h
        rw [List.length_nil] at this
        omega
      · rcases List.mem_cons.mp h with rfl | h
        · dsimp only
          omega
        · have := ih h
          rw [List.length_nil] at this
          omega
    · have := ih h
      rw [List.length_append, List.length_singleton] at this
      omega

/-- A token ends inside of the text. -/
theorem end_le_of_mem_tokensAt {d : α} {start : Nat} {text : List α} {t : Nat × List α} (h : t ∈ tokensAt d start text) :
    t.1 + t.2.length ≤ start + text.length := end_le_of_mem_tokensAtFrom h

section Names
variable {α : Type} [DecidableEq α] {sep dot : α}

/-- Where a walk over the names of a path leads from a directory: a single dot stays, two go back. -/
def walk (dot : α) : List (List α) → List (List α) → List (List α)
  | dir, [] => dir
  | dir, name :: names =>
    if name = [] ∨ name = [dot] then walk dot dir names
    else if name = [dot, dot] then walk dot dir.dropLast names
    else walk dot (dir ++ [name]) names

/-- The names of the directories, from the root on, and of the file that a path leads to. -/
def resolve (sep dot : α) (path : List α) : List (List α) := walk dot [] (path.splitOnP (· == sep))

theorem walk_append (dir names names' : List (List α)) :
    walk dot dir (names ++ names') = walk dot (walk dot dir names) names' := by
  induction names generalizing dir with
  | nil => rfl
  | cons name names ih =>
    rw [List.cons_append, walk, walk]
    split
    · exact ih dir
    · split
      · exact ih dir.dropLast
      · exact ih (dir ++ [name])

/-- A walk that never goes back stays below its start. -/
theorem walk_below (dir : List (List α)) {names : List (List α)} (h : [dot, dot] ∉ names) : dir <+: walk dot dir names := by
  induction names generalizing dir with
  | nil => exact List.prefix_rfl
  | cons name names ih =>
    obtain ⟨hname, hnames⟩ := List.ne_and_not_mem_of_not_mem_cons h
    rw [walk, if_neg hname.symm]
    split
    · exact ih dir hnames
    · exact (List.prefix_append dir [name]).trans (ih (dir ++ [name]) hnames)

theorem resolve_append (dir path : List α) :
    resolve sep dot (dir ++ sep :: path) = walk dot (resolve sep dot dir) (path.splitOnP (· == sep)) := by
  rw [resolve, resolve, ← walk_append, List.splitOnP_append_cons _ _ (by simp)]

/-- A path that goes on behind a directory, and never back, leads to a place below it. -/
theorem resolve_below (dir : List α) {path : List α} (h : [dot, dot] ∉ path.splitOnP (· == sep)) :
    resolve sep dot dir <+: resolve sep dot (dir ++ sep :: path) := by
  rw [resolve_append]
  exact walk_below _ h

end Names

end Mvpmc.Lib
