import Mathlib.Tactic
import Mathlib.Algebra.Order.BigOperators.Group.List

/-! Texts with marks in them, and what becomes of them when the marks are filled in order. -/
namespace Mvpmc.Lib.Template
variable {α : Type} [DecidableEq α] (mark : α)

/-- The text in front of the first mark, and what follows the mark. -/
def cut : List α → Option (List α × List α)
  | [] => none
  | c :: text => if c = mark then some ([], text) else (cut text).map fun r => (c :: r.1, r.2)

/-- The marks replaced by the entries in their order; marks without an entry stay. What is filled in is
not searched for marks again. -/
def fill : List α → List (List α) → List α
  | [], _ => []
  | c :: text, entries =>
    if c = mark then
      match entries with
      | [] => c :: fill text []
      | e :: entries => e ++ fill text entries
    else c :: fill text entries

variable {mark}

theorem cut_none {text : List α} : cut mark text = none ↔ mark ∉ text := by
  induction text with
  | nil => simp [cut]
  | cons c text ih =>
    unfold cut
    by_cases hc : c = mark
    · simp [hc]
    · simp [hc, Ne.symm hc, ih]

theorem cut_some {text front rest : List α} (h : cut mark text = some (front, rest)) :
    text = front ++ mark :: rest ∧ mark ∉ front := by
  induction text generalizing front with
  | nil => exact absurd h (by simp [cut])
  | cons c text ih =>
    unfold cut at h
    by_cases hc : c = mark
    · rw [if_pos hc, Option.some.injEq, Prod.mk.injEq] at h
      obtain ⟨rfl, rfl⟩ := h
      exact ⟨hc ▸ rfl, List.not_mem_nil⟩
    · rw [if_neg hc, Option.map_eq_some_iff] at h
      obtain ⟨⟨front', rest'⟩, hcut, he⟩ := h
      obtain ⟨rfl, rfl⟩ := Prod.mk.inj he
      obtain ⟨rfl, hnot⟩ := ih hcut
      exact ⟨rfl, fun hm => (List.mem_cons.mp hm).elim (fun he => hc he.symm) hnot⟩

theorem count_cut {text front rest : List α} (h : cut mark text = some (front, rest)) :
    text.count mark = rest.count mark + 1 := by
  obtain ⟨rfl, hnot⟩ := cut_some h
  rw [List.count_append, List.count_eq_zero_of_not_mem hnot, List.count_cons_self, Nat.zero_add]

@[simp] theorem fill_cons_mark (text : List α) (e : List α) (entries : List (List α)) :
    fill mark (mark :: text) (e :: entries) = e ++ fill mark text entries := by
  rw [fill, if_pos rfl]

theorem fill_cons {c : α} (hc : c ≠ mark) (text : List α) (entries : List (List α)) :
    fill mark (c :: text) entries = c :: fill mark text entries := by
  cases entries <;> exact if_neg hc

/-- Text without marks is kept. -/
theorem fill_append {front : List α} (hf : mark ∉ front) (text : List α) (entries : List (List α)) :
    fill mark (front ++ text) entries = front ++ fill mark text entries := by
  induction front with
  | nil => rfl
  | cons c front ih =>
    have hc : c ≠ mark := fun he => hf (he ▸ List.mem_cons_self)
    rw [List.cons_append, fill_cons hc, ih fun hm => hf (List.mem_cons_of_mem c hm), List.cons_append]

theorem fill_of_not_mem {text : List α} (ht : mark ∉ text) (entries : List (List α)) :
    fill mark text entries = text := by
  have h := fill_append ht [] entries
  rwa [List.append_nil, fill, List.append_nil] at h

/-- With an entry for every mark the filled text is as long as the plain text and the entries together. -/
theorem length_fill {text : List α} {entries : List (List α)} (h : entries.length = text.count mark) :
    (fill mark text entries).length + entries.length = text.length + (entries.map List.length).sum := by
  induction text generalizing entries with
  | nil =>
    obtain rfl : entries = [] := List.length_eq_zero_iff.mp h
    rfl
  | cons c text ih =>
    by_cases hc : c = mark
    · subst hc
      rw [List.count_cons_self] at h
      obtain ⟨e, entries, rfl⟩ := List.exists_cons_of_length_eq_add_one h
      have ih := ih (Nat.succ.inj h)
      rw [fill_cons_mark, List.length_append, List.map_cons, List.sum_cons, List.length_cons, List.length_cons]
      omega
    · rw [List.count_cons_of_ne hc] at h
      have ih := ih h
      rw [fill_cons hc, List.length_cons, List.length_cons]
      omega

/-- Entries that are as long as others wherever they stand are no longer in total only if all agree in length. -/
theorem lengths_eq_of_sum {β : Type} {f g : β → Nat} {xs : List β} (hle : ∀ x ∈ xs, f x ≤ g x)
    (hsum : (xs.map g).sum = (xs.map f).sum) : ∀ x ∈ xs, g x = f x := by
  induction xs with
  | nil => exact fun _ hx => absurd hx List.not_mem_nil
  | cons y ys ih =>
    rw [List.map_cons, List.map_cons, List.sum_cons, List.sum_cons] at hsum
    have hy := hle y List.mem_cons_self
    have hys : (ys.map f).sum ≤ (ys.map g).sum :=
      List.sum_le_sum fun x hx => hle x (List.mem_cons_of_mem y hx)
    intro x hx
    rcases List.mem_cons.mp hx with rfl | hx
    · omega
    · exact ih (fun x hx => hle x (List.mem_cons_of_mem y hx)) (by omega) x hx

end Mvpmc.Lib.Template
