import Mathlib.Data.List.Basic

/-! A bounded first-in first-out queue that takes a block of items whole or not at
all. Its bound is a field, so an overfull queue cannot be built. -/
namespace Mvpmc.Lib
variable {α : Type*} {cap : Nat}

structure Fifo (α : Type*) (cap : Nat) where
  items : List α
  le_cap : items.length ≤ cap

namespace Fifo

@[ext] theorem ext {p q : Fifo α cap} (h : p.items = q.items) : p = q := by
  cases p; cases q; simp_all

def empty : Fifo α cap := ⟨[], Nat.zero_le _⟩

/-- All of the block, or nothing. -/
def push (q : Fifo α cap) (xs : List α) : Fifo α cap × Nat :=
  if h : q.items.length + xs.length ≤ cap then (⟨q.items ++ xs, by simpa using h⟩, xs.length) else (q, 0)

/-- One more item; the oldest one makes room for it. -/
def arrive (q : Fifo α cap) (x : α) : Fifo α cap :=
  ⟨(q.items ++ [x]).drop (q.items.length + 1 - cap), by simp only [List.length_drop, List.length_append, List.length_singleton]; omega⟩

/-- The oldest `n` items, which stay. -/
def front (q : Fifo α cap) (n : Nat) : List α := q.items.take n

/-- Remove the oldest `n` items. -/
def pop (q : Fifo α cap) (n : Nat) : Fifo α cap :=
  ⟨q.items.drop n, by have := q.le_cap; simp only [List.length_drop]; omega⟩

@[simp] theorem items_empty : (empty : Fifo α cap).items = [] := rfl

@[simp] theorem items_pop (q : Fifo α cap) (n : Nat) : (q.pop n).items = q.items.drop n := rfl

theorem items_arrive (q : Fifo α cap) (x : α) (h : q.items.length < cap) : (q.arrive x).items = q.items ++ [x] := by
  simp [arrive, show q.items.length + 1 - cap = 0 by omega]

theorem push_of_fits (q : Fifo α cap) (xs : List α) (h : q.items.length + xs.length ≤ cap) :
    (q.push xs).1.items = q.items ++ xs ∧ (q.push xs).2 = xs.length := by
  simp [push, h]

theorem push_of_full (q : Fifo α cap) (xs : List α) (h : ¬ q.items.length + xs.length ≤ cap) :
    q.push xs = (q, 0) := by
  simp [push, h]

end Fifo
end Mvpmc.Lib
