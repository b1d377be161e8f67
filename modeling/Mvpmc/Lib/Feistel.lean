import Mathlib.Tactic

/-! Feistel networks: in each round one half of the block is mixed with a function of the other half and of the key of
the round, and the halves change places. -/
namespace Mvpmc.Lib.Feistel

section
variable {κ α : Type} (mix : α → α → α) (f : κ → α → α)

def round (k : κ) (s : α × α) : α × α := (s.2, mix s.1 (f k s.2))

def network (ks : List κ) (s : α × α) : α × α := ks.foldl (fun s k => round mix f k s) s

@[simp] theorem network_nil (s : α × α) : network mix f [] s = s := rfl

@[simp] theorem network_cons (k : κ) (ks : List κ) (s : α × α) :
    network mix f (k :: ks) s = network mix f ks (round mix f k s) := rfl

theorem network_append (ks ks' : List κ) (s : α × α) :
    network mix f (ks ++ ks') s = network mix f ks' (network mix f ks s) := List.foldl_append

variable {mix}

/-- Where mixing in twice changes nothing, a round undoes itself, with the halves the other way round. -/
theorem round_round (hmix : ∀ a b, mix (mix a b) b = a) (k : κ) (s : α × α) :
    round mix f k (round mix f k s).swap = s.swap := by
  change (s.2, mix (mix s.1 (f k s.2)) (f k s.2)) = s.swap
  rw [hmix]
  rfl

/-- A network undoes itself with its keys in the other order. -/
theorem network_reverse (hmix : ∀ a b, mix (mix a b) b = a) (ks : List κ) (s : α × α) :
    network mix f ks.reverse (network mix f ks s).swap = s.swap := by
  induction ks generalizing s with
  | nil => rfl
  | cons k ks ih => rw [network_cons, List.reverse_cons, network_append, ih, network_cons, round_round f hmix, network_nil]

end

/-- What is kept by both halves, and by mixing, is kept by a network. -/
theorem network_related {κ κ' α β : Type} {mix : α → α → α} {mix' : β → β → β} {f : κ → α → α} {f' : κ' → β → β}
    {r : α → β → Prop} {q : κ → κ' → Prop} (hmix : ∀ a b c d, r a b → r c d → r (mix a c) (mix' b d))
    (hf : ∀ k k' a b, q k k' → r a b → r (f k a) (f' k' b)) {ks : List κ} {ks' : List κ'} (hk : List.Forall₂ q ks ks')
    {s : α × α} {s' : β × β} (h1 : r s.1 s'.1) (h2 : r s.2 s'.2) :
    r (network mix f ks s).1 (network mix' f' ks' s').1 ∧ r (network mix f ks s).2 (network mix' f' ks' s').2 := by
  induction hk generalizing s s' with
  | nil => exact ⟨h1, h2⟩
  | cons hq _ ih => exact ih h2 (hmix _ _ _ _ h1 (hf _ _ _ _ hq h2))

end Mvpmc.Lib.Feistel
