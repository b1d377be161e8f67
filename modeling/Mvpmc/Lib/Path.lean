import Mathlib.Data.List.Nodup
import Mathlib.Logic.Equiv.Basic

/-! Lists that are linked in one direction and end, and contents that change their places. -/
namespace Mvpmc.Lib.Path

section Leads
variable {α : Type} {next : α → Option α} {p : Option α} {l : List α}

/-- Following `next` from `p` visits `l` and ends. -/
def Leads (next : α → Option α) : Option α → List α → Prop
  | p, [] => p = none
  | p, a :: l => p = some a ∧ Leads next (next a) l

instance Leads.decidable [DecidableEq α] : ∀ (p : Option α) (l : List α), Decidable (Leads next p l)
  | p, [] => inferInstanceAs (Decidable (p = none))
  | p, a :: l =>
    have := Leads.decidable (next a) l
    inferInstanceAs (Decidable (p = some a ∧ Leads next (next a) l))

namespace Leads

theorem head (h : Leads next p l) : p = l.head? := by
  cases l with
  | nil => exact h
  | cons a l => exact h.1

theorem unique {l' : List α} (h : Leads next p l) (h' : Leads next p l') : l = l' := by
  induction l generalizing p l' with
  | nil =>
    cases l' with
    | nil => rfl
    | cons b l' => exact absurd (h.symm.trans h'.1) nofun
  | cons a l ih =>
    cases l' with
    | nil => exact absurd (h.1.symm.trans h') nofun
    | cons b l' =>
      obtain rfl := Option.some.inj (h.1.symm.trans h'.1)
      rw [ih h.2 h'.2]

/-- A part of the way. -/
theorem suffix {s t : List α} (h : Leads next p (s ++ t)) : Leads next t.head? t := by
  induction s generalizing p with
  | nil => exact h.head ▸ h
  | cons a s ih => exact ih h.2

/-- A way that ends comes to no place twice. -/
theorem nodup (h : Leads next p l) : l.Nodup := by
  induction l generalizing p with
  | nil => exact List.nodup_nil
  | cons a l ih =>
    refine List.nodup_cons.mpr ⟨fun ha => ?_, ih h.2⟩
    obtain ⟨s, t, hst⟩ := List.append_of_mem ha
    have hagain : Leads next (some a) (a :: t) := suffix (s := s) (hst ▸ h.2)
    have htwice : a :: t = a :: l := hagain.unique ⟨rfl, h.2⟩
    have hlen := congrArg List.length hst
    rw [← (List.cons.inj htwice).2, List.length_append, List.length_cons] at hlen
    omega

theorem next_mem {a b : α} (h : Leads next p l) (ha : a ∈ l) (hb : next a = some b) : b ∈ l := by
  obtain ⟨s, t, rfl⟩ := List.append_of_mem ha
  have hrest : Leads next (next a) t := h.suffix.2
  have hhead : t.head? = some b := hrest.head.symm.trans hb
  exact List.mem_append_right s (List.mem_cons_of_mem a (List.mem_of_head? hhead))

theorem congr {next' : α → Option α} (h : Leads next p l) (hn : ∀ a ∈ l, next' a = next a) : Leads next' p l := by
  induction l generalizing p with
  | nil => exact h
  | cons a l ih =>
    obtain ⟨ha, hl⟩ := List.forall_mem_cons.mp hn
    exact ⟨h.1, ha ▸ ih h.2 hl⟩

end Leads
end Leads

section Moves
variable {α β : Type} {σ : Equiv.Perm α} {l : List α}

/-- What moves stays among the places where something moves. -/
theorem mem_of_fixed (hf : ∀ a, a ∉ l → σ a = a) {a : α} (ha : a ∈ l) : σ a ∈ l := by
  by_contra hn
  have hback : σ a = a := σ.injective (hf _ hn)
  rw [hback] at hn
  exact hn ha

/-- Contents that change their places among some are the same there, in another order. -/
theorem map_perm (hnd : l.Nodup) (hf : ∀ a, a ∉ l → σ a = a) {f g : α → β} (hg : ∀ a, g a = f (σ a)) :
    (l.map g).Perm (l.map f) := by
  have hmoved : (l.map σ).Perm l := by
    refine (List.perm_ext_iff_of_nodup ((List.nodup_map_iff σ.injective).mpr hnd) hnd).mpr fun a => ?_
    constructor
    · intro ha
      obtain ⟨b, hb, rfl⟩ := List.mem_map.mp ha
      exact mem_of_fixed hf hb
    · intro ha
      by_contra hn
      have hout : σ.symm a ∉ l := fun hs => hn (List.mem_map.mpr ⟨σ.symm a, hs, σ.apply_symm_apply a⟩)
      have hback : a = σ.symm a := (σ.apply_symm_apply a).symm.trans (hf _ hout)
      exact hout (hback ▸ ha)
  have heq : l.map g = (l.map σ).map f := by
    rw [List.map_map]
    exact List.map_congr_left fun a _ => hg a
  exact heq ▸ hmoved.map f

end Moves
end Mvpmc.Lib.Path
