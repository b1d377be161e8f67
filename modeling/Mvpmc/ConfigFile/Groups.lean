import Mvpmc.ConfigFile.SaveLoad
import Mathlib.Data.Multiset.Filter

/-! The record groups: what one loop packs the other one unpacks. -/
namespace Mvpmc.ConfigFile

/-- Behind a string without zeros comes its terminator. -/
theorem cString_append {name rest : List UInt8} (h : ∀ b ∈ name, b ≠ 0) : cString (name ++ 0 :: rest) = name := by
  unfold cString
  rw [List.takeWhile_append_of_pos fun b hb => by simpa using h b hb]
  simp

theorem ne_zero_of_mem_cString {ptr : List UInt8} : ∀ b ∈ cString ptr, b ≠ 0 := by
  intro b hb
  have hall := List.all_takeWhile (p := fun b : UInt8 => decide (b ≠ 0)) (l := ptr)
  simpa using List.all_eq_true.mp hall b hb

theorem cString_eq_nil_iff {ptr : List UInt8} : cString ptr = [] ↔ ptr.headD 0 = 0 := by
  cases ptr with
  | nil => simp [cString]
  | cons b ptr => by_cases hb : b = 0 <;> simp [cString, hb]

theorem strlen_le (ptr : List UInt8) : strlen ptr ≤ ptr.length := (List.takeWhile_prefix _).length_le

namespace RecGroup

def named (g : RecGroup) : Bool := g.label.headD 0 ≠ 0

/-- A record group as the settings mean it. -/
def pair (g : RecGroup) : List UInt8 × Bool := (cString g.label, g.hide ≠ 0)

theorem length_blank : (List.replicate 64 (0 : UInt8)).length = 64 := List.length_replicate

def empty : RecGroup := ⟨List.replicate 64 0, 0, length_blank⟩

theorem fill_pair {ptr : List UInt8} {hidden : Bool} (h : strlen ptr < 64) :
    (empty.fill ptr (if hidden then 1 else empty.hide) h).pair = (cString ptr, hidden) := by
  have hl : cString (cString ptr ++ (List.replicate 64 0).drop (strlen ptr)) = cString ptr := by
    obtain ⟨n, hn⟩ : ∃ n, 64 - strlen ptr = n + 1 := ⟨63 - strlen ptr, by omega⟩
    rw [List.drop_replicate, hn, List.replicate_succ]
    exact cString_append ne_zero_of_mem_cString
  unfold pair fill
  refine Prod.ext hl ?_
  cases hidden <;> simp [empty]

theorem fill_named {ptr : List UInt8} {hide : Int} (h : strlen ptr < 64) (hn : cString ptr ≠ []) :
    (empty.fill ptr hide h).named = true := by
  obtain ⟨b, name, hc⟩ := List.exists_cons_of_ne_nil hn
  have hb : b ≠ 0 := ne_zero_of_mem_cString b (by rw [hc]; exact List.mem_cons_self)
  simp [named, fill, hc, hb]

end RecGroup

/-- Labels one after the other, each with its terminator. -/
def packed (names : List (List UInt8)) : List UInt8 := names.flatMap (· ++ [0])

/-- The labels of the groups that are hidden, or of those that are not. -/
def labels (hidden : Bool) (groups : List RecGroup) : List (List UInt8) :=
  (groups.filter fun g => g.named && decide (g.hide ≠ 0) == hidden).map fun g => cString g.label

section
variable {hidden : Bool} {groups filled : List RecGroup} {names : List (List UInt8)} {rest buf : List UInt8}

theorem packGroups_eq (hl : ∀ g ∈ groups, strlen g.label < 64) (hb : buf.length + 64 * groups.length ≤ 4096) :
    packGroups hidden groups buf = buf ++ packed (labels hidden groups) := by
  induction groups generalizing buf with
  | nil => simp [packGroups, packed, labels]
  | cons g groups ih =>
    have hg := hl g List.mem_cons_self
    have hl' : ∀ g ∈ groups, strlen g.label < 64 := fun g' hg' => hl g' (List.mem_cons_of_mem g hg')
    rw [List.length_cons] at hb
    unfold packGroups
    by_cases hc : g.label.headD 0 ≠ 0 ∧ decide (g.hide ≠ 0) = hidden
    · have hfull : ¬ buf.length + strlen g.label ≥ 4096 := by omega
      have hlen : (buf ++ cString g.label ++ [0]).length = buf.length + strlen g.label + 1 := by
        simp [strlen, Nat.add_assoc]
      have hkeep : labels hidden (g :: groups) = cString g.label :: labels hidden groups := by
        unfold labels
        rw [List.filter_cons_of_pos (by simpa [RecGroup.named] using hc), List.map_cons]
      rw [if_pos hc, if_neg hfull, ih hl' (by omega), hkeep]
      simp [packed]
    · have hskip : labels hidden (g :: groups) = labels hidden groups := by
        unfold labels
        rw [List.filter_cons_of_neg (by simpa [RecGroup.named] using hc)]
      rw [if_neg hc, ih hl' (by omega), hskip]

/-- Slots that are taken are passed over. -/
theorem readGroups_named {len : Nat} (hf : ∀ g ∈ filled, g.named = true) :
    readGroups hidden len buf (filled ++ groups) = filled ++ readGroups hidden len buf groups := by
  induction filled with
  | nil => rfl
  | cons g filled ih =>
    have ih' := ih fun g' hg' => hf g' (List.mem_cons_of_mem g hg')
    have hg : g.label.headD 0 ≠ 0 := by simpa [RecGroup.named] using hf g List.mem_cons_self
    by_cases hlen : len = 0
    · have hstop (groups : List RecGroup) : readGroups hidden len buf groups = groups := by
        cases groups <;> simp [readGroups, hlen]
      rw [hstop, hstop]
    · rw [List.cons_append, readGroups, if_neg hlen, if_pos hg, ih', List.cons_append]

/-- Packed labels go into empty slots. -/
theorem readGroups_packed {n : Nat} (hn : names.length ≤ n)
    (hs : ∀ name ∈ names, name ≠ [] ∧ name.length < 64 ∧ ∀ b ∈ name, b ≠ 0) :
    ∃ new : List RecGroup, readGroups hidden (packed names).length (packed names ++ rest) (List.replicate n .empty) =
      new ++ List.replicate (n - names.length) .empty ∧ new.map RecGroup.pair = names.map (·, hidden) ∧
      ∀ g ∈ new, g.named = true := by
  induction names generalizing n with
  | nil =>
    refine ⟨[], ?_, rfl, by simp⟩
    cases n <;> simp [readGroups, packed, List.replicate_succ]
  | cons name names ih =>
    obtain ⟨n, rfl⟩ : ∃ k, n = k + 1 := ⟨n - 1, by rw [List.length_cons] at hn; omega⟩
    obtain ⟨hne, hlt, hz⟩ := hs name List.mem_cons_self
    obtain ⟨new, he, hp, hf⟩ := ih (n := n) (by rw [List.length_cons] at hn; omega)
      fun name' h' => hs name' (List.mem_cons_of_mem name h')
    have hpack : packed (name :: names) = name ++ 0 :: packed names := by simp [packed]
    have hstr : cString (packed (name :: names) ++ rest) = name := by
      rw [hpack, List.append_assoc, List.cons_append]
      exact cString_append hz
    have hlen : strlen (packed (name :: names) ++ rest) = name.length := congrArg List.length hstr
    have hrest : (packed (name :: names) ++ rest).drop (name.length + 1) = packed names ++ rest := by
      rw [hpack, List.append_assoc, List.cons_append]
      simp [List.drop_append]
    have hleft : (packed (name :: names)).length - (name.length + 1) = (packed names).length := by
      rw [hpack, List.length_append, List.length_cons]
      omega
    have hsome : (packed (name :: names)).length ≠ 0 := by
      rw [hpack, List.length_append, List.length_cons]
      omega
    refine ⟨RecGroup.empty.fill (packed (name :: names) ++ rest) (if hidden then 1 else RecGroup.empty.hide)
      (by rw [hlen]; exact hlt) :: new, ?_, ?_, ?_⟩
    · rw [List.replicate_succ, readGroups, if_neg hsome, if_neg (by simp [RecGroup.empty])]
      simp only [hlen, hlt, hrest, hleft, dif_pos, he, List.cons_append, List.length_cons, Nat.add_sub_add_right]
    · rw [List.map_cons, List.map_cons, RecGroup.fill_pair, hstr, hp]
    · intro g hg
      rcases List.mem_cons.mp hg with rfl | hg
      · exact RecGroup.fill_named _ (by rw [hstr]; exact hne)
      · exact hf g hg

end
end Mvpmc.ConfigFile
