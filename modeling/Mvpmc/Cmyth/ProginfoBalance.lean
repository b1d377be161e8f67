import Mvpmc.Cmyth.ProginfoRefs
import Mathlib.Algebra.BigOperators.Group.Finset.Basic

/-! Every reference is the caller's, in a field, or lost; what a run loses decides whether the total comes back to
where it was. -/
namespace Mvpmc.Cmyth.Refs
open Mvpmc.Lib
open Proginfo (StringField StampField Slot slots)

variable {t : Nat} {P : Finset Nat} {G : Nat → Field → Option Nat} {e : Multiset Nat} {h : Heap} {p : Nat} {f : Field}

section Fields

instance : Fintype Field where
  elems := ⟨destroyOrder, by decide⟩
  complete f := by
    cases f with
    | string f => cases f <;> decide
    | stamp f => cases f <;> decide

/-- The reference that a pointer is. -/
def cells : Option Nat → Multiset Nat
  | none => 0
  | some a => {a}

/-- The references in the fields of a structure. -/
def heldBy (fields : Field → Option Nat) : Multiset Nat := ∑ f, cells (fields f)

/-- Those in the fields of all the structures in `P`. -/
def held (G : Nat → Field → Option Nat) (P : Finset Nat) : Multiset Nat := ∑ p ∈ P, heldBy (G p)

theorem assign_self (G : Nat → Field → Option Nat) (p : Nat) (f : Field) (v : Option Nat) : assign G p f v p f = v := by
  rw [assign, Function.update_self, Function.update_self]

theorem assign_of_ne {g : Field} (G : Nat → Field → Option Nat) (p : Nat) (v : Option Nat) (hg : g ≠ f) :
    assign G p f v p g = G p g := by
  rw [assign, Function.update_self, Function.update_of_ne hg]

theorem assign_assign (G : Nat → Field → Option Nat) (p : Nat) (f : Field) (v w : Option Nat) :
    assign (assign G p f v) p f w = assign G p f w := by
  rw [assign, assign, Function.update_self, Function.update_idem, Function.update_idem, assign]

theorem assign_comm {g : Field} (G : Nat → Field → Option Nat) (p : Nat) (v w : Option Nat) (hg : g ≠ f) :
    assign (assign G p f v) p g w = assign (assign G p g w) p f v := by
  simp only [assign, Function.update_self, Function.update_idem]
  rw [Function.update_comm hg]

theorem heldBy_update (F : Field → Option Nat) (f : Field) (v : Option Nat) :
    heldBy (Function.update F f v) + cells (F f) = heldBy F + cells v := by
  have hrest : ∑ g ∈ Finset.univ.erase f, cells (Function.update F f v g) = ∑ g ∈ Finset.univ.erase f, cells (F g) := by
    refine Finset.sum_congr rfl fun g hg => ?_
    rw [Function.update_of_ne (Finset.ne_of_mem_erase hg)]
  have hnew := Finset.add_sum_erase Finset.univ (fun g => cells (Function.update F f v g)) (Finset.mem_univ f)
  have hold := Finset.add_sum_erase Finset.univ (fun g => cells (F g)) (Finset.mem_univ f)
  simp only [Function.update_self] at hnew
  unfold heldBy
  rw [← hnew, ← hold, hrest, add_right_comm, add_comm (cells v), add_right_comm]

/-- A field takes a reference and gives up the one that it had. -/
theorem held_assign (hp : p ∈ P) (v : Option Nat) : held (assign G p f v) P + cells (G p f) = held G P + cells v := by
  have hrest : ∑ q ∈ P.erase p, heldBy (assign G p f v q) = ∑ q ∈ P.erase p, heldBy (G q) := by
    refine Finset.sum_congr rfl fun q hq => ?_
    rw [assign, Function.update_of_ne (Finset.ne_of_mem_erase hq)]
  have hnew := Finset.add_sum_erase P (fun q => heldBy (assign G p f v q)) hp
  have hold := Finset.add_sum_erase P (fun q => heldBy (G q)) hp
  have hself : heldBy (assign G p f v p) + cells (G p f) = heldBy (G p) + cells v := by
    rw [assign, Function.update_self]
    exact heldBy_update (G p) f v
  unfold held
  rw [← hnew, ← hold, hrest, add_right_comm, hself, add_right_comm]

theorem held_insert (hp : p ∉ P) : held G (insert p P) = heldBy (G p) + held G P := Finset.sum_insert hp

theorem held_erase (hp : p ∈ P) : held G P = heldBy (G p) + held G (P.erase p) :=
  (Finset.add_sum_erase P (fun q => heldBy (G q)) hp).symm

theorem mem_held {a : Nat} (hp : p ∈ P) (ha : G p f = some a) : a ∈ held G P := by
  have hf : a ∈ heldBy (G p) := by
    refine Multiset.mem_sum.mpr ⟨f, Finset.mem_univ f, ?_⟩
    rw [ha]
    exact Multiset.mem_singleton_self a
  exact Multiset.mem_sum.mpr ⟨p, hp, hf⟩

end Fields

section Counting

/-- The references to the structures in `P`, and those in `R` to strings and timestamps. -/
def blocks (P : Finset Nat) (R : Multiset Nat) : Multiset Block := P.val.map .proginfo + R.map .leaf

theorem blocks_cons (P : Finset Nat) (R : Multiset Nat) (a : Nat) : blocks P (a ::ₘ R) = .leaf a ::ₘ blocks P R := by
  rw [blocks, Multiset.map_cons, Multiset.add_cons, blocks]

theorem blocks_insert (hp : p ∉ P) (R : Multiset Nat) : blocks (insert p P) R = .proginfo p ::ₘ blocks P R := by
  rw [blocks, Finset.insert_val, Multiset.ndinsert_of_notMem hp, Multiset.map_cons, Multiset.cons_add, blocks]

theorem leaf_mem_blocks {R : Multiset Nat} {a : Nat} : Block.leaf a ∈ blocks P R ↔ a ∈ R := by
  constructor
  · intro hm
    rcases Multiset.mem_add.mp hm with hm | hm
    · obtain ⟨q, -, he⟩ := Multiset.mem_map.mp hm
      cases he
    · obtain ⟨b, hb, he⟩ := Multiset.mem_map.mp hm
      cases he
      exact hb
  · intro ha
    exact Multiset.mem_add.mpr (.inr (Multiset.mem_map_of_mem _ ha))

theorem proginfo_mem_blocks {R : Multiset Nat} : Block.proginfo p ∈ blocks P R ↔ p ∈ P := by
  constructor
  · intro hm
    rcases Multiset.mem_add.mp hm with hm | hm
    · obtain ⟨q, hq, he⟩ := Multiset.mem_map.mp hm
      cases he
      exact hq
    · obtain ⟨b, -, he⟩ := Multiset.mem_map.mp hm
      cases he
  · intro hp
    exact Multiset.mem_add.mpr (.inl (Multiset.mem_map_of_mem _ hp))

theorem blocks_eq_zero_iff {R : Multiset Nat} : blocks P R = 0 ↔ P = ∅ ∧ R = 0 := by
  rw [blocks, add_eq_zero, Multiset.map_eq_zero, Multiset.map_eq_zero, Finset.val_eq_zero]

/-- The counts are those of the references to the structures in `P`, of the references in their fields as `G` has
them, and of `e`. The fields in the heap may differ from `G` where a pointer is left behind. -/
structure Counted (t : Nat) (P : Finset Nat) (G : Nat → Field → Option Nat) (e : Multiset Nat) (h : Heap) : Prop where
  balanced : h.refs.Balanced t (blocks P (held G P + e))
  proginfos : ∀ p ∈ P, p < h.next
  leaves : ∀ a ∈ held G P + e, a < h.next

/-- The same, with the fields of the heap. -/
def Holds (t : Nat) (P : Finset Nat) (e : Multiset Nat) (h : Heap) : Prop := Counted t P h.fields e h

/-- A function that makes a string or a timestamp: what it returns is a new reference. -/
def Makes (make : Run (Option Nat)) (ok : Bool) : Prop :=
  ∀ {t P G e h}, Counted t P G e h →
    Ensures make h fun v h' => h'.fields = h.fields ∧ v.isSome = ok ∧ Counted t P G (cells v + e) h'

theorem makes_refAlloc (mem : Bool) : Makes (refAlloc mem) mem := by
  intro t P G e h hc
  cases mem with
  | false => exact ⟨none, h, rfl, rfl, rfl, (zero_add e).symm ▸ hc⟩
  | true =>
    refine ⟨some h.next, _, rfl, rfl, rfl, ?_, fun p hp => Nat.lt_succ_of_lt (hc.proginfos p hp), ?_⟩
    · rw [cells, Multiset.singleton_add, Multiset.add_cons, blocks_cons]
      exact hc.balanced.grant fun hm => absurd (hc.leaves _ (leaf_mem_blocks.mp hm)) (lt_irrefl _)
    · intro a ha
      rw [cells, Multiset.singleton_add, Multiset.add_cons] at ha
      rcases Multiset.mem_cons.mp ha with rfl | ha
      · exact Nat.lt_succ_self _
      · exact Nat.lt_succ_of_lt (hc.leaves a ha)

theorem refRelease_ends {a : Nat} (hc : Counted t P G (a ::ₘ e) h) :
    Ensures (refRelease a) h fun _ h' => h'.fields = h.fields ∧ Counted t P G e h' := by
  have hbal := hc.balanced
  rw [Multiset.add_cons, blocks_cons] at hbal
  obtain ⟨l, hl, hb⟩ := hbal.release
  refine ⟨(), { h with refs := l }, ?_, rfl, hb, hc.proginfos, fun b hmem => hc.leaves b ?_⟩
  · rw [refRelease, hl]
    rfl
  · rw [Multiset.add_cons]
    exact Multiset.mem_cons_of_mem hmem

theorem makes_timestampFromString (valid mem : Bool) : Makes (timestampFromString valid mem) (mem && valid) := by
  intro t P G e h hc
  refine Ensures.bind (makes_refAlloc mem hc) ?_
  rintro v h' ⟨hf, hv, hc'⟩
  cases v with
  | none => exact Ensures.ret ⟨hf, by rw [← hv]; rfl, hc'⟩
  | some ts =>
    have hmem : mem = true := hv.symm
    cases valid with
    | true => exact Ensures.ret ⟨hf, by rw [hmem]; rfl, hc'⟩
    | false =>
      rw [cells, Multiset.singleton_add] at hc'
      refine Ensures.bind (refRelease_ends hc') ?_
      rintro _ h'' ⟨hf', hc''⟩
      exact Ensures.ret ⟨hf'.trans hf, by rw [Bool.and_false]; rfl, (zero_add e).symm ▸ hc''⟩

theorem refHold_ends {v : Option Nat} (hc : Counted t P G e h) (hv : ∀ a ∈ v, a ∈ held G P) :
    Ensures (refHold v) h fun w h' => w = v ∧ h'.fields = h.fields ∧ Counted t P G (cells v + e) h' := by
  cases v with
  | none => exact Ensures.ret ⟨rfl, rfl, (zero_add e).symm ▸ hc⟩
  | some a =>
    have ha := hv a rfl
    obtain ⟨l, hl, hb⟩ := hc.balanced.hold (leaf_mem_blocks.mpr (Multiset.mem_add.mpr (.inl ha)))
    refine ⟨some a, { h with refs := l }, ?_, rfl, rfl, ?_, hc.proginfos, ?_⟩
    · show (h.refs.hold (.leaf a)).map _ = _
      rw [hl]
      rfl
    · rw [cells, Multiset.singleton_add, Multiset.add_cons, blocks_cons]
      exact hb
    · intro b hb
      rw [cells, Multiset.singleton_add, Multiset.add_cons] at hb
      rcases Multiset.mem_cons.mp hb with rfl | hb
      · exact hc.leaves b (Multiset.mem_add.mpr (.inl ha))
      · exact hc.leaves b hb

/-- A reference goes into a field; the one that was there is held by nobody. -/
theorem Counted.assign {v : Option Nat} (hc : Counted t P G (cells v + e) h) (hp : p ∈ P) (f : Field) :
    Counted t P (assign G p f v) (cells (G p f) + e) h := by
  have heq : held (Refs.assign G p f v) P + (cells (G p f) + e) = held G P + (cells v + e) := by
    rw [← add_assoc, held_assign hp, add_assoc]
  exact ⟨heq ▸ hc.balanced, hc.proginfos, heq ▸ hc.leaves⟩

theorem setField_ends {v : Option Nat} (hc : Counted t P G (cells v + e) h) (hp : p ∈ P) (f : Field) :
    Ensures (setField p f v) h fun _ h' =>
      h'.fields = assign h.fields p f v ∧ Counted t P (assign G p f v) (cells (G p f) + e) h' := by
  have ha := hc.assign hp f
  exact ⟨(), _, rfl, rfl, ha.balanced, ha.proginfos, ha.leaves⟩

theorem releaseField_ends (hc : Counted t P G e h) (hp : p ∈ P) (hG : G p f = h.fields p f) :
    Ensures (releaseField p f) h fun _ h' => h'.fields = h.fields ∧ Counted t P (assign G p f none) e h' := by
  refine Ensures.bind_get ?_
  have ha := Counted.assign (v := none) ((zero_add e).symm ▸ hc) hp f
  rw [hG] at ha
  cases hf : h.fields p f with
  | none =>
    rw [hf, cells, zero_add] at ha
    exact Ensures.ret ⟨rfl, ha⟩
  | some a =>
    rw [hf, cells, Multiset.singleton_add] at ha
    exact refRelease_ends ha

theorem setMade_ends {make : Run (Option Nat)} {ok : Bool} (hm : Makes make ok) (hc : Counted t P G e h) (hp : p ∈ P)
    (hG : G p f = none) : Ensures (setMade p f make) h fun v h' =>
      h'.fields = assign h.fields p f v ∧ v.isSome = ok ∧ Counted t P (assign G p f v) e h' := by
  refine Ensures.bind (hm hc) ?_
  rintro v h₁ ⟨hf₁, hv, hc₁⟩
  refine Ensures.bind (setField_ends hc₁ hp f) ?_
  rintro _ h₂ ⟨hf₂, hc₂⟩
  rw [hG, cells, zero_add] at hc₂
  exact Ensures.ret ⟨by rw [hf₂, hf₁], hv, hc₂⟩

theorem replaceField_ends {make : Run (Option Nat)} {ok : Bool} (hm : Makes make ok) (hh : Holds t P e h) (hp : p ∈ P)
    (f : Field) : Ensures (replaceField p f make) h fun v h' =>
      Holds t P e h' ∧ h'.fields = assign h.fields p f v ∧ v.isSome = ok := by
  refine Ensures.bind (releaseField_ends hh hp rfl) ?_
  rintro _ h₁ ⟨hf₁, hc₁⟩
  refine (setMade_ends hm hc₁ hp (assign_self _ _ _ _)).mono ?_
  rintro v h₂ ⟨hf₂, hv, hc₂⟩
  rw [assign_assign] at hc₂
  rw [hf₁] at hf₂
  refine ⟨?_, hf₂, hv⟩
  rw [Holds, hf₂]
  exact hc₂

end Counting

section Receiving

/-- The step leaves no error: a timestamp needs a text that is one, and there must be memory for it. -/
def received (tok : Token) : Slot → Bool
  | .datetime _ => tok.err = 0 && tok.mem
  | .timestamp _ => tok.err = 0 && (tok.short || (tok.mem && tok.valid))
  | _ => tok.err = 0

/-- The fields that a step assigns, in order, and whether what it assigns is not NULL. -/
def writes (version : Nat) (tok : Token) (s : Slot) : List (Field × Bool) :=
  if tok.err ≠ 0 then []
  else
    match s with
    | .string f => [(.string f, tok.mem)]
    | .stars => [(.string .stars, tok.mem)]
    | .icon =>
      if 8 ≤ version then [(.string .chanicon, tok.mem), (.string .channame, tok.mem')]
      else [(.string .channame, tok.mem), (.string .chanicon, tok.mem')]
    | .datetime f => [(.stamp f, tok.mem)]
    | .timestamp f => if tok.short then [] else [(.stamp f, tok.mem && tok.valid)]
    | .chanId | .ulong _ | .long _ | .ushort _ | .length => []

/-- The fields after these assignments. -/
inductive Assigned (p : Nat) : List (Field × Bool) → (Nat → Field → Option Nat) → (Nat → Field → Option Nat) → Prop where
  | nil {G : Nat → Field → Option Nat} : Assigned p [] G G
  | cons {G G' : Nat → Field → Option Nat} {f : Field} {ws : List (Field × Bool)} (v : Option Nat) :
      Assigned p ws (assign G p f v) G' → Assigned p ((f, v.isSome) :: ws) G G'

theorem Assigned.one {v : Option Nat} {ok : Bool} (hv : v.isSome = ok) : Assigned p [(f, ok)] G (assign G p f v) :=
  hv ▸ .cons v .nil

theorem Assigned.two {g : Field} {v w : Option Nat} {ok ok' : Bool} (hv : v.isSome = ok) (hw : w.isSome = ok') :
    Assigned p [(f, ok), (g, ok')] G (assign (assign G p f v) p g w) :=
  hv ▸ hw ▸ .cons v (.cons w .nil)

/-- A field that is not assigned stays. -/
theorem Assigned.of_notMem {ws : List (Field × Bool)} {G' : Nat → Field → Option Nat} (ha : Assigned p ws G G')
    (hf : f ∉ ws.map Prod.fst) : G' p f = G p f := by
  induction ha with
  | nil => rfl
  | cons v _ ih =>
    rw [List.map_cons, List.mem_cons, not_or] at hf
    rw [ih hf.2, assign_of_ne _ _ _ hf.1]

theorem rcvText_ends (hh : Holds t P e h) (hp : p ∈ P) (f : StringField) (tok : Token) :
    Ensures (rcvText p f tok) h fun err h' => Holds t P e h' ∧ (err = 0 ↔ tok.err = 0) ∧
      Assigned p (if tok.err ≠ 0 then [] else [(.string f, tok.mem)]) h.fields h'.fields := by
  unfold rcvText
  split
  · exact Ensures.ret ⟨hh, Iff.rfl, .nil⟩
  · rename_i he
    refine Ensures.bind (replaceField_ends (makes_refAlloc tok.mem) hh hp (.string f)) ?_
    rintro v h' ⟨hh', hf, hv⟩
    exact Ensures.ret ⟨hh', by simp [not_not.mp he], hf ▸ .one hv⟩

theorem rcvStamp_ends {make : Run (Option Nat)} {ok : Bool} (hm : Makes make ok) (hh : Holds t P e h) (hp : p ∈ P)
    (f : StampField) : Ensures (rcvStamp p f make) h fun err h' =>
      Holds t P e h' ∧ (err = 0 ↔ ok = true) ∧ Assigned p [(.stamp f, ok)] h.fields h'.fields := by
  refine Ensures.bind (replaceField_ends hm hh hp (.stamp f)) ?_
  rintro v h' ⟨hh', hf, hv⟩
  refine Ensures.ret ⟨hh', ?_, hf ▸ .one hv⟩
  rw [← hv]
  cases v with
  | none => simp [EINVAL]
  | some a => simp

/-- Two fields that have been released are set. -/
theorem setTwo_ends {g : Field} (hfg : f ≠ g) (hG : h.fields = G) (hc : Counted t P (assign (assign G p f none) p g none) e h)
    (hp : p ∈ P) (mem mem' : Bool) : Ensures (do
      let _ ← setMade p f (refAlloc mem)
      let _ ← setMade p g (refAlloc mem')
      return (0 : Int)) h fun err h' => err = 0 ∧ Holds t P e h' ∧ Assigned p [(f, mem), (g, mem')] G h'.fields := by
  refine Ensures.bind (setMade_ends (makes_refAlloc mem) hc hp ?_) ?_
  · rw [assign_of_ne _ _ _ hfg, assign_self]
  rintro v h₁ ⟨hf₁, hv, hc₁⟩
  refine Ensures.bind (setMade_ends (makes_refAlloc mem') hc₁ hp ?_) ?_
  · rw [assign_of_ne _ _ _ hfg.symm, assign_self]
  rintro w h₂ ⟨hf₂, hw, hc₂⟩
  rw [hf₁, hG] at hf₂
  rw [assign_comm _ _ _ _ hfg, assign_assign, assign_assign] at hc₂
  refine Ensures.ret ⟨rfl, ?_, hf₂ ▸ .two hv hw⟩
  rw [Holds, hf₂]
  exact hc₂

theorem rcvIcon_ends (hh : Holds t P e h) (hp : p ∈ P) (version : Nat) (tok : Token) :
    Ensures (rcvIcon version p tok) h fun err h' => Holds t P e h' ∧ (err = 0 ↔ tok.err = 0) ∧
      Assigned p (writes version tok .icon) h.fields h'.fields := by
  unfold rcvIcon writes
  split
  · exact Ensures.ret ⟨hh, Iff.rfl, .nil⟩
  rename_i he
  have hne : Field.string .chanicon ≠ .string .channame := by decide
  refine Ensures.bind (releaseField_ends hh hp rfl) ?_
  rintro _ h₁ ⟨hf₁, hc₁⟩
  have hname : assign h.fields p (.string .chanicon) none p (.string .channame) = h₁.fields p (.string .channame) := by
    rw [assign_of_ne _ _ _ hne.symm, hf₁]
  refine Ensures.bind (releaseField_ends hc₁ hp hname) ?_
  rintro _ h₂ ⟨hf₂, hc₂⟩
  have hf := hf₂.trans hf₁
  -- the order in which the two are set depends on the version
  split
  · refine (setTwo_ends hne hf hc₂ hp tok.mem tok.mem').mono ?_
    rintro _ h₃ ⟨rfl, hh₃, ha⟩
    exact ⟨hh₃, by simp [not_not.mp he], ha⟩
  · rw [assign_comm _ _ _ _ hne.symm] at hc₂
    refine (setTwo_ends hne.symm hf hc₂ hp tok.mem tok.mem').mono ?_
    rintro _ h₃ ⟨rfl, hh₃, ha⟩
    exact ⟨hh₃, by simp [not_not.mp he], ha⟩

theorem rcvSlot_ends (hh : Holds t P e h) (hp : p ∈ P) (version : Nat) (tok : Token) (s : Slot) :
    Ensures (rcvSlot version p tok s) h fun err h' => Holds t P e h' ∧ (err = 0 ↔ received tok s = true) ∧
      Assigned p (writes version tok s) h.fields h'.fields := by
  have hnumber : Ensures (pure tok.err : Run Int) h fun err h' => Holds t P e h' ∧
      (err = 0 ↔ decide (tok.err = 0) = true) ∧ Assigned p (if tok.err ≠ 0 then [] else []) h.fields h'.fields :=
    Ensures.ret ⟨hh, decide_eq_true_iff.symm, (ite_self []).symm ▸ .nil⟩
  cases s with
  | string f =>
    refine (rcvText_ends hh hp f tok).mono fun err h' hs => ?_
    exact ⟨hs.1, hs.2.1.trans decide_eq_true_iff.symm, hs.2.2⟩
  | stars =>
    refine (rcvText_ends hh hp .stars tok).mono fun err h' hs => ?_
    exact ⟨hs.1, hs.2.1.trans decide_eq_true_iff.symm, hs.2.2⟩
  | icon =>
    refine (rcvIcon_ends hh hp version tok).mono fun err h' hs => ?_
    exact ⟨hs.1, hs.2.1.trans decide_eq_true_iff.symm, hs.2.2⟩
  | datetime f =>
    rw [rcvSlot, writes, received]
    split
    · rename_i he
      exact Ensures.ret ⟨hh, by simp [he], .nil⟩
    · rename_i he
      rw [decide_eq_true (not_not.mp he), Bool.true_and]
      exact rcvStamp_ends (makes_refAlloc tok.mem) hh hp f
  | timestamp f =>
    rw [rcvSlot, writes, received]
    split
    · rename_i he
      exact Ensures.ret ⟨hh, by simp [he], .nil⟩
    rename_i he
    rw [decide_eq_true (not_not.mp he), Bool.true_and]
    split
    · rename_i hs
      exact Ensures.ret ⟨hh, by simp [hs], .nil⟩
    · rename_i hs
      rw [Bool.eq_false_iff.mpr hs, Bool.false_or]
      exact rcvStamp_ends (makes_timestampFromString tok.valid tok.mem) hh hp f
  | chanId | ulong f | long f | ushort f | length => exact hnumber

/-- Only a url takes the place of the url. -/
theorem url_notMem_writes {s : Slot} (hs : s ≠ .string .url) (version : Nat) (tok : Token) :
    Field.string .url ∉ (writes version tok s).map Prod.fst := by
  unfold writes
  split
  · exact List.not_mem_nil
  cases s with
  | string f =>
    intro hm
    have hf : Field.string .url = .string f := List.mem_singleton.mp hm
    cases hf
    exact hs rfl
  | icon =>
    dsimp only
    split <;> simp
  | timestamp f =>
    dsimp only
    split <;> simp
  | _ => simp

theorem rcvAll_ends {α : Type} {rcv : Token → α → Run Int} {I : Heap → Prop}
    (hr : ∀ tok c h, I h → Ensures (rcv tok c) h fun _ h' => I h') (cs : List α) (tokens : Nat → Token) (hI : I h) :
    Ensures (rcvAll rcv cs tokens) h fun _ h' => I h' := by
  induction cs generalizing h tokens with
  | nil => exact Ensures.ret hI
  | cons c cs ih =>
    refine Ensures.bind (hr (tokens 0) c h hI) ?_
    intro err h' hI'
    split
    · exact Ensures.ret hI'
    · exact ih (fun i => tokens (i + 1)) hI'

theorem parseUrl_ends (hh : Holds t P e h) (hp : p ∈ P) (u : Url) :
    Ensures (parseUrl p u) h fun _ h' => Holds t P e h' ∧ Assigned p
      (if h.fields p (.string .url) = none ∨ u.skip then [] else [(.string .host, u.host), (.string .pathname, u.path)])
      h.fields h'.fields := by
  refine Ensures.bind_get ?_
  split
  · exact Ensures.ret ⟨hh, .nil⟩
  · refine Ensures.bind (replaceField_ends (makes_refAlloc u.host) hh hp (.string .host)) ?_
    rintro v h₁ ⟨hh₁, hf₁, hv⟩
    refine Ensures.bind (replaceField_ends (makes_refAlloc u.path) hh₁ hp (.string .pathname)) ?_
    rintro w h₂ ⟨hh₂, hf₂, hw⟩
    rw [hf₁] at hf₂
    exact Ensures.ret ⟨hh₂, hf₂ ▸ .two hv hw⟩

theorem rcvProginfo_ends (hh : Holds t P e h) (hp : p ∈ P) (msg : Message) :
    Ensures (rcvProginfo p msg) h fun _ h' => Holds t P e h' := by
  have hstep (tok : Token) (s : Slot) (h : Heap) (hh : Holds t P e h) :
      Ensures (rcvSlot msg.version p tok s) h fun _ h' => Holds t P e h' :=
    (rcvSlot_ends hh hp msg.version tok s).mono fun _ _ hs => hs.1
  refine Ensures.bind (rcvAll_ends hstep (slots msg.version) msg.tokens hh) ?_
  intro err h' hh'
  split
  · exact Ensures.ret hh'
  · exact Ensures.bind (parseUrl_ends hh' hp msg.url) fun _ _ hu => Ensures.ret hu.1

/-- The tokens are received as far as the one for which the url is set to NULL. -/
def urlReached : List ChanSlot → (Nat → Token) → Bool
  | [], _ => false
  | .url :: _, tokens => (tokens 0).err = 0
  | .skip :: cs, tokens => (tokens 0).err = 0 && urlReached cs fun i => tokens (i + 1)
  | .slot s :: cs, tokens => received (tokens 0) s && urlReached cs fun i => tokens (i + 1)

/-- What receiving channel information loses: the url. -/
def lostUrl (tokens : Nat → Token) (cs : List ChanSlot) (url : Option Nat) : Multiset Nat :=
  if urlReached cs tokens then cells url else 0

theorem rcvChanSlots_ends {cs : List ChanSlot} (hcs : ChanSlot.slot (.string .url) ∉ cs) (tokens : Nat → Token)
    (hh : Holds t P e h) (hp : p ∈ P) : Ensures (rcvAll (rcvChanSlot p) cs tokens) h fun _ h' =>
      Holds t P (lostUrl tokens cs (h.fields p (.string .url)) + e) h' := by
  induction cs generalizing h e tokens with
  | nil => exact Ensures.ret ((zero_add e).symm ▸ hh)
  | cons c cs ih =>
    have hrest : ChanSlot.slot (.string .url) ∉ cs := fun hm => hcs (List.mem_cons_of_mem c hm)
    cases c with
    | slot s =>
      have hs : s ≠ .string .url := fun he => hcs (he ▸ List.mem_cons_self)
      refine Ensures.bind (rcvSlot_ends hh hp 0 (tokens 0) s) ?_
      rintro err h' ⟨hh', herr, ha⟩
      have hr := ha.of_notMem (url_notMem_writes hs 0 (tokens 0))
      split
      · rename_i he
        refine Ensures.ret ?_
        have hn : received (tokens 0) s = false := by simpa [herr] using he
        rw [lostUrl, urlReached, hn, Bool.false_and, if_neg Bool.false_ne_true, zero_add]
        exact hh'
      · rename_i he
        have hn : received (tokens 0) s = true := herr.mp (not_not.mp he)
        rw [lostUrl, urlReached, hn, Bool.true_and, ← hr]
        exact ih hrest _ hh'
    | skip =>
      refine Ensures.bind (Ensures.ret (P := fun err h' => err = (tokens 0).err ∧ h' = h) ⟨rfl, rfl⟩) ?_
      rintro _ _ ⟨rfl, rfl⟩
      split
      · rename_i he
        refine Ensures.ret ?_
        rw [lostUrl, urlReached, decide_eq_false he, Bool.false_and, if_neg Bool.false_ne_true, zero_add]
        exact hh
      · rename_i he
        rw [lostUrl, urlReached, decide_eq_true (not_not.mp he), Bool.true_and]
        exact ih hrest _ hh
    | url =>
      by_cases he : (tokens 0).err = 0
      · have hset : Ensures (rcvChanSlot p (tokens 0) .url) h fun err h' => err = 0 ∧
            h'.fields p (.string .url) = none ∧ Holds t P (cells (h.fields p (.string .url)) + e) h' := by
          unfold rcvChanSlot
          rw [if_neg (not_not.mpr he)]
          refine Ensures.bind (setField_ends (v := none) ((zero_add e).symm ▸ hh) hp (.string .url)) ?_
          rintro _ h' ⟨hf, hc⟩
          refine Ensures.ret ⟨rfl, by rw [hf, assign_self], ?_⟩
          rw [Holds, hf]
          exact hc
        refine Ensures.bind hset ?_
        rintro err h' ⟨rfl, hnone, hh'⟩
        have hrun := ih hrest (fun i => tokens (i + 1)) hh'
        have hz : lostUrl (fun i => tokens (i + 1)) cs none = 0 := ite_self 0
        rw [hnone, hz, zero_add] at hrun
        rw [lostUrl, urlReached, decide_eq_true he, if_pos rfl]
        exact hrun
      · have hstop : Ensures (rcvChanSlot p (tokens 0) .url) h fun err h' => err ≠ 0 ∧ h' = h := by
          unfold rcvChanSlot
          rw [if_pos he]
          exact Ensures.ret ⟨he, rfl⟩
        refine Ensures.bind hstop ?_
        rintro err _ ⟨herr, rfl⟩
        rw [if_pos herr, lostUrl, urlReached, decide_eq_false he, if_neg Bool.false_ne_true, zero_add]
        exact Ensures.ret hh

theorem rcvChaninfo_ends (hh : Holds t P e h) (hp : p ∈ P) (tokens : Nat → Token) :
    Ensures (rcvChaninfo p tokens) h fun _ h' =>
      Holds t P (lostUrl tokens chanSlots (h.fields p (.string .url)) + e) h' :=
  rcvChanSlots_ends (by decide) tokens hh hp

end Receiving

section Lifetime

/-- The fields in `fs` are still to be released. -/
structure Leaving (t : Nat) (P : Finset Nat) (R : Multiset Nat) (h : Heap) (p : Nat) (fs : List Field) (h' : Heap) : Prop where
  balanced : h'.refs.Balanced t (blocks P (R + (fs.map fun f => cells (h.fields p f)).sum))
  fields : h'.fields = h.fields
  next : h'.next = h.next

theorem leaving_step {R : Multiset Nat} {fs : List Field} {h' : Heap} (hl : Leaving t P R h p (f :: fs) h') :
    Ensures (releaseField p f) h' fun _ h'' => Leaving t P R h p fs h'' := by
  refine Ensures.bind_get ?_
  have hb := hl.balanced
  rw [List.map_cons, List.sum_cons] at hb
  rw [hl.fields]
  cases hf : h.fields p f with
  | none =>
    rw [hf, cells, zero_add] at hb
    exact Ensures.ret ⟨hb, hl.fields, hl.next⟩
  | some a =>
    rw [hf, cells, Multiset.singleton_add, Multiset.add_cons, blocks_cons] at hb
    obtain ⟨l, hrel, hb'⟩ := hb.release
    refine ⟨(), { h' with refs := l }, ?_, hb', hl.fields, hl.next⟩
    show (h'.refs.release (.leaf a)).map _ = _
    rw [hrel]
    rfl

theorem proginfoRelease_ends (hh : Holds t P e h) (hp : p ∈ P) :
    Ensures (proginfoRelease p) h fun _ h' => Holds t (P.erase p) e h' := by
  have hleaves : held h.fields P + e = (held h.fields (P.erase p) + e) + heldBy (h.fields p) := by
    rw [held_erase hp, add_comm (heldBy _), add_right_comm]
  have hbal := hh.balanced
  rw [hleaves, ← Finset.insert_erase hp, blocks_insert (Finset.notMem_erase p P), Finset.erase_insert (Finset.notMem_erase p P)] at hbal
  obtain ⟨l, hrel, hb⟩ := hbal.release
  have hzero : l.count (.proginfo p) = 0 := by
    rw [hb.counts, Multiset.count_eq_zero, proginfo_mem_blocks]
    exact Finset.notMem_erase p P
  have hstart : Leaving t (P.erase p) (held h.fields (P.erase p) + e) h p destroyOrder { h with refs := l } :=
    ⟨hb, rfl, rfl⟩
  obtain ⟨_, h', hrun, hl⟩ := Ensures.forM (fun _ _ _ => leaving_step) destroyOrder hstart
  refine ⟨(), h', ?_, ?_, ?_, ?_⟩
  · show (h.refs.release (.proginfo p)).bind _ = _
    rw [hrel, Option.bind_some, if_pos hzero]
    exact hrun
  · have hb' := hl.balanced
    rw [List.map_nil, List.sum_nil, add_zero] at hb'
    rw [hl.fields]
    exact hb'
  · intro q hq
    rw [hl.next]
    exact hh.proginfos q (Finset.mem_of_mem_erase hq)
  · intro a ha
    rw [hl.next]
    refine hh.leaves a ?_
    rw [hl.fields] at ha
    rw [held_erase hp, add_assoc]
    exact Multiset.mem_add.mpr (.inr ha)

/-- There is memory for all that `cmyth_proginfo_create` allocates. -/
def Mem.enough (mem : Mem) : Bool := mem.block && createOrder.all mem.stamp

theorem createStamps_ends {fs : List StampField} (hnd : fs.Nodup) (mem : Mem) (hh : Holds t P e h) (hp : p ∈ P)
    (hnone : ∀ f ∈ fs, h.fields p (.stamp f) = none) : Ensures (createStamps mem p fs) h fun ok h' =>
      Holds t P e h' ∧ ok = fs.all mem.stamp ∧
        (ok = true → ∀ f, f ∈ fs ∨ (h.fields p (.stamp f)).isSome → (h'.fields p (.stamp f)).isSome) := by
  induction fs generalizing h with
  | nil => exact Ensures.ret ⟨hh, rfl, fun _ f hf => hf.resolve_left List.not_mem_nil⟩
  | cons f fs ih =>
    obtain ⟨hf, hnd⟩ := List.nodup_cons.mp hnd
    refine Ensures.bind (setMade_ends (makes_refAlloc (mem.stamp f)) hh hp (hnone f List.mem_cons_self)) ?_
    rintro ts h' ⟨hf', hts, hc⟩
    have hh' : Holds t P e h' := by
      rw [Holds, hf']
      exact hc
    cases ts with
    | none =>
      refine Ensures.ret ⟨hh', ?_, fun hc => absurd hc Bool.false_ne_true⟩
      rw [List.all_cons, ← hts]
      rfl
    | some a =>
      have hother (g : StampField) (hg : g ≠ f) : h'.fields p (.stamp g) = h.fields p (.stamp g) := by
        rw [hf', assign_of_ne]
        exact fun hc => hg (Field.stamp.inj hc)
      have hself : (h'.fields p (.stamp f)).isSome := by
        rw [hf', assign_self]
        rfl
      refine (ih hnd hh' fun g hg => ?_).mono ?_
      · rw [hother g fun he => hf (he ▸ hg)]
        exact hnone g (List.mem_cons_of_mem f hg)
      rintro ok h'' ⟨hh'', hok, hset⟩
      refine ⟨hh'', ?_, fun htrue g hg => ?_⟩
      · rw [hok, List.all_cons, ← hts]
        rfl
      by_cases hgf : g = f
      · exact hset htrue g (.inr (hgf ▸ hself))
      · refine hset htrue g (hg.imp (fun hm => (List.mem_cons.mp hm).resolve_left hgf) fun hs => ?_)
        rw [hother g hgf]
        exact hs

theorem alloc_ends (hh : Holds t P e h) (mem : Bool) : Ensures (allocProginfo mem) h fun r h' =>
    r.isSome = mem ∧ (r = none → h' = h) ∧ ∀ p ∈ r, p ∉ P ∧ h'.fields p = (fun _ => none) ∧ Holds t (insert p P) e h' := by
  cases mem with
  | false => exact ⟨none, h, rfl, rfl, fun _ => rfl, by simp⟩
  | true =>
    have hfresh : h.next ∉ P := fun hm => absurd (hh.proginfos _ hm) (lt_irrefl _)
    refine ⟨some h.next, _, rfl, rfl, nofun, ?_⟩
    rintro p hp
    cases hp
    have hempty : Function.update h.fields h.next (fun _ => none) h.next = fun _ => none := Function.update_self ..
    have hheld : held (Function.update h.fields h.next fun _ => none) (insert h.next P) = held h.fields P := by
      have hnew : heldBy (fun _ => none) = 0 := Finset.sum_const_zero
      rw [held_insert hfresh, hempty, hnew, zero_add]
      refine Finset.sum_congr rfl fun q hq => ?_
      have hne : q ≠ h.next := fun he => hfresh (he ▸ hq)
      rw [Function.update_of_ne hne]
    refine ⟨hfresh, hempty, ?_, ?_, ?_⟩
    · rw [hheld, blocks_insert hfresh]
      exact hh.balanced.grant fun hm => hfresh (proginfo_mem_blocks.mp hm)
    · intro q hq
      rcases Finset.mem_insert.mp hq with rfl | hq
      · exact Nat.lt_succ_self _
      · exact Nat.lt_succ_of_lt (hh.proginfos q hq)
    · intro a ha
      rw [hheld] at ha
      exact Nat.lt_succ_of_lt (hh.leaves a ha)

/-- A call that returns a reference, or NULL: what is in use after it. -/
structure Returned (t : Nat) (P : Finset Nat) (e : Multiset Nat) (r : Option Nat) (h : Heap) (Q : Finset Nat) : Prop where
  val : Q.val = Sys.gain P.val r
  mem : ∀ p ∈ r, p ∈ Q
  holds : Holds t Q e h

theorem returned_none (hh : Holds t P e h) : Returned t P e none h P := ⟨rfl, nofun, hh⟩

theorem returned_some (hp : p ∉ P) (hh : Holds t (insert p P) e h) : Returned t P e (some p) h (insert p P) := by
  refine ⟨?_, ?_, hh⟩
  · rw [Finset.insert_val, Multiset.ndinsert_of_notMem hp]
    rfl
  · rintro q hq
    cases hq
    exact Finset.mem_insert_self p P

theorem create_ends (hh : Holds t P e h) (mem : Mem) : Ensures (proginfoCreate mem) h fun r h' =>
    r.isSome = mem.enough ∧ (∃ Q, Returned t P e r h' Q) ∧ ∀ p ∈ r, (h'.fields p (.stamp .startTs)).isSome := by
  refine Ensures.bind (alloc_ends hh mem.block) ?_
  rintro r h₁ ⟨hr, hnone, hsome⟩
  cases r with
  | none =>
    refine Ensures.ret ⟨?_, ⟨P, returned_none (hnone rfl ▸ hh)⟩, nofun⟩
    rw [Mem.enough, ← hr]
    rfl
  | some p =>
    obtain ⟨hfresh, hempty, hh₁⟩ := hsome p rfl
    have hp : p ∈ insert p P := Finset.mem_insert_self p P
    have hnd : createOrder.Nodup := by decide
    refine Ensures.bind (createStamps_ends hnd mem hh₁ hp fun f _ => ?_) ?_
    · rw [hempty]
    rintro ok h₃ ⟨hh₃, hok, hset⟩
    have henough : mem.enough = ok := by
      rw [Mem.enough, ← hr, hok]
      rfl
    split
    · rename_i htrue
      refine Ensures.ret ⟨?_, ⟨_, returned_some hfresh hh₃⟩, ?_⟩
      · rw [henough, htrue]
        rfl
      · rintro q hq
        cases hq
        exact hset htrue _ (.inl (by decide))
    · rename_i hfalse
      refine Ensures.bind (proginfoRelease_ends hh₃ hp) ?_
      intro _ h₄ hh₄
      rw [Finset.erase_insert hfresh] at hh₄
      refine Ensures.ret ⟨?_, ⟨P, returned_none hh₄⟩, nofun⟩
      rw [henough, Bool.eq_false_iff.mpr hfalse]
      rfl

/-- The copies of the fields in `fs` take the place of what `ret` has there. -/
theorem copyFields_ends {ret : Nat} {fs : List Field} (hnd : fs.Nodup) (hh : Holds t P e h) (hp : p ∈ P) (hr : ret ∈ P) :
    Ensures (fs.forM (copyField p ret)) h fun _ h' => Holds t P ((fs.map fun f => cells (h.fields ret f)).sum + e) h' := by
  induction fs generalizing h e with
  | nil => exact Ensures.ret ((zero_add e).symm ▸ hh)
  | cons f fs ih =>
    obtain ⟨hf, hnd⟩ := List.nodup_cons.mp hnd
    have hcopy : Ensures (copyField p ret f) h fun _ h' => h'.fields = assign h.fields ret f (h.fields p f) ∧
        Holds t P (cells (h.fields ret f) + e) h' := by
      refine Ensures.bind_get ?_
      refine Ensures.bind (refHold_ends hh fun a ha => mem_held hp ha) ?_
      rintro _ h₁ ⟨rfl, hf₁, hc₁⟩
      refine (setField_ends hc₁ hr f).mono ?_
      rintro _ h₂ ⟨hf₂, hc₂⟩
      rw [hf₁] at hf₂
      refine ⟨hf₂, ?_⟩
      rw [Holds, hf₂]
      exact hc₂
    refine Ensures.bind hcopy ?_
    rintro _ h' ⟨hf', hh'⟩
    refine (ih hnd hh').mono fun _ h'' hh'' => ?_
    have hrest : fs.map (fun g => cells (h'.fields ret g)) = fs.map fun g => cells (h.fields ret g) := by
      refine List.map_congr_left fun g hg => ?_
      have hne : g ≠ f := fun he => hf (he ▸ hg)
      rw [hf', assign_of_ne _ _ _ hne]
    rw [hrest, ← add_assoc, add_comm _ (cells _)] at hh''
    rw [List.map_cons, List.sum_cons]
    exact hh''

/-- A duplicate loses the timestamps that it was created with. -/
theorem dup_ends (hh : Holds t P e h) (hp : p ∈ P) (mem : Mem) : Ensures (proginfoDup mem p) h fun r h' =>
    r.isSome = mem.enough ∧ ∃ Q lost, Returned t P (lost + e) r h' Q ∧ (lost = 0 ↔ r = none) := by
  refine Ensures.bind (create_ends hh mem) ?_
  rintro r h' ⟨hr, ⟨Q, hQ⟩, hstart⟩
  cases r with
  | none => exact Ensures.ret ⟨hr, Q, 0, (zero_add e).symm ▸ hQ, by simp⟩
  | some ret =>
    have hpQ : p ∈ Q := by
      rw [← Finset.mem_val, hQ.val]
      exact Multiset.mem_cons_of_mem hp
    have hnd : dupOrder.Nodup := by decide
    refine Ensures.bind (copyFields_ends hnd hQ.holds hpQ (hQ.mem ret rfl)) ?_
    intro _ h'' hh''
    refine Ensures.ret ⟨hr, Q, _, ⟨hQ.val, hQ.mem, hh''⟩, fun hz => ?_, nofun⟩
    obtain ⟨a, ha⟩ := Option.isSome_iff_exists.mp (hstart ret rfl)
    have hsum : (dupOrder.map fun f => cells (h'.fields ret f)).sum =
        cells (h'.fields ret (.stamp .startTs)) + (dupOrder.tail.map fun f => cells (h'.fields ret f)).sum := rfl
    rw [hsum, ha] at hz
    exact absurd (add_eq_zero.mp hz).1 (Multiset.singleton_ne_zero a)

theorem fill_ends (hh : Holds t P e h) (hp : p ∈ P) (c : Control) :
    Ensures (proginfoFill c p) h fun _ h' => Holds t P e h' := by
  unfold proginfoFill
  split
  · exact Ensures.ret hh
  split
  · exact Ensures.ret hh
  split
  · exact Ensures.ret hh
  refine Ensures.bind (rcvProginfo_ends hh hp c.answer) ?_
  intro err h' hh'
  split
  · exact Ensures.ret hh'
  split
  · exact Ensures.ret hh'
  · exact Ensures.ret hh'

theorem getDetail_ends (hh : Holds t P e h) (hp : p ∈ P) (mem : Mem) (c : Control) :
    Ensures (proginfoGetDetail mem c p) h fun r h' => ∃ Q lost, Returned t P (lost + e) r h' Q := by
  refine Ensures.bind (dup_ends hh hp mem) ?_
  rintro r h₁ ⟨-, Q, lost, hQ, -⟩
  cases r with
  | none => exact Ensures.ret ⟨Q, lost, hQ⟩
  | some ret =>
    have hret := hQ.mem ret rfl
    refine Ensures.bind (fill_ends hQ.holds hret c) ?_
    intro res h₂ hh₂
    split
    · refine Ensures.bind (proginfoRelease_ends hh₂ hret) fun _ h₃ hh₃ => ?_
      refine Ensures.ret ⟨Q.erase ret, lost, ?_, nofun, hh₃⟩
      rw [Finset.erase_val, hQ.val]
      exact Multiset.erase_cons_head ret P.val
    · exact Ensures.ret ⟨Q, lost, hQ.val, hQ.mem, hh₂⟩

end Lifetime

section Runs

/-- A call that loses nothing. -/
def Sys.Lossless (s : Sys) : Op → Prop
  | .dup mem _ => mem.enough = false
  | .getDetail _ _ _ => False
  | .rcvChaninfo p tokens => s.heap.fields p (.string .url) = none ∨ urlReached chanSlots tokens = false
  | _ => True

/-- `w` references are lost: to program information that is nobody's, in `A`, or of strings and timestamps. -/
def Inv (t w : Nat) (s : Sys) : Prop :=
  ∃ (P : Finset Nat) (A e : Multiset Nat), P.val = s.owned + A ∧ A.card + e.card = w ∧ Holds t P e s.heap

theorem inv_start (t : Nat) : Inv t 0 (start t) := by
  refine ⟨∅, 0, 0, rfl, rfl, ⟨fun b => ?_, rfl⟩, nofun, nofun⟩
  exact (Multiset.count_zero b).symm

theorem gain_add (R A : Multiset Nat) (r : Option Nat) : Sys.gain (R + A) r = Sys.gain R r + A := by
  cases r with
  | none => rfl
  | some p => exact (Multiset.cons_add p R A).symm

theorem lostUrl_eq_zero_iff (tokens : Nat → Token) (url : Option Nat) :
    lostUrl tokens chanSlots url = 0 ↔ url = none ∨ urlReached chanSlots tokens = false := by
  unfold lostUrl
  cases urlReached chanSlots tokens with
  | false => simp
  | true =>
    cases url with
    | none => simp [cells]
    | some a => simp [cells]

/-- A call goes well, and what is lost is lost for good. -/
theorem step_inv {w : Nat} {s : Sys} {op : Op} (hi : Inv t w s) (ha : s.Allowed op) :
    ∃ s' w', s.step op = some s' ∧ Inv t w' s' ∧ w ≤ w' ∧ (w' = w ↔ s.Lossless op) := by
  obtain ⟨P, A, e, hP, hw, hh⟩ := hi
  have hmem (p : Nat) (hp : p ∈ s.owned) : p ∈ P := by
    rw [← Finset.mem_val, hP]
    exact Multiset.mem_add.mpr (.inl hp)
  have hlose (lost : Multiset Nat) : A.card + (lost + e).card = w + lost.card := by
    rw [Multiset.card_add]
    omega
  cases op with
  | create mem =>
    obtain ⟨r, h', hrun, -, ⟨Q, hQ⟩, -⟩ := create_ends hh mem
    refine ⟨⟨h', Sys.gain s.owned r⟩, w, ?_, ⟨Q, A, e, ?_, hw, hQ.holds⟩, le_rfl, by simp [Sys.Lossless]⟩
    · rw [Sys.step, hrun]
      rfl
    · rw [hQ.val, hP, gain_add]
  | rcvProginfo p msg =>
    obtain ⟨r, h', hrun, hh'⟩ := rcvProginfo_ends hh (hmem p (ha p rfl)) msg
    refine ⟨⟨h', s.owned⟩, w, ?_, ⟨P, A, e, hP, hw, hh'⟩, le_rfl, by simp [Sys.Lossless]⟩
    rw [Sys.step, hrun]
    rfl
  | rcvChaninfo p tokens =>
    obtain ⟨r, h', hrun, hh'⟩ := rcvChaninfo_ends hh (hmem p (ha p rfl)) tokens
    refine ⟨⟨h', s.owned⟩, _, ?_, ⟨P, A, _, hP, hlose _, hh'⟩, Nat.le_add_right _ _, ?_⟩
    · rw [Sys.step, hrun]
      rfl
    · rw [Nat.add_eq_left, Multiset.card_eq_zero, lostUrl_eq_zero_iff]
      rfl
  | dup mem p =>
    obtain ⟨r, h', hrun, hr, Q, lost, hQ, hlost⟩ := dup_ends hh (hmem p (ha p rfl)) mem
    refine ⟨⟨h', Sys.gain s.owned r⟩, _, ?_, ⟨Q, A, _, ?_, hlose _, hQ.holds⟩, Nat.le_add_right _ _, ?_⟩
    · rw [Sys.step, hrun]
      rfl
    · rw [hQ.val, hP, gain_add]
    · rw [Nat.add_eq_left, Multiset.card_eq_zero, hlost, Sys.Lossless, ← hr]
      cases r <;> simp
  | getDetail mem c p =>
    have hp := ha p rfl
    obtain ⟨r, h', hrun, Q, lost, hQ⟩ := getDetail_ends hh (hmem p hp) mem c
    refine ⟨⟨h', Sys.gain (s.owned.erase p) r⟩, w + lost.card + 1, ?_, ⟨Q, p ::ₘ A, _, ?_, ?_, hQ.holds⟩, by omega, ?_⟩
    · rw [Sys.step, hrun]
      rfl
    · have hback : s.owned.erase p + p ::ₘ A = s.owned + A := by
        rw [Multiset.add_cons, ← Multiset.cons_add, Multiset.cons_erase hp]
      rw [hQ.val, hP, ← hback, gain_add]
    · rw [Multiset.card_cons, add_right_comm, hlose]
    · simp only [Sys.Lossless, iff_false]
      omega
  | release p =>
    have hp := ha p rfl
    obtain ⟨r, h', hrun, hh'⟩ := proginfoRelease_ends hh (hmem p hp)
    refine ⟨⟨h', s.owned.erase p⟩, w, ?_, ⟨P.erase p, A, e, ?_, hw, hh'⟩, le_rfl, by simp [Sys.Lossless]⟩
    · rw [Sys.step, hrun]
      rfl
    · rw [Finset.erase_val, hP, Multiset.erase_add_left_pos A hp]

theorem run_inv {w : Nat} {s : Sys} {ops : List Op} (hi : Inv t w s) (ha : Sys.Along Sys.Allowed ops s) :
    ∃ s' w', s.run ops = some s' ∧ Inv t w' s' ∧ w ≤ w' ∧ (w' = w ↔ Sys.Along Sys.Lossless ops s) := by
  induction ops generalizing w s with
  | nil => exact ⟨s, w, rfl, hi, le_rfl, by simp [Sys.Along]⟩
  | cons op ops ih =>
    obtain ⟨hop, hrest⟩ := ha
    obtain ⟨s₁, w₁, hs₁, hi₁, hle₁, hiff₁⟩ := step_inv hi hop
    obtain ⟨s₂, w₂, hs₂, hi₂, hle₂, hiff₂⟩ := ih hi₁ (hrest s₁ hs₁)
    have hsteps : (∀ s' ∈ s.step op, Sys.Along Sys.Lossless ops s') ↔ Sys.Along Sys.Lossless ops s₁ := by
      rw [hs₁]
      exact ⟨fun h => h s₁ rfl, fun h s' hs' => Option.some.inj hs' ▸ h⟩
    refine ⟨s₂, w₂, ?_, hi₂, hle₁.trans hle₂, ?_⟩
    · rw [Sys.run, hs₁, Option.bind_some, hs₂]
    · rw [Sys.Along, hsteps, ← hiff₁, ← hiff₂]
      omega

/-- No call of a run holds or releases what has been freed. When the caller has given back all that it was given,
the total count is where it was, with no block left, if and only if no call of the run was one that loses
references. -/
theorem proginfo_balances_iff (t : Nat) (ops : List Op) (ha : Sys.Along Sys.Allowed ops (start t)) :
    ∃ s, (start t).run ops = some s ∧ (s.owned = 0 →
      (s.heap.refs.total = t ↔ Sys.Along Sys.Lossless ops (start t)) ∧
      ((∀ b, s.heap.refs.count b = 0) ↔ Sys.Along Sys.Lossless ops (start t))) := by
  obtain ⟨s, w, hs, ⟨P, A, e, hP, hw, hh⟩, -, hiff⟩ := run_inv (inv_start t) ha
  refine ⟨s, hs, fun hnone => ?_⟩
  rw [hnone, zero_add] at hP
  have hrefs : blocks P (held s.heap.fields P + e) = 0 ↔ w = 0 := by
    rw [blocks_eq_zero_iff, add_eq_zero, ← Finset.val_eq_zero, hP, ← hw, Nat.add_eq_zero_iff, Multiset.card_eq_zero,
      Multiset.card_eq_zero]
    constructor
    · rintro ⟨hA, -, he⟩
      exact ⟨hA, he⟩
    · rintro ⟨hA, he⟩
      have hempty : P = ∅ := Finset.val_eq_zero.mp (hP.trans hA)
      exact ⟨hA, hempty ▸ Finset.sum_empty, he⟩
  rw [hh.balanced.total_eq_iff, hh.balanced.counts_eq_zero_iff, hrefs, hiff]
  exact ⟨Iff.rfl, Iff.rfl⟩

/-- There is memory, and every token is what it should be. -/
def goodToken : Token := ⟨0, false, true, true, true⟩

def goodMessage : Message := ⟨40, fun _ => goodToken, ⟨false, true, true⟩⟩

/-- Program information is received twice, then channel information up to its start time, and given back. -/
def roundTrip : List Op :=
  [.create ⟨true, fun _ => true⟩, .rcvProginfo 0 goodMessage, .rcvProginfo 0 goodMessage,
    .rcvChaninfo 0 fun i => if i < 4 then goodToken else ⟨EINVAL, false, true, true, true⟩, .release 0]

theorem proginfo_balances_iff_round_trip : ∃ s, (start 3).run roundTrip = some s ∧ (s.owned = 0 →
    (s.heap.refs.total = 3 ↔ Sys.Along Sys.Lossless roundTrip (start 3)) ∧
    ((∀ b, s.heap.refs.count b = 0) ↔ Sys.Along Sys.Lossless roundTrip (start 3))) :=
  proginfo_balances_iff 3 roundTrip (by decide +kernel)

/-- Program information is created, its details are asked for and received, and the result is given back. -/
def askDetail : List Op :=
  [.create ⟨true, fun _ => true⟩, .getDetail ⟨true, fun _ => true⟩ ⟨true, true, 100, goodMessage, true, true⟩ 0, .release 7]

/-- Thirteen references are left: to what was given to `cmyth_proginfo_get_detail`, to its six timestamps, and to
the six that the duplicate was created with. -/
theorem get_detail_unbalances : ¬ ∀ (t : Nat) (ops : List Op), Sys.Along Sys.Allowed ops (start t) →
    ∃ s, (start t).run ops = some s ∧ (s.owned = 0 → s.heap.refs.total = t) := by
  intro hall
  have hleft : ∀ s ∈ (start 0).run askDetail, s.owned = 0 ∧ s.heap.refs.total = 13 := by decide +kernel
  obtain ⟨s, hs, ht⟩ := hall 0 askDetail (by decide +kernel)
  obtain ⟨hnone, htotal⟩ := hleft s hs
  have hzero := ht hnone
  omega

end Runs

end Mvpmc.Cmyth.Refs
