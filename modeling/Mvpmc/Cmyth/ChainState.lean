import Mvpmc.Cmyth.LivetvDiscipline
import Mvpmc.Lib.Reach

/-! What the calls on a live TV chain make of it, apart from the references to its files and the mutex. -/
namespace Mvpmc.Cmyth.Mutex
open Mvpmc.Lib

/-- A chain and the file that its recorder plays. -/
structure Viewing where
  chain : Chain
  file : Option Nat
  deriving DecidableEq, Repr

/-- `cmyth_livetv_chain_create`. -/
def Chain.create (chainid : List UInt8) : Chain := ⟨chainid, 0, false, -1, [], le_refl _, by decide⟩

/-- `cmyth_livetv_chain_add_url`; here and below `none` stands for a crash. -/
def Chain.urlAdded (ch : Chain) (url : List UInt8) (o : Grow) : Option (Int × Chain) := do
  let i ← ch.hasUrl url
  if i ≠ -1 then return (0, ch)
  if (o.urls && o.files) = false then return (-1, ch.counted ch.entries)
  if o.progs = false then none else
  return (0, ch.counted (ch.old ++ [⟨if o.dup then some url else none, none⟩]))

/-- `cmyth_livetv_chain_add_file`. -/
def Chain.fileAdded (ch : Chain) (url : List UInt8) (ft : Nat) : Option (Int × Chain) := do
  if ch.current = -1 then return (-1, ch)
  let i ← ch.hasUrl url
  if i = -1 then return (0, ch)
  let e ← ch.entries[i.toNat]?
  return (0, { ch with entries := ch.entries.set i.toNat { e with file := some ft } })

/-- `cmyth_livetv_chain_add`. -/
def Chain.added (ch : Chain) (url : List UInt8) (ft : Nat) (o : Grow) : Option (Int × Chain) := do
  let i ← ch.hasUrl url
  let r ← (if i = -1 then ch.urlAdded url o else some (0, ch) : Option (Int × Chain))
  if r.1 = -1 then return r
  r.2.fileAdded url ft

/-- The entry at an index and the chain when it is the current one. -/
def Chain.goTo (ch : Chain) (i : Int) : Option (Entry × Chain) :=
  if h : 0 ≤ i ∧ i < ch.ct then
    ch.entries[i.toNat]?.map fun e =>
      (e, { ch with current := i, le_current := ch.le_of_inside i h, current_lt := ch.lt_of_inside i h })
  else none

namespace Viewing

/-- `cmyth_livetv_chain_switch`. -/
def switch (v : Viewing) (dir : Int) : Option (Int × Viewing) :=
  if v.chain.switches dir then (v.chain.goTo (v.chain.current + v.chain.distance dir)).map fun r => (1, ⟨r.2, r.1.file⟩)
  else some (if dir = LAST then 1 else 0, v)

/-- `cmyth_livetv_chain_switch_last`, where `conn` is the protocol version of the recorder's connection. -/
def switchLast (conn : Option Nat) (v : Viewing) : Option (Int × Viewing) :=
  match conn with
  | none => some (0, v)
  | some version =>
    if version < 26 then some (1, v)
    else if v.chain.ct - v.chain.current - 1 ≠ 0 then
      (v.switch (v.chain.ct - v.chain.current - 1)).map fun r => (1, r.2)
    else some (1, { v with chain.switchOnCreate := true })

/-- The recorder plays the current file. -/
def InStep (v : Viewing) : Prop :=
  0 ≤ v.chain.current ∧ v.chain.entries[v.chain.current.toNat]?.map Entry.file = some v.file

end Viewing

/-- What the action returns, if it returns. -/
def Yields {α : Type} (a : Act α) (x : Option α) : Prop := ∀ s v s', a s = .ok (v, s') → x = some v

namespace Yields
variable {α β : Type} {a : Act α} {f : α → Act β} {x : Option α} {y : Option β} {g : α → Option β}

theorem pure (v : α) : Yields (pure v) (some v) := by
  intro s w s' h
  cases h
  rfl

theorem throw (e : Fault) : Yields (throw e) x := by
  intro s v s' h
  cases h

theorem deref (x : Option α) : Yields (deref x) x := by
  intro s v s' h
  cases x with
  | none => cases h
  | some a =>
    cases h
    rfl

theorem bind (ha : Yields a x) (hf : ∀ v, Yields (f v) (g v)) : Yields (a >>= f) (x >>= g) := by
  intro s w s' h
  obtain ⟨v, t, hv, hw⟩ := bind_ok.mp h
  rw [ha _ _ _ hv]
  exact hf v _ _ _ hw

/-- What comes before does not decide. -/
theorem skip (hf : ∀ v, Yields (f v) y) : Yields (a >>= f) y := by
  intro s w s' h
  obtain ⟨v, t, -, hw⟩ := bind_ok.mp h
  exact hf v _ _ _ hw

theorem crash (e : Fault) : Yields ((MonadExcept.throw e : Act α) >>= f) y := by
  intro s v s' h
  cases h

theorem ite {c : Prop} [Decidable c] {b : Act α} {z : Option α} (ha : Yields a x) (hb : Yields b z) :
    Yields (if c then a else b) (if c then x else z) := by
  split
  · exact ha
  · exact hb

end Yields

section Refinement
variable (ch : Chain) (url : List UInt8) (ft : Nat) (o : Grow)

theorem addUrl_yields : Yields (ch.addUrl url o) (ch.urlAdded url o) :=
  (Yields.deref _).bind fun _ => .ite (.pure _) <| .ite (.pure _) <| .ite (.crash _) (.pure _)

theorem addFile_yields : Yields (ch.addFile url ft) (ch.fileAdded url ft) :=
  .ite (.pure _) <| (Yields.deref _).bind fun _ => .ite (.pure _) <|
    (Yields.deref _).bind fun _ => .skip fun _ => .skip fun _ => .pure _

theorem add_yields : Yields (ch.add url ft o) (ch.added url ft o) :=
  (Yields.deref _).bind fun _ => (Yields.ite (addUrl_yields ch url o) (.pure _)).bind fun _ =>
    .ite (.pure _) (addFile_yields _ url ft)

theorem moveTo_yields (i : Int) : Yields (ch.moveTo i) (ch.goTo i) := by
  unfold Chain.moveTo Chain.goTo
  split
  · rw [Option.map_eq_bind]
    exact (Yields.deref _).bind fun _ => .pure _
  · exact .throw _

/-- The recorder with its chain and its file as they are now. -/
def Recorder.viewing (rec : Recorder) (v : Viewing) : Recorder := { rec with chain := some v.chain, file := v.file }

theorem chainSwitch_yields (rec : Recorder) (hch : rec.chain = some ch) (dir : Int) :
    Yields (chainSwitch rec dir) ((Viewing.switch ⟨ch, rec.file⟩ dir).map fun r => (r.1, rec.viewing r.2)) := by
  have hrec : rec.viewing ⟨ch, rec.file⟩ = rec := by
    unfold Recorder.viewing
    rw [← hch]
  intro s w s' h
  unfold chainSwitch at h
  rw [hch] at h
  obtain ⟨ch', t, hd, h⟩ := bind_ok.mp h
  obtain rfl := Option.some.inj (Yields.deref _ _ _ _ hd)
  unfold Viewing.switch
  split at h
  · rename_i hs
    obtain ⟨-, t, -, h⟩ := bind_ok.mp h
    obtain ⟨r, t, hm, h⟩ := bind_ok.mp h
    obtain ⟨-, t, -, h⟩ := bind_ok.mp h
    rw [if_pos hs, moveTo_yields ch _ _ _ _ hm]
    exact Yields.pure _ _ _ _ h
  · rename_i hs
    rw [if_neg hs, Option.map_some, hrec]
    exact Yields.pure _ _ _ _ h

end Refinement

/-- A chain whose arrays have an entry for every file counted, with a url of its own. -/
structure Chain.WellFormed (ch : Chain) : Prop where
  length : ch.entries.length = ch.ct
  urls : ∀ e ∈ ch.entries, e.url ≠ none
  distinct : (ch.entries.map Entry.url).Nodup
  current : 0 < ch.ct → 0 ≤ ch.current

theorem Chain.WellFormed.create (chainid : List UInt8) : (Chain.create chainid).WellFormed :=
  ⟨rfl, fun _ h => absurd h List.not_mem_nil, .nil, fun h => absurd h (lt_irrefl 0)⟩

/-- The loop that looks for a url finds the entry that has it, or there is none. -/
theorem findUrl_cases {url : List UInt8} {entries : List Entry} (hu : ∀ e ∈ entries, e.url ≠ none) (i : Nat) :
    findUrl url entries.length entries i = some (-1) ∧ (∀ e ∈ entries, e.url ≠ some url) ∨
      ∃ j e, entries[j]? = some e ∧ e.url = some url ∧ findUrl url entries.length entries i = some ((i + j : Nat) : Int) := by
  induction entries generalizing i with
  | nil => exact .inl ⟨rfl, fun e he => absurd he List.not_mem_nil⟩
  | cons e entries ih =>
    obtain ⟨u, hurl⟩ := Option.ne_none_iff_exists'.mp (hu e List.mem_cons_self)
    simp only [List.length_cons, findUrl, hurl]
    by_cases h : u = url
    · rw [if_pos h]
      exact .inr ⟨0, e, rfl, hurl.trans (congrArg some h), rfl⟩
    · rw [if_neg h]
      rcases ih (fun e he => hu e (List.mem_cons_of_mem _ he)) (i + 1) with ⟨hf, hn⟩ | ⟨j, e', he, hj, hf⟩
      · refine .inl ⟨hf, fun e' he' => ?_⟩
        rcases List.mem_cons.mp he' with rfl | he'
        · rw [hurl]
          exact fun hu => h (Option.some.inj hu)
        · exact hn e' he'
      · exact .inr ⟨j + 1, e', he, hj, by rw [hf, Nat.add_assoc, Nat.add_comm 1 j]⟩

namespace Chain.WellFormed
variable {ch : Chain} (h : ch.WellFormed)
include h

/-- An empty chain is one without a current file. -/
theorem empty_iff : ch.current = -1 ↔ ch.entries = [] := by
  have hlt := ch.current_lt
  have hle := ch.le_current
  have hlen := h.length
  constructor
  · intro hc
    by_contra hne
    have hpos := List.length_pos_iff.mpr hne
    have := h.current (by omega)
    omega
  · intro hnil
    rw [hnil, List.length_nil] at hlen
    omega

theorem hasUrl_cases (url : List UInt8) :
    ch.hasUrl url = some (-1) ∧ (∀ e ∈ ch.entries, e.url ≠ some url) ∨
      ch.current ≠ -1 ∧ ∃ (j : Nat) (e : Entry), ch.entries[j]? = some e ∧ e.url = some url ∧ ch.hasUrl url = some (j : Int) := by
  unfold Chain.hasUrl
  by_cases hc : ch.current = -1
  · rw [if_pos hc, h.empty_iff.mp hc]
    exact .inl ⟨rfl, fun e he => absurd he List.not_mem_nil⟩
  · rw [if_neg hc, ← h.length]
    rcases findUrl_cases h.urls 0 with hnone | ⟨j, e, he, hu, hf⟩
    · exact .inl hnone
    · exact .inr ⟨hc, j, e, he, hu, by rw [hf, Nat.zero_add]⟩

theorem old_eq : ch.old = ch.entries := by
  unfold Chain.old
  split
  · rename_i hc
    exact (h.empty_iff.mp hc).symm
  · exact List.take_of_length_le h.length.le

/-- A url that is not in the chain yet makes a new entry. -/
theorem grown {url : List UInt8} (hn : ∀ e ∈ ch.entries, e.url ≠ some url) (ft : Nat) : (ch.grown url ft).WellFormed := by
  have hlen := h.length
  unfold Chain.grown
  rw [h.old_eq]
  refine ⟨?_, ?_, ?_, fun _ => ?_⟩
  · simp only [Chain.counted, List.length_append, List.length_singleton]
    split
    · rename_i hc
      rw [h.empty_iff.mp hc]
      rfl
    · omega
  · intro e he
    rcases List.mem_append.mp he with he | he
    · exact h.urls e he
    · rw [List.mem_singleton.mp he]
      exact Option.some_ne_none url
  · simp only [Chain.counted, List.map_append, List.map_cons, List.map_nil]
    refine List.nodup_append.mpr ⟨h.distinct, List.nodup_singleton _, ?_⟩
    intro u hu u' hu' heq
    obtain ⟨e, he, rfl⟩ := List.mem_map.mp hu
    exact hn e he (heq.trans (List.mem_singleton.mp hu'))
  · have hne := ch.counted_current_ne (ch.entries ++ [⟨some url, some ft⟩])
    have hle := (ch.counted (ch.entries ++ [⟨some url, some ft⟩])).le_current
    omega

/-- The file of an entry changes and its url does not. -/
theorem set_file {j : Nat} {e : Entry} (he : ch.entries[j]? = some e) (file : Option Nat) :
    ({ ch with entries := ch.entries.set j { e with file := file } } : Chain).WellFormed := by
  have hmap : (ch.entries.set j { e with file := file }).map Entry.url = ch.entries.map Entry.url := by
    obtain ⟨hj, hget⟩ := List.getElem?_eq_some_iff.mp he
    rw [List.map_set]
    refine List.ext_getElem (by simp) fun i h1 h2 => ?_
    rw [List.getElem_set]
    split
    · rename_i hij
      subst hij
      rw [List.getElem_map, hget]
    · rfl
  refine ⟨?_, ?_, ?_, h.current⟩
  · rw [List.length_set]
    exact h.length
  · intro e' he'
    rcases List.mem_or_eq_of_mem_set he' with he' | rfl
    · exact h.urls e' he'
    · exact h.urls e (List.mem_of_getElem? he)
  · dsimp only
    rw [hmap]
    exact h.distinct

omit h in
/-- An entry is counted before its memory is there. -/
theorem not_wellFormed_counted (hl : ch.entries.length ≤ ch.ct) (hc : ch.current = -1 → ch.entries = []) :
    ¬ (ch.counted ch.entries).WellFormed := by
  intro hw
  have hlen := hw.length
  simp only [Chain.counted] at hlen
  split at hlen
  · rename_i hcur
    rw [hc hcur] at hlen
    exact absurd hlen (by decide)
  · omega

/-- A url that is not in the chain needs memory. -/
theorem added_new_iff {url : List UInt8} (hn : ch.hasUrl url = some (-1)) (hne : ∀ e ∈ ch.entries, e.url ≠ some url)
    (ft : Nat) (o : Grow) :
    (∃ r, ch.added url ft o = some r ∧ r.2.WellFormed) ↔ (o.urls && o.files && o.progs && o.dup) = true := by
  have hadded : ch.added url ft o = (ch.urlAdded url o).bind fun r => if r.1 = -1 then some r else r.2.fileAdded url ft := by
    unfold Chain.added
    rw [hn]
    rfl
  rw [hadded]
  unfold Chain.urlAdded
  rw [hn, Option.bind_eq_bind, Option.bind_some, if_neg (by decide)]
  by_cases hmem : (o.urls && o.files) = true
  · rw [if_neg (by simp [hmem]), hmem, Bool.true_and]
    cases hp : o.progs with
    | false => simp
    | true =>
      have hurl := Chain.hasUrl_counted hn ⟨if o.dup then some url else none, none⟩
      have hcur := ch.counted_current_ne (ch.old ++ [⟨if o.dup then some url else none, none⟩])
      rw [if_neg (by decide), Bool.true_and]
      dsimp only [pure, Option.bind_some]
      rw [if_neg (by decide)]
      unfold Chain.fileAdded
      rw [if_neg hcur, hurl]
      cases hd : o.dup with
      | false => simp
      | true =>
        refine iff_of_true ⟨(0, ch.grown url ft), ?_, h.grown hne ft⟩ rfl
        simp [Chain.counted, Chain.grown]
  · have hfalse : (o.urls && o.files) = false := by simpa using hmem
    rw [if_pos hfalse, hfalse, Bool.false_and, Bool.false_and]
    refine iff_of_false ?_ (by decide)
    rintro ⟨r, hr, hw⟩
    obtain rfl := Option.some.inj hr
    exact not_wellFormed_counted h.length.le h.empty_iff.mp hw

/-- Whatever is added, the chain stays well formed. -/
theorem added_iff (url : List UInt8) (ft : Nat) (o : Grow) :
    (∃ r, ch.added url ft o = some r ∧ r.2.WellFormed) ↔
      (ch.hasUrl url = some (-1) → (o.urls && o.files && o.progs && o.dup) = true) := by
  rcases h.hasUrl_cases url with ⟨hn, hne⟩ | ⟨hcur, j, e, he, -, hj⟩
  · rw [h.added_new_iff hn hne ft o]
    exact ⟨fun hm _ => hm, fun hm => hm hn⟩
  · have hfound : ch.hasUrl url ≠ some (-1) := by
      rw [hj]
      intro heq
      have := Option.some.inj heq
      omega
    refine iff_of_true ⟨(0, { ch with entries := ch.entries.set j { e with file := some ft } }), ?_, h.set_file he _⟩
      fun hn => absurd hn hfound
    have hpos : (j : Int) ≠ -1 := by omega
    unfold Chain.added Chain.fileAdded
    simp [hj, hpos, hcur, he]

end Chain.WellFormed

namespace Viewing
variable {v : Viewing} (h : v.chain.WellFormed)
include h

/-- A move to an entry of the chain, and none to any other place. -/
theorem goTo_cases (i : Int) :
    (0 ≤ i ∧ i < v.chain.ct ∧ ∃ e ch, v.chain.goTo i = some (e, ch) ∧ ch.WellFormed ∧ InStep ⟨ch, e.file⟩) ∨
      ¬ (0 ≤ i ∧ i < v.chain.ct) ∧ v.chain.goTo i = none := by
  unfold Chain.goTo
  by_cases hi : 0 ≤ i ∧ i < v.chain.ct
  · have hlen := h.length
    obtain ⟨e, he⟩ : ∃ e, v.chain.entries[i.toNat]? = some e := ⟨_, List.getElem?_eq_getElem (by omega)⟩
    rw [dif_pos hi, he]
    exact .inl ⟨hi.1, hi.2, e, _, rfl, ⟨h.length, h.urls, h.distinct, fun _ => hi.1⟩, hi.1, by rw [he]; rfl⟩
  · rw [dif_neg hi]
    exact .inr ⟨hi, rfl⟩

/-- A switch goes to an entry of the chain, or stays, unless it would go to a place in front of the first
entry: the test lets that pass. -/
theorem switch_iff (dir : Int) :
    (∃ ret w, v.switch dir = some (ret, w) ∧ w.chain.WellFormed ∧ (ret = 1 → w.InStep)) ↔
      if dir = LAST then 0 < v.chain.ct else 0 ≤ v.chain.current + dir := by
  have hle := v.chain.le_current
  have hlt := v.chain.current_lt
  have htarget : (if dir = LAST then 0 < v.chain.ct else 0 ≤ v.chain.current + dir) ↔
      0 ≤ v.chain.current + v.chain.distance dir := by
    unfold Chain.distance
    split
    · omega
    · rfl
  have hswitches : v.chain.switches dir = true ↔
      (v.chain.distance dir < 0 ∧ 0 ≤ v.chain.current + v.chain.distance dir) ∨
        v.chain.current < v.chain.ct - v.chain.distance dir := by
    simp [Chain.switches]
  have hlast : dir = LAST → v.chain.distance dir = v.chain.ct - v.chain.current - 1 := fun hd => if_pos hd
  rw [htarget]
  unfold switch
  by_cases hs : v.chain.switches dir = true
  · rw [if_pos hs]
    have hcases := hswitches.mp hs
    rcases goTo_cases h (v.chain.current + v.chain.distance dir) with ⟨h0, -, e, ch, hgo, hw, hstep⟩ | ⟨hout, hgo⟩
    · rw [hgo]
      exact iff_of_true ⟨1, _, rfl, hw, fun _ => hstep⟩ h0
    · rw [hgo]
      refine iff_of_false (fun hx => ?_) (by omega)
      obtain ⟨_, _, hx, -⟩ := hx
      cases hx
  · have hno := fun hx => hs (hswitches.mpr hx)
    have hdir : dir ≠ LAST := fun hd => hno (.inr (by rw [hlast hd]; omega))
    have hfar : ¬ v.chain.current < v.chain.ct - v.chain.distance dir := fun hx => hno (.inr hx)
    rw [if_neg hs, if_neg hdir]
    exact iff_of_true ⟨0, v, rfl, h, fun h0 => absurd h0 (by decide)⟩ (by omega)

omit h in
/-- What a call that reports success without a switch needs. -/
theorem unswitched_iff {w : Viewing} (hw : w.chain.WellFormed) :
    (∃ (ret : Int) (w' : Viewing), some ((1 : Int), w) = some (ret, w') ∧ w'.chain.WellFormed ∧ (ret = 1 → w'.InStep)) ↔
      w.InStep := by
  constructor
  · rintro ⟨ret, w', heq, -, hstep⟩
    obtain ⟨rfl, rfl⟩ := Prod.mk.inj (Option.some.inj heq)
    exact hstep rfl
  · intro hstep
    exact ⟨1, w, rfl, hw, fun _ => hstep⟩

/-- The last file is switched to if it is not the current one. Otherwise nothing is done and success is
reported, and so it is on connections that have no chains. -/
theorem switchLast_iff (conn : Option Nat) :
    (∃ ret w, v.switchLast conn = some (ret, w) ∧ w.chain.WellFormed ∧ (ret = 1 → w.InStep)) ↔
      conn = none ∨ (∃ version ∈ conn, 26 ≤ version) ∧ v.chain.current + 1 < v.chain.ct ∨ v.InStep := by
  have hle := v.chain.le_current
  have hlt := v.chain.current_lt
  cases conn with
  | none => exact iff_of_true ⟨0, v, rfl, h, fun h0 => absurd h0 (by decide)⟩ (.inl rfl)
  | some version =>
    simp only [switchLast, reduceCtorEq, false_or, Option.mem_def, Option.some.injEq, exists_eq_left']
    by_cases hv : version < 26
    · rw [if_pos hv, unswitched_iff h]
      exact ⟨.inr, fun hx => hx.resolve_left fun hold => absurd hold.1 (not_le.mpr hv)⟩
    · rw [if_neg hv]
      by_cases hmore : v.chain.ct - v.chain.current - 1 ≠ 0
      · -- the test of the switch holds, whatever `LAST` stands for
        have hdist : v.chain.distance (v.chain.ct - v.chain.current - 1) = v.chain.ct - v.chain.current - 1 := by
          unfold Chain.distance
          split
          · rfl
          · rfl
        have hs : v.chain.switches (v.chain.ct - v.chain.current - 1) = true := by
          unfold Chain.switches
          rw [hdist]
          exact decide_eq_true (.inr (by omega))
        rw [if_pos hmore]
        refine iff_of_true ?_ (.inl ⟨not_lt.mp hv, by omega⟩)
        unfold switch
        rw [if_pos hs, hdist]
        rcases goTo_cases h (v.chain.current + (v.chain.ct - v.chain.current - 1)) with
          ⟨-, -, e, ch, hgo, hw, hstep⟩ | ⟨hout, -⟩
        · rw [hgo]
          exact ⟨1, ⟨ch, e.file⟩, rfl, hw, fun _ => hstep⟩
        · exact absurd ⟨by omega, by omega⟩ hout
      · rw [if_neg hmore]
        have hw : Chain.WellFormed { v.chain with switchOnCreate := true } := ⟨h.length, h.urls, h.distinct, h.current⟩
        rw [unswitched_iff hw]
        refine ⟨.inr, fun hx => hx.resolve_left ?_⟩
        rintro ⟨-, hct⟩
        omega

end Viewing

/-- The calls that change a chain, with what the allocations return. -/
inductive ChainCall where
  | add (url : List UInt8) (ft : Nat) (o : Grow)
  | switch (dir : Int)
  | switchLast

namespace ChainCall

/-- The value returned and what becomes of the chain, on a recorder whose connection has this version. -/
def run (conn : Option Nat) : ChainCall → Viewing → Option (Int × Viewing)
  | add url ft o, v => (v.chain.added url ft o).map fun r => (r.1, { v with chain := r.2 })
  | switch dir, v => v.switch dir
  | switchLast, v => v.switchLast conn

def isSwitch : ChainCall → Prop
  | add _ _ _ => False
  | switch _ => True
  | switchLast => True

/-- The call does not leave the arrays, keeps the chain well formed, and if it is a switch that reports success, the file
played is the current one. -/
def Keeps (conn : Option Nat) (call : ChainCall) (v : Viewing) : Prop :=
  ∃ ret w, call.run conn v = some (ret, w) ∧ w.chain.WellFormed ∧ (call.isSwitch → ret = 1 → w.InStep)

/-- A new url finds memory; a switch does not go to a place in front of the first file, and one to the last file
has a file to go to; and the call for other modules has one, or the recorder plays the current file already. -/
def Fits (conn : Option Nat) : ChainCall → Viewing → Prop
  | add url _ o, v => v.chain.hasUrl url = some (-1) → (o.urls && o.files && o.progs && o.dup) = true
  | switch dir, v => if dir = LAST then 0 < v.chain.ct else 0 ≤ v.chain.current + dir
  | switchLast, v => conn = none ∨ (∃ version ∈ conn, 26 ≤ version) ∧ v.chain.current + 1 < v.chain.ct ∨ v.InStep

theorem keeps_iff {conn : Option Nat} {v : Viewing} (h : v.chain.WellFormed) (call : ChainCall) :
    call.Keeps conn v ↔ call.Fits conn v := by
  cases call with
  | add url ft o =>
    rw [Fits, ← h.added_iff url ft o]
    unfold Keeps run
    constructor
    · rintro ⟨ret, w, hrun, hw, -⟩
      obtain ⟨r, hr, heq⟩ := Option.map_eq_some_iff.mp hrun
      obtain ⟨-, rfl⟩ := Prod.mk.inj heq
      exact ⟨r, hr, hw⟩
    · rintro ⟨r, hr, hw⟩
      exact ⟨r.1, { v with chain := r.2 }, congrArg (Option.map _) hr, hw, False.elim⟩
  | switch dir =>
    simp only [Keeps, run, isSwitch, true_imp_iff]
    exact Viewing.switch_iff h dir
  | switchLast =>
    simp only [Keeps, run, isSwitch, true_imp_iff]
    exact Viewing.switchLast_iff h conn

/-- A chain that has been created. -/
def Created (v : Viewing) : Prop := ∃ chainid file, v = ⟨Chain.create chainid, file⟩

/-- A call that fits, and what it leads to. -/
def Step (conn : Option Nat) (v : Viewing) (call : ChainCall) (w : Viewing) : Prop :=
  call.Fits conn v ∧ ∃ ret, call.run conn v = some (ret, w)

/-- The chain stays well formed along every run of calls that fit, and any further call keeps it so, and plays the
current file if it reports a switch, exactly when it fits. -/
theorem chain_stays_wellFormed {conn : Option Nat} {v : Viewing} (h : Reach Created (Step conn) v) :
    v.chain.WellFormed ∧ ∀ call : ChainCall, call.Keeps conn v ↔ call.Fits conn v := by
  have hstep (v : Viewing) (call : ChainCall) (w : Viewing) (hv : v.chain.WellFormed) (hcall : Step conn v call w) :
      w.chain.WellFormed := by
    obtain ⟨hfit, ret, hrun⟩ := hcall
    obtain ⟨_, _, hrun', hw, -⟩ := (keeps_iff hv call).mpr hfit
    rw [hrun] at hrun'
    obtain ⟨-, rfl⟩ := Prod.mk.inj (Option.some.inj hrun')
    exact hw
  have hstart (v : Viewing) (hv : Created v) : v.chain.WellFormed := by
    obtain ⟨chainid, file, rfl⟩ := hv
    exact .create chainid
  have hw : v.chain.WellFormed := h.invariant hstart hstep
  exact ⟨hw, keeps_iff hw⟩

/-- Memory for everything. -/
def plenty : Grow := ⟨true, true, true, true⟩

/-- The first file is added to a new chain and switched to. -/
def firstFile : Viewing :=
  ⟨⟨[0x31], 1, false, 0, [⟨some [0x61], some 7⟩], Chain.neg_one_le_first, Chain.first_lt_one⟩, some 7⟩

theorem reach_firstFile : Reach Created (Step (some 40)) firstFile := by
  have hadd : Step (some 40) ⟨Chain.create [0x31], none⟩ (add [0x61] 7 plenty) { firstFile with file := none } :=
    ⟨fun _ => rfl, 0, by decide⟩
  have hswitch : Step (some 40) { firstFile with file := none } (switch LAST) firstFile :=
    ⟨show 0 < 1 by decide, 1, by decide⟩
  exact .next (switch LAST) (.next (add [0x61] 7 plenty) (.start ⟨[0x31], none, rfl⟩) hadd) hswitch

/-- Another file is added, and switching on to it keeps the chain. -/
theorem chain_stays_wellFormed_two : (add [0x62] 8 plenty).Keeps (some 40) firstFile ∧
    (switch 1).Keeps (some 40) firstFile := by
  obtain ⟨-, hkeeps⟩ := chain_stays_wellFormed reach_firstFile
  exact ⟨(hkeeps _).mpr fun _ => rfl, (hkeeps _).mpr (show (0 : Int) ≤ 0 + 1 by decide)⟩

/-- From the first file a switch to the previous one passes the test and goes to index -1. -/
theorem switch_before_first : Reach Created (Step (some 40)) firstFile ∧ firstFile.chain.switches (-1) = true ∧
    firstFile.chain.current + firstFile.chain.distance (-1) = -1 ∧ (switch (-1)).run (some 40) firstFile = none ∧
    ¬ (switch (-1)).Keeps (some 40) firstFile := by
  have hnone : (switch (-1)).run (some 40) firstFile = none := by decide
  refine ⟨reach_firstFile, by decide, by decide, hnone, ?_⟩
  rintro ⟨ret, w, hrun, -⟩
  exact absurd (hnone.symm.trans hrun) (by simp)

end ChainCall
end Mvpmc.Cmyth.Mutex
