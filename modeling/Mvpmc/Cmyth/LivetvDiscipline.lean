import Mvpmc.Cmyth.Livetv
import Mvpmc.Cmyth.Discipline
import Mathlib.Tactic

/-! When the calls on a live TV chain keep to the discipline of the mutex, and with them all calls that
take it. -/
namespace Mvpmc.Cmyth.Mutex
open Transfer (File Whence)

section Chains
variable {cells : List Cell} {ch : Chain}

/-- The files of a chain are still there. -/
def Chain.Alive (ch : Chain) (cells : List Cell) : Prop := ∀ e ∈ ch.entries, Held 1 cells e.file

/-- A switch ends at an entry of the chain. -/
def Chain.Lands (ch : Chain) (dir : Int) : Prop :=
  0 ≤ ch.current + ch.distance dir ∧ ch.current + ch.distance dir < ch.ct ∧
    ch.current + ch.distance dir < ch.entries.length

theorem steady_moveTo (ch : Chain) (i : Int) : Steady (ch.moveTo i) := by
  unfold Chain.moveTo
  split
  · exact (steady_deref _).bind fun _ => Steady.pure
  · exact Steady.throw .crash

theorem steady_chainSwitch (rec : Recorder) (dir : Int) : Steady (chainSwitch rec dir) := by
  refine (steady_deref _).bind fun ch => Steady.ite ?_ Steady.pure
  exact (steady_refRelease _).bind fun _ => (steady_moveTo ch _).bind fun r => (steady_refHold _).bind fun _ => Steady.pure

theorem Chain.le_of_inside (ch : Chain) (i : Int) (h : 0 ≤ i ∧ i < ch.ct) : -1 ≤ i := by omega

theorem Chain.lt_of_inside (ch : Chain) (i : Int) (h : 0 ≤ i ∧ i < ch.ct) : i < ch.ct := h.2

/-- The first entry is a place in every chain that has one. -/
theorem Chain.neg_one_le_first : (-1 : Int) ≤ 0 := by decide

theorem Chain.first_lt_one : (0 : Int) < (1 : Nat) := by decide

theorem ends_moveTo {α : Type} {k : Entry × Chain → Act α} {s : Lib} {i : Int} :
    Ends (ch.moveTo i >>= k) s ↔ ∃ h : 0 ≤ i ∧ i < ch.ct, ∃ e, ch.entries[i.toNat]? = some e ∧
      Ends (k (e, { ch with current := i, le_current := ch.le_of_inside i h, current_lt := ch.lt_of_inside i h })) s := by
  unfold Chain.moveTo
  split
  · rename_i h
    simp only [bind_assoc, pure_bind]
    rw [ends_deref]
    simp [h]
  · rename_i h
    simp only [h, IsEmpty.exists_iff, iff_false]
    rintro ⟨v, s', hv⟩
    obtain ⟨_, _, hv, -⟩ := bind_ok.mp hv
    cases hv

/-- With the mutex held. -/
theorem ends_chainSwitch {rec : Recorder} {dir : Int} (hch : rec.chain = some ch) (ha : ch.Alive cells) :
    Ends (chainSwitch rec dir) ⟨true, cells⟩ ↔ (ch.switches dir = true → Held 2 cells rec.file ∧ ch.Lands dir) := by
  unfold chainSwitch
  rw [hch, ends_deref]
  simp only [Option.some.injEq, exists_eq_left']
  by_cases hs : ch.switches dir = true
  · rw [if_pos hs]
    simp only [hs, true_imp_iff]
    rw [ends_bind]
    constructor
    · rintro ⟨v, t, hr, hm⟩
      obtain ⟨hi, e, he, -⟩ := ends_moveTo.mp hm
      have hlt := (List.getElem?_eq_some_iff.mp he).1
      exact ⟨(ends_refRelease _).mp ⟨v, t, hr⟩, hi.1, hi.2, by omega⟩
    · rintro ⟨h2, h0, hct, hlt⟩
      obtain ⟨cells', hr, hkeep⟩ := refRelease_keeps h2
      obtain ⟨e, he⟩ : ∃ e, ch.entries[(ch.current + ch.distance dir).toNat]? = some e :=
        ⟨_, List.getElem?_eq_getElem (by omega)⟩
      refine ⟨(), _, hr, ends_moveTo.mpr ⟨⟨h0, hct⟩, e, he, ?_⟩⟩
      obtain ⟨v, t, hh⟩ := (ends_refHold _).mpr (hkeep _ (ha e (List.mem_of_getElem? he)))
      exact ends_bind.mpr ⟨v, t, hh, ends_pure⟩
  · simp [hs]

theorem findUrl_length {url : List UInt8} {n i : Nat} {entries : List Entry}
    (h : findUrl url n entries i = some (-1)) : n ≤ entries.length := by
  induction n generalizing entries i with
  | zero => exact Nat.zero_le _
  | succ n ih =>
    cases entries with
    | nil => cases h
    | cons e entries =>
      unfold findUrl at h
      split at h
      · cases h
      · split at h
        · simp only [Option.some.injEq] at h
          omega
        · exact Nat.succ_le_succ (ih h)

/-- A url that is not in the chain is found at the entry added for it. -/
theorem findUrl_added {url : List UInt8} {n i : Nat} {entries : List Entry} {e : Entry}
    (h : findUrl url n entries i = some (-1)) : findUrl url (n + 1) (entries.take n ++ [e]) i =
      e.url.bind fun u => if u = url then some ((i + n : Nat) : Int) else some (-1) := by
  induction n generalizing entries i with
  | zero =>
    simp only [List.take_zero, List.nil_append, findUrl]
    cases e.url with
    | none => rfl
    | some u => rfl
  | succ n ih =>
    cases entries with
    | nil => cases h
    | cons a entries =>
      rw [List.take_succ_cons, List.cons_append, findUrl]
      unfold findUrl at h
      cases ha : a.url with
      | none => simp [ha] at h
      | some u =>
        simp only [ha] at h ⊢
        by_cases hu : u = url
        · simp only [hu, if_true, Option.some.injEq] at h
          omega
        · simp only [hu, if_false] at h ⊢
          rw [ih h]
          simp only [Nat.add_assoc, Nat.add_comm 1 n]

/-- The chain once a url and its file have been added. -/
def Chain.grown (ch : Chain) (url : List UInt8) (ft : Nat) : Chain := ch.counted (ch.old ++ [⟨some url, some ft⟩])

variable {url : List UInt8}

theorem Chain.counted_current_ne (entries : List Entry) : (ch.counted entries).current ≠ -1 := by
  simp only [counted]
  split
  · decide
  · assumption

theorem Chain.old_length (h : ch.hasUrl url = some (-1)) (entries : List Entry) :
    (ch.counted entries).ct = ch.old.length + 1 := by
  unfold hasUrl at h
  simp only [counted, old]
  split
  · rfl
  · rename_i hne
    rw [if_neg hne] at h
    simp [findUrl_length h]

theorem Chain.hasUrl_counted (h : ch.hasUrl url = some (-1)) (e : Entry) : (ch.counted (ch.old ++ [e])).hasUrl url =
    e.url.bind fun u => if u = url then some (ch.old.length : Int) else some (-1) := by
  rw [hasUrl, if_neg (ch.counted_current_ne _), ch.old_length h]
  change findUrl url (ch.old.length + 1) (ch.old ++ [e]) 0 = _
  unfold hasUrl at h
  by_cases hc : ch.current = -1
  · simp only [old, hc, if_true]
    exact findUrl_added (show findUrl url 0 [] 0 = some (-1) from rfl)
  · rw [if_neg hc] at h
    have hl : ch.old.length = ch.ct := by simp [old, hc, findUrl_length h]
    rw [hl, old, if_neg hc, findUrl_added h, Nat.zero_add]

theorem steady_addUrl (ch : Chain) (url : List UInt8) (o : Grow) : Steady (ch.addUrl url o) := by
  refine (steady_deref _).bind fun i => Steady.pure.ite (Steady.pure.ite (Steady.ite ?_ Steady.pure))
  exact (Steady.throw .crash).bind fun _ => Steady.pure

theorem steady_addFile (ch : Chain) (url : List UInt8) (ft : Nat) : Steady (ch.addFile url ft) := by
  refine Steady.pure.ite ((steady_deref _).bind fun i => Steady.pure.ite ((steady_deref _).bind fun e => ?_))
  exact (steady_refHold _).bind fun _ => (steady_refRelease _).bind fun _ => Steady.pure

theorem steady_add (ch : Chain) (url : List UInt8) (ft : Nat) (o : Grow) : Steady (ch.add url ft o) := by
  refine (steady_deref _).bind fun i => ((steady_addUrl ch url o).ite Steady.pure).bind fun r => ?_
  exact Steady.pure.ite (steady_addFile r.2 url ft)

theorem steady_connConnectFile (prog : Proginfo) (control : Option Nat) (o : Connect) :
    Steady (connConnectFile prog control o) := by
  have hc : Steady (fileCreate (control.getD 0) o.length) := by
    intro s v s' h
    cases h
    rfl
  refine Steady.pure.ite (hc.bind fun f => (steady_deref _).bind fun _ => Steady.pure.ite ?_)
  exact (steady_refRelease _).bind fun _ => Steady.pure

variable {held : Bool} {prog : Proginfo} {control : Option Nat} {o : Connect} {g : Grow} {ft : Nat} {c : Cell}

/-- The file transfer that `cmyth_file_create` allocates. -/
def Connect.cell (o : Connect) (control : Option Nat) : Cell := ⟨1, ⟨control.getD 0, o.length, 0, 0⟩⟩

theorem connConnectFile_none (h : o.makes prog = false) {s : Lib} : connConnectFile prog control o s = .ok (none, s) := by
  simp only [connConnectFile, h, if_true]
  rfl

theorem connConnectFile_some (h : o.makes prog = true) (hc : control ≠ none) (ho : o.opens = true) :
    connConnectFile prog control o ⟨held, cells⟩ = .ok (some cells.length, ⟨held, cells ++ [o.cell control]⟩) := by
  obtain ⟨version, rfl⟩ := Option.ne_none_iff_exists'.mp hc
  simp only [connConnectFile, h, Bool.true_eq_false, if_false, ho, if_true]
  rfl

/-- The file transfer just allocated has one reference, and dropping it takes the mutex. -/
theorem connConnectFile_fails (h : o.makes prog = true) (hf : control = none ∨ o.opens = false) :
    ¬ Ends (connConnectFile prog control o) ⟨true, cells⟩ := by
  simp only [connConnectFile, h, Bool.true_eq_false, if_false]
  rw [ends_bind_of_ok (show fileCreate _ _ _ = .ok (cells.length, ⟨true, cells ++ [o.cell control]⟩) from rfl), ends_deref]
  rintro ⟨version, rfl, he⟩
  obtain hf | hf := hf
  · cases hf
  · rw [if_neg (by simp [hf])] at he
    obtain ⟨v, t, hr, -⟩ := ends_bind.mp he
    obtain ⟨c, hc, h2⟩ := (ends_refRelease _).mp ⟨v, t, hr⟩
    rw [List.getElem?_concat_length, Option.some.injEq] at hc
    subst hc
    exact absurd h2 (show ¬ 2 ≤ 1 by decide)

theorem add_fails (h : ch.hasUrl url = some (-1)) (hg : (g.urls && g.files) = false) {s : Lib} :
    ch.add url ft g s = .ok ((-1, ch.counted ch.entries), s) := by
  simp only [Chain.add, Chain.addUrl, h, hg]
  rfl

theorem addUrl_grows (h : ch.hasUrl url = some (-1)) (hg : (g.urls && g.files) = true) (hp : g.progs = true) {s : Lib} :
    ch.addUrl url g s = .ok ((0, ch.counted (ch.old ++ [⟨if g.dup then some url else none, none⟩])), s) := by
  simp only [Chain.addUrl, h, hg, hp]
  rfl

theorem addFile_stores (h : ch.hasUrl url = some (-1)) (hc : cells[ft]? = some c) (h1 : 1 ≤ c.refs) :
    (ch.counted (ch.old ++ [⟨some url, none⟩])).addFile url ft ⟨held, cells⟩ =
      .ok ((0, ch.grown url ft), ⟨held, cells.set ft { c with refs := c.refs + 1 }⟩) := by
  unfold Chain.addFile
  rw [if_neg (ch.counted_current_ne _), Chain.hasUrl_counted h]
  have he : (ch.counted (ch.old ++ [⟨some url, none⟩])).entries[ch.old.length]? = some ⟨some url, none⟩ :=
    List.getElem?_concat_length
  have hset : ch.grown url ft =
      ch.counted ((ch.old ++ [⟨some url, none⟩] : List Entry).set ch.old.length ⟨some url, some ft⟩) := by
    rw [List.set_append_right _ _ (le_refl _), Nat.sub_self]
    rfl
  refine bind_ok.mpr ⟨(ch.old.length : Int), _, by simp [deref]; rfl, ?_⟩
  rw [if_neg (by omega), Int.toNat_natCast, he]
  refine bind_ok.mpr ⟨_, _, rfl, bind_ok.mpr ⟨(), _, refHold_ok hc h1, bind_ok.mpr ⟨(), _, rfl, ?_⟩⟩⟩
  rw [hset]
  rfl

theorem add_grows (h : ch.hasUrl url = some (-1)) (hg : (g.urls && g.files) = true) (hp : g.progs = true)
    (hd : g.dup = true) (hc : cells[ft]? = some c) (h1 : 1 ≤ c.refs) : ch.add url ft g ⟨held, cells⟩ =
      .ok ((0, ch.grown url ft), ⟨held, cells.set ft { c with refs := c.refs + 1 }⟩) := by
  have hadd := addUrl_grows h hg hp (s := ⟨held, cells⟩)
  rw [hd, if_pos rfl] at hadd
  refine bind_ok.mpr ⟨-1, ⟨held, cells⟩, by rw [h]; rfl, ?_⟩
  rw [if_pos rfl]
  exact bind_ok.mpr ⟨_, _, hadd, addFile_stores h hc h1⟩

theorem not_ends_add (h : ch.hasUrl url = some (-1)) (hg : (g.urls && g.files) = true)
    (hp : g.progs = false ∨ g.dup = false) {s : Lib} : ¬ Ends (ch.add url ft g) s := by
  rw [Chain.add, h, ends_deref]
  rintro ⟨i, hi, he⟩
  obtain rfl : -1 = i := Option.some.inj hi
  rw [if_pos rfl] at he
  cases hprogs : g.progs with
  | false =>
    obtain ⟨r, t, hr, -⟩ := ends_bind.mp he
    simp only [Chain.addUrl, h, hg, hprogs] at hr
    cases hr
  | true =>
    obtain hp | hd := hp
    · exact absurd hprogs (by simp [hp])
    · rw [ends_bind_of_ok (addUrl_grows h hg hprogs), hd] at he
      simp only [Bool.false_eq_true, if_false] at he
      obtain ⟨v, t, hv⟩ := he
      simp only [Chain.addFile, if_neg (ch.counted_current_ne _), Chain.hasUrl_counted h] at hv
      cases hv

theorem Chain.Alive.grown (h : ch.Alive cells) (new : Cell) (hn : 1 ≤ new.refs) :
    (ch.grown url cells.length).Alive (cells ++ [new]) := by
  intro e he
  obtain he | he := List.mem_append.mp (show e ∈ ch.old ++ [_] from he)
  · have hm : e ∈ ch.entries := by
      unfold Chain.old at he
      split at he
      · cases he
      · exact List.mem_of_mem_take he
    exact (h e hm).append [new]
  · obtain rfl := List.mem_singleton.mp he
    exact ⟨new, List.getElem?_concat_length, hn⟩

/-- A switch in a chain that has just grown ends at an entry of it. -/
theorem Chain.grown_lands (h : ch.hasUrl url = some (-1)) (ft : Nat) {dir : Int} (hd : dir = LAST ∨ dir = 0) :
    (ch.grown url ft).switches dir = true ∧ (ch.grown url ft).Lands dir := by
  have hct : (ch.grown url ft).ct = (ch.grown url ft).entries.length := by
    rw [grown, ch.old_length h]
    simp [counted]
  have hne : (ch.grown url ft).current ≠ -1 := ch.counted_current_ne _
  have hge := (ch.grown url ft).le_current
  have hlt := (ch.grown url ft).current_lt
  unfold switches Lands
  obtain rfl | rfl := hd
  · simp only [distance, if_true, decide_eq_true_eq]
    omega
  · simp only [distance, show (0 : Int) ≠ LAST by decide, if_false, decide_eq_true_eq]
    omega

theorem held_two_append {file : Option Nat} {new : Cell} (hn : new.refs = 1) :
    Held 2 (cells ++ [new]) file ↔ Held 2 cells file := by
  refine ⟨?_, fun h => h.append [new]⟩
  cases file with
  | none => exact id
  | some f =>
    rintro ⟨c, hc, h2⟩
    refine ⟨c, ?_, h2⟩
    obtain hf | hf := Nat.lt_or_ge f cells.length
    · exact List.getElem?_append_left hf ▸ hc
    · rw [List.getElem?_append_right hf] at hc
      obtain rfl := List.mem_singleton.mp (List.mem_of_getElem? hc)
      omega

end Chains

section Opening
variable {cells : List Cell} {ch : Chain} {held : Bool} {rec : Recorder} {prog : Proginfo} {o : Opening}

/-- A new file can be connected and added without taking the mutex again. -/
def Opening.Sound (o : Opening) (control : Option Nat) (prog : Proginfo) : Prop :=
  o.connect.makes prog = true → control ≠ none ∧ o.connect.opens = true ∧
    ((o.grow.urls && o.grow.files) = true → o.grow.progs = true ∧ o.grow.dup = true)

/-- The new file ends up in the chain. -/
def Opening.adds (o : Opening) (prog : Proginfo) : Bool := o.connect.makes prog && (o.grow.urls && o.grow.files)

theorem steady_openFile (rec : Recorder) (ch : Chain) (prog : Proginfo) (o : Opening) :
    Steady (openFile rec ch prog o) := by
  refine (steady_connConnectFile _ _ _).bind fun ft => ?_
  cases ft with
  | none => exact Steady.pure
  | some ft =>
    refine (steady_add _ _ _ _).bind fun r => Steady.pure.ite ?_
    exact (steady_refRelease _).bind fun _ => Steady.pure

theorem sound_of_openFile (h : ch.hasUrl (url rec prog) = some (-1)) (he : Ends (openFile rec ch prog o) ⟨true, cells⟩) :
    o.Sound rec.conn prog := by
  intro hm
  obtain ⟨ft, t, hft, he⟩ := ends_bind.mp he
  have hc : ¬ (rec.conn = none ∨ o.connect.opens = false) := fun hc => connConnectFile_fails hm hc ⟨ft, t, hft⟩
  obtain ⟨hcon, hop⟩ := not_or.mp hc
  rw [Bool.not_eq_false] at hop
  refine ⟨hcon, hop, fun hg => ?_⟩
  rw [connConnectFile_some hm hcon hop] at hft
  cases hft
  obtain ⟨r, t, hr, -⟩ := ends_bind.mp he
  have hp : ¬ (o.grow.progs = false ∨ o.grow.dup = false) := fun hp => not_ends_add h hg hp ⟨r, t, hr⟩
  simpa using hp

theorem openFile_none (h : ch.hasUrl (url rec prog) = some (-1)) (ho : o.Sound rec.conn prog)
    (ha : o.adds prog = false) : ∃ s', openFile rec ch prog o ⟨held, cells⟩ = .ok (none, s') := by
  cases hm : o.connect.makes prog with
  | false => exact ⟨_, bind_ok.mpr ⟨none, _, connConnectFile_none hm, rfl⟩⟩
  | true =>
    have hg : (o.grow.urls && o.grow.files) = false := by simpa [Opening.adds, hm] using ha
    obtain ⟨hcon, hop, -⟩ := ho hm
    exact ⟨_, bind_ok.mpr ⟨_, _, connConnectFile_some hm hcon hop, bind_ok.mpr ⟨_, _, add_fails h hg, rfl⟩⟩⟩

theorem openFile_some (h : ch.hasUrl (url rec prog) = some (-1)) (ho : o.Sound rec.conn prog)
    (ha : o.adds prog = true) : openFile rec ch prog o ⟨held, cells⟩ =
      .ok (some { rec with chain := some (ch.grown (url rec prog) cells.length) },
        ⟨held, cells ++ [o.connect.cell rec.conn]⟩) := by
  obtain ⟨hm, hg⟩ := Bool.and_eq_true_iff.mp ha
  obtain ⟨hcon, hop, hpd⟩ := ho hm
  obtain ⟨hp, hd⟩ := hpd hg
  have hnew : (cells ++ [o.connect.cell rec.conn])[cells.length]? = some (o.connect.cell rec.conn) :=
    List.getElem?_concat_length
  have hadd := @add_grows _ _ _ held _ _ _ h hg hp hd hnew (le_refl 1)
  have hset : ∀ c, (cells ++ [o.connect.cell rec.conn]).set cells.length c = cells ++ [c] := fun c => by
    rw [List.set_append_right _ _ (le_refl _), Nat.sub_self]
    rfl
  rw [hset] at hadd
  refine bind_ok.mpr ⟨_, _, connConnectFile_some hm hcon hop, bind_ok.mpr ⟨_, _, hadd, bind_ok.mpr ⟨(), _, ?_, rfl⟩⟩⟩
  rw [refRelease_ok List.getElem?_concat_length (show 2 ≤ 2 by decide), List.set_append_right _ _ (le_refl _), Nat.sub_self]
  rfl

theorem ends_openFile {α : Type} {k : Option Recorder → Act α} (h : ch.hasUrl (url rec prog) = some (-1))
    (hk : ∀ s, Ends (k none) s) : Ends (openFile rec ch prog o >>= k) ⟨true, cells⟩ ↔
      o.Sound rec.conn prog ∧ (o.adds prog = true →
        Ends (k (some { rec with chain := some (ch.grown (url rec prog) cells.length) }))
          ⟨true, cells ++ [o.connect.cell rec.conn]⟩) := by
  constructor
  · intro he
    obtain ⟨r, t, hr, he⟩ := ends_bind.mp he
    have ho := sound_of_openFile h ⟨r, t, hr⟩
    refine ⟨ho, fun hadds => ?_⟩
    rw [openFile_some h ho hadds] at hr
    cases hr
    exact he
  · rintro ⟨ho, he⟩
    cases hadds : o.adds prog with
    | false =>
      obtain ⟨s', hs⟩ := openFile_none h ho hadds
      exact (ends_bind_of_ok hs).mpr (hk s')
    | true => exact (ends_bind_of_ok (openFile_some h ho hadds)).mpr (he hadds)

theorem ends_switch_grown (h : ch.hasUrl (url rec prog) = some (-1)) (ha : ch.Alive cells) {dir : Int}
    (hd : dir = LAST ∨ dir = 0) :
    Ends (chainSwitch { rec with chain := some (ch.grown (url rec prog) cells.length) } dir)
      ⟨true, cells ++ [o.connect.cell rec.conn]⟩ ↔ Held 2 cells rec.file := by
  obtain ⟨hs, hl⟩ := Chain.grown_lands h cells.length hd
  rw [ends_chainSwitch rfl (ha.grown (o.connect.cell rec.conn) (le_refl 1))]
  simp only [hs, hl, and_true, true_imp_iff]
  exact held_two_append rfl

/-- The program's file is in the chain, or can be added to it; `switches` says that the recorder then
moves on, away from the file it has. -/
def Joins (rec : Recorder) (cells : List Cell) (ch : Chain) (prog : Proginfo) (o : Opening) (switches : Prop) : Prop :=
  ∃ i, ch.hasUrl (url rec prog) = some i ∧
    (i = -1 → o.Sound rec.conn prog ∧ (o.adds prog = true → switches → Held 2 cells rec.file))

theorem steady_updateLocked (rec : Recorder) (chainid : List UInt8) (prog : Option Proginfo) (o : Opening) :
    Steady (updateLocked rec chainid prog o) := by
  unfold updateLocked
  cases rec.chain with
  | none => exact Steady.pure
  | some ch =>
    refine Steady.pure.ite ((steady_deref _).bind fun p => (steady_deref _).bind fun i => Steady.pure.ite ?_)
    refine (steady_openFile _ _ _ _).bind fun r => ?_
    cases r with
    | none => exact Steady.pure
    | some r => exact ((steady_chainSwitch _ _).bind fun _ => Steady.pure).ite Steady.pure

/-- `cmyth_livetv_chain_update` ends within its lock. -/
def UpdateSound (rec : Recorder) (cells : List Cell) (chainid : List UInt8) (prog : Option Proginfo) (o : Opening) :
    Prop :=
  ∀ ch, rec.chain = some ch → chainid.isPrefixOf ch.chainid = true →
    ∃ p, prog = some p ∧ Joins rec cells ch p o (ch.switchOnCreate = true)

theorem ends_updateLocked {chainid : List UInt8} {prog : Option Proginfo} (ha : ∀ ch, rec.chain = some ch → ch.Alive cells) :
    Ends (updateLocked rec chainid prog o) ⟨true, cells⟩ ↔ UpdateSound rec cells chainid prog o := by
  unfold updateLocked UpdateSound
  cases hch : rec.chain with
  | none => simp
  | some ch =>
    simp only [Option.some.injEq, forall_eq']
    by_cases hid : chainid.isPrefixOf ch.chainid = true
    · simp only [hid, Bool.true_eq_false, if_false, true_imp_iff]
      rw [ends_deref]
      refine exists_congr fun p => and_congr_right fun _ => ?_
      rw [ends_deref]
      refine exists_congr fun i => and_congr_right fun hi => ?_
      by_cases hne : i = -1
      · subst hne
        simp only [ne_eq, not_true_eq_false, if_false, true_imp_iff]
        refine (ends_openFile hi ?_).trans (and_congr_right fun _ => imp_congr_right fun _ => ?_)
        · exact fun s => ends_pure
        by_cases hs : ch.switchOnCreate = true
        · simp only [hs, if_true, true_imp_iff]
          exact (ends_bind_of_ends fun _ _ => ends_pure).trans (ends_switch_grown hi (ha ch hch) (.inl rfl))
        · simp [hs]
      · simp [hne]
    · simp [hid]

theorem steady_recorderRelease (rec : Recorder) : Steady (recorderRelease rec) :=
  (steady_refRelease rec.file).ite Steady.pure

/-- The copy of a recorder and the release of the original. -/
theorem dup_release (held : Bool) (h : Held 1 cells rec.file) : ∃ cells₁ cells',
    refHold rec.file ⟨held, cells⟩ = .ok ((), ⟨held, cells₁⟩) ∧
    recorderRelease rec ⟨held, cells₁⟩ = .ok ((), ⟨held, cells'⟩) ∧
    (∀ g, Held 1 cells g → Held 1 cells' g) ∧
    (Held 2 cells' rec.file ↔ (rec.refs = 1 → Held 2 cells rec.file)) := by
  unfold recorderRelease
  cases hf : rec.file with
  | none =>
    refine ⟨cells, cells, rfl, ?_, fun _ hg => hg, iff_of_true trivial fun _ => trivial⟩
    split
    · rfl
    · rfl
  | some f =>
    rw [hf] at h
    obtain ⟨c, hc, h1⟩ := h
    have hlt := (List.getElem?_eq_some_iff.mp hc).1
    have hself : ∀ c', (cells.set f c')[f]? = some c' := fun c' => List.getElem?_set_self hlt
    by_cases hr : rec.refs = 1
    · refine ⟨_, cells, refHold_ok hc h1, ?_, fun _ hg => hg, by simp [hr]⟩
      rw [if_pos hr, refRelease_ok (hself _) (show 2 ≤ c.refs + 1 by omega), List.set_set]
      have hsame : cells.set f c = cells := by
        obtain ⟨hlt, rfl⟩ := List.getElem?_eq_some_iff.mp hc
        exact List.set_getElem_self hlt
      simp only [Nat.add_sub_cancel, hsame]
    · refine ⟨_, cells.set f { c with refs := c.refs + 1 }, refHold_ok hc h1, by rw [if_neg hr]; rfl, ?_, ?_⟩
      · exact fun g hg => hg.set hc fun _ => by omega
      · exact iff_of_true ⟨_, hself _, show 2 ≤ c.refs + 1 by omega⟩ fun h => absurd h hr

theorem steady_setupLocked (rec : Recorder) (prog : Proginfo) (dup : Bool) (o : Opening) :
    Steady (setupLocked rec prog dup o) := by
  refine Steady.pure.ite ((steady_refHold _).bind fun _ => (steady_recorderRelease _).bind fun _ => ?_)
  cases rec.chain with
  | none => exact Steady.pure
  | some ch =>
    refine (steady_deref _).bind fun i => Steady.pure.ite ((steady_openFile _ _ _ _).bind fun r => ?_)
    cases r with
    | none => exact Steady.pure
    | some r => exact (steady_chainSwitch _ _).bind fun _ => Steady.pure

/-- `cmyth_livetv_chain_setup` ends within its lock. -/
def SetupSound (rec : Recorder) (cells : List Cell) (prog : Proginfo) (dup : Bool) (o : Opening) : Prop :=
  dup = true → ∀ ch, rec.chain = some ch → Joins rec cells ch prog o (rec.refs = 1)

theorem ends_setupLocked {dup : Bool} (hf : Held 1 cells rec.file) (ha : ∀ ch, rec.chain = some ch → ch.Alive cells) :
    Ends (setupLocked rec prog dup o) ⟨true, cells⟩ ↔ SetupSound rec cells prog dup o := by
  unfold setupLocked SetupSound
  cases dup with
  | false => simp
  | true =>
    obtain ⟨cells₁, cells', hh, hr, hkeep, htwo⟩ := dup_release true hf
    simp only [Bool.true_eq_false, if_false, true_imp_iff]
    rw [ends_bind_of_ok hh, ends_bind_of_ok hr]
    cases hch : rec.chain with
    | none => simp
    | some ch =>
      simp only [Option.some.injEq, forall_eq']
      rw [ends_deref]
      refine exists_congr fun i => and_congr_right fun hi => ?_
      by_cases hne : i = -1
      · subst hne
        simp only [ne_eq, not_true_eq_false, if_false, true_imp_iff]
        have hi : ch.hasUrl (url { rec with refs := 1, chain := some ch } prog) = some (-1) := hi
        refine (ends_openFile hi ?_).trans (and_congr_right fun _ => imp_congr_right fun _ => ?_)
        · exact fun s => ends_pure
        have halive : ch.Alive cells' := fun e he => hkeep _ (ha ch hch e he)
        exact ((ends_bind_of_ends fun _ _ => ends_pure).trans (ends_switch_grown hi halive (.inr rfl))).trans htwo
      · simp [hne]

end Opening

section Calls
variable {cells : List Cell} {rec : Recorder}

theorem recorderGetCurProginfo_ok {o : Info} (hc : o.created = true) (hr : rec.conn ≠ none) :
    recorderGetCurProginfo rec o ⟨false, cells⟩ = .ok (o.received, ⟨false, cells⟩) := by
  obtain ⟨version, hv⟩ := Option.ne_none_iff_exists'.mp hr
  simp only [recorderGetCurProginfo, hc, hv]
  rfl

theorem ends_recorderGetCurProginfo {α : Type} {k : Option Proginfo → Act α} {o : Info} :
    Ends (recorderGetCurProginfo rec o >>= k) ⟨false, cells⟩ ↔
      o.created = true ∧ rec.conn ≠ none ∧ Ends (k o.received) ⟨false, cells⟩ := by
  by_cases h : o.created = true ∧ rec.conn ≠ none
  · rw [ends_bind_of_ok (recorderGetCurProginfo_ok h.1 h.2)]
    simp [h]
  · refine iff_of_false ?_ fun hk => h ⟨hk.1, hk.2.1⟩
    intro he
    obtain ⟨v, t, hv, -⟩ := ends_bind.mp he
    apply h
    cases hc : o.created with
    | false =>
      simp only [recorderGetCurProginfo, hc] at hv
      cases hv
    | true =>
      refine ⟨rfl, fun hn => ?_⟩
      simp only [recorderGetCurProginfo, hc, hn] at hv
      cases hv

theorem freed_recorderGetCurProginfo (rec : Recorder) (o : Info) : Freed (recorderGetCurProginfo rec o) := by
  intro cells v s' h
  obtain ⟨hc, hr, -⟩ := ends_recorderGetCurProginfo.mp
    ((ends_bind_of_ends fun _ _ => ends_pure).mpr ⟨v, s', h⟩ : Ends (recorderGetCurProginfo rec o >>= pure) ⟨false, cells⟩)
  rw [recorderGetCurProginfo_ok hc hr] at h
  cases h
  rfl

/-- The program information that `cmyth_proginfo_get_detail` returns. -/
def Detail.got (o : Detail) (prog : Option Proginfo) : Option Proginfo :=
  if o.dup = false then none
  else prog.bind fun p => if (o.fill p).1 < 0 then none else some (o.fill p).2

theorem ends_proginfoGetDetail {α : Type} {k : Option Proginfo → Act α} {o : Detail} {prog : Option Proginfo}
    (hr : rec.conn ≠ none) : Ends (proginfoGetDetail rec.conn prog o >>= k) ⟨false, cells⟩ ↔
      (o.dup = true → prog ≠ none) ∧ Ends (k (o.got prog)) ⟨false, cells⟩ := by
  obtain ⟨version, hv⟩ := Option.ne_none_iff_exists'.mp hr
  rw [hv]
  cases hd : o.dup with
  | false =>
    have h : proginfoGetDetail (some version) prog o ⟨false, cells⟩ = .ok (o.got prog, ⟨false, cells⟩) := by
      simp only [proginfoGetDetail, Detail.got, hd]
      rfl
    rw [ends_bind_of_ok h]
    simp
  | true =>
    cases prog with
    | none =>
      refine iff_of_false ?_ (by simp)
      intro he
      obtain ⟨v, t, he, -⟩ := ends_bind.mp he
      simp only [proginfoGetDetail, hd] at he
      cases he
    | some p =>
      have h : proginfoGetDetail (some version) (some p) o ⟨false, cells⟩ = .ok (o.got (some p), ⟨false, cells⟩) := by
        have hfill : proginfoFill (some version) p o ⟨false, cells⟩ = .ok (o.fill p, ⟨false, cells⟩) := rfl
        simp only [proginfoGetDetail, Detail.got, hd]
        refine bind_ok.mpr ⟨p, _, rfl, bind_ok.mpr ⟨_, _, hfill, ?_⟩⟩
        simp only [Bool.true_eq_false, if_false, Option.bind_some]
        split
        · rfl
        · rfl
      rw [ends_bind_of_ok h]
      simp

/-- The rounds that wait for a program with a length end. -/
def WaitSound (infos : Nat → Info) (details : Nat → Detail) : Nat → Option Proginfo → Prop
  | 0, _ => True
  | n + 1, prog =>
    (prog.all fun p => p.length = 0) = true → (infos n).created = true ∧
      ((details n).dup = true → (infos n).received ≠ none) ∧
      WaitSound infos details n ((details n).got (infos n).received)

theorem ends_waitLength {α : Type} {k : Unit → Act α} {infos : Nat → Info} {details : Nat → Detail} {n : Nat}
    {prog : Option Proginfo} (hr : rec.conn ≠ none) :
    Ends (waitLength rec infos details n prog >>= k) ⟨false, cells⟩ ↔
      WaitSound infos details n prog ∧ Ends (k ()) ⟨false, cells⟩ := by
  induction n generalizing prog with
  | zero =>
    rw [ends_bind_of_ok (by rfl)]
    simp [WaitSound]
  | succ n ih =>
    unfold waitLength WaitSound
    by_cases hp : (prog.all fun p => p.length = 0) = true
    · rw [if_pos hp, bind_assoc, ends_recorderGetCurProginfo, bind_assoc, ends_proginfoGetDetail hr, ih]
      simp [hp, hr, and_assoc]
    · rw [if_neg hp, pure_bind]
      simp [hp]

theorem steady_proginfoGetDetail (control : Option Nat) (prog : Option Proginfo) (o : Detail) :
    Steady (proginfoGetDetail control prog o) := by
  have hfill : ∀ p, Steady (proginfoFill control p o) := by
    intro p
    have h : proginfoFill control p o =
        if control.isNone then pure (-EINVAL, p) else bracket (pure ()) fun _ => pure (o.fill p) := by
      simp [proginfoFill, bracket]
    rw [h]
    exact Steady.pure.ite (Steady.pure.bracket fun _ => Steady.pure)
  exact Steady.pure.ite ((steady_deref _).bind fun p => (hfill p).bind fun r => Steady.pure.ite Steady.pure)

theorem freed_waitLength (rec : Recorder) (infos : Nat → Info) (details : Nat → Detail) (n : Nat)
    (prog : Option Proginfo) : Freed (waitLength rec infos details n prog) := by
  induction n generalizing prog with
  | zero => exact Steady.pure.freed
  | succ n ih =>
    unfold waitLength
    split
    · exact (freed_recorderGetCurProginfo rec _).bind fun _ => (steady_proginfoGetDetail _ _ _).freed.bind fun _ => ih _
    · exact Steady.pure.freed

/-- The file transfers a recorder refers to are still there. -/
structure Recorder.Alive (rec : Recorder) (cells : List Cell) : Prop where
  file : Held 1 cells rec.file
  chain : ∀ ch, rec.chain = some ch → ch.Alive cells

theorem chainUpdate_disciplined {rec : Option Recorder} {chainid : List UInt8} {info : Info} {o : Opening}
    (ha : ∀ r, rec = some r → r.Alive cells) : Disciplined (chainUpdate rec chainid info o) cells ↔
      ∃ r, rec = some r ∧ info.created = true ∧ r.conn ≠ none ∧ UpdateSound r cells chainid info.received o := by
  cases rec with
  | none =>
    refine iff_of_false ?_ (by simp)
    rintro ⟨v, s', h, -⟩
    cases h
  | some r =>
    have heq : chainUpdate (some r) chainid info o = recorderGetCurProginfo r info >>= fun prog =>
        bracket (updateLocked r chainid prog o) pure := by
      simp [chainUpdate, bracket]
    have hs := fun prog => steady_updateLocked r chainid prog o
    have hf : Freed (recorderGetCurProginfo r info >>= fun prog => bracket (updateLocked r chainid prog o) pure) :=
      (freed_recorderGetCurProginfo r info).bind fun prog => (hs prog).bracket_pure.freed
    rw [heq, hf.disciplined, ends_recorderGetCurProginfo, bracket_ends (hs _), ends_updateLocked (ha r rfl).chain]
    simp

theorem chainSetup_disciplined {rec : Option Recorder} {o : Setup} (ha : ∀ r, rec = some r → r.Alive cells) :
    Disciplined (chainSetup rec o) cells ↔ ∀ r, rec = some r → o.info.created = true ∧ r.conn ≠ none ∧
      WaitSound o.infos o.details 5 o.info.received ∧
      ∃ p, o.info.received = some p ∧ SetupSound r cells p o.dup o.opening := by
  cases rec with
  | none => exact iff_of_true ⟨none, _, rfl, rfl⟩ (by simp)
  | some r =>
    have heq : chainSetup (some r) o = recorderGetCurProginfo r o.info >>= fun prog =>
        waitLength r o.infos o.details 5 prog >>= fun _ =>
          match prog with
          | none => unlock >>= fun _ => pure none
          | some p => bracket (setupLocked r p o.dup o.opening) pure := by
      simp only [chainSetup, bracket]
      congr 1
      funext prog
      cases prog with
      | none => rfl
      | some p => rfl
    have hs := fun p => steady_setupLocked r p o.dup o.opening
    have hf : Freed (chainSetup (some r) o) := by
      rw [heq]
      refine (freed_recorderGetCurProginfo r _).bind fun prog => (freed_waitLength r _ _ 5 prog).bind fun _ => ?_
      cases prog with
      | none =>
        intro cells v s' h
        cases h
      | some p => exact (hs p).bracket_pure.freed
    rw [hf.disciplined, heq, ends_recorderGetCurProginfo]
    simp only [Option.some.injEq, forall_eq']
    refine and_congr_right fun _ => and_congr_right fun hr => ?_
    rw [ends_waitLength hr]
    refine and_congr_right fun _ => ?_
    cases o.info.received with
    | none =>
      refine iff_of_false ?_ (by simp)
      rintro ⟨v, s', h⟩
      cases h
    | some p =>
      simp only [Option.some.injEq, exists_eq_left']
      rw [bracket_ends (hs p), ends_setupLocked (ha r rfl).file (ha r rfl).chain]

/-- A round of the loop requests a block, and returns what it gets unless that is 0. -/
theorem requestLoop_bind (replies : Nat → Exchange) (n : Nat) (r : Recorder) : ∃ k : Int → Act (Int × Recorder),
    requestLoop replies n r = fileRequestBlock r.file (replies n) >>= k ∧ ∀ ret, ret ≠ 0 → k ret = pure (ret, r) := by
  cases n with
  | zero => exact ⟨_, rfl, fun ret h => if_pos h⟩
  | succ n => exact ⟨_, rfl, fun ret h => if_pos h⟩

theorem chainRequestBlock_disciplined {rec : Option Recorder} {replies : Nat → Exchange} :
    Disciplined (chainRequestBlock rec replies) cells ↔ ∀ r, rec = some r → r.file = none := by
  cases rec with
  | none => exact iff_of_true ⟨-EINVAL, _, rfl, rfl⟩ (by simp)
  | some r =>
    simp only [Option.some.injEq, forall_eq']
    cases hf : r.file with
    | none =>
      refine iff_of_true ⟨-EINVAL, ⟨false, cells⟩, ?_, rfl⟩ rfl
      have hloop : ∀ n, requestLoop replies n r ⟨true, cells⟩ = .ok ((-EINVAL, r), ⟨true, cells⟩) := by
        intro n
        obtain ⟨k, hk, hret⟩ := requestLoop_bind replies n r
        rw [hk, hf]
        exact bind_ok.mpr ⟨-EINVAL, _, rfl, by rw [hret _ (by decide)]; rfl⟩
      exact bind_ok.mpr ⟨(), ⟨true, cells⟩, rfl, bind_ok.mpr ⟨_, _, hloop r.ahead, rfl⟩⟩
    | some f =>
      refine iff_of_false ?_ (by simp)
      rintro ⟨v, s', h, -⟩
      have hn : ∀ n, ¬ Ends (requestLoop replies n r) ⟨true, cells⟩ := by
        intro n he
        obtain ⟨k, hk, -⟩ := requestLoop_bind replies n r
        rw [hk] at he
        obtain ⟨_, _, h, -⟩ := ends_bind.mp he
        rw [hf, fileRequestBlock_eq] at h
        exact not_ends_bracket ⟨_, _, h⟩
      obtain ⟨_, _, hl, h⟩ := bind_ok.mp h
      cases hl
      obtain ⟨_, _, h, -⟩ := bind_ok.mp h
      exact hn _ ⟨_, _, h⟩

/-- The seek in a file needs no command, and where the chain then moves on, the file it leaves is held
elsewhere. -/
def Target.Sound (rec : Recorder) (cells : List Cell) (counts : List Int) : Target → Prop
  | .returns _ => True
  | .seeks fp offset whence cur => Quiet cells fp offset whence counts ∧
      ∀ f c ch, fp = some f → cells[f]? = some c → rec.chain = some ch → seekStays c.file offset whence = true →
        0 ≤ wrapLong c.file.pos → cur ≠ ch.current → ch.switches (cur - ch.current) = true →
        Held 2 cells rec.file ∧ ch.Lands (cur - ch.current)

theorem steady_seekChainLocked (rec : Recorder) (fp : Option Nat) (offset : Int) (whence : Option Whence) (cur : Int)
    (counts : List Int) (x : Exchange) : Steady (seekChainLocked rec fp offset whence cur counts x) := by
  refine (steady_fileSeek _ _ _ _ _).bind fun ret => (steady_deref _).bind fun ch => Steady.ite ?_ Steady.pure
  exact (steady_chainSwitch _ _).bind fun _ => Steady.pure

theorem ends_seekChainLocked {fp : Option Nat} {offset : Int} {whence : Option Whence} {cur : Int} {counts : List Int}
    {x : Exchange} {ch : Chain} (hch : rec.chain = some ch) (ha : ch.Alive cells) :
    Ends (seekChainLocked rec fp offset whence cur counts x) ⟨true, cells⟩ ↔
      (Target.seeks fp offset whence cur).Sound rec cells counts := by
  have htail : ∀ ret t, ¬ (0 ≤ ret ∧ cur ≠ ch.current) →
      fileSeek fp offset whence counts x ⟨true, cells⟩ = .ok (ret, t) →
      Ends (seekChainLocked rec fp offset whence cur counts x) ⟨true, cells⟩ := by
    intro ret t hret hrun
    refine (ends_bind_of_ok hrun).mpr ?_
    rw [hch, ends_deref]
    exact ⟨ch, rfl, by rw [if_neg hret]; exact ends_pure⟩
  constructor
  · intro he
    obtain ⟨ret, t, hret, he⟩ := ends_bind.mp he
    refine ⟨(fileSeek_ends fp offset whence counts x).mp ⟨ret, t, hret⟩, ?_⟩
    rintro f c ch' rfl hc hch' hs hpos hcur hsw
    obtain rfl := Option.some.inj (hch.symm.trans hch')
    obtain ⟨c', hc', h1, -⟩ := (fileSeek_ends (some f) offset whence counts x).mp ⟨ret, t, hret⟩ f rfl
    obtain rfl := Option.some.inj (hc.symm.trans hc')
    rw [fileSeek_stays true counts x hc h1 hs] at hret
    obtain ⟨rfl, rfl⟩ := Prod.mk.inj (Except.ok.inj hret)
    rw [hch, ends_deref] at he
    obtain ⟨ch', hch', he⟩ := he
    obtain rfl := Option.some.inj hch'
    rw [if_pos ⟨hpos, hcur⟩, ends_bind_of_ends fun _ _ => ends_pure, ends_chainSwitch hch ha] at he
    exact he hsw
  · rintro ⟨hq, hsw⟩
    cases fp with
    | none => exact htail (-EINVAL) _ (fun h => absurd h.1 (by decide)) rfl
    | some f =>
      obtain ⟨c, hc, h1, hstop⟩ := hq f rfl
      by_cases hs : seekStays c.file offset whence = true
      · have hrun := fileSeek_stays true counts x hc h1 hs
        by_cases hmove : 0 ≤ wrapLong c.file.pos ∧ cur ≠ ch.current
        · refine (ends_bind_of_ok hrun).mpr ?_
          rw [hch, ends_deref]
          refine ⟨ch, rfl, ?_⟩
          rw [if_pos hmove, ends_bind_of_ends fun _ _ => ends_pure, ends_chainSwitch hch ha]
          exact hsw f c ch rfl hc hch hs hmove.1 hmove.2
        · exact htail _ _ hmove hrun
      · have hd := hstop.resolve_left hs
        exact htail (-1) _ (fun h => absurd h.1 (by decide)) (fileSeek_stuck hc h1 hs hd)

theorem chainSeek_disciplined {rec : Option Recorder} {offset : Int} {whence : Option Whence} {counts : List Int}
    {x : Exchange} (ha : ∀ r, rec = some r → r.Alive cells) : Disciplined (chainSeek rec offset whence counts x) cells ↔
      ∀ r, rec = some r → ∃ t, seekTarget r cells offset whence = some t ∧ t.Sound r cells counts := by
  cases rec with
  | none => exact iff_of_true ⟨-EINVAL, _, rfl, rfl⟩ (by simp)
  | some r =>
    simp only [Option.some.injEq, forall_eq']
    cases ht : seekTarget r cells offset whence with
    | none =>
      refine iff_of_false ?_ (by simp)
      rintro ⟨v, s', h, -⟩
      obtain ⟨_, _, hg, h⟩ := bind_ok.mp h
      cases hg
      rw [ht] at h
      cases h
    | some t =>
      simp only [Option.some.injEq, exists_eq_left']
      cases t with
      | returns ret =>
        refine iff_of_true ⟨ret, ⟨false, cells⟩, ?_, rfl⟩ trivial
        refine bind_ok.mpr ⟨⟨false, cells⟩, ⟨false, cells⟩, rfl, ?_⟩
        rw [ht]
        rfl
      | seeks fp offset' whence' cur =>
        obtain ⟨ch, hch, -⟩ := Option.bind_eq_some_iff.mp ht
        have hrun : chainSeek (some r) offset whence counts x ⟨false, cells⟩ =
            bracket (seekChainLocked r fp offset' whence' cur counts x) pure ⟨false, cells⟩ := by
          have hget : ∀ k : Lib → Act Int, (get >>= k) ⟨false, cells⟩ = k ⟨false, cells⟩ ⟨false, cells⟩ := fun _ => rfl
          simp only [chainSeek, hget, ht, bracket]
          rfl
        rw [Disciplined, hrun, ← Disciplined, bracket_disciplined (steady_seekChainLocked r fp offset' whence' cur counts x),
          ends_seekChainLocked hch ((ha r rfl).chain ch hch)]

/-- The calls, each with its arguments and with what its sends, receives and allocations return. -/
inductive Call where
  | getCutlist (buf : Bool) (x : Exchange)
  | getCommbreaklist (buf : Bool) (x : Exchange)
  | getDeleteList (conn : Option Conn) (x : Exchange)
  | scheduleRecording (conn : Option Conn) (x : Exchange)
  | chainUpdate (rec : Option Recorder) (chainid : List UInt8) (info : Info) (o : Opening)
  | chainSetup (rec : Option Recorder) (o : Setup)
  | chainRequestBlock (rec : Option Recorder) (replies : Nat → Exchange)
  | chainSeek (rec : Option Recorder) (offset : Int) (whence : Option Whence) (counts : List Int) (x : Exchange)
  | fileSeek (file : Option Nat) (offset : Int) (whence : Option Whence) (counts : List Int) (x : Exchange)
  | fileRequestBlock (file : Option Nat) (x : Exchange)

namespace Call

/-- The call keeps to the discipline of the mutex. -/
def Keeps (cells : List Cell) : Call → Prop
  | getCutlist buf x => Disciplined (Mutex.getCutlist buf x) cells
  | getCommbreaklist buf x => Disciplined (Mutex.getCommbreaklist buf x) cells
  | getDeleteList conn x => Disciplined (Mutex.getDeleteList conn x) cells
  | scheduleRecording conn x => Disciplined (Mutex.scheduleRecording conn x) cells
  | chainUpdate rec chainid info o => Disciplined (Mutex.chainUpdate rec chainid info o) cells
  | chainSetup rec o => Disciplined (Mutex.chainSetup rec o) cells
  | chainRequestBlock rec replies => Disciplined (Mutex.chainRequestBlock rec replies) cells
  | chainSeek rec offset whence counts x => Disciplined (Mutex.chainSeek rec offset whence counts x) cells
  | fileSeek file offset whence counts x => Disciplined (Mutex.fileSeek file offset whence counts x) cells
  | fileRequestBlock file x => Disciplined (Mutex.fileRequestBlock file x) cells

/-- The pointers among the arguments are NULL or point to something that is still there. -/
def Valid (cells : List Cell) : Call → Prop
  | chainUpdate rec _ _ _ => ∀ r, rec = some r → r.Alive cells
  | chainSetup rec _ => ∀ r, rec = some r → r.Alive cells
  | chainRequestBlock rec _ => ∀ r, rec = some r → r.Alive cells
  | chainSeek rec _ _ _ _ => ∀ r, rec = some r → r.Alive cells
  | fileSeek file _ _ _ _ => Held 1 cells file
  | fileRequestBlock file _ => Held 1 cells file
  | _ => True

/-- The paths of each call that keep to the discipline. -/
def Sound (cells : List Cell) : Call → Prop
  | getCutlist buf _ => buf = false
  | getCommbreaklist _ _ => True
  | getDeleteList conn x => conn = none ∨ 0 ≤ x.sent
  | scheduleRecording conn x => conn = none ∨ 0 ≤ x.sent
  | chainUpdate rec chainid info o =>
    ∃ r, rec = some r ∧ info.created = true ∧ r.conn ≠ none ∧ UpdateSound r cells chainid info.received o
  | chainSetup rec o => ∀ r, rec = some r → o.info.created = true ∧ r.conn ≠ none ∧
      WaitSound o.infos o.details 5 o.info.received ∧
      ∃ p, o.info.received = some p ∧ SetupSound r cells p o.dup o.opening
  | chainRequestBlock rec _ => ∀ r, rec = some r → r.file = none
  | chainSeek rec offset whence counts _ =>
    ∀ r, rec = some r → ∃ t, seekTarget r cells offset whence = some t ∧ t.Sound r cells counts
  | fileSeek _ _ _ _ _ => True
  | fileRequestBlock _ _ => True

end Call

/-- A call keeps to the discipline on the paths named, and on no other. -/
theorem keeps_discipline_iff (call : Call) (h : call.Valid cells) : call.Keeps cells ↔ call.Sound cells := by
  cases call with
  | getCutlist buf x => exact getCutlist_disciplined buf x
  | getCommbreaklist buf x => exact iff_of_true (getCommbreaklist_disciplined buf x) trivial
  | getDeleteList conn x => exact sendOrReturn_disciplined conn x x.value
  | scheduleRecording conn x => exact sendOrReturn_disciplined conn x x.err
  | chainUpdate rec chainid info o => exact chainUpdate_disciplined h
  | chainSetup rec o => exact chainSetup_disciplined h
  | chainRequestBlock rec replies => exact chainRequestBlock_disciplined
  | chainSeek rec offset whence counts x => exact chainSeek_disciplined h
  | fileSeek file offset whence counts x => exact iff_of_true ((fileSeek_disciplined file offset whence counts x).mpr h) trivial
  | fileRequestBlock file x => exact iff_of_true ((fileRequestBlock_disciplined file x).mpr h) trivial

/-- A command that cannot be sent, and one that is answered. -/
def unsent : Exchange := ⟨-9, 0, 0, 0, 0⟩
def answered : Exchange := ⟨0, 12, 12, 0, 4096⟩

/-- A recorder that plays the only file of its chain and waits for the next one. -/
def playing : Recorder :=
  ⟨1, 6543, some 63, some ⟨[0x63], 1, true, 0, [⟨some [0x75], some 0⟩], by decide, by decide⟩, some 0⟩

/-- The next program has begun: its file is connected, added to the chain and played. -/
theorem keeps_discipline_next_program :
    (Call.chainUpdate (some playing) [0x63] ⟨true, answered, ⟨some [0x68], [0x68], some [0x2F, 0x70], 0⟩⟩
      ⟨⟨true, true, true, 0, 12, 0, true, 0, 0, 376⟩, ⟨true, true, true, true⟩⟩).Keeps [⟨2, ⟨63, 376, 188, 188⟩⟩] := by
  refine (keeps_discipline_iff _ ?_).mpr ⟨playing, rfl, rfl, by decide, ?_⟩
  · rintro r hr
    obtain rfl := Option.some.inj hr
    refine ⟨⟨_, rfl, by decide⟩, fun ch hch e he => ?_⟩
    obtain rfl := Option.some.inj hch
    obtain rfl := List.mem_singleton.mp he
    exact ⟨_, rfl, by decide⟩
  · intro ch hch _
    obtain rfl := Option.some.inj hch
    refine ⟨_, rfl, -1, by decide, fun _ => ⟨fun _ => ⟨by decide, rfl, fun _ => ⟨rfl, rfl⟩⟩, fun _ _ => ?_⟩⟩
    exact ⟨_, rfl, le_refl 2⟩

/-- The list of cuts unlocks the free mutex, a command that is not sent leaves it locked, an update without
a recorder unlocks it and a block of the file being played locks it twice. -/
theorem discipline_broken : ¬ (Call.getCutlist true answered).Keeps [] ∧
    ¬ (Call.getDeleteList (some ⟨3, none, 0, 0, 0, [], 0⟩) unsent).Keeps [] ∧
    ¬ (Call.chainUpdate none [0x63] ⟨true, answered, ⟨none, [], none, 0⟩⟩
      ⟨⟨true, true, true, 0, 12, 0, true, 0, 0, 376⟩, ⟨true, true, true, true⟩⟩).Keeps [] ∧
    ¬ (Call.chainRequestBlock (some playing) fun _ => answered).Keeps [⟨2, ⟨63, 376, 188, 188⟩⟩] := by
  refine ⟨fun h => ?_, fun h => ?_, fun h => ?_, fun h => ?_⟩
  · exact absurd ((getCutlist_disciplined true answered).mp h) (by decide)
  · exact absurd ((sendOrReturn_disciplined _ unsent _).mp h) (by decide)
  · obtain ⟨v, s', h, -⟩ := h
    cases h
  · exact absurd (chainRequestBlock_disciplined.mp h playing rfl) (by decide)

end Calls
end Mvpmc.Cmyth.Mutex
