import Mvpmc.Cmyth.ChainState
import Mathlib.Algebra.BigOperators.Group.Finset.Basic
import Mathlib.Algebra.Order.BigOperators.Group.Finset

/-! Seeking in the chain of a live TV recorder (`cmyth_livetv_chain_seek`), the mutex and the references
aside, and which file each of its three walks finds. -/
namespace Mvpmc.Cmyth.Mutex
open Transfer (File Whence wrap64)

/-- `cmyth_file_seek`: what it returns and the counters it leaves. -/
def fileSought (f : File) (offset : Int) (whence : Option Whence) (counts : List Int) (x : Exchange) : Int × File :=
  if seekStays f offset whence then (wrapLong f.pos, f)
  else if (drain counts f).2 then (-1, (drain counts f).1)
  else if x.sent < 0 then (x.sent, (drain counts f).1)
  else if x.count < 0 then (x.count, (drain counts f).1)
  else if x.rcvd < 0 then (x.err, (drain counts f).1)
  else (wrapLong (seekDone (drain counts f).1 offset whence).pos, seekDone (drain counts f).1 offset whence)

/-- What a seek returns and leaves. -/
structure Sought where
  ret : Int
  view : Viewing
  cells : List Cell
  deriving DecidableEq, Repr

/-- `cmyth_livetv_chain_seek` between its lock and its unlock. -/
def Viewing.seekIn (v : Viewing) (cells : List Cell) (fp : Option Nat) (offset : Int) (whence : Option Whence) (cur : Int)
    (counts : List Int) (x : Exchange) : Option Sought :=
  match fp with
  | none => some ⟨-EINVAL, v, cells⟩
  | some f => do
    let c ← cells[f]?
    let r := fileSought c.file offset whence counts x
    if 0 ≤ r.1 ∧ cur ≠ v.chain.current then
      let w ← v.switch (cur - v.chain.current)
      return ⟨r.1, w.2, cells.set f { c with file := r.2 }⟩
    return ⟨r.1, v, cells.set f { c with file := r.2 }⟩

/-- `cmyth_livetv_chain_seek`; `none` stands for a crash. -/
def Viewing.seek (rec : Recorder) (v : Viewing) (cells : List Cell) (offset : Int) (whence : Option Whence)
    (counts : List Int) (x : Exchange) : Option Sought := do
  match ← seekTarget (rec.viewing v) cells offset whence with
  | .returns ret => return ⟨ret, v, cells⟩
  | .seeks fp offset whence cur => v.seekIn cells fp offset whence cur counts x

/-! ### Against the call that locks -/

/-- The action leaves the counters of every file as they are. -/
def FilesKept {α : Type} (a : Act α) : Prop :=
  ∀ s v s', a s = .ok (v, s') → s'.cells.map Cell.file = s.cells.map Cell.file

section Refinement
variable {α β : Type} {a : Act α} {f : α → Act β}

theorem FilesKept.pure (v : α) : FilesKept (Pure.pure v : Act α) := by
  intro s w s' h
  cases h
  rfl

theorem FilesKept.bind (ha : FilesKept a) (hf : ∀ v, FilesKept (f v)) : FilesKept (a >>= f) := by
  intro s w s' h
  obtain ⟨v, t, hv, hw⟩ := bind_ok.mp h
  rw [hf v _ _ _ hw, ha _ _ _ hv]

theorem FilesKept.ite {c : Prop} [Decidable c] {b : Act α} (ha : FilesKept a) (hb : FilesKept b) :
    FilesKept (if c then a else b) := by
  split
  · exact ha
  · exact hb

theorem deref_kept (x : Option α) : FilesKept (deref x) := by
  intro s v s' h
  cases x with
  | none => cases h
  | some a =>
    cases h
    rfl

theorem cell_cases {f : Nat} {c : Cell} {s s' : Lib} (h : cell f s = .ok (c, s')) : s' = s ∧ s.cells[f]? = some c := by
  unfold cell at h
  split at h
  · rename_i c' hc
    split at h
    · cases h
    · cases h
      exact ⟨rfl, hc⟩
  · cases h

theorem map_file_set {cells : List Cell} {f : Nat} {c c' : Cell} (hc : cells[f]? = some c) (hf : c'.file = c.file) :
    (cells.set f c').map Cell.file = cells.map Cell.file := by
  rw [List.map_set, hf]
  refine List.ext_getElem? fun i => ?_
  rw [List.getElem?_set]
  split
  · rename_i hi
    subst hi
    rw [List.getElem?_map, hc, List.length_map, if_pos (List.getElem?_eq_some_iff.mp hc).1, Option.map_some]
  · rfl

/-- Counting the references of a file leaves its counters. -/
theorem count_kept (f : Nat) (n : Cell → Nat) {k : Cell → Act Unit} (hk : ∀ c, FilesKept (k c)) :
    FilesKept (cell f >>= fun c => setCell f { c with refs := n c } >>= fun _ => k c) := by
  intro s w s' h
  obtain ⟨c, t, hc, hset⟩ := bind_ok.mp h
  obtain ⟨rfl, hc⟩ := cell_cases hc
  obtain ⟨_, t', hs, hrest⟩ := bind_ok.mp hset
  cases hs
  rw [hk c _ _ _ hrest]
  exact map_file_set hc rfl

theorem fileDestroy_kept : FilesKept fileDestroy := by
  intro s w s' h
  obtain ⟨_, t, hl, hu⟩ := bind_ok.mp h
  unfold lock at hl
  unfold unlock at hu
  split at hl
  · cases hl
  · cases hl
    cases hu
    rfl

theorem refHold_kept (f : Option Nat) : FilesKept (refHold f) := by
  cases f with
  | none => exact .pure ()
  | some f => exact count_kept f (fun c => c.refs + 1) (k := fun _ => Pure.pure ()) fun _ => .pure ()

theorem refRelease_kept (f : Option Nat) : FilesKept (refRelease f) := by
  cases f with
  | none => exact .pure ()
  | some f => exact count_kept f (fun c => c.refs - 1) fun c => fileDestroy_kept.ite (.pure ())

theorem moveTo_kept (ch : Chain) (i : Int) : FilesKept (ch.moveTo i) := by
  unfold Chain.moveTo
  split
  · exact (deref_kept _).bind fun _ => .pure _
  · intro s v s' h
    cases h

theorem chainSwitch_kept (rec : Recorder) (dir : Int) : FilesKept (chainSwitch rec dir) :=
  (deref_kept _).bind fun ch => .ite ((refRelease_kept _).bind fun _ => (moveTo_kept ch _).bind fun _ =>
    (refHold_kept _).bind fun _ => .pure _) (.pure _)

theorem pure_cases {v w : α} {s s' : Lib} (h : (Pure.pure v : Act α) s = .ok (w, s')) : v = w ∧ s = s' := by
  cases h
  exact ⟨rfl, rfl⟩

/-- The answer to the `SEEK` command. -/
theorem seekLocked_cases {f : Nat} {c : Cell} {d : File} {offset : Int} {whence : Option Whence} {x : Exchange}
    {s s' : Lib} {ret : Int} (h : seekLocked f c d offset whence x s = .ok (ret, s'))
    (hs : s.cells = s.cells.set f { c with file := d }) :
    ∃ g, (if x.sent < 0 then (x.sent, d) else if x.count < 0 then (x.count, d) else if x.rcvd < 0 then (x.err, d)
        else (wrapLong (seekDone d offset whence).pos, seekDone d offset whence)) = (ret, g) ∧
      s'.cells = s.cells.set f { c with file := g } := by
  unfold seekLocked Exchange.answer at h
  split_ifs at h ⊢
  · obtain ⟨rfl, rfl⟩ := pure_cases h
    exact ⟨d, rfl, hs⟩
  · obtain ⟨rfl, rfl⟩ := pure_cases h
    exact ⟨d, rfl, hs⟩
  · obtain ⟨rfl, rfl⟩ := pure_cases h
    exact ⟨d, rfl, hs⟩
  · obtain ⟨_, t, ht, h⟩ := bind_ok.mp h
    obtain ⟨rfl, rfl⟩ := pure_cases h
    cases ht
    exact ⟨_, rfl, rfl⟩

/-- What `cmyth_file_seek` returns and leaves, whether or not the mutex is taken already. -/
theorem fileSeek_sought {f : Nat} {offset : Int} {whence : Option Whence} {counts : List Int} {x : Exchange} {s s' : Lib}
    {ret : Int} (h : fileSeek (some f) offset whence counts x s = .ok (ret, s')) : ∃ c, s.cells[f]? = some c ∧
      (fileSought c.file offset whence counts x).1 = ret ∧
      s'.cells = s.cells.set f { c with file := (fileSought c.file offset whence counts x).2 } := by
  rw [fileSeek_eq] at h
  obtain ⟨c, t, hc, hrun⟩ := bind_ok.mp h
  obtain ⟨rfl, hc⟩ := cell_cases hc
  have hlt := (List.getElem?_eq_some_iff.mp hc).1
  have hself : t.cells = t.cells.set f c := by
    rw [← (List.getElem?_eq_some_iff.mp hc).2, List.set_getElem_self]
  refine ⟨c, hc, ?_⟩
  unfold fileSought
  split at hrun
  · rename_i hs
    obtain ⟨hret, hs'⟩ := pure_cases hrun
    rw [if_pos hs, ← hs']
    dsimp only
    exact ⟨hret, hself⟩
  · rename_i hs
    obtain ⟨_, t', hset, hrun⟩ := bind_ok.mp hrun
    cases hset
    rw [if_neg hs]
    split at hrun
    · rename_i hd
      obtain ⟨rfl, rfl⟩ := pure_cases hrun
      rw [if_pos hd]
      exact ⟨rfl, rfl⟩
    · rename_i hd
      rw [if_neg hd]
      obtain ⟨-, v, t', hl, hp⟩ := (bracket_ok (steady_seekLocked _ _ _ _ _ _)).mp hrun
      obtain ⟨rfl, rfl⟩ := pure_cases hp
      obtain ⟨g, hg, hcells⟩ := seekLocked_cases hl (by rw [List.set_set])
      rw [hg]
      exact ⟨rfl, by rw [hcells, List.set_set]⟩

theorem seekChainLocked_seeks {rec : Recorder} {v : Viewing} {fp : Option Nat} {offset : Int} {whence : Option Whence}
    {cur : Int} {counts : List Int} {x : Exchange} {s s' : Lib} {ret : Int}
    (h : seekChainLocked (rec.viewing v) fp offset whence cur counts x s = .ok (ret, s')) :
    ∃ r, v.seekIn s.cells fp offset whence cur counts x = some r ∧ r.ret = ret ∧
      s'.cells.map Cell.file = r.cells.map Cell.file := by
  obtain ⟨ret', t, hseek, hrest⟩ := bind_ok.mp h
  obtain ⟨ch, t', hch, hmove⟩ := bind_ok.mp hrest
  obtain ⟨hch, ht'⟩ := pure_cases (v := v.chain) hch
  subst hch ht'
  cases fp with
  | none =>
    obtain ⟨hret, ht⟩ := pure_cases hseek
    subst hret ht
    rw [if_neg fun hn => absurd hn.1 (by decide)] at hmove
    obtain ⟨rfl, rfl⟩ := pure_cases hmove
    exact ⟨_, rfl, rfl, rfl⟩
  | some f =>
    obtain ⟨c, hc, hr, ht⟩ := fileSeek_sought hseek
    unfold Viewing.seekIn
    simp only [hc, hr, Option.bind_eq_bind, Option.bind_some, ← ht]
    split at hmove
    · rename_i hm
      obtain ⟨w, t', hsw, hret⟩ := bind_ok.mp hmove
      obtain ⟨rfl, rfl⟩ := pure_cases hret
      obtain ⟨r, hr, -⟩ := Option.map_eq_some_iff.mp (chainSwitch_yields v.chain (rec.viewing v) rfl _ _ _ _ hsw)
      rw [if_pos hm, show v.switch _ = some r from hr, Option.bind_some]
      exact ⟨_, rfl, rfl, chainSwitch_kept _ _ _ _ _ hsw⟩
    · rename_i hm
      obtain ⟨rfl, rfl⟩ := pure_cases hmove
      rw [if_neg hm]
      exact ⟨_, rfl, rfl, rfl⟩

/-- Where the call that locks returns, it returns and leaves what the seek without the mutex does. -/
theorem chainSeek_seeks {rec : Recorder} {v : Viewing} {offset : Int} {whence : Option Whence} {counts : List Int}
    {x : Exchange} {s s' : Lib} {ret : Int}
    (h : chainSeek (some (rec.viewing v)) offset whence counts x s = .ok (ret, s')) :
    ∃ r, v.seek rec s.cells offset whence counts x = some r ∧ r.ret = ret ∧
      s'.cells.map Cell.file = r.cells.map Cell.file := by
  obtain ⟨s₁, s₂, hget, hrest⟩ := bind_ok.mp h
  cases hget
  obtain ⟨target, t, ht, hrest⟩ := bind_ok.mp hrest
  unfold Viewing.seek
  cases hf : seekTarget (rec.viewing v) s.cells offset whence with
  | none =>
    rw [hf] at ht
    cases ht
  | some target' =>
    rw [hf] at ht
    obtain ⟨rfl, rfl⟩ := pure_cases ht
    cases target' with
    | returns r =>
      obtain ⟨rfl, rfl⟩ := pure_cases hrest
      exact ⟨_, rfl, rfl, rfl⟩
    | seeks fp offset' whence' cur =>
      obtain ⟨-, r, t, hl, hp⟩ := (bracket_ok (g := Pure.pure) (steady_seekChainLocked _ _ _ _ _ _ _)).mp hrest
      obtain ⟨rfl, rfl⟩ := pure_cases hp
      obtain ⟨out, hout, hret, hfiles⟩ := seekChainLocked_seeks hl
      exact ⟨out, hout, hret, hfiles⟩

end Refinement

/-! ### Positions in a chain -/

/-- The length of the file at an index. -/
def Chain.lengthAt (ch : Chain) (cells : List Cell) (i : Nat) : Nat :=
  match ch.fileAt cells i with
  | some fp => fp.2.length
  | none => 0

/-- The position in the chain at which the file at an index starts; at the number of files, the length of the
chain. -/
def Chain.start (ch : Chain) (cells : List Cell) (n : Nat) : Nat := ∑ i ∈ Finset.range n, ch.lengthAt cells i

namespace Viewing
variable (v : Viewing) (cells : List Cell)

/-- The length of the whole chain. -/
def total : Nat := v.chain.start cells v.chain.ct

/-- The lengths of the earlier files and the position in the current one. -/
def position : Int :=
  v.chain.start cells v.chain.current.toNat + ((v.chain.fileAt cells v.chain.current).map fun fp => (fp.2.req : Int)).getD 0

/-- The position in the current file is one of the file. -/
def Within : Prop := ∃ fp, v.chain.fileAt cells v.chain.current = some fp ∧ fp.2.req ≤ fp.2.length

/-- The chain is at a position, which the current file contains. -/
structure Landed (t : Int) : Prop where
  position : v.position cells = t
  within : v.Within cells
  inStep : v.InStep

/-- Every file counted is there, with a file transfer of its own, and the recorder plays the current one. -/
structure Playing : Prop where
  inStep : v.InStep
  files : ∀ i < v.chain.ct, ∃ fp, v.chain.fileAt cells i = some fp
  distinct : ∀ i < v.chain.ct, ∀ j < v.chain.ct, ∀ fp fq, v.chain.fileAt cells i = some fp →
    v.chain.fileAt cells j = some fq → fp.1 = fq.1 → i = j
  asked : ∀ i < v.chain.ct, ∀ fp, v.chain.fileAt cells i = some fp → fp.2.pos ≤ fp.2.req ∧ fp.2.req < 2 ^ 63
  fits : v.total cells < 2 ^ 63
  ct_le : v.chain.ct ≤ LAST

end Viewing

section Walks
variable {v : Viewing} {cells : List Cell}

theorem wrapLong_of_bounds {x : Int} (hlo : -2 ^ 63 ≤ x) (hhi : x < 2 ^ 63) : wrapLong x = x := by
  unfold wrapLong
  refine Int.bmod_eq_of_le ?_ ?_
  · exact le_trans (by decide) hlo
  · exact lt_of_lt_of_le hhi (by decide)

theorem wrapLong_add (a b : Int) : wrapLong (wrapLong a + b) = wrapLong (a + b) := Int.bmod_add_bmod

attribute [local irreducible] wrapLong

theorem Chain.start_succ (ch : Chain) (cells : List Cell) (n : Nat) :
    ch.start cells (n + 1) = ch.start cells n + ch.lengthAt cells n := Finset.sum_range_succ _ _

theorem Chain.start_mono (ch : Chain) (cells : List Cell) {m n : Nat} (h : m ≤ n) : ch.start cells m ≤ ch.start cells n :=
  Finset.sum_le_sum_of_subset (Finset.range_mono h)

theorem wrapLong_length {m n l : Nat} (h : m = n + l) (hm : m < 2 ^ 63) : wrapLong l = l :=
  wrapLong_of_bounds (by omega) (by omega)

/-- The file at an index ends where the next one starts. -/
theorem Viewing.Playing.fileAt (h : v.Playing cells) {i : Nat} (hi : i < v.chain.ct) :
    ∃ fp, v.chain.fileAt cells i = some fp ∧ v.chain.start cells (i + 1) = v.chain.start cells i + fp.2.length ∧
      v.chain.start cells (i + 1) < 2 ^ 63 := by
  obtain ⟨fp, hfp⟩ := h.files i hi
  refine ⟨fp, hfp, ?_, lt_of_le_of_lt (v.chain.start_mono cells hi) h.fits⟩
  rw [Chain.start_succ]
  unfold Chain.lengthAt
  rw [hfp]

theorem seekSet_step {ch : Chain} {n : Nat} {f : Nat × File} (hn : n < ch.ct)
    (hf : ch.fileAt cells (ch.ct - (n + 1) : Nat) = some f) (offset : Int) (fp : Option (Nat × File)) :
    ch.seekSet cells (n + 1) offset fp = if offset < wrapLong f.2.length then
      some (offset, some f, ((ch.ct - (n + 1) : Nat) : Int))
      else ch.seekSet cells n (wrapLong (offset - f.2.length)) (some f) := by
  have hidx : ((ch.ct - (n + 1) : Nat) : Int) = ch.ct - (n + 1) := by omega
  rw [hidx] at hf ⊢
  rw [Chain.seekSet, hf, Option.bind_eq_bind, Option.bind_some, Option.pure_def]

/-- The walk from the start: a position in the chain is found in the file that ends behind it. -/
theorem seekSet_found (h : v.Playing cells) {t : Int} (ht : t < v.total cells) {n : Nat} (hn : n ≤ v.chain.ct)
    (hlo : v.chain.start cells (v.chain.ct - n) ≤ t) (fp : Option (Nat × File)) :
    ∃ (i : Nat) (f : Nat × File), i < v.chain.ct ∧ v.chain.fileAt cells i = some f ∧ v.chain.start cells i ≤ t ∧
      t < v.chain.start cells (i + 1) ∧ v.chain.seekSet cells n (t - v.chain.start cells (v.chain.ct - n)) fp =
        some (t - v.chain.start cells i, some f, (i : Int)) := by
  induction n generalizing fp with
  | zero =>
    unfold Viewing.total at ht
    rw [Nat.sub_zero] at hlo
    omega
  | succ n ih =>
    obtain ⟨f, hf, hnext, hfit⟩ := h.fileAt (show v.chain.ct - (n + 1) < v.chain.ct by omega)
    have hsucc : v.chain.ct - (n + 1) + 1 = v.chain.ct - n := by omega
    rw [hsucc] at hnext hfit
    rw [seekSet_step (by omega) hf, wrapLong_length hnext hfit]
    by_cases hb : t < v.chain.start cells (v.chain.ct - n)
    · rw [if_pos (by omega)]
      exact ⟨_, f, by omega, hf, hlo, by rwa [hsucc], rfl⟩
    · have hfits := h.fits
      have hrest : t - v.chain.start cells (v.chain.ct - (n + 1)) - f.2.length = t - v.chain.start cells (v.chain.ct - n) := by
        omega
      have hwrap : wrapLong (t - v.chain.start cells (v.chain.ct - n)) = t - v.chain.start cells (v.chain.ct - n) :=
        wrapLong_of_bounds (by omega) (by omega)
      rw [if_neg (by omega), hrest, hwrap]
      exact ih (by omega) (by omega) (some f)

/-- The end of the chain is in none of its files for that walk. -/
theorem seekSet_end (h : v.Playing cells) {n : Nat} (hn : n ≤ v.chain.ct) (fp : Option (Nat × File)) :
    v.chain.seekSet cells n (v.total cells - v.chain.start cells (v.chain.ct - n)) fp =
      some (0, if n = 0 then fp else v.chain.fileAt cells (v.chain.ct - 1), (v.chain.ct : Int)) := by
  induction n generalizing fp with
  | zero =>
    rw [Nat.sub_zero, Viewing.total, sub_self]
    rfl
  | succ n ih =>
    obtain ⟨f, hf, hnext, hfit⟩ := h.fileAt (show v.chain.ct - (n + 1) < v.chain.ct by omega)
    rw [show v.chain.ct - (n + 1) + 1 = v.chain.ct - n by omega] at hnext hfit
    have hend : v.chain.start cells (v.chain.ct - n) ≤ v.total cells := v.chain.start_mono cells (Nat.sub_le _ _)
    have hfits := h.fits
    rw [seekSet_step (by omega) hf, wrapLong_length hnext hfit]
    have hrest : (v.total cells : Int) - v.chain.start cells (v.chain.ct - (n + 1)) - f.2.length =
        v.total cells - v.chain.start cells (v.chain.ct - n) := by
      omega
    have hwrap : wrapLong (v.total cells - v.chain.start cells (v.chain.ct - n)) =
        v.total cells - v.chain.start cells (v.chain.ct - n) := wrapLong_of_bounds (by omega) (by omega)
    rw [if_neg (by omega), hrest, hwrap, ih (by omega), if_neg n.succ_ne_zero]
    by_cases h0 : n = 0
    · subst h0
      rw [if_pos rfl, ← hf, show ((v.chain.ct - (0 + 1) : Nat) : Int) = v.chain.ct - 1 by omega]
    · rw [if_neg h0]

/-- The walk forward from the current file. -/
theorem forward_found (h : v.Playing cells) {t : Int} (hhi : t ≤ v.total cells) {n : Nat}
    (hn : n < v.chain.ct) {fp : Nat × File} (hfp : v.chain.fileAt cells (v.chain.ct - 1 - n : Nat) = some fp) :
    ∃ (i : Nat) (f : Nat × File), i < v.chain.ct ∧ v.chain.fileAt cells i = some f ∧ t ≤ v.chain.start cells (i + 1) ∧
      v.chain.forward cells n (t - v.chain.start cells (v.chain.ct - 1 - n)) fp =
        some (some (t - v.chain.start cells i, f, (i : Int))) := by
  induction n generalizing fp with
  | zero =>
    obtain ⟨f, hf, hnext, hfit⟩ := h.fileAt (show v.chain.ct - 1 - 0 < v.chain.ct by omega)
    obtain rfl := Option.some.inj (hf.symm.trans hfp)
    have hlast : v.chain.ct - 1 - 0 + 1 = v.chain.ct := by omega
    unfold Viewing.total at hhi
    rw [hlast] at hnext hfit
    refine ⟨v.chain.ct - 1 - 0, f, by omega, hf, by rw [hlast]; exact hhi, ?_⟩
    unfold Chain.forward
    rw [wrapLong_length hnext hfit, if_neg (by omega), show ((v.chain.ct - 1 - 0 : Nat) : Int) = v.chain.ct - 1 by omega]
    rfl
  | succ n ih =>
    obtain ⟨f, hf, hnext, hfit⟩ := h.fileAt (show v.chain.ct - 1 - (n + 1) < v.chain.ct by omega)
    obtain rfl := Option.some.inj (hf.symm.trans hfp)
    have hsucc : v.chain.ct - 1 - (n + 1) + 1 = v.chain.ct - 1 - n := by omega
    unfold Chain.forward
    rw [wrapLong_length hnext hfit]
    by_cases hb : t ≤ v.chain.start cells (v.chain.ct - 1 - (n + 1) + 1)
    · rw [hsucc] at hnext hb
      rw [if_pos (by omega), show (v.chain.ct : Int) - 1 - (n + 1) = (v.chain.ct - 1 - (n + 1) : Nat) by omega]
      exact ⟨_, f, by omega, hf, by rw [hsucc]; exact hb, rfl⟩
    · obtain ⟨g, hg, -⟩ := h.fileAt (show v.chain.ct - 1 - n < v.chain.ct by omega)
      have hfits := h.fits
      rw [hsucc] at hnext hb
      rw [if_neg (by omega), show (v.chain.ct : Int) - (n + 1) = (v.chain.ct - 1 - n : Nat) by omega]
      simp only [hg, Option.bind_eq_bind, Option.bind_some]
      rw [wrapLong_of_bounds (by omega) (by omega), show t - v.chain.start cells (v.chain.ct - 1 - (n + 1)) - f.2.length =
        t - v.chain.start cells (v.chain.ct - 1 - n) by omega]
      exact ih (by omega) hg

/-- The walk backward from the file that the walk forward has found. -/
theorem backward_found (h : v.Playing cells) {t : Int} (hlo : 0 ≤ t) {i : Nat} (hi : i < v.chain.ct) {fp : Nat × File}
    (hfp : v.chain.fileAt cells i = some fp) (hend : t ≤ v.chain.start cells (i + 1)) :
    ∃ (j : Nat) (f : Nat × File), j < v.chain.ct ∧ v.chain.fileAt cells j = some f ∧ v.chain.start cells j ≤ t ∧
      t ≤ v.chain.start cells (j + 1) ∧ v.chain.backward cells i (t - v.chain.start cells i) fp =
        some (some (t - v.chain.start cells j, f, (j : Int))) := by
  induction i generalizing fp with
  | zero =>
    have hzero : v.chain.start cells 0 = 0 := rfl
    refine ⟨0, fp, hi, hfp, by rw [hzero]; exact hlo, hend, ?_⟩
    unfold Chain.backward
    rw [if_neg (by omega)]
    rfl
  | succ i ih =>
    unfold Chain.backward
    by_cases hb : (v.chain.start cells (i + 1) : Int) ≤ t
    · rw [if_pos (by omega)]
      exact ⟨i + 1, fp, hi, hfp, hb, hend, rfl⟩
    · obtain ⟨g, hg, hnext, hfit⟩ := h.fileAt (show i < v.chain.ct by omega)
      rw [if_neg (by omega)]
      simp only [hg, Option.bind_eq_bind, Option.bind_some]
      rw [wrapLong_of_bounds (by omega) (by omega),
        show t - v.chain.start cells (i + 1) + g.2.length = t - v.chain.start cells i by omega]
      exact ih (by omega) hg (by omega)

/-- The lengths of the files from an index on, added up. -/
theorem addLengths_sum (h : v.Playing cells) {n i : Nat} (hn : i + n ≤ v.chain.ct) (offset : Int) :
    v.chain.addLengths cells n i (wrapLong offset) =
      some (wrapLong (offset + (v.chain.start cells (i + n) - v.chain.start cells i))) := by
  induction n generalizing i offset with
  | zero =>
    rw [Nat.add_zero, sub_self, add_zero]
    rfl
  | succ n ih =>
    obtain ⟨f, hf, hnext, -⟩ := h.fileAt (show i < v.chain.ct by omega)
    unfold Chain.addLengths
    simp only [hf, Option.bind_eq_bind, Option.bind_some, wrapLong_add]
    rw [show (i : Int) + 1 = (i + 1 : Nat) by omega, ih (by omega), show i + 1 + n = i + (n + 1) by omega]
    congr 2
    omega

end Walks

end Mvpmc.Cmyth.Mutex
