import Mvpmc.Cmyth.Mutex

/-! The discipline of the mutex: rules for actions, and when the calls outside `livetv.c` keep to it. -/
namespace Mvpmc.Cmyth.Mutex
open Transfer (File Whence)

/-- The action returns. -/
def Ends {α : Type} (a : Act α) (s : Lib) : Prop := ∃ v s', a s = .ok (v, s')

/-- Called with the mutex free, the action never locks it while it is held, never unlocks it while it is
free and returns with it free. -/
def Disciplined {α : Type} (a : Act α) (cells : List Cell) : Prop :=
  ∃ v s', a ⟨false, cells⟩ = .ok (v, s') ∧ s'.held = false

/-- An action that returns leaves the mutex as it was. -/
def Steady {α : Type} (a : Act α) : Prop := ∀ s v s', a s = .ok (v, s') → s'.held = s.held

/-- An action that is called with the mutex free and returns has freed it. -/
def Freed {α : Type} (a : Act α) : Prop := ∀ cells v s', a ⟨false, cells⟩ = .ok (v, s') → s'.held = false

section Rules
variable {α β : Type} {a : Act α} {f : α → Act β} {s s' : Lib} {v : α} {w : β} {cells : List Cell}

theorem bind_ok : (a >>= f) s = .ok (w, s') ↔ ∃ v t, a s = .ok (v, t) ∧ f v t = .ok (w, s') := by
  change (a s).bind (fun p => f p.1 p.2) = _ ↔ _
  cases h : a s with
  | error e => simp [Except.bind]
  | ok p => simp [Except.bind, Prod.ext_iff, and_assoc]

theorem ends_bind : Ends (a >>= f) s ↔ ∃ v t, a s = .ok (v, t) ∧ Ends (f v) t := by
  constructor
  · rintro ⟨w, s', h⟩
    obtain ⟨v, t, ha, hf⟩ := bind_ok.mp h
    exact ⟨v, t, ha, w, s', hf⟩
  · rintro ⟨v, t, ha, w, s', hf⟩
    exact ⟨w, s', bind_ok.mpr ⟨v, t, ha, hf⟩⟩

theorem ends_bind_of_ok (h : a s = .ok (v, s')) : Ends (a >>= f) s ↔ Ends (f v) s' := by
  rw [ends_bind]
  simp [h, Prod.ext_iff]

@[simp] theorem ends_pure : Ends (pure v : Act α) s := ⟨v, s, rfl⟩

@[simp] theorem not_ends_throw (e : Fault) : ¬ Ends (throw e : Act α) s := by
  rintro ⟨v, s', h⟩
  cases h

theorem ends_bind_of_ends (h : ∀ v s, Ends (f v) s) : Ends (a >>= f) s ↔ Ends a s := by
  rw [ends_bind]
  exact ⟨fun ⟨v, t, ha, _⟩ => ⟨v, t, ha⟩, fun ⟨v, t, ha⟩ => ⟨v, t, ha, h v t⟩⟩

theorem ends_deref (o : Option α) : Ends (deref o >>= f) s ↔ ∃ v, o = some v ∧ Ends (f v) s := by
  cases o with
  | none =>
    simp only [ends_bind, reduceCtorEq, false_and, exists_false, iff_false]
    rintro ⟨v, t, h, -⟩
    cases h
  | some v => simp [ends_bind_of_ok (show deref (some v) s = .ok (v, s) from rfl)]

theorem Steady.pure : Steady (pure v : Act α) := by
  intro s v s' h
  cases h
  rfl

theorem Steady.throw (e : Fault) : Steady (throw e : Act α) := by
  intro s v s' h
  cases h

theorem Steady.bind (ha : Steady a) (hf : ∀ v, Steady (f v)) : Steady (a >>= f) := by
  intro s w s' h
  obtain ⟨v, t, h₁, h₂⟩ := bind_ok.mp h
  exact (hf v t w s' h₂).trans (ha s v t h₁)

theorem Steady.ite {c : Prop} [Decidable c] {b : Act α} (ha : Steady a) (hb : Steady b) :
    Steady (if c then a else b) := by
  split
  · exact ha
  · exact hb

theorem Steady.freed (ha : Steady a) : Freed a := fun _ v s' h => ha _ v s' h

theorem Freed.bind (ha : Freed a) (hf : ∀ v, Freed (f v)) : Freed (a >>= f) := by
  intro cells w s' h
  obtain ⟨v, ⟨held, cells'⟩, h₁, h₂⟩ := bind_ok.mp h
  obtain rfl : held = false := ha cells v _ h₁
  exact hf v cells' w s' h₂

theorem Freed.disciplined (ha : Freed a) : Disciplined a cells ↔ Ends a ⟨false, cells⟩ :=
  ⟨fun ⟨v, s', h, _⟩ => ⟨v, s', h⟩, fun ⟨v, s', h⟩ => ⟨v, s', h, ha _ v s' h⟩⟩

/-- What runs between a lock and an unlock. -/
def bracket (a : Act α) (g : α → Act β) : Act β := do
  lock
  let v ← a
  unlock
  g v

theorem bracket_ok {g : α → Act β} (ha : Steady a) : bracket a g s = .ok (w, s') ↔
    s.held = false ∧ ∃ v t, a ⟨true, s.cells⟩ = .ok (v, t) ∧ g v ⟨false, t.cells⟩ = .ok (w, s') := by
  obtain ⟨held, cells⟩ := s
  simp only [bracket, bind_ok]
  cases held with
  | true => simp [lock]
  | false =>
    constructor
    · rintro ⟨_, t, hl, v, t', ht, _, u, hu, hg⟩
      obtain rfl : (⟨true, cells⟩ : Lib) = t := by simpa [lock] using hl
      have hh : t'.held = true := ha _ v t' ht
      have hu : ⟨false, t'.cells⟩ = u := by simpa [unlock, hh] using hu
      exact ⟨rfl, v, t', ht, hu ▸ hg⟩
    · rintro ⟨-, v, t, ht, hg⟩
      have hh : t.held = true := ha _ v t ht
      exact ⟨(), ⟨true, cells⟩, rfl, v, t, ht, (), ⟨false, t.cells⟩, by simp [unlock, hh], hg⟩

theorem not_ends_bracket {g : α → Act β} : ¬ Ends (bracket a g) ⟨true, cells⟩ := by
  rintro ⟨w, s', h⟩
  obtain ⟨v, t, h, -⟩ := bind_ok.mp h
  cases h

theorem Steady.bracket {g : α → Act β} (ha : Steady a) (hg : ∀ v, Steady (g v)) : Steady (bracket a g) := by
  intro s w s' h
  obtain ⟨hs, v, t, -, ht⟩ := (bracket_ok ha).mp h
  exact (hg v _ w s' ht).trans hs.symm

theorem Steady.bracket_pure (ha : Steady a) : Steady (Mutex.bracket a Pure.pure) := ha.bracket fun _ => Steady.pure

theorem bracket_ends (ha : Steady a) : Ends (bracket a pure) ⟨false, cells⟩ ↔ Ends a ⟨true, cells⟩ := by
  constructor
  · rintro ⟨w, s', h⟩
    obtain ⟨-, v, t, h, -⟩ := (bracket_ok ha).mp h
    exact ⟨v, t, h⟩
  · rintro ⟨v, t, h⟩
    exact ⟨v, ⟨false, t.cells⟩, (bracket_ok ha).mpr ⟨rfl, v, t, h, rfl⟩⟩

theorem bracket_disciplined (ha : Steady a) : Disciplined (bracket a pure) cells ↔ Ends a ⟨true, cells⟩ := by
  rw [ha.bracket_pure.freed.disciplined, bracket_ends ha]

end Rules

section Steps

theorem steady_deref {α : Type} (o : Option α) : Steady (deref o) := by
  cases o with
  | none => exact Steady.throw .crash
  | some v => exact Steady.pure

theorem steady_cell (f : Nat) : Steady (cell f) := by
  intro s c s' h
  unfold cell at h
  split at h
  · split at h
    · cases h
    · cases h
      rfl
  · cases h

theorem steady_setCell (f : Nat) (c : Cell) : Steady (setCell f c) := by
  intro s v s' h
  cases h
  rfl

theorem steady_fileDestroy : Steady fileDestroy := by
  have h : fileDestroy = bracket (pure ()) pure := by simp [fileDestroy, bracket]
  rw [h]
  exact Steady.pure.bracket fun _ => Steady.pure

theorem steady_refHold (f : Option Nat) : Steady (refHold f) := by
  cases f with
  | none => exact Steady.pure
  | some f => exact (steady_cell f).bind fun c => steady_setCell f _

theorem steady_refRelease (f : Option Nat) : Steady (refRelease f) := by
  cases f with
  | none => exact Steady.pure
  | some f => exact (steady_cell f).bind fun c => (steady_setCell f _).bind fun _ => steady_fileDestroy.ite Steady.pure

theorem Steady.answer {done : Act Int} (x : Exchange) (h : Steady done) : Steady (x.answer done) :=
  Steady.pure.ite (Steady.pure.ite (Steady.pure.ite h))

theorem ends_answer {done : Act Int} {s : Lib} (x : Exchange) (h : Ends done s) : Ends (x.answer done) s := by
  unfold Exchange.answer
  split_ifs
  · exact ends_pure
  · exact ends_pure
  · exact ends_pure
  · exact h

theorem ends_store {α : Type} {s : Lib} (f : Nat) (c : Cell) (v : α) :
    Ends (do
      setCell f c
      return v) s :=
  ⟨v, _, rfl⟩

/-- A file transfer, if there is one, has at least `n` references. -/
def Held (n : Nat) (cells : List Cell) : Option Nat → Prop
  | none => True
  | some f => ∃ c, cells[f]? = some c ∧ n ≤ c.refs

variable {cells : List Cell} {held : Bool} {f : Nat}

theorem cell_ok {c : Cell} (h : cells[f]? = some c) (hc : 1 ≤ c.refs) : cell f ⟨held, cells⟩ = .ok (c, ⟨held, cells⟩) := by
  have hne : c.refs ≠ 0 := by omega
  simp [cell, h, hne]

theorem ends_cell {α : Type} {k : Cell → Act α} :
    Ends (cell f >>= k) ⟨held, cells⟩ ↔ ∃ c, cells[f]? = some c ∧ 1 ≤ c.refs ∧ Ends (k c) ⟨held, cells⟩ := by
  cases h : cells[f]? with
  | none =>
    simp only [ends_bind, reduceCtorEq, false_and, exists_false, iff_false]
    rintro ⟨c, t, hc, -⟩
    simp [cell, h] at hc
  | some c =>
    by_cases hc : c.refs = 0
    · simp only [ends_bind, Option.some.injEq]
      constructor
      · rintro ⟨c', t, hk, -⟩
        simp [cell, h, hc] at hk
      · rintro ⟨c', rfl, hk, -⟩
        omega
    · rw [ends_bind_of_ok (cell_ok h (by omega))]
      constructor
      · intro hk
        exact ⟨c, rfl, by omega, hk⟩
      · rintro ⟨c', hc', -, hk⟩
        exact Option.some.inj hc' ▸ hk

end Steps

section Files
variable {cells : List Cell}

theorem getCommbreaklist_disciplined (buf : Bool) (x : Exchange) : Disciplined (getCommbreaklist buf x) cells := by
  cases buf with
  | false => exact ⟨(), _, rfl, rfl⟩
  | true =>
    have h : getCommbreaklist true x = bracket (x.answer (return x.rcvd)) fun _ => pure () := by
      simp [getCommbreaklist, bracket]
    have hs : Steady (x.answer (return x.rcvd)) := Steady.pure.answer x
    rw [h, (hs.bracket fun _ => Steady.pure).freed.disciplined]
    obtain ⟨v, t, hv⟩ : Ends (x.answer (return x.rcvd)) ⟨true, cells⟩ := ends_answer x ends_pure
    exact ⟨(), ⟨false, t.cells⟩, (bracket_ok hs).mpr ⟨rfl, v, t, hv, rfl⟩⟩

theorem getCutlist_disciplined (buf : Bool) (x : Exchange) : Disciplined (getCutlist buf x) cells ↔ buf = false := by
  cases buf with
  | false => exact iff_of_true ⟨(), _, rfl, rfl⟩ rfl
  | true =>
    refine iff_of_false ?_ (by decide)
    rintro ⟨v, s', h, -⟩
    obtain ⟨r, t, hr, ht⟩ := bind_ok.mp (show (x.answer (return x.rcvd) >>= fun _ => unlock) _ = _ from h)
    have hheld : t.held = false := Steady.pure.answer x _ r t hr
    simp [unlock, hheld] at ht

theorem sendOrReturn_run (conn : Conn) (x : Exchange) (ret : Int) : sendOrReturn (some conn) x ret ⟨false, cells⟩ =
    if x.sent < 0 then .ok (x.sent, ⟨true, cells⟩) else .ok (ret, ⟨false, cells⟩) := by
  by_cases hx : x.sent < 0
  · simp only [sendOrReturn, hx, if_true]
    rfl
  · simp only [sendOrReturn, hx, if_false]
    rfl

theorem sendOrReturn_disciplined (conn : Option Conn) (x : Exchange) (ret : Int) :
    Disciplined (sendOrReturn conn x ret) cells ↔ conn = none ∨ 0 ≤ x.sent := by
  cases conn with
  | none => exact iff_of_true ⟨-1, _, rfl, rfl⟩ (.inl rfl)
  | some conn =>
    unfold Disciplined
    rw [sendOrReturn_run]
    split
    · rename_i hx
      simp [hx]
    · rename_i hx
      simp [not_lt.mp hx]

/-- `cmyth_file_request_block` between its lock and its unlock. -/
def requestLocked (f : Nat) (x : Exchange) : Act Int := do
  let c ← cell f
  x.answer do
    setCell f { c with file.req := Transfer.wrap64 (c.file.req + x.value) }
    return x.value

theorem fileRequestBlock_eq (f : Nat) (x : Exchange) :
    fileRequestBlock (some f) x = bracket (requestLocked f x) pure := by
  simp [fileRequestBlock, requestLocked, bracket]

theorem steady_requestLocked (f : Nat) (x : Exchange) : Steady (requestLocked f x) :=
  (steady_cell f).bind fun _ => ((steady_setCell f _).bind fun _ => Steady.pure).answer x

theorem fileRequestBlock_disciplined (file : Option Nat) (x : Exchange) :
    Disciplined (fileRequestBlock file x) cells ↔ Held 1 cells file := by
  cases file with
  | none => exact iff_of_true ⟨-EINVAL, _, rfl, rfl⟩ trivial
  | some f =>
    rw [fileRequestBlock_eq, bracket_disciplined (steady_requestLocked f x), requestLocked, ends_cell]
    simp only [ends_answer x (ends_store f _ _), and_true, Held]

/-- `cmyth_file_seek` between its lock and its unlock. -/
def seekLocked (f : Nat) (c : Cell) (drained : File) (offset : Int) (whence : Option Whence) (x : Exchange) : Act Int :=
  x.answer do
    setCell f { c with file := seekDone drained offset whence }
    return wrapLong (seekDone drained offset whence).pos

theorem fileSeek_eq (f : Nat) (offset : Int) (whence : Option Whence) (counts : List Int) (x : Exchange) :
    fileSeek (some f) offset whence counts x = (do
      let c ← cell f
      if seekStays c.file offset whence then return wrapLong c.file.pos
      setCell f { c with file := (drain counts c.file).1 }
      if (drain counts c.file).2 then return -1
      bracket (seekLocked f c (drain counts c.file).1 offset whence x) pure) := by
  simp [fileSeek, seekLocked, bracket]

theorem steady_seekLocked (f : Nat) (c : Cell) (drained : File) (offset : Int) (whence : Option Whence)
    (x : Exchange) : Steady (seekLocked f c drained offset whence x) :=
  ((steady_setCell f _).bind fun _ => Steady.pure).answer x

theorem steady_fileSeek (file : Option Nat) (offset : Int) (whence : Option Whence) (counts : List Int)
    (x : Exchange) : Steady (fileSeek file offset whence counts x) := by
  cases file with
  | none => exact Steady.pure
  | some f =>
    rw [fileSeek_eq]
    refine (steady_cell f).bind fun c => Steady.pure.ite ((steady_setCell f _).bind fun _ => Steady.pure.ite ?_)
    exact (steady_seekLocked f c _ offset whence x).bracket_pure

theorem fileSeek_disciplined (file : Option Nat) (offset : Int) (whence : Option Whence) (counts : List Int)
    (x : Exchange) : Disciplined (fileSeek file offset whence counts x) cells ↔ Held 1 cells file := by
  rw [(steady_fileSeek file offset whence counts x).freed.disciplined]
  cases file with
  | none => exact iff_of_true ends_pure trivial
  | some f =>
    rw [fileSeek_eq, ends_cell]
    have h : ∀ c : Cell, Ends (bracket (seekLocked f c (drain counts c.file).1 offset whence x) pure)
        ⟨false, cells.set f { c with file := (drain counts c.file).1 }⟩ := by
      intro c
      exact (bracket_ends (steady_seekLocked f c _ offset whence x)).mpr (ends_answer x (ends_store f _ _))
    constructor
    · rintro ⟨c, hc, hr, -⟩
      exact ⟨c, hc, hr⟩
    · rintro ⟨c, hc, hr⟩
      refine ⟨c, hc, hr, ?_⟩
      split
      · exact ends_pure
      · refine ends_bind.mpr ⟨(), _, rfl, ?_⟩
        split
        · exact ends_pure
        · exact h c

theorem fileSeek_stays {f : Nat} {c : Cell} {offset : Int} {whence : Option Whence} (held : Bool) (counts : List Int)
    (x : Exchange) (hc : cells[f]? = some c) (h1 : 1 ≤ c.refs) (hs : seekStays c.file offset whence = true) :
    fileSeek (some f) offset whence counts x ⟨held, cells⟩ = .ok (wrapLong c.file.pos, ⟨held, cells⟩) := by
  rw [fileSeek_eq]
  refine bind_ok.mpr ⟨c, _, cell_ok hc h1, ?_⟩
  rw [if_pos hs]
  rfl

theorem fileSeek_stuck {f : Nat} {c : Cell} {held : Bool} {offset : Int} {whence : Option Whence} {counts : List Int}
    {x : Exchange} (hc : cells[f]? = some c) (h1 : 1 ≤ c.refs) (hs : ¬ seekStays c.file offset whence = true)
    (hd : (drain counts c.file).2 = true) : fileSeek (some f) offset whence counts x ⟨held, cells⟩ =
      .ok (-1, ⟨held, cells.set f { c with file := (drain counts c.file).1 }⟩) := by
  rw [fileSeek_eq]
  refine bind_ok.mpr ⟨c, _, cell_ok hc h1, ?_⟩
  rw [if_neg hs]
  refine bind_ok.mpr ⟨(), _, rfl, ?_⟩
  rw [if_pos hd]
  rfl

/-- The seek needs no command: it stays where it is, or the bytes still on their way cannot be read. -/
def Quiet (cells : List Cell) (file : Option Nat) (offset : Int) (whence : Option Whence) (counts : List Int) : Prop :=
  ∀ f, file = some f → ∃ c, cells[f]? = some c ∧ 1 ≤ c.refs ∧
    (seekStays c.file offset whence = true ∨ (drain counts c.file).2 = true)

/-- Within another lock. -/
theorem fileSeek_ends (file : Option Nat) (offset : Int) (whence : Option Whence) (counts : List Int) (x : Exchange) :
    Ends (fileSeek file offset whence counts x) ⟨true, cells⟩ ↔ Quiet cells file offset whence counts := by
  cases file with
  | none => exact iff_of_true ends_pure (by simp [Quiet])
  | some f =>
    rw [fileSeek_eq, ends_cell]
    simp only [Quiet, Option.some.injEq, forall_eq']
    refine exists_congr fun c => and_congr_right fun _ => and_congr_right fun _ => ?_
    by_cases hs : seekStays c.file offset whence = true
    · simp [hs]
    · by_cases hd : (drain counts c.file).2 = true
      · simp only [hs, hd, or_true, iff_true]
        exact ends_bind.mpr ⟨(), _, rfl, ends_pure⟩
      · refine iff_of_false ?_ (by simp [hs, hd])
        rw [if_neg hs, ends_bind_of_ok (by rfl), if_neg hd]
        exact not_ends_bracket

end Files

section References
variable {cells : List Cell} {held : Bool} {f : Nat} {c : Cell} {file : Option Nat}

theorem Held.mono {m n : Nat} (h : Held n cells file) (hmn : m ≤ n) : Held m cells file := by
  cases file with
  | none => trivial
  | some f =>
    obtain ⟨c, hc, hn⟩ := h
    exact ⟨c, hc, hmn.trans hn⟩

theorem Held.append {n : Nat} (h : Held n cells file) (new : List Cell) : Held n (cells ++ new) file := by
  cases file with
  | none => trivial
  | some f =>
    obtain ⟨c, hc, hn⟩ := h
    exact ⟨c, List.getElem?_append_left (List.getElem?_eq_some_iff.mp hc).1 ▸ hc, hn⟩

/-- References to one file transfer do not change those to the others. -/
theorem Held.set {n r : Nat} (h : Held n cells file) (hc : cells[f]? = some c) (hr : n ≤ c.refs → n ≤ r) :
    Held n (cells.set f { c with refs := r }) file := by
  cases file with
  | none => trivial
  | some g =>
    obtain ⟨c', hc', hn⟩ := h
    by_cases hg : f = g
    · subst hg
      obtain rfl := Option.some.inj (hc.symm.trans hc')
      exact ⟨_, List.getElem?_set_self (List.getElem?_eq_some_iff.mp hc).1, hr hn⟩
    · exact ⟨c', by rw [List.getElem?_set_ne hg, hc'], hn⟩

theorem refHold_ok (h : cells[f]? = some c) (hc : 1 ≤ c.refs) : refHold (some f) ⟨held, cells⟩ =
    .ok ((), ⟨held, cells.set f { c with refs := c.refs + 1 }⟩) :=
  bind_ok.mpr ⟨c, _, cell_ok h hc, rfl⟩

theorem refRelease_ok (h : cells[f]? = some c) (hc : 2 ≤ c.refs) : refRelease (some f) ⟨held, cells⟩ =
    .ok ((), ⟨held, cells.set f { c with refs := c.refs - 1 }⟩) := by
  refine bind_ok.mpr ⟨c, _, cell_ok h (by omega), bind_ok.mpr ⟨(), _, rfl, ?_⟩⟩
  rw [if_neg (by omega)]
  rfl

theorem ends_refHold (file : Option Nat) : Ends (refHold file) ⟨held, cells⟩ ↔ Held 1 cells file := by
  cases file with
  | none => exact iff_of_true ends_pure trivial
  | some f =>
    refine ends_cell.trans (exists_congr fun c => and_congr_right fun _ => ?_)
    exact and_iff_left ⟨(), _, rfl⟩

/-- Releasing the last reference destroys the file transfer, which takes the mutex again. -/
theorem ends_refRelease (file : Option Nat) : Ends (refRelease file) ⟨true, cells⟩ ↔ Held 2 cells file := by
  cases file with
  | none => exact iff_of_true ends_pure trivial
  | some f =>
    refine ends_cell.trans (exists_congr fun c => and_congr_right fun hc => ?_)
    rw [ends_bind_of_ok (by rfl)]
    by_cases h : c.refs = 1
    · rw [if_pos h]
      refine iff_of_false ?_ (by omega)
      rintro ⟨-, v, s', hd⟩
      obtain ⟨_, _, hl, -⟩ := bind_ok.mp hd
      cases hl
    · rw [if_neg h]
      constructor
      · rintro ⟨h1, -⟩
        omega
      · intro h2
        exact ⟨by omega, ends_pure⟩

theorem refRelease_keeps (h : Held 2 cells file) : ∃ cells',
    refRelease file ⟨held, cells⟩ = .ok ((), ⟨held, cells'⟩) ∧ ∀ g, Held 1 cells g → Held 1 cells' g := by
  cases file with
  | none => exact ⟨cells, rfl, fun _ hg => hg⟩
  | some f =>
    obtain ⟨c, hc, h2⟩ := h
    exact ⟨_, refRelease_ok hc h2, fun g hg => hg.set hc fun _ => by omega⟩

end References

end Mvpmc.Cmyth.Mutex
