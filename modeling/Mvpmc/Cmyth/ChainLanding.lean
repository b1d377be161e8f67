import Mvpmc.Cmyth.ChainSeek

/-! Where `cmyth_livetv_chain_seek` leaves the chain. -/
namespace Mvpmc.Cmyth.Mutex
open Transfer (File Whence wrap64)

/-! ### Seeking in the file found -/

section Found
variable {f : File} {counts : List Int} {x : Exchange}

/-- The drain loop, if nothing fails in it, ends with all that was asked for received. -/
theorem drain_done (hp : f.pos ≤ f.req) (hr : f.req < 2 ^ 64) (hd : (drain counts f).2 = false) :
    (drain counts f).1.pos = f.req ∧ (drain counts f).1.req = f.req ∧ f.length ≤ (drain counts f).1.length := by
  induction counts generalizing f with
  | nil =>
    unfold drain at hd ⊢
    have hpos : ¬ f.pos < f.req := by simpa using hd
    exact ⟨le_antisymm hp (not_lt.mp hpos), rfl, le_refl _⟩
  | cons c counts ih =>
    unfold drain at hd ⊢
    by_cases hlt : f.pos < f.req
    · rw [if_pos hlt] at hd ⊢
      by_cases hc : c < 0
      · rw [if_pos hc] at hd
        cases hd
      · rw [if_neg hc] at hd ⊢
        have hn : min c.toNat f.drainSize ≤ f.req - f.pos := (min_le_right _ _).trans (min_le_left _ _)
        have hpos : (f.getBlock (min c.toNat f.drainSize)).pos = f.pos + min c.toNat f.drainSize :=
          Nat.mod_eq_of_lt (by omega)
        have hle : (f.getBlock (min c.toNat f.drainSize)).pos ≤ f.req := by omega
        obtain ⟨h₁, h₂, h₃⟩ := ih (f := f.getBlock _) hle hr hd
        exact ⟨h₁, h₂, (le_max_left _ _).trans h₃⟩
    · rw [if_neg hlt]
      exact ⟨le_antisymm hp (not_lt.mp hlt), rfl, le_refl _⟩

/-- Some outcomes of its reads let the drain loop end. -/
theorem exists_drain (f : File) (hr : f.req < 2 ^ 64) : ∃ counts, (drain counts f).2 = false := by
  by_cases hlt : f.pos < f.req
  · have hn : (f.getBlock (min (128 : Int).toNat f.drainSize)).pos = f.pos + min 128 f.drainSize := by
      have : min 128 f.drainSize ≤ f.req - f.pos := (min_le_right _ _).trans (min_le_left _ _)
      exact Nat.mod_eq_of_lt (by omega)
    have hd : 0 < min 128 f.drainSize := by
      unfold File.drainSize
      omega
    obtain ⟨counts, hc⟩ := exists_drain (f.getBlock (min (128 : Int).toNat f.drainSize)) hr
    refine ⟨128 :: counts, ?_⟩
    unfold drain
    rw [if_pos hlt, if_neg (by decide)]
    exact hc
  · exact ⟨[], by simpa [drain] using hlt⟩
termination_by f.req - f.pos
decreasing_by
  have hreq : (f.getBlock (min (128 : Int).toNat f.drainSize)).req = f.req := rfl
  omega

theorem wrap64_of_bounds {x : Int} (hlo : 0 ≤ x) (hhi : x < 2 ^ 64) : (wrap64 x : Int) = x := by
  unfold wrap64
  omega

theorem seekStays_set (f : File) (offset : Int) : seekStays f offset (some .set) = true ↔ wrap64 offset = f.pos := by
  simp [seekStays, File.seekStays]

theorem seekStays_cur (f : File) (offset : Int) : seekStays f offset (some .cur) = true ↔ offset = 0 := by
  simp [seekStays, File.seekStays]

/-- A successful seek to an offset in the file stores it, unless `file_pos` is there. -/
theorem fileSought_set {t : Int} (hlo : 0 ≤ t) (hhi : t < 2 ^ 63) (hx : 0 ≤ x.rcvd)
    (hret : 0 ≤ (fileSought f t (some .set) counts x).1) :
    (f.pos : Int) = t ∧ (fileSought f t (some .set) counts x).2 = f ∨
      (f.pos : Int) ≠ t ∧ ((fileSought f t (some .set) counts x).2.req : Int) = t ∧
        (fileSought f t (some .set) counts x).2.req ≤ (fileSought f t (some .set) counts x).2.length := by
  have hw := wrap64_of_bounds hlo (hhi.trans (by decide))
  unfold fileSought at hret ⊢
  by_cases hs : seekStays f t (some .set) = true
  · rw [if_pos hs]
    exact .inl ⟨by rw [← (seekStays_set f t).mp hs]; exact hw, rfl⟩
  · have hne : (f.pos : Int) ≠ t := fun he => hs ((seekStays_set f t).mpr (by omega))
    rw [if_neg hs] at hret ⊢
    split_ifs at hret ⊢
    · omega
    · omega
    · omega
    · omega
    · exact .inr ⟨hne, hw, le_max_right _ _⟩

/-- A successful seek from `file_req` stores the offset meant, or it is `file_req`. -/
theorem fileSought_cur {t : Int} (hp : f.pos ≤ f.req) (hr : f.req < 2 ^ 64) (hlo : 0 ≤ t) (hhi : t < 2 ^ 63)
    (hlen : t ≤ f.length) (hx : 0 ≤ x.rcvd) (hret : 0 ≤ (fileSought f (wrapLong (t - f.req)) (some .cur) counts x).1) :
    ((fileSought f (wrapLong (t - f.req)) (some .cur) counts x).2.req : Int) = t ∧
      (fileSought f (wrapLong (t - f.req)) (some .cur) counts x).2.req ≤
        (fileSought f (wrapLong (t - f.req)) (some .cur) counts x).2.length := by
  unfold fileSought at hret ⊢
  by_cases hs : seekStays f (wrapLong (t - f.req)) (some .cur) = true
  · rw [if_pos hs]
    have hz := Int.dvd_of_bmod_eq_zero ((seekStays_cur _ _).mp hs)
    have ht : (f.req : Int) = t := by omega
    exact ⟨ht, show f.req ≤ f.length by omega⟩
  · rw [if_neg hs] at hret ⊢
    by_cases hd : (drain counts f).2 = true
    · rw [if_pos hd] at hret
      omega
    · obtain ⟨hpos, -, -⟩ := drain_done hp hr (eq_false_of_ne_true hd)
      have hw : (wrap64 ((drain counts f).1.pos + wrapLong (t - f.req)) : Int) = t := by
        unfold wrap64 wrapLong
        rw [hpos]
        have := Int.bmod_eq_self_sub_mul_bdiv (t - f.req) (2 ^ 64)
        omega
      rw [if_neg hd] at hret ⊢
      split_ifs at hret ⊢
      · omega
      · omega
      · omega
      · exact ⟨hw, le_max_right _ _⟩

end Found

/-! ### Where the chain is left -/

section Landing
variable {v : Viewing} {cells : List Cell}

theorem fileAt_some {ch : Chain} {i : Nat} {fp : Nat × File} (h : ch.fileAt cells i = some fp) :
    ∃ e c, ch.entries[i]? = some e ∧ e.file = some fp.1 ∧ cells[fp.1]? = some c ∧ c.refs ≠ 0 ∧ c.file = fp.2 := by
  unfold Chain.fileAt at h
  rw [if_neg (by omega)] at h
  obtain ⟨e, he, h⟩ := Option.bind_eq_some_iff.mp h
  obtain ⟨f, hf, h⟩ := Option.bind_eq_some_iff.mp h
  obtain ⟨c, hc, h⟩ := Option.bind_eq_some_iff.mp h
  by_cases hr : c.refs = 0
  · rw [if_pos hr] at h
    cases h
  · rw [if_neg hr] at h
    cases h
    exact ⟨e, c, he, hf, hc, hr, rfl⟩

theorem fileAt_eq {ch : Chain} {i : Nat} {e : Entry} {f : Nat} {c : Cell} (he : ch.entries[i]? = some e)
    (hf : e.file = some f) (hc : cells[f]? = some c) (hr : c.refs ≠ 0) : ch.fileAt cells i = some (f, c.file) := by
  unfold Chain.fileAt
  rw [if_neg (by omega), Int.toNat_natCast, he]
  simp only [Option.bind_eq_bind, Option.bind_some, hf, hc, if_neg hr]
  rfl

/-- New counters in one file transfer leave the others. -/
theorem fileAt_set {ch : Chain} {i k : Nat} {fp : Nat × File} {c : Cell} {g : File} (h : ch.fileAt cells i = some fp)
    (hc : cells[k]? = some c) :
    ch.fileAt (cells.set k { c with file := g }) i = some (if fp.1 = k then (k, g) else fp) := by
  obtain ⟨e, c', he, hf, hc', hr, hfile⟩ := fileAt_some h
  by_cases hk : fp.1 = k
  · subst hk
    obtain rfl := Option.some.inj (hc'.symm.trans hc)
    rw [if_pos rfl]
    exact fileAt_eq he hf (List.getElem?_set_self (List.getElem?_eq_some_iff.mp hc).1) hr
  · rw [if_neg hk, fileAt_eq he hf (by rw [List.getElem?_set_ne (Ne.symm hk)]; exact hc') hr, hfile]

/-- Where no earlier file is the one that changes, the file at an index starts where it did. -/
theorem start_set (h : v.Playing cells) {i k : Nat} (hi : i ≤ v.chain.ct) {c : Cell} {g : File} (hc : cells[k]? = some c)
    (hne : ∀ j < i, ∀ fp, v.chain.fileAt cells j = some fp → fp.1 ≠ k) :
    v.chain.start (cells.set k { c with file := g }) i = v.chain.start cells i := by
  refine Finset.sum_congr rfl fun j hj => ?_
  have hj := Finset.mem_range.mp hj
  obtain ⟨fp, hfp⟩ := h.files j (by omega)
  unfold Chain.lengthAt
  rw [fileAt_set hfp hc, hfp, if_neg (hne j hj fp hfp)]

/-- With new counters in the current file, the chain is where they say. -/
theorem position_of_stored (h : v.Playing cells) {v' : Viewing} {i : Nat} (hi : i < v.chain.ct) {f : Nat} {old g : File}
    (hf : v.chain.fileAt cells i = some (f, old)) {c : Cell} (hc : cells[f]? = some c)
    (he : v'.chain.entries = v.chain.entries) (hcur : v'.chain.current = i) :
    v'.chain.fileAt (cells.set f { c with file := g }) i = some (f, g) ∧
      v'.position (cells.set f { c with file := g }) = v.chain.start cells i + g.req := by
  have hch : ∀ cells j, v'.chain.fileAt cells j = v.chain.fileAt cells j := by
    intro cells j
    unfold Chain.fileAt
    rw [he]
  have hstart : ∀ cells n, v'.chain.start cells n = v.chain.start cells n := by
    intro cells n
    unfold Chain.start Chain.lengthAt
    simp only [hch]
  have hnow := fileAt_set (g := g) hf hc
  rw [if_pos rfl] at hnow
  refine ⟨by rw [hch, hnow], ?_⟩
  unfold Viewing.position
  rw [hcur, hch, hnow, hstart, Int.toNat_natCast, start_set h hi.le hc]
  · rfl
  · intro j hj fp hfp hk
    exact absurd (h.distinct j (by omega) i hi fp (f, old) hfp hf hk) hj.ne

/-- A position stored in the file at an index, which is the current one now, is where the chain has landed. -/
theorem landed_of_stored (h : v.Playing cells) {v' : Viewing} {i : Nat} (hi : i < v.chain.ct) {f : Nat} {old g : File}
    (hf : v.chain.fileAt cells i = some (f, old)) {c : Cell} (hc : cells[f]? = some c)
    (he : v'.chain.entries = v.chain.entries) (hcur : v'.chain.current = i) (hfile : v'.file = some f) {t : Int}
    (hreq : v.chain.start cells i + g.req = t) (hlen : g.req ≤ g.length) :
    v'.Landed (cells.set f { c with file := g }) t := by
  obtain ⟨hnow, hpos⟩ := position_of_stored (g := g) h hi hf hc he hcur
  refine ⟨hpos.trans hreq, ⟨(f, g), by rw [hcur, hnow], hlen⟩, by omega, ?_⟩
  obtain ⟨e, -, he', hf', -⟩ := fileAt_some hf
  rw [he, hcur, Int.toNat_natCast, he', hfile, Option.map_some, hf']

/-- The switch to another file of the chain. -/
theorem switch_to {i : Nat} (hi : i < v.chain.ct) {fp : Nat × File} (hf : v.chain.fileAt cells i = some fp) {dir : Int}
    (hdir : v.chain.distance dir = i - v.chain.current) : ∃ v', v.switch dir = some (1, v') ∧ v'.chain.entries = v.chain.entries ∧
      v'.chain.current = i ∧ v'.file = some fp.1 := by
  obtain ⟨e, -, he, hfile, -⟩ := fileAt_some hf
  have hsw : v.chain.switches dir = true := by
    unfold Chain.switches
    rw [decide_eq_true_iff, hdir]
    omega
  have hgo : v.chain.current + v.chain.distance dir = i := by omega
  refine ⟨⟨{ v.chain with current := i, le_current := by omega, current_lt := by omega }, e.file⟩, ?_, rfl, rfl, hfile⟩
  unfold Viewing.switch Chain.goTo
  rw [if_pos hsw, hgo, dif_pos ⟨by omega, by omega⟩, Int.toNat_natCast, he]
  rfl

/-- A seek in the file at an index stores its counters and, if it succeeds, makes the file the current one. -/
theorem seekIn_moves (h : v.Playing cells) {i : Nat} (hi : i < v.chain.ct) {f : Nat × File}
    (hf : v.chain.fileAt cells i = some f) {c : Cell} (hc : cells[f.1]? = some c) (hcf : c.file = f.2) (offset : Int)
    (whence : Option Whence) (counts : List Int) (x : Exchange) :
    ∃ v', v.seekIn cells (some f.1) offset whence i counts x = some ⟨(fileSought f.2 offset whence counts x).1, v',
        cells.set f.1 { c with file := (fileSought f.2 offset whence counts x).2 }⟩ ∧
      (0 ≤ (fileSought f.2 offset whence counts x).1 →
        v'.chain.entries = v.chain.entries ∧ v'.chain.current = i ∧ v'.file = some f.1) := by
  obtain ⟨e, -, he, hfile, -⟩ := fileAt_some hf
  unfold Viewing.seekIn
  simp only [hc, hcf, Option.bind_eq_bind, Option.bind_some]
  by_cases hret : 0 ≤ (fileSought f.2 offset whence counts x).1
  · by_cases hne : (i : Int) = v.chain.current
    · rw [if_neg fun hn => hn.2 hne]
      refine ⟨v, rfl, fun _ => ⟨rfl, hne.symm, ?_⟩⟩
      have hstep := h.inStep.2
      rw [← hne, Int.toNat_natCast, he, Option.map_some, hfile] at hstep
      exact (Option.some.inj hstep).symm
    · have hct := h.ct_le
      have hdist : v.chain.distance (i - v.chain.current) = i - v.chain.current := by
        have := h.inStep.1
        exact if_neg (by omega)
      obtain ⟨v', hsw, hent, hcur, hfile'⟩ := switch_to hi hf hdist
      rw [if_pos ⟨hret, hne⟩, hsw, Option.bind_some]
      exact ⟨v', rfl, fun _ => ⟨hent, hcur, hfile'⟩⟩
  · rw [if_neg fun hn => hret hn.1]
    exact ⟨v, rfl, fun hr => absurd hr hret⟩

/-- If it also stores the position asked for, the chain lands there. -/
theorem seekIn_lands (h : v.Playing cells) {i : Nat} (hi : i < v.chain.ct) {f : Nat × File}
    (hf : v.chain.fileAt cells i = some f) {t offset : Int} {whence : Option Whence} {counts : List Int} {x : Exchange}
    (hstored : 0 ≤ (fileSought f.2 offset whence counts x).1 →
      v.chain.start cells i + ((fileSought f.2 offset whence counts x).2.req : Int) = t ∧
        (fileSought f.2 offset whence counts x).2.req ≤ (fileSought f.2 offset whence counts x).2.length) :
    ∃ r, v.seekIn cells (some f.1) offset whence i counts x = some r ∧ (0 ≤ r.ret → r.view.Landed r.cells t) := by
  obtain ⟨-, c, -, -, hc, -, hcf⟩ := fileAt_some hf
  obtain ⟨v', hseek, hmoved⟩ := seekIn_moves h hi hf hc hcf offset whence counts x
  refine ⟨_, hseek, fun hret => ?_⟩
  obtain ⟨hent, hcur, hfile⟩ := hmoved hret
  obtain ⟨hreq, hlen⟩ := hstored hret
  exact landed_of_stored h hi hf hc hent hcur hfile hreq hlen

end Landing

namespace Viewing
variable (v : Viewing) (cells : List Cell)

/-- The position that a seek asks for. -/
def requested (offset : Int) : Whence → Int
  | .set => offset
  | .cur => v.position cells + offset
  | .fromEnd => v.total cells + offset

/-- Whatever the backend answers and the reads of the drain loop return: the seek does not crash, and if it
succeeds it lands at the position asked for. `cmyth_rcv_int64` returns the bytes it has consumed, which are
never less than none. -/
def SeekLands (rec : Recorder) (offset : Int) (whence : Whence) : Prop :=
  ∀ counts x, 0 ≤ x.rcvd → ∃ r, v.seek rec cells offset (some whence) counts x = some r ∧
    (0 ≤ r.ret → r.view.Landed r.cells (v.requested cells offset whence))

/-- When seeks land, read off the chain before them. -/
def LandsWhen (offset : Int) : Whence → Prop
  | .set =>
    if offset < v.total cells then
      -- `cmyth_file_seek` returns at once where `file_pos` is the place, and leaves `file_req` ahead of it
      ∀ i < v.chain.ct, ∀ fp, v.chain.fileAt cells i = some fp → v.chain.start cells i + (fp.2.pos : Int) = offset →
        offset < v.chain.start cells (i + 1) → fp.2.req = fp.2.pos
    else if v.chain.current = v.chain.ct - 1 ∨ v.chain.ct - v.chain.current = LAST then
      -- the last file is sought to its start, unless its `file_pos` is there
      ∀ fp, v.chain.fileAt cells (v.chain.ct - 1) = some fp → (if fp.2.pos = 0 then fp.2.req else 0) = fp.2.length
    else v.Landed cells offset
  | .cur => offset = 0 ∧ v.Within cells
  | .fromEnd => v.total cells + offset = v.position cells → v.Within cells

end Viewing

section Seeking
variable {v : Viewing} {cells : List Cell} {rec : Recorder}

theorem Viewing.Playing.current (h : v.Playing cells) : ∃ (i : Nat) (fp : Nat × File), v.chain.current = i ∧
    i < v.chain.ct ∧ v.chain.fileAt cells i = some fp ∧ v.file = some fp.1 ∧
      v.position cells = v.chain.start cells i + fp.2.req := by
  have hcur := h.inStep.1
  have hlt := v.chain.current_lt
  have hi : v.chain.current = (v.chain.current.toNat : Nat) := by omega
  obtain ⟨fp, hfp⟩ := h.files v.chain.current.toNat (by omega)
  obtain ⟨e, -, he, hfile, -⟩ := fileAt_some hfp
  have hstep := h.inStep.2
  rw [he, Option.map_some, hfile] at hstep
  refine ⟨_, fp, hi, by omega, hfp, (Option.some.inj hstep).symm, ?_⟩
  unfold Viewing.position
  rw [hi, hfp]
  rfl

/-- What `SEEK_CUR` returns for an offset of 0. -/
theorem position_returned (h : v.Playing cells) : v.chain.position cells = some (wrapLong (v.position cells)) := by
  obtain ⟨i, fp, hi, hlt, hfp, -, hpos⟩ := h.current
  unfold Chain.position
  have hsum := addLengths_sum h (i := 0) (n := i) (by omega) fp.2.req
  have hzero : v.chain.start cells 0 = 0 := rfl
  simp only [hi, hfp, Option.bind_eq_bind, Option.bind_some, Int.toNat_natCast]
  rw [Nat.zero_add, hzero] at hsum
  refine hsum.trans (congrArg some (congrArg wrapLong ?_))
  omega

theorem seekTarget_set (rec : Recorder) (h : v.Playing cells) {t : Int} (hlo : 0 ≤ t) (hhi : t < v.total cells) :
    ∃ (i : Nat) (f : Nat × File), i < v.chain.ct ∧ v.chain.fileAt cells i = some f ∧ v.chain.start cells i ≤ t ∧
      t < v.chain.start cells (i + 1) ∧ seekTarget (rec.viewing v) cells t (some .set) =
        some (.seeks (some f.1) (t - v.chain.start cells i) (some .set) i) := by
  have hzero : v.chain.start cells 0 = 0 := rfl
  obtain ⟨i, f, hi, hf, hs, ht, hwalk⟩ := seekSet_found h hhi (le_refl v.chain.ct)
    (by rw [Nat.sub_self, hzero]; exact hlo) none
  rw [Nat.sub_self, hzero, Nat.cast_zero, sub_zero] at hwalk
  refine ⟨i, f, hi, hf, hs, ht, ?_⟩
  unfold seekTarget Recorder.viewing
  simp only [Option.bind_eq_bind, Option.bind_some, hwalk]
  rfl

theorem seekTarget_set_end (h : v.Playing cells) {f : Nat × File} (hf : v.chain.fileAt cells (v.chain.ct - 1) = some f) :
    seekTarget (rec.viewing v) cells (v.total cells) (some .set) =
      some (.seeks (some f.1) 0 (some .set) v.chain.ct) := by
  have hzero : v.chain.start cells 0 = 0 := rfl
  have hlt := v.chain.current_lt
  have hcur := h.inStep.1
  have hwalk := seekSet_end h (le_refl v.chain.ct) none
  rw [Nat.sub_self, hzero, Nat.cast_zero, sub_zero, if_neg (by omega), hf] at hwalk
  unfold seekTarget Recorder.viewing
  simp only [Option.bind_eq_bind, Option.bind_some, hwalk]
  rfl

/-- The two loops of `SEEK_CUR` from the file at an index, one forward and one backward. -/
theorem seekCur_found (h : v.Playing cells) {t : Int} (hlo : 0 ≤ t) (hhi : t ≤ v.total cells) {k : Nat} (hk : k < v.chain.ct)
    {fp : Nat × File} (hfp : v.chain.fileAt cells k = some fp) :
    ∃ (i : Nat) (f : Nat × File), i < v.chain.ct ∧ v.chain.fileAt cells i = some f ∧ v.chain.start cells i ≤ t ∧
      t ≤ v.chain.start cells (i + 1) ∧ v.chain.seekCur cells (wrapLong (t - (v.chain.start cells k + fp.2.req))) fp k =
        some (.seeks (some f.1) (wrapLong (t - v.chain.start cells i - f.2.req)) (some .cur) i) := by
  have hfits := h.fits
  have hkt : v.chain.start cells k ≤ v.total cells := v.chain.start_mono cells hk.le
  have hn : ((v.chain.ct : Int) - 1 - k).toNat = v.chain.ct - 1 - k := by omega
  have hidx : v.chain.ct - 1 - (v.chain.ct - 1 - k) = k := by omega
  have hoff : wrapLong (wrapLong (t - (v.chain.start cells k + fp.2.req)) + fp.2.req) = t - v.chain.start cells k := by
    rw [wrapLong_add, show t - ((v.chain.start cells k : Int) + fp.2.req) + fp.2.req = t - v.chain.start cells k by omega]
    exact wrapLong_of_bounds (by omega) (by omega)
  obtain ⟨i, f, hi, hf, hend, hforward⟩ := forward_found h hhi (n := v.chain.ct - 1 - k) (by omega) (by rw [hidx]; exact hfp)
  obtain ⟨j, g, hj, hg, hs, he, hbackward⟩ := backward_found h hlo hi hf hend
  rw [hidx] at hforward
  refine ⟨j, g, hj, hg, hs, he, ?_⟩
  unfold Chain.seekCur
  simp only [hn, hoff, hforward, Option.bind_eq_bind, Option.bind_some, Int.toNat_natCast, hbackward]
  rfl

/-- `SEEK_END` continues as `SEEK_CUR`, which returns the position if that is the one asked for. -/
theorem seekTarget_fromEnd (rec : Recorder) (h : v.Playing cells) {t : Int} (hlo : 0 ≤ t) (hhi : t ≤ v.total cells) :
    t = v.position cells ∧ seekTarget (rec.viewing v) cells (t - v.total cells) (some .fromEnd) = some (.returns (wrapLong t)) ∨
      t ≠ v.position cells ∧ ∃ (i : Nat) (f : Nat × File), i < v.chain.ct ∧ v.chain.fileAt cells i = some f ∧
        v.chain.start cells i ≤ t ∧ t ≤ v.chain.start cells (i + 1) ∧
          seekTarget (rec.viewing v) cells (t - v.total cells) (some .fromEnd) =
            some (.seeks (some f.1) (wrapLong (t - v.chain.start cells i - f.2.req)) (some .cur) i) := by
  obtain ⟨k, fp, hk, hlt, hfp, hplays, hpos⟩ := h.current
  obtain ⟨e, c, -, -, hc, -, hcf⟩ := fileAt_some hfp
  have hfits := h.fits
  have hreq := (h.asked k hlt fp hfp).2
  have hkt : v.chain.start cells k ≤ v.total cells := v.chain.start_mono cells hlt.le
  have hn : ((v.chain.ct : Int) - k).toNat = v.chain.ct - k := by omega
  have hsum := addLengths_sum h (i := k) (n := v.chain.ct - k) (by omega) (t - v.total cells - fp.2.req)
  rw [show k + (v.chain.ct - k) = v.chain.ct by omega] at hsum
  have hend : t - v.total cells - fp.2.req + ((v.chain.start cells v.chain.ct : Int) - v.chain.start cells k) =
      t - v.position cells := by
    rw [hpos]
    unfold Viewing.total
    omega
  rw [hend] at hsum
  unfold seekTarget Recorder.viewing
  simp only [hplays, hc, hcf, hk, hn, hsum, hfp, Option.bind_eq_bind, Option.bind_some]
  by_cases hz : wrapLong (t - v.position cells) = 0
  · have ht : t = v.position cells := by
      have hdvd := Int.dvd_of_bmod_eq_zero hz
      omega
    rw [if_pos hz, position_returned h, Option.bind_some, ← ht]
    exact .inl ⟨rfl, rfl⟩
  · have hne : t ≠ v.position cells := fun he => hz (by rw [he, sub_self]; exact wrapLong_of_bounds (by decide) (by decide))
    obtain ⟨i, f, hi, hf, hs, he, hwalk⟩ := seekCur_found h hlo hhi hlt hfp
    rw [← hpos] at hwalk
    rw [if_neg hz, hwalk]
    exact .inr ⟨hne, i, f, hi, hf, hs, he, rfl⟩

/-- A call that returns a position at once leaves the chain where it is. -/
theorem returns_lands (h : v.Playing cells) {t : Int} (hlo : 0 ≤ t) (hhi : t < 2 ^ 63) (ht : t = v.position cells) :
    (∃ r, some (⟨wrapLong t, v, cells⟩ : Sought) = some r ∧ (0 ≤ r.ret → r.view.Landed r.cells t)) ↔ v.Within cells := by
  have hwrap : wrapLong t = t := wrapLong_of_bounds (by omega) hhi
  constructor
  · rintro ⟨r, hr, hland⟩
    obtain rfl := Option.some.inj hr
    exact (hland (by rw [hwrap]; exact hlo)).within
  · intro hw
    exact ⟨_, rfl, fun _ => ⟨ht.symm, hw, h.inStep⟩⟩

theorem seekLands_cur (h : v.Playing cells) {offset : Int} (hlo : 0 ≤ v.position cells + offset)
    (hhi : v.position cells + offset ≤ v.total cells) :
    v.SeekLands cells rec offset .cur ↔ offset = 0 ∧ v.Within cells := by
  have hfits := h.fits
  have htarget : seekTarget (rec.viewing v) cells offset (some .cur) =
      if offset = 0 then some (.returns (wrapLong (v.position cells))) else none := by
    unfold seekTarget Recorder.viewing
    simp only [Option.bind_eq_bind, Option.bind_some, position_returned h]
    split <;> rfl
  unfold Viewing.SeekLands Viewing.seek Viewing.requested
  rw [htarget]
  by_cases hz : offset = 0
  · subst hz
    rw [if_pos rfl]
    simp only [add_zero] at hlo hhi ⊢
    have hret := returns_lands h hlo (by omega) rfl
    constructor
    · intro hl
      exact ⟨trivial, hret.mp (hl [] ⟨0, 0, 0, 0, 0⟩ (le_refl 0))⟩
    · rintro ⟨-, hw⟩ counts x -
      exact hret.mpr hw
  · rw [if_neg hz]
    refine iff_of_false (fun hl => ?_) fun hn => hz hn.1
    obtain ⟨r, hr, -⟩ := hl [] ⟨0, 0, 0, 0, 0⟩ (le_refl 0)
    cases hr

theorem seekLands_fromEnd (h : v.Playing cells) {t : Int} (hlo : 0 ≤ t) (hhi : t ≤ v.total cells) :
    v.SeekLands cells rec (t - v.total cells) .fromEnd ↔ (t = v.position cells → v.Within cells) := by
  have hfits := h.fits
  unfold Viewing.SeekLands Viewing.seek Viewing.requested
  simp only [add_sub_cancel]
  rcases seekTarget_fromEnd rec h hlo hhi with ⟨ht, htarget⟩ | ⟨ht, i, f, hi, hf, hs, he, htarget⟩
  · have hret := returns_lands h hlo (by omega) ht
    rw [htarget]
    constructor
    · intro hl _
      exact hret.mp (hl [] ⟨0, 0, 0, 0, 0⟩ (le_refl 0))
    · intro hw counts x _
      exact hret.mpr (hw ht)
  · rw [htarget]
    refine iff_of_true (fun counts x hx => ?_) fun hn => absurd hn ht
    obtain ⟨g, hg, hnext, hfit⟩ := h.fileAt hi
    obtain rfl := Option.some.inj (hg.symm.trans hf)
    obtain ⟨hpos, hreq⟩ := h.asked i hi g hg
    refine seekIn_lands h hi hf fun hret => ?_
    obtain ⟨hstored, hlen⟩ := fileSought_cur hpos (by omega) (by omega) (by omega) (by omega) hx hret
    exact ⟨by omega, hlen⟩

theorem seekLands_set (h : v.Playing cells) {t : Int} (hlo : 0 ≤ t) (hhi : t < v.total cells) :
    v.SeekLands cells rec t .set ↔ ∀ i < v.chain.ct, ∀ fp, v.chain.fileAt cells i = some fp →
      v.chain.start cells i + (fp.2.pos : Int) = t → t < v.chain.start cells (i + 1) → fp.2.req = fp.2.pos := by
  have hfits := h.fits
  obtain ⟨i, f, hi, hf, hs, ht, htarget⟩ := seekTarget_set rec h hlo hhi
  obtain ⟨g, hg, hnext, hfit⟩ := h.fileAt hi
  obtain rfl := Option.some.inj (hg.symm.trans hf)
  unfold Viewing.SeekLands Viewing.seek Viewing.requested
  dsimp only
  rw [htarget]
  constructor
  · intro hl j hj fp hfp hpos hend
    have hij : i = j := by
      have h₁ : ¬ i < j := fun hlt => absurd (v.chain.start_mono cells (show i + 1 ≤ j by omega)) (by omega)
      have h₂ : ¬ j < i := fun hlt => absurd (v.chain.start_mono cells (show j + 1 ≤ i by omega)) (by omega)
      omega
    subst hij
    obtain rfl := Option.some.inj (hfp.symm.trans hf)
    obtain ⟨-, c, -, -, hc, -, hcf⟩ := fileAt_some hf
    -- `cmyth_file_seek` returns before it sends anything
    have hstay : fileSought fp.2 (t - v.chain.start cells i) (some .set) [] ⟨0, 0, 0, 0, 0⟩ = (wrapLong fp.2.pos, fp.2) := by
      have hw := wrap64_of_bounds (show 0 ≤ t - v.chain.start cells i by omega) (by omega)
      unfold fileSought
      rw [if_pos ((seekStays_set _ _).mpr (by omega))]
    obtain ⟨v', hseek, hmoved⟩ := seekIn_moves h hi hf hc hcf (t - v.chain.start cells i) (some .set) [] ⟨0, 0, 0, 0, 0⟩
    obtain ⟨r, hr, hland⟩ := hl [] ⟨0, 0, 0, 0, 0⟩ (le_refl 0)
    obtain rfl := Option.some.inj (hseek.symm.trans hr)
    rw [hstay] at hmoved hland
    dsimp only at hmoved hland
    have hret : 0 ≤ wrapLong fp.2.pos := by
      rw [wrapLong_of_bounds (by omega) (by omega)]
      omega
    obtain ⟨hent, hcur, -⟩ := hmoved hret
    have hthere := (position_of_stored (g := fp.2) h hi hf hc hent hcur).2.symm.trans (hland hret).position
    omega
  · intro hsame counts x hx
    refine seekIn_lands h hi hf fun hret => ?_
    rcases fileSought_set (by omega) (by omega) hx hret with ⟨hpos, hkept⟩ | ⟨-, hstored, hlen⟩
    · have hreq := hsame i hi g hf (by omega) ht
      rw [hkept]
      exact ⟨by omega, by omega⟩
    · exact ⟨by omega, hlen⟩

/-- A seek to the end of the chain seeks to the start of its last file. -/
theorem fileSought_start {f : File} {counts : List Int} {x : Exchange} (hx : 0 ≤ x.rcvd)
    (hret : 0 ≤ (fileSought f 0 (some .set) counts x).1) :
    (fileSought f 0 (some .set) counts x).2.req = (if f.pos = 0 then f.req else 0) ∧
      (f.pos = 0 → (fileSought f 0 (some .set) counts x).2 = f) := by
  rcases fileSought_set (le_refl 0) (by decide) hx hret with ⟨hpos, hkept⟩ | ⟨hpos, hstored, -⟩
  · rw [hkept, if_pos (by omega)]
    exact ⟨rfl, fun _ => rfl⟩
  · rw [if_neg (by omega)]
    exact ⟨by omega, fun hz => absurd hz (by omega)⟩

/-- It can succeed. -/
theorem fileSought_start_succeeds {f : File} (hr : f.req < 2 ^ 64) (hp : f.pos < 2 ^ 63) :
    ∃ counts, 0 ≤ (fileSought f 0 (some .set) counts ⟨0, 0, 0, 0, 0⟩).1 := by
  obtain ⟨counts, hd⟩ := exists_drain f hr
  refine ⟨counts, ?_⟩
  unfold fileSought
  by_cases hs : seekStays f 0 (some .set) = true
  · rw [if_pos hs]
    have hwrap : wrapLong f.pos = f.pos := wrapLong_of_bounds (by omega) (by omega)
    dsimp only
    rw [hwrap]
    exact Int.natCast_nonneg f.pos
  · have hwrap : wrapLong (seekDone (drain counts f).1 0 (some .set)).pos = 0 := by
      have hpos : (seekDone (drain counts f).1 0 (some .set)).pos = 0 := rfl
      rw [hpos]
      exact wrapLong_of_bounds (by decide) (by decide)
    rw [if_neg hs, hd, if_neg (by decide), if_neg (by decide), if_neg (by decide), if_neg (by decide)]
    dsimp only
    rw [hwrap]

/-- Where the counters of another file change, the chain stays at its position. -/
theorem landed_set_other (h : v.Playing cells) {k l : Nat} (hk : v.chain.current = k) (hkl : k < l) (hl : l < v.chain.ct)
    {f : Nat × File} (hf : v.chain.fileAt cells l = some f) {c : Cell} (hc : cells[f.1]? = some c) (g : File) (t : Int) :
    v.Landed (cells.set f.1 { c with file := g }) t ↔ v.Landed cells t := by
  have hne : ∀ j < l, ∀ fp, v.chain.fileAt cells j = some fp → fp.1 ≠ f.1 := fun j hj fp hfp he =>
    absurd (h.distinct j (by omega) l hl fp f hfp hf he) hj.ne
  obtain ⟨fp, hfp⟩ := h.files k (by omega)
  have hnow := fileAt_set (g := g) hfp hc
  rw [if_neg (hne k hkl fp hfp)] at hnow
  have hstart := start_set (g := g) h (show k ≤ v.chain.ct by omega) hc fun j hj => hne j (by omega)
  have hpos : v.position (cells.set f.1 { c with file := g }) = v.position cells := by
    unfold Viewing.position
    rw [hk, hnow, hfp, Int.toNat_natCast, hstart]
  have hwithin : v.Within (cells.set f.1 { c with file := g }) ↔ v.Within cells := by
    unfold Viewing.Within
    rw [hk, hnow, hfp]
  constructor
  · rintro ⟨hp, hw, hs⟩
    exact ⟨hpos ▸ hp, hwithin.mp hw, hs⟩
  · rintro ⟨hp, hw, hs⟩
    exact ⟨hpos.trans hp, hwithin.mpr hw, hs⟩

/-- The index behind the last file is switched to only where the step to it is `LAST`, and then the last file is. -/
theorem switch_past (h : v.Playing cells) {fp : Nat × File} (hf : v.chain.fileAt cells (v.chain.ct - 1 : Nat) = some fp) :
    ∃ w, v.switch (v.chain.ct - v.chain.current) = some w ∧ if (v.chain.ct : Int) - v.chain.current = LAST then
      w.2.chain.entries = v.chain.entries ∧ w.2.chain.current = (v.chain.ct - 1 : Nat) ∧ w.2.file = some fp.1 else w.2 = v := by
  have hcur := h.inStep.1
  have hlt := v.chain.current_lt
  by_cases hlast : (v.chain.ct : Int) - v.chain.current = LAST
  · have hdist : v.chain.distance (v.chain.ct - v.chain.current) = (v.chain.ct - 1 : Nat) - v.chain.current := by
      unfold Chain.distance
      rw [if_pos hlast]
      omega
    obtain ⟨v', hsw, hmoved⟩ := switch_to (by omega) hf hdist
    exact ⟨_, hsw, by rw [if_pos hlast]; exact hmoved⟩
  · have hsw : ¬ v.chain.switches (v.chain.ct - v.chain.current) = true := by
      unfold Chain.switches Chain.distance
      rw [if_neg hlast, decide_eq_true_iff]
      omega
    refine ⟨(0, v), ?_, by rw [if_neg hlast]⟩
    unfold Viewing.switch
    rw [if_neg hsw, if_neg hlast]

/-- A seek to the end of the chain: the start of the last file is stored, and a switch past it is tried. -/
theorem seek_past (rec : Recorder) (h : v.Playing cells) {f : Nat × File}
    (hf : v.chain.fileAt cells (v.chain.ct - 1 : Nat) = some f) {c : Cell}
    (hc : cells[f.1]? = some c) (hcf : c.file = f.2) {w : Int × Viewing}
    (hw : v.switch (v.chain.ct - v.chain.current) = some w) (counts : List Int) (x : Exchange) :
    v.seek rec cells (v.total cells) (some .set) counts x = some ⟨(fileSought f.2 0 (some .set) counts x).1,
      if 0 ≤ (fileSought f.2 0 (some .set) counts x).1 then w.2 else v,
      cells.set f.1 { c with file := (fileSought f.2 0 (some .set) counts x).2 }⟩ := by
  have hlt := v.chain.current_lt
  have hidx : ((v.chain.ct - 1 : Nat) : Int) = v.chain.ct - 1 := by
    have := h.inStep.1
    omega
  rw [hidx] at hf
  unfold Viewing.seek
  rw [seekTarget_set_end h hf, Option.bind_eq_bind, Option.bind_some]
  unfold Viewing.seekIn
  simp only [hc, hcf, Option.bind_eq_bind, Option.bind_some]
  by_cases hret : 0 ≤ (fileSought f.2 0 (some .set) counts x).1
  · rw [if_pos ⟨hret, hlt.ne'⟩, if_pos hret, hw, Option.bind_some, Option.pure_def]
  · rw [if_neg fun hn => hret hn.1, if_neg hret, Option.pure_def]

theorem seekLands_end (h : v.Playing cells) : v.SeekLands cells rec (v.total cells) .set ↔
    if v.chain.current = v.chain.ct - 1 ∨ v.chain.ct - v.chain.current = LAST then
      ∀ fp, v.chain.fileAt cells (v.chain.ct - 1) = some fp → (if fp.2.pos = 0 then fp.2.req else 0) = fp.2.length
    else v.Landed cells (v.total cells) := by
  obtain ⟨k, fk, hk, hkt, hfk, hplays, -⟩ := h.current
  have hl : v.chain.ct - 1 < v.chain.ct := by omega
  have hidx : (v.chain.ct : Int) - 1 = (v.chain.ct - 1 : Nat) := by omega
  obtain ⟨f, hf, hnext, hfit⟩ := h.fileAt hl
  obtain ⟨-, c, -, -, hc, -, hcf⟩ := fileAt_some hf
  obtain ⟨hpos, hreq⟩ := h.asked _ hl f hf
  obtain ⟨w, hsw, hw⟩ := switch_past h hf
  have hseek := seek_past rec h hf hc hcf hsw
  have htotal : v.total cells = v.chain.start cells (v.chain.ct - 1) + f.2.length := by
    rw [← hnext, Nat.sub_add_cancel (by omega)]
    rfl
  obtain ⟨counts, hret⟩ := fileSought_start_succeeds (f := f.2) (by omega) (by omega)
  have hsucceeds : v.SeekLands cells rec (v.total cells) .set →
      w.2.Landed (cells.set f.1 { c with file := (fileSought f.2 0 (some .set) counts ⟨0, 0, 0, 0, 0⟩).2 }) (v.total cells) := by
    intro hlands
    obtain ⟨r, hr, hland⟩ := hlands counts ⟨0, 0, 0, 0, 0⟩ (le_refl 0)
    obtain rfl := Option.some.inj ((hseek _ _).symm.trans hr)
    have hthere := hland hret
    dsimp only at hthere
    rwa [if_pos hret] at hthere
  have hlands : (∀ counts x, 0 ≤ x.rcvd → 0 ≤ (fileSought f.2 0 (some .set) counts x).1 →
      w.2.Landed (cells.set f.1 { c with file := (fileSought f.2 0 (some .set) counts x).2 }) (v.total cells)) →
        v.SeekLands cells rec (v.total cells) .set := by
    intro hall counts x hx
    refine ⟨_, hseek counts x, fun hr => ?_⟩
    dsimp only at hr ⊢
    rw [if_pos hr]
    exact hall counts x hx hr
  split
  · rename_i hlast
    have hmoved : w.2.chain.entries = v.chain.entries ∧ w.2.chain.current = (v.chain.ct - 1 : Nat) ∧ w.2.file = some f.1 := by
      by_cases hL : (v.chain.ct : Int) - v.chain.current = LAST
      · rwa [if_pos hL] at hw
      · rw [if_neg hL] at hw
        have hcur := (hlast.resolve_right hL).trans hidx
        obtain rfl : k = v.chain.ct - 1 := by omega
        obtain rfl := Option.some.inj (hfk.symm.trans hf)
        rw [hw]
        exact ⟨rfl, hcur, hplays⟩
    obtain ⟨hent, hcur, hfile⟩ := hmoved
    rw [hidx, hf]
    constructor
    · rintro hl fp ⟨⟩
      have hthere := (position_of_stored (g := (fileSought f.2 0 (some .set) counts ⟨0, 0, 0, 0, 0⟩).2) h (by omega) hf hc
        hent hcur).2.symm.trans (hsucceeds hl).position
      rw [(fileSought_start (le_refl 0) hret).1] at hthere
      omega
    · intro hstart
      have hlen := hstart f rfl
      refine hlands fun counts x hx hr => ?_
      obtain ⟨hreq', hkept⟩ := fileSought_start hx hr
      rw [hlen] at hreq'
      refine landed_of_stored h (by omega) hf hc hent hcur hfile (by omega) ?_
      by_cases hz : f.2.pos = 0
      · rw [hkept hz] at hreq' ⊢
        exact hreq'.le
      · rw [if_neg hz] at hlen
        omega
  · rename_i hlast
    obtain ⟨hne, hL⟩ := not_or.mp hlast
    rw [if_neg hL] at hw
    rw [hw] at hsucceeds hlands
    have hkl : k < v.chain.ct - 1 := by omega
    constructor
    · intro hl
      exact (landed_set_other h hk hkl (by omega) hf hc _ _).mp (hsucceeds hl)
    · intro hl
      exact hlands fun counts x _ _ => (landed_set_other h hk hkl (by omega) hf hc _ _).mpr hl

end Seeking

open Viewing in
/-- A seek whose target lies in the chain lands there, whatever is answered and read during it, if and only if
`LandsWhen`. -/
theorem seek_lands_iff (rec : Recorder) (v : Viewing) (cells : List Cell) (h : v.Playing cells) (offset : Int)
    (whence : Whence) (hlo : 0 ≤ v.requested cells offset whence) (hhi : v.requested cells offset whence ≤ v.total cells) :
    v.SeekLands cells rec offset whence ↔ v.LandsWhen cells offset whence := by
  cases whence with
  | set =>
    unfold LandsWhen
    dsimp only [requested] at hlo hhi ⊢
    by_cases ht : offset < v.total cells
    · rw [if_pos ht]
      exact seekLands_set h hlo ht
    · obtain rfl : offset = v.total cells := by omega
      rw [if_neg ht]
      exact seekLands_end h
  | cur => exact seekLands_cur h hlo hhi
  | fromEnd =>
    have hoff : offset = v.total cells + offset - v.total cells := by omega
    rw [hoff]
    refine (seekLands_fromEnd h hlo hhi).trans ?_
    unfold LandsWhen
    dsimp only
    rw [← hoff]
    exact Iff.rfl

/-- Two files of 10 and 5 bytes, played from byte 3 of the first. -/
def twoFiles : Viewing where
  chain := ⟨[], 2, false, 0, [⟨some [1], some 0⟩, ⟨some [2], some 1⟩], Chain.neg_one_le_first, by decide⟩
  file := some 0

def twoCells : List Cell := [⟨2, ⟨40, 10, 3, 3⟩⟩, ⟨1, ⟨40, 5, 0, 0⟩⟩]

def watching : Recorder := ⟨1, 6543, some 40, none, none⟩

theorem twoFiles_playing : twoFiles.Playing twoCells where
  inStep := ⟨by decide, rfl⟩
  files := by
    intro i hi
    replace hi : i < 2 := hi
    interval_cases i
    · exact ⟨_, rfl⟩
    · exact ⟨_, rfl⟩
  distinct := by
    intro i hi j hj fp fq hf hg he
    replace hi : i < 2 := hi
    replace hj : j < 2 := hj
    interval_cases i <;> interval_cases j <;> cases hf <;> cases hg
    · rfl
    · cases he
    · cases he
    · rfl
  asked := by
    intro i hi fp hf
    replace hi : i < 2 := hi
    interval_cases i <;> cases hf <;> decide
  fits := by decide
  ct_le := by decide

theorem seek_lands_iff_from_end : twoFiles.SeekLands twoCells watching (-3) .fromEnd :=
  (seek_lands_iff watching twoFiles twoCells twoFiles_playing (-3) .fromEnd (by decide) (by decide)).mpr
    fun h => absurd h (by decide)

/-- Byte 15, the end of the chain, is sought in vain: the call returns 0 and leaves the chain at byte 3. -/
theorem end_not_reached : twoFiles.Playing twoCells ∧ twoFiles.requested twoCells 15 .set = twoFiles.total twoCells ∧
    twoFiles.seek watching twoCells 15 (some .set) [] ⟨0, 0, 0, 0, 0⟩ = some ⟨0, twoFiles, twoCells⟩ ∧
    twoFiles.position twoCells = 3 ∧ ¬ twoFiles.SeekLands twoCells watching 15 .set := by
  have hseek : twoFiles.seek watching twoCells 15 (some .set) [] ⟨0, 0, 0, 0, 0⟩ =
      some ⟨0, twoFiles, twoCells⟩ := by
    decide
  refine ⟨twoFiles_playing, by decide, hseek, by decide, fun hl => ?_⟩
  obtain ⟨r, hr, hland⟩ := hl [] ⟨0, 0, 0, 0, 0⟩ (le_refl 0)
  obtain rfl := Option.some.inj (hseek.symm.trans hr)
  have hpos := (hland (le_refl 0)).position
  exact absurd hpos (by decide)

end Mvpmc.Cmyth.Mutex
