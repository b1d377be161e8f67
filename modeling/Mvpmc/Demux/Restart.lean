import Mvpmc.Demux.StartCodes

/-! Where a seek ends: behind a pair of video start codes that a GOP header or an I frame
follows, as long as no user data is taken for a GOP header. -/
namespace Mvpmc.Demux
open Mvpmc.Lib Mvpmc.Lib.Circular

/-- A restart point: a video start code, a second one at most six bytes later, and behind
them a GOP header or the header of an I picture. -/
def DecentRestart (bytes : List UInt8) : Prop :=
  ∃ first second : UInt8, ∃ d e : Nat, isVideoStream first.toNat = true ∧ isVideoStream second.toNat = true ∧
    [0, 0, 1, first] <+: bytes ∧ 0 < d ∧ d ≤ 6 ∧ [0, 0, 1, second] <+: bytes.drop d ∧ d < e ∧
    ([0, 0, 1, 0xB8] <+: bytes.drop e ∨
      ∃ b t : UInt8, [0, 0, 1, 0, b, t] <+: bytes.drop e ∧ (t >>> 3) &&& 7 = 1)

/-- An index that the scanner has noted stands for position `x`. -/
def Spot (base size : Nat) (index : Int) (x : Nat) : Prop :=
  ∃ s : Nat, index = s ∧ s ≤ size ∧ s % size = (base + x) % size

/-- A video start code stands at position `y`. -/
def VideoAt (tape : Nat → UInt8) (y : Nat) : Prop := ∃ v, isVideoStream v.toNat = true ∧ codeAt tape y v

/-- A GOP header or the header of an I picture stands at position `y`, before the head. -/
def SyncAt (hi : Nat) (tape : Nat → UInt8) (y : Nat) : Prop :=
  y + 4 ≤ hi ∧ codeAt tape y 0xB8 ∨ y + 6 ≤ hi ∧ codeAt tape y 0 ∧ (tape (y + 5) >>> 3) &&& 7 = 1

/-- What the variables of the seek stand for when the scanner is at position `x`. -/
inductive Noted (base size hi : Nat) (tape : Nat → UInt8) (x : Nat) (sc : Scan) : Prop where
  | none (hf : sc.seekingFoundStart = 0)
  | single (a : Nat) (hf : sc.seekingFoundStart = 1) (hx : a + 8 ≤ x) (hs : Spot base size sc.seekingStart (a + 4))
      (ha : VideoAt tape a)
  | pair (a b : Nat) (hf : 1 < sc.seekingFoundStart) (hab : a < b) (h6 : b ≤ a + 6) (hx : b + 8 ≤ x)
      (hs : Spot base size sc.seekingStart (a + 4)) (hn : Spot base size sc.nextSeekingStart (b + 4))
      (ha : VideoAt tape a) (hb : VideoAt tape b)
      (hsync : sc.syncFound = true → ∃ e, b + 4 ≤ e ∧ e + 8 ≤ x ∧ SyncAt hi tape e)

section Tape
variable {tape tape' : Nat → UInt8} {x y : Nat}

theorem codeAt.congr {v : UInt8} (hc : codeAt tape y v) (ht : ∀ z < x, tape' z = tape z) (hy : y + 4 ≤ x) :
    codeAt tape' y v := by
  obtain ⟨h0, h1, h2, h3⟩ := hc
  refine ⟨?_, ?_, ?_, ?_⟩ <;> rw [ht _ (by omega)] <;> assumption

theorem VideoAt.congr (hv : VideoAt tape y) (ht : ∀ z < x, tape' z = tape z) (hy : y + 4 ≤ x) : VideoAt tape' y := by
  obtain ⟨v, hid, hc⟩ := hv
  exact ⟨v, hid, hc.congr ht hy⟩

theorem SyncAt.congr {hi : Nat} (hs : SyncAt hi tape y) (ht : ∀ z < x, tape' z = tape z) (hy : y + 8 ≤ x) :
    SyncAt hi tape' y := by
  rcases hs with ⟨hhi, hc⟩ | ⟨hhi, hc, htype⟩
  · exact .inl ⟨hhi, hc.congr ht (by omega)⟩
  · refine .inr ⟨hhi, hc.congr ht (by omega), ?_⟩
    rw [ht _ (by omega)]
    exact htype

end Tape

namespace Noted
variable {base size hi x x' y : Nat} {tape tape' : Nat → UInt8} {sc sc' : Scan}

/-- The scan goes on behind what is noted; a sync point that it has found lies in between. -/
theorem mono (hn : Noted base size hi tape x sc) (hle : x ≤ x') (hk : Scan.Keeps sc sc')
    (ht : ∀ z < x, tape' z = tape z)
    (hsync : sc'.syncFound = true → sc.syncFound = true ∨ ∃ e, x ≤ e + 4 ∧ e + 8 ≤ x' ∧ SyncAt hi tape' e) :
    Noted base size hi tape' x' sc' := by
  cases hn with
  | none hf => exact .none (hk.foundStart.trans hf)
  | single a hf hx hs ha =>
    refine .single a (hk.foundStart.trans hf) (by omega) ?_ (ha.congr ht (by omega))
    rw [hk.start]
    exact hs
  | pair a b hf hab h6 hx hs hn ha hb hold =>
    refine .pair a b ?_ hab h6 (by omega) ?_ ?_ (ha.congr ht (by omega)) (hb.congr ht (by omega)) ?_
    · rw [hk.foundStart]
      exact hf
    · rw [hk.start]
      exact hs
    · rw [hk.nextStart]
      exact hn
    · intro hs'
      rcases hsync hs' with h | ⟨e, he, hex, hat⟩
      · obtain ⟨e, hbe, hex, hat⟩ := hold h
        exact ⟨e, hbe, by omega, hat.congr ht (by omega)⟩
      · exact ⟨e, by omega, hex, hat⟩

/-- The distance that is compared with six is the distance of the two start codes. -/
theorem distance {a : Nat} {start : Int} (hs : Spot base size start (a + 4)) (hat : sc.At base size (y + 4))
    (hle : sc.i ≤ size) (hz : size < 2147483648) (hay : a < y) (hy : y < size) :
    u32 ((size : Int) + sc.i - start) % size = y - a := by
  obtain ⟨s, rfl, hss, hcell⟩ := hs
  have hu : u32 ((size : Int) + sc.i - s) = size + sc.i - s := by
    rw [show (size : Int) + sc.i - s = ((size + sc.i - s : Nat) : Int) by omega]
    exact Stream.u32_of_lt (by omega)
  rw [hu, Nat.add_comm size, lap_distance hcell hat.cell (by omega) (by omega) (by omega)]
  omega

/-- A further video start code is the second of a pair, or a new first one. -/
theorem seekStart (hn : Noted base size hi tape (y + 4) sc) (hat : sc.At base size (y + 4)) (hle : sc.i ≤ size)
    (hz : size < 2147483648) (hy : y < size) (hv : VideoAt tape y) :
    Noted base size hi tape (y + 8) (sc.seekStart size) := by
  have hspot : Spot base size sc.i (y + 4) := ⟨sc.i, rfl, hle, hat.cell⟩
  have hkeep : Noted base size hi tape (y + 8) sc := hn.mono (by omega) (.refl sc) (fun _ _ => rfl) .inl
  -- `a` is the start code that the new one is compared with
  have hnew {a : Nat} {start : Int} (hs : Spot base size start (a + 4)) (hx : a + 8 ≤ y + 4) (ha : VideoAt tape a)
      (hf : sc.seekingFoundStart ≠ 0) :
      Noted base size hi tape (y + 8)
        (if sc.seekingFoundStart ≠ 0 ∧ u32 ((size : Int) + sc.i - start) % size ≤ 6 then
          { sc with
            seekingStart := start
            seekingFoundStart := sc.seekingFoundStart + 1
            nextSeekingStart := sc.i
            syncFound := false }
        else
          { sc with
            nextSeekingStart := -1
            seekingStart := sc.i
            seekingFoundStart := 1
            syncFound := false }) := by
    rw [distance hs hat hle hz (by omega) hy]
    split
    · rename_i hc
      refine .pair a y (by dsimp only; omega) (by omega) (by omega) (by omega) hs hspot ha hv ?_
      intro h
      exact absurd h Bool.false_ne_true
    · exact .single y rfl (by omega) hspot hv
  unfold Scan.seekStart
  split
  · dsimp only
    cases hn with
    | none hf =>
      rw [if_neg fun hc => hc.1 hf]
      exact .single y rfl (by omega) hspot hv
    | single a hf hx hs ha =>
      have hstart : (if 1 < sc.seekingFoundStart then sc.nextSeekingStart else sc.seekingStart) = sc.seekingStart :=
        if_neg (by omega)
      rw [hstart]
      exact hnew hs hx ha (by omega)
    | pair a b hf hab h6 hx hs hn ha hb hsync =>
      have hstart : (if 1 < sc.seekingFoundStart then sc.nextSeekingStart else sc.seekingStart) =
          sc.nextSeekingStart := if_pos hf
      rw [hstart]
      exact hnew hn hx hb (by omega)
  · exact hkeep

end Noted

/-- The state of a seek while the scan stands at position `x`. The bytes that are still ahead
are those of `orig`, and no start code ahead has been made by the scan itself. -/
structure Sought (base size hi : Nat) (orig : Nat → UInt8) (gop : Gop) (x : Nat) (sc : Scan) : Prop where
  ge : 4 ≤ x
  front : ∀ y < 4, unroll sc.h.video.buf size base y = orig y
  noted : Noted base size hi (unroll sc.h.video.buf size base) x sc
  ahead : ∀ y, x ≤ y → y < hi → unroll sc.h.video.buf size base y = orig y
  genuine : ∀ y v, x ≤ y + 4 → y + 4 ≤ hi → codeAt (unroll sc.h.video.buf size base) y v → codeAt orig y v
  gop : sc.h.gop ≠ gop → ∃ y, y + 4 ≤ hi ∧ y + 8 ≤ x ∧ codeAt (unroll sc.h.video.buf size base) y 0xB8

section Scanning
variable {base size lo hi tail head x y : Nat} {orig : Nat → UInt8} {gop : Gop} {sc : Scan}

/-- No user data before the head has the low bits of its fourth byte clear. -/
def NoFalseSync (hi : Nat) (orig : Nat → UInt8) : Prop :=
  ∀ y, y + 10 ≤ hi → codeAt orig y 0xB2 → orig (y + 7) &&& 0x1f ≠ 0

/-- What a start code rewrites lies ahead of it. -/
theorem code_tape (tail head : Nat) (hat : sc.At base size (y + 4)) (hlt : y + 4 < hi) (hroom : hi + 7 ≤ size) (v : Nat) :
    (∀ z < size, unroll (sc.code tail head size v).1.h.video.buf size base z = unroll sc.h.video.buf size base z) ∨
      ∀ z < size, unroll (sc.code tail head size v).1.h.video.buf size base z =
        ntscHeight (unroll sc.h.video.buf size base) (y + 4) z := by
  rw [Scan.code_buf]
  split
  · exact .inr fun z hz => hat.ntscRing (by omega) (by omega)
  · exact .inl fun _ _ => rfl

namespace Sought

/-- No user data ahead falls through to the GOP case. -/
theorem not_fallsThrough (hs : Sought base size hi orig gop (y + 4) sc) (sp : Span base size 0 hi tail head)
    (hat : sc.At base size (y + 4)) (hlt : y + 4 < hi) (hno : NoFalseSync hi orig) {v : UInt8}
    (hc : codeAt (unroll sc.h.video.buf size base) y v) : ¬ sc.fallsThrough tail head size v.toNat := by
  rintro ⟨hb2, hvalid, hlow⟩
  obtain rfl : v = 0xB2 := UInt8.toNat_inj.mp hb2
  have hroom := sp.room
  rw [sp.valid (hat.cell_add 5) (by omega) (by omega), decide_eq_true_eq] at hvalid
  rw [hat.ahead 3, hs.ahead _ (by omega) (by omega)] at hlow
  exact hno y (by omega) (hs.genuine y _ (by omega) (by omega) hc) hlow

/-- The sync point, if a start code other than that of a video stream is one. -/
theorem sync (hs : Sought base size hi orig gop (y + 4) sc) (sp : Span base size 0 hi tail head)
    (hat : sc.At base size (y + 4)) (hlt : y + 4 < hi) (hno : NoFalseSync hi orig) {v : UInt8}
    (hc : codeAt (unroll sc.h.video.buf size base) y v) (hid : isVideoStream v.toNat = false)
    (hsync : (sc.code tail head size v.toNat).1.syncFound = true) :
    sc.syncFound = true ∨ v.toNat ≠ 0xb3 ∧ SyncAt hi (unroll sc.h.video.buf size base) y := by
  have hroom := sp.room
  rcases (sc.code_keeps tail head size v.toNat hid).2 with he | ⟨h0, hvalid, htype⟩ | hb8 | hfall
  · exact .inl (he ▸ hsync)
  · obtain rfl : v = 0 := UInt8.toNat_inj.mp h0
    rw [sp.valid (hat.cell_add 1) (by omega) (by omega), decide_eq_true_eq] at hvalid
    unfold pictureType at htype
    rw [hat.ahead 1] at htype
    exact .inr ⟨by decide, .inr ⟨by omega, hc, htype⟩⟩
  · obtain rfl : v = 0xB8 := UInt8.toNat_inj.mp hb8
    exact .inr ⟨by decide, .inl ⟨by omega, hc⟩⟩
  · exact absurd hfall (hs.not_fallsThrough sp hat hlt hno hc)

/-- What is noted behind a start code. -/
theorem code_noted (hs : Sought base size hi orig gop (y + 4) sc) (sp : Span base size 0 hi tail head)
    (hat : sc.At base size (y + 4)) (hle : sc.i ≤ size) (hz : size < 2147483648) (hlt : y + 4 < hi)
    (hno : NoFalseSync hi orig) {v : UInt8} (hc : codeAt (unroll sc.h.video.buf size base) y v)
    (ht : ∀ z ≤ y + 4, unroll (sc.code tail head size v.toNat).1.h.video.buf size base z =
      unroll sc.h.video.buf size base z) :
    Noted base size hi (unroll (sc.code tail head size v.toNat).1.h.video.buf size base) (y + 8)
      (sc.code tail head size v.toNat).1 := by
  have hroom := sp.room
  by_cases hid : isVideoStream v.toNat = true
  · rcases sc.code_cases tail head size v.toNat with ⟨-, he⟩ | ⟨h, -⟩ | ⟨h, -⟩ | ⟨h, -⟩ | ⟨h, -⟩ | ⟨⟨h, -⟩, -⟩
    · have hbuf : (sc.code tail head size v.toNat).1.h.video.buf = sc.h.video.buf := by rw [he, Scan.videoCode_h]
      rw [hbuf, he, Scan.videoCode_eq]
      have hsame : Noted base size hi (unroll sc.h.video.buf size base) (y + 4)
          ({ sc with h.video.parserData := (sc.timeStamps tail head size).1 } : Scan) :=
        hs.noted.mono (le_refl _) ⟨rfl, rfl, rfl, rfl⟩ (fun _ _ => rfl) .inl
      split
      · exact hsame.mono (by omega) (.refl _) (fun _ _ => rfl) .inl
      · exact hsame.seekStart (hat.of_i rfl) hle hz (by omega) ⟨v, hid, hc⟩
    all_goals exact absurd (h ▸ hid) (by decide)
  · have hid' := Bool.eq_false_iff.mpr hid
    refine hs.noted.mono (by omega) (sc.code_keeps tail head size _ hid').1 (fun z hz => ht z (by omega)) ?_
    intro hsync
    refine (hs.sync sp hat hlt hno hc hid' hsync).imp_right fun ⟨hb3, hsy⟩ => ⟨y, le_refl _, le_refl _, ?_⟩
    rw [Scan.code_buf, if_neg fun h => hb3 h.1]
    exact hsy

/-- A start code keeps the state of the seek. -/
theorem code (hs : Sought base size hi orig gop (y + 4) sc) (sp : Span base size 0 hi tail head)
    (hat : sc.At base size (y + 4)) (hle : sc.i ≤ size) (hz : size < 2147483648) (hlt : y + 4 < hi)
    (hno : NoFalseSync hi orig) {v : UInt8} (hc : codeAt (unroll sc.h.video.buf size base) y v) :
    Sought base size hi orig gop (y + 8) (sc.code tail head size v.toNat).1 := by
  have hroom := sp.room
  have htape := code_tape tail head hat hlt (by omega) v.toNat
  have hbehind : ∀ z ≤ y + 4, unroll (sc.code tail head size v.toNat).1.h.video.buf size base z =
      unroll sc.h.video.buf size base z := by
    intro z hzy
    rcases htape with ht | ht <;> rw [ht z (by omega)]
    exact ntscHeight_of_lt hzy
  refine ⟨by omega, ?_, hs.code_noted sp hat hle hz hlt hno hc hbehind, ?_, ?_, ?_⟩
  · intro z hz4
    rw [hbehind z (by omega)]
    exact hs.front z hz4
  · intro z hyz hzhi
    rcases htape with ht | ht <;> rw [ht z (by omega)]
    · exact hs.ahead z (by omega) hzhi
    · rw [ntscHeight_of_gt (by omega)]
      exact hs.ahead z (by omega) hzhi
  · intro z w hyz hzhi hcode
    refine hs.genuine z w (by omega) hzhi ?_
    rcases htape with ht | ht
    · exact hcode.congr (x := size) (fun k hk => (ht k hk).symm) (by omega)
    · exact codeAt_ntscHeight (p := y + 4) (by omega) (hcode.congr (x := size) (fun k hk => (ht k hk).symm) (by omega))
  · intro hne
    by_cases hold : sc.h.gop = gop
    · rcases sc.code_gop tail head size v.toNat with he | hb8 | hfall
      · exact absurd (he.trans hold) hne
      · obtain rfl : v = 0xB8 := UInt8.toNat_inj.mp hb8
        exact ⟨y, by omega, by omega, hc.congr (x := y + 4) (fun z hz => hbehind z (by omega)) (by omega)⟩
      · exact absurd hfall (hs.not_fallsThrough sp hat hlt hno hc)
    · obtain ⟨z, hzhi, hzx, hcode⟩ := hs.gop hold
      exact ⟨z, hzhi, by omega, hcode.congr (x := y + 4) (fun k hk => hbehind k (by omega)) (by omega)⟩

/-- A position without a start code is passed over. -/
theorem skip (hs : Sought base size hi orig gop x sc) : Sought base size hi orig gop (x + 1) sc := by
  refine ⟨by have := hs.ge; omega, hs.front, hs.noted.mono (by omega) (.refl sc) (fun _ _ => rfl) .inl, ?_, ?_, ?_⟩
  · intro y hy
    exact hs.ahead y (by omega)
  · intro y v hy
    exact hs.genuine y v (by omega)
  · intro hne
    obtain ⟨y, hy, hx, hc⟩ := hs.gop hne
    exact ⟨y, hy, by omega, hc⟩

theorem of_same {sc' : Scan} (hs : Sought base size hi orig gop x sc) (hh : sc'.h = sc.h)
    (hf : sc'.seekingFoundStart = sc.seekingFoundStart) (hstart : sc'.seekingStart = sc.seekingStart)
    (hn : sc'.nextSeekingStart = sc.nextSeekingStart) (hsync : sc'.syncFound = sc.syncFound) :
    Sought base size hi orig gop x sc' := by
  obtain ⟨hge, hfront, hnoted, hahead, hgen, hgop⟩ := hs
  rw [← hh] at hfront hnoted hahead hgen hgop
  refine ⟨hge, hfront, ?_, hahead, hgen, hgop⟩
  cases hnoted with
  | none h => exact .none (hf.trans h)
  | single a h hx hs ha => exact .single a (hf.trans h) hx (hstart ▸ hs) ha
  | pair a b h hab h6 hx hs hn' ha hb hsy =>
    exact .pair a b (hf ▸ h) hab h6 hx (hstart ▸ hs) (hn ▸ hn') ha hb fun h => hsy (hsync ▸ h)

/-- The scan keeps the state of the seek, wherever it stops. -/
theorem loop (hs : Sought base size hi orig gop x sc) (sp : Span base size 0 hi tail head) (hat : sc.At base size x)
    (hz : size < 2147483648) (hno : NoFalseSync hi orig) (hx : x ≤ hi + 4) (fuel : Nat) :
    ∃ x', Sought base size hi orig gop x' (Scan.loop tail head size fuel sc) := by
  have hroom := sp.room
  induction fuel generalizing sc x with
  | zero => exact ⟨x, hs⟩
  | succ fuel ih =>
    unfold Scan.loop
    rw [sp.valid hat.cell (by omega) (by omega)]
    by_cases hlt : x < hi
    · rw [if_pos (decide_eq_true hlt)]
      obtain ⟨hat', hle⟩ := hat.wrap (by omega)
      have hs' : Sought base size hi orig gop x (sc.wrap size) := hs.of_same rfl rfl rfl rfl rfl
      obtain ⟨y, rfl⟩ := Nat.exists_eq_add_of_le' hs.ge
      dsimp only
      split
      · rename_i hh
        have hc := (hat'.isHeader hle hz (by omega)).mp hh
        have hcode := hs'.code sp hat' hle hz hlt hno hc
        split
        · exact ⟨_, hcode⟩
        · refine ih (hcode.of_same rfl rfl rfl rfl rfl) ?_ (by omega)
          exact (hat'.of_i (Scan.code_i ..)).next ((Scan.code_i ..).trans_le hle) (by decide)
      · exact ih (hs'.skip.of_same rfl rfl rfl rfl rfl) (hat'.next hle (by decide)) (by omega)
    · rw [if_neg (by simpa using hlt)]
      exact ⟨x, hs⟩

end Sought
end Scanning

/-- Where the scan ends a seek there is a restart point behind the new parser tail. -/
theorem parse_restart {h : Handle} {size tail stop hi : Nat} (sp : Span (tail + 1) size 0 hi tail stop)
    (hz : size < 2147483648) (hno : NoFalseSync hi (unroll h.video.buf size (tail + 1))) :
    let r := parseVideoStream h tail stop size
    let tape := unroll r.1.video.buf size (tail + 1)
    (h.seeking = true → r.1.seeking = false → ∃ a b e, (r.2 + 1) % size = (tail + 1 + a) % size ∧ a < b ∧ b ≤ a + 6 ∧
      b + 4 ≤ e ∧ VideoAt tape a ∧ VideoAt tape b ∧ SyncAt hi tape e) ∧
    (r.1.gop ≠ h.gop → ∃ y, y + 4 ≤ hi ∧ codeAt tape y 0xB8) ∧
    ∀ y < 4, tape y = unroll h.video.buf size (tail + 1) y := by
  have hroom := sp.room
  have hinit : Sought (tail + 1) size hi (unroll h.video.buf size (tail + 1)) h.gop 4 { h := h, i := tail + 5 } :=
    ⟨le_refl _, fun _ _ => rfl, .none rfl, fun _ _ _ => rfl, fun _ _ _ _ hc => hc, fun hne => absurd rfl hne⟩
  have hat : Scan.At (tail + 1) size { h := h, i := tail + 5 } 4 := by
    refine ⟨rfl, Nat.succ_pos _, ?_⟩
    have := sp.tail_lt
    dsimp only
    omega
  obtain ⟨x, hx⟩ := hinit.loop sp hat hz hno (by omega) size
  have hseek := Scan.loop_seeking tail stop size size { h := h, i := tail + 5 }
  unfold parseVideoStream
  dsimp only
  generalize Scan.loop tail stop size size { h := h, i := tail + 5 } = sc at hx hseek
  by_cases hend : sc.h.seeking = true ∧ 1 < sc.seekingFoundStart ∧ sc.syncFound = true
  · obtain ⟨hs, hf, hsync⟩ := hend
    rw [if_pos ⟨hs, hf, hsync⟩, if_pos ⟨hs, by omega⟩]
    refine ⟨fun _ _ => ?_, fun hne => ?_, hx.front⟩
    · rcases hx.noted with h0 | ⟨a, h1⟩ | ⟨a, b, -, hab, h6, -, ⟨s, hs', hle, hcell⟩, -, ha, hb, hsy⟩
      · omega
      · omega
      · obtain ⟨e, hbe, -, he⟩ := hsy hsync
        refine ⟨a, b, e, ?_, hab, h6, hbe, ha, hb, he⟩
        have hu : u32 ((size : Int) + sc.seekingStart - 5) = size + s - 5 := by
          rw [hs', show (size : Int) + s - 5 = ((size + s - 5 : Nat) : Int) by omega]
          exact Stream.u32_of_lt (by omega)
        have hmod : size + s - 5 + 1 + 4 ≡ tail + 1 + a + 4 [MOD size] := by
          rw [show size + s - 5 + 1 + 4 = s + size by omega, Nat.add_assoc (tail + 1)]
          exact (Nat.add_mod_right _ _).trans hcell
        rw [hu, Nat.mod_add_mod]
        exact Nat.ModEq.add_right_cancel' 4 hmod
    · obtain ⟨y, hy, -, hc⟩ := hx.gop hne
      exact ⟨y, hy, hc⟩
  · rw [if_neg hend]
    refine ⟨fun hs hno => ?_, fun hne => ?_, hx.front⟩
    · exact absurd (hno.symm.trans (hseek.trans hs)) Bool.false_ne_true
    · obtain ⟨y, hy, -, hc⟩ := hx.gop hne
      exact ⟨y, hy, hc⟩

theorem runParser_parse (h : Handle) (w : Bool) (stop : Nat) :
    (runParser h w stop).seeking = (parseVideoStream h h.video.parserTail stop h.video.size).1.seeking ∧
      (runParser h w stop).gop = (parseVideoStream h h.video.parserTail stop h.video.size).1.gop ∧
      (runParser h w stop).video.buf = (parseVideoStream h h.video.parserTail stop h.video.size).1.video.buf ∧
      (runParser h w stop).video.parserTail =
        h.video.prod stop (parseVideoStream h h.video.parserTail stop h.video.size).2 := by
  unfold runParser
  dsimp only
  split <;> exact ⟨rfl, rfl, rfl, rfl⟩

theorem Stream.filled_buf (s : Stream) (seeking : Bool) (n : Nat) : (s.filled seeking n).buf = s.buf := by
  cases seeking <;> rfl

theorem Stream.filled_parserTail (s : Stream) (seeking : Bool) (n : Nat) :
    (s.filled seeking n).parserTail = s.parserTail := by
  cases seeking <;> rfl

namespace Handle
variable (h : Handle) (data : List UInt8)

/-- The number of bytes between the parser's tail and the head once `data` is in the ring. -/
def unparsed : Nat := (h.video.stop h.seeking data + h.video.size - h.video.parserTail - 1) % h.video.size

/-- The bytes that the parser scans when `data` is added. -/
def scanned : List UInt8 :=
  window (h.written data).video.buf h.video.size (h.video.parserTail + 1) (h.unparsed data)

/-- The cells that stay free once `data` is in the ring, as `stream_add` counts them for a
parser that has got nowhere. -/
def freeCells : Nat := (h.video.size + h.video.parserTail - h.video.stop h.seeking data) % h.video.size

/-- The ring keeps six free cells, and more than ten where the part to scan begins with a video
start code; no complete user data in it has the low five bits of its fourth byte clear. -/
structure ClearSeek : Prop where
  room : 6 ≤ h.freeCells data
  free : 10 < h.freeCells data ∨ h.video.parserTail + 1 < h.video.size ∧
    ∀ v : UInt8, isVideoStream v.toNat = true → ¬ [0, 0, 1, v] <+: h.scanned data
  userData : ∀ b₀ b₁ b₂ b₃ b₄ b₅ : UInt8, [0, 0, 1, 0xB2, b₀, b₁, b₂, b₃, b₄, b₅] <:+: h.scanned data →
    b₃ &&& 0x1f ≠ 0

variable {h data}

theorem written_size : (h.written data).video.size = h.video.size :=
  (Stream.advance_same ..).1.size.trans (Stream.hide_same ..).1.size

theorem written_parserTail : (h.written data).video.parserTail = h.video.parserTail := by
  simp only [Handle.written, Stream.advance]
  rw [Stream.hide_eq]
  split <;> rfl

/-- Enough free cells make the part to scan less than a lap. -/
theorem span_of_free (hr : h.video.InRange) (hfree : 6 ≤ h.freeCells data) :
    Span (h.video.parserTail + 1) h.video.size 0 (h.unparsed data) h.video.parserTail
      (h.video.stop h.seeking data) := by
  have hpt := hr.parserTail
  have hstop : h.video.stop h.seeking data < h.video.size := Nat.mod_lt _ hr.pos
  unfold freeCells at hfree
  unfold unparsed
  generalize h.video.stop h.seeking data = stop at *
  generalize h.video.size = size at *
  have h1 := mod_cases (size + h.video.parserTail - stop) size (by omega)
  have h2 := mod_cases (stop + size - h.video.parserTail - 1) size (by omega)
  refine ⟨hpt, rfl, ?_, by omega, by omega⟩
  have h3 := mod_cases (h.video.parserTail + 1 + (stop + size - h.video.parserTail - 1) % size) size (by omega)
  omega

theorem noFalseSync_of_clear (hc : h.ClearSeek data) :
    NoFalseSync (h.unparsed data) (unroll (h.written data).video.buf h.video.size (h.video.parserTail + 1)) := by
  intro y hy ⟨h0, h1, h2, h3⟩
  let tape := unroll (h.written data).video.buf h.video.size (h.video.parserTail + 1)
  have hp : [0, 0, 1, 0xB2, tape (y + 4), tape (y + 5), tape (y + 6), tape (y + 7), tape (y + 8), tape (y + 9)] <+:
      (h.scanned data).drop y := by
    apply prefix_window_drop
    · exact hy
    · intro k hk
      simp only [List.length_cons, List.length_nil] at hk
      interval_cases k
      exacts [h0, h1, h2, h3, rfl, rfl, rfl, rfl, rfl, rfl]
  exact hc.userData _ _ _ _ _ _ (hp.isInfix.trans (List.drop_suffix y _).isInfix)

end Handle

/-- A start code on the line of bytes is one in the ring. -/
theorem codeAt.prefix_contents {buf : Nat → UInt8} {size base n a d : Nat} {v : UInt8}
    (hc : codeAt (unroll buf size base) (a + d) v) (hn : a + d + 4 ≤ a + n) :
    [0, 0, 1, v] <+: (window buf size (base + a) n).drop d := by
  obtain ⟨h0, h1, h2, h3⟩ := hc
  apply prefix_window_drop
  · simp only [List.length_cons, List.length_nil]
    omega
  · intro k hk
    simp only [List.length_cons, List.length_nil] at hk
    rw [unroll_add, ← Nat.add_assoc]
    interval_cases k
    exacts [h0, h1, h2, h3]

theorem decentRestart_of_positions {buf : Nat → UInt8} {size base hi a b e : Nat} (hab : a < b) (h6 : b ≤ a + 6)
    (hbe : b + 4 ≤ e) (ha : VideoAt (unroll buf size base) a) (hb : VideoAt (unroll buf size base) b)
    (he : SyncAt hi (unroll buf size base) e) : DecentRestart (window buf size (base + a) (hi - a)) := by
  obtain ⟨v, hv, ha⟩ := ha
  obtain ⟨w, hw, hb⟩ := hb
  have hhi : e + 4 ≤ hi := by
    rcases he with ⟨h, -⟩ | ⟨h, -⟩ <;> omega
  obtain ⟨d, rfl⟩ := Nat.exists_eq_add_of_le hab.le
  obtain ⟨f, rfl⟩ := Nat.exists_eq_add_of_le (show a ≤ e by omega)
  refine ⟨v, w, d, f, hv, hw, ?_, by omega, by omega, hb.prefix_contents (by omega), by omega, ?_⟩
  · exact codeAt.prefix_contents (d := 0) ha (by omega)
  · rcases he with ⟨-, hg⟩ | ⟨h6, ⟨h0, h1, h2, h3⟩, ht⟩
    · exact .inl (hg.prefix_contents (by omega))
    · refine .inr ⟨unroll buf size base (a + f + 4), unroll buf size base (a + f + 5), ?_, ht⟩
      apply prefix_window_drop
      · simp only [List.length_cons, List.length_nil]
        omega
      · intro k hk
        simp only [List.length_cons, List.length_nil] at hk
        rw [unroll_add, ← Nat.add_assoc]
        interval_cases k
        exacts [h0, h1, h2, h3, rfl, rfl]

/-- The contents of a ring whose indices stand for positions. -/
theorem Stream.contents_of_positions {s : Stream} {base hi a : Nat} (ht : s.tail < s.size)
    (hcell : (s.tail + 1) % s.size = (base + a) % s.size) (hh : s.head = (base + hi) % s.size) (hle : a ≤ hi)
    (hlap : hi < a + s.size) : s.contents = window s.buf s.size (base + a) (hi - a) := by
  have hav : s.avail = hi - a := by
    rw [avail, Nat.sub_sub]
    refine lap_distance hcell ?_ (by omega) hle hlap
    rw [hh, Nat.mod_mod]
  rw [contents, hav, ← window_mod, hcell, window_mod]

/-- What a call of `stream_add` during a seek does. -/
def SeekAdd (h : Handle) (data : List UInt8) (h' : Handle) : Prop :=
  h.seeking = true ∧ (h.video.refuses true data = false → h.ClearSeek data) ∧
    h' = (streamAdd h .video data false).1

/-- The rings that a sequence of additions starts from. -/
structure SeekReady (h : Handle) : Prop where
  inRange : h.video.InRange
  parserCallback : h.video.parserCallback = true
  size_lt : h.video.size < 2147483648

namespace Handle
variable {h : Handle} {data : List UInt8}

/-- Where a block that is taken during a seek ends it, the new tail stands in front of the first of
two video start codes, and a sync point follows them. -/
theorem parsed_positions (hr : SeekReady h) (hs : h.seeking = true) (hc : h.ClearSeek data)
    (hend : (h.parsed data).seeking = false) :
    let tape := unroll (h.parsed data).video.buf h.video.size (h.video.parserTail + 1)
    ∃ a b e, ((h.parsed data).video.tail + 1) % h.video.size = (h.video.parserTail + 1 + a) % h.video.size ∧
      (h.parsed data).video.tail < h.video.size ∧ a < b ∧ b ≤ a + 6 ∧ b + 4 ≤ e ∧ e + 4 ≤ h.unparsed data ∧
      VideoAt tape a ∧ VideoAt tape b ∧ SyncAt (h.unparsed data) tape e := by
  have sp := span_of_free hr.inRange hc.room
  have hroom := sp.room
  obtain ⟨hseek, -, hbuf, htail⟩ := runParser_parse (h.written data) h.seeking (h.video.stop h.seeking data)
  rw [written_size, written_parserTail] at hseek hbuf htail
  obtain ⟨hrestart, -, hfront⟩ := parse_restart sp hr.size_lt (noFalseSync_of_clear hc)
  have hbuf' : (h.parsed data).video.buf =
      (parseVideoStream (h.written data) h.video.parserTail (h.video.stop h.seeking data) h.video.size).1.video.buf :=
    (Stream.filled_buf ..).trans hbuf
  generalize hp : parseVideoStream (h.written data) h.video.parserTail (h.video.stop h.seeking data) h.video.size = r at *
  obtain ⟨a, b, e, hcell, hab, h6, hbe, ha, hb, he⟩ := hrestart hs (hseek.symm.trans hend)
  obtain ⟨-, ht, -⟩ := parsed_end hs hend
  have hhi : e + 4 ≤ h.unparsed data := by
    rcases he with ⟨h, -⟩ | ⟨h, -⟩ <;> omega
  -- the parser is prodded only where it has got nowhere, and then the start code is not at its tail
  have hprod : (h.written data).video.prod (h.video.stop h.seeking data) r.2 = r.2 := by
    unfold Stream.prod
    rw [written_size, written_parserTail]
    refine if_neg fun ⟨heq, hle⟩ => ?_
    rw [heq] at hle hcell
    rcases hc.free with hfree | ⟨-, hfree⟩
    · exact absurd hfree (Nat.not_lt.mpr hle)
    · obtain rfl : 0 = a := lap_inj hcell (by omega) (by omega)
      obtain ⟨v, hv, hcode⟩ := ha
      have hcode' := hcode.congr (x := 4) (fun y hy => (hfront y hy).symm) (by omega)
      exact hfree v hv (codeAt.prefix_contents (a := 0) (d := 0) hcode' (by omega))
  have htail' : (h.parsed data).video.tail = r.2 :=
    ht.trans ((Stream.filled_parserTail ..).trans (htail.trans hprod))
  have hlt : r.2 < h.video.size := hp ▸ parseVideoStream_tail _ _ _ hr.inRange.pos
  rw [htail', hbuf']
  exact ⟨a, b, e, hcell, hlt, hab, h6, hbe, hhi, ha, hb, he⟩

/-- A block that is taken and parsed during a seek. -/
theorem parsed_restart (hr : SeekReady h) (hs : h.seeking = true) (hc : h.ClearSeek data)
    (hend : (h.parsed data).seeking = false) : DecentRestart (h.parsed data).video.contents := by
  have sp := span_of_free hr.inRange hc.room
  have hroom := sp.room
  have hsize : (h.parsed data).video.size = h.video.size := parsed_size
  obtain ⟨a, b, e, hcell, hlt, hab, h6, hbe, hhi, ha, hb, he⟩ := parsed_positions hr hs hc hend
  have hcont : (h.parsed data).video.contents = window (h.parsed data).video.buf (h.parsed data).video.size
      (h.video.parserTail + 1 + a) (h.unparsed data - a) := by
    apply Stream.contents_of_positions
    · exact hlt.trans_eq hsize.symm
    · rw [hsize]
      exact hcell
    · rw [(parsed_end hs hend).1, hsize, ← sp.head, hs]
    · omega
    · omega
  rw [hcont, hsize]
  exact decentRestart_of_positions hab h6 hbe ha hb he

/-- The GOP changes where a GOP header is among the bytes that the parser has scanned. -/
theorem parsed_gop (hr : SeekReady h) (hc : h.ClearSeek data) (hne : (h.parsed data).gop ≠ h.gop) :
    [0, 0, 1, 0xB8] <:+: window (h.parsed data).video.buf h.video.size (h.video.parserTail + 1) (h.unparsed data) := by
  have sp := span_of_free hr.inRange hc.room
  obtain ⟨-, hgop, hbuf, -⟩ := runParser_parse (h.written data) h.seeking (h.video.stop h.seeking data)
  rw [written_size, written_parserTail] at hgop hbuf
  obtain ⟨-, hheader, -⟩ := parse_restart sp hr.size_lt (noFalseSync_of_clear hc)
  obtain ⟨y, hy, hcode⟩ := hheader fun he => hne (hgop.trans he)
  have hbuf' : (h.parsed data).video.buf = _ := (Stream.filled_buf ..).trans hbuf
  rw [hbuf']
  rw [← Nat.zero_add y] at hcode
  exact (hcode.prefix_contents (by omega)).isInfix.trans (List.drop_suffix y _).isInfix

end Handle

/-- Every sequence of additions keeps the ring ready for the next one. -/
theorem SeekReady.add {h h' : Handle} {data : List UInt8} (hr : SeekReady h) (ha : SeekAdd h data h') : SeekReady h' := by
  obtain ⟨hs, hc, rfl⟩ := ha
  rw [← hs] at hc
  have hsame := (streamAdd_video h data hr.parserCallback).2
  refine ⟨?_, hsame.parserCallback.trans hr.parserCallback, hsame.size ▸ hr.size_lt⟩
  rcases streamAdd_video_cases data hr.parserCallback with ⟨-, he⟩ | ⟨-, he⟩ | ⟨-, hf, he⟩ <;> rw [he]
  · exact hr.inRange
  · have hh := hr.inRange.hide h.seeking
    exact ⟨hh.head, hh.tail, hh.parserTail, hh.seekingHead⟩
  · exact parsed_inRange hr.inRange data fun _ => (hc hf).free.symm.imp_left And.left

/-- During any sequence of additions to the video ring that prod no parser off a video start
code and bring no user data that looks like a GOP header, a seek ends only at a restart
point, and the GOP changes only where a GOP header is scanned. -/
theorem seek_ends_at_restart {h : Handle} (ha : Reach SeekReady SeekAdd h) (hs : h.seeking = true)
    (data : List UInt8) (hc : h.video.refuses true data = false → h.ClearSeek data) :
    let h' := (streamAdd h .video data false).1
    (h'.seeking = false → DecentRestart h'.video.contents) ∧
      (h'.gop ≠ h.gop → [0, 0, 1, 0xB8] <:+: window h'.video.buf h.video.size (h.video.parserTail + 1)
        (h.unparsed data)) := by
  have hr : SeekReady h := Reach.invariant (fun _ hi => hi) (fun _ _ _ hi hadd => hi.add hadd) ha
  rw [← hs] at hc
  intro h'
  have hquiet (hseek : h'.seeking = h.seeking) (hgop : h'.gop = h.gop) :
      (h'.seeking = false → DecentRestart h'.video.contents) ∧
        (h'.gop ≠ h.gop → [0, 0, 1, 0xB8] <:+: window h'.video.buf h.video.size (h.video.parserTail + 1)
          (h.unparsed data)) :=
    ⟨fun hend => absurd (hend.symm.trans (hseek.trans hs)) Bool.false_ne_true, fun hne => absurd hgop hne⟩
  rcases streamAdd_video_cases data hr.parserCallback with ⟨-, he⟩ | ⟨-, he⟩ | ⟨-, hf, he⟩
  · exact hquiet (by simp only [h', he]) (by simp only [h', he])
  · exact hquiet (by simp only [h', he]) (by simp only [h', he])
  · have hpar : h' = h.parsed data := by simp only [h', he]
    rw [hpar]
    exact ⟨Handle.parsed_restart hr hs (hc hf), Handle.parsed_gop hr (hc hf)⟩

/-- A video ring of 64 bytes at the beginning of a seek. -/
def seekStarted : Handle := demuxSeek (demuxInit 80 fun _ => 0)

/-- Two video start codes and a third code, with a zero as its fourth byte. -/
def restartBytes (identifier : UInt8) : List UInt8 :=
  [0, 0, 1, 0xE0, 0, 0, 1, 0xE0, 0xFF, 0xFF, 0xFF, 0, 0, 0, 1, identifier, 0xFF, 0xFF, 0xFF, 0, 0xFF, 0xFF, 0xFF, 0xFF]

private theorem seekStarted_ready : SeekReady seekStarted := by
  have hr : (demuxInit 80 fun _ => 0).video.InRange := (init_inRange (by decide) fun _ => 0).video
  exact ⟨⟨hr.head, hr.tail, hr.parserTail, hr.seekingHead⟩, rfl, by decide⟩

/-- A GOP header behind the pair ends the seek. -/
theorem seek_ends_at_gop :
    (streamAdd seekStarted .video (restartBytes 0xB8) false).1.seeking = false ∧
      DecentRestart (streamAdd seekStarted .video (restartBytes 0xB8) false).1.video.contents := by
  have hend : (streamAdd seekStarted .video (restartBytes 0xB8) false).1.seeking = false := by decide
  have hclear : seekStarted.ClearSeek (restartBytes 0xB8) := by
    refine ⟨by decide, .inl (by decide), ?_⟩
    intro b₀ b₁ b₂ b₃ b₄ b₅ hin
    have hcode : ¬ [0, 0, 1, 0xB2] <:+: seekStarted.scanned (restartBytes 0xB8) := by decide
    exact absurd ((List.prefix_append [0, 0, 1, 0xB2] [b₀, b₁, b₂, b₃, b₄, b₅]).isInfix.trans hin) hcode
  exact ⟨hend, (seek_ends_at_restart (.start seekStarted_ready) rfl _ fun _ => hclear).1 hend⟩

/-- User data behind the pair ends the seek, too, and is stored as the GOP. -/
theorem seek_ends_at_user_data :
    let h' := (streamAdd seekStarted .video (restartBytes 0xB2) false).1
    SeekReady seekStarted ∧ seekStarted.seeking = true ∧ seekStarted.video.refuses true (restartBytes 0xB2) = false ∧ h'.seeking = false ∧
      ¬ DecentRestart h'.video.contents ∧ h'.gop ≠ seekStarted.gop ∧ ¬ [0, 0, 1, 0xB8] <:+: restartBytes 0xB2 := by
  intro h'
  refine ⟨seekStarted_ready, rfl, by decide, by decide, ?_, by decide, by decide⟩
  rintro ⟨-, -, d, e, -, -, -, -, -, -, -, hgop | ⟨b, t, hpicture, -⟩⟩
  · have hno : ¬ [0, 0, 1, 0xB8] <:+: h'.video.contents := by decide
    exact hno (hgop.isInfix.trans (List.drop_suffix e _).isInfix)
  · have hno : ¬ [0, 0, 1, 0] <:+: h'.video.contents := by decide
    have hp : [0, 0, 1, 0] <:+: [0, 0, 1, 0, b, t] := (List.prefix_append [0, 0, 1, 0] [b, t]).isInfix
    exact hno (hp.trans (hpicture.isInfix.trans (List.drop_suffix e _).isInfix))

end Mvpmc.Demux
