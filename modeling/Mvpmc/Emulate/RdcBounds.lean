import Mvpmc.Emulate.Rdc

/-! Which remote-control messages are handled in bounds, in every state that the emulation reaches. -/
namespace Mvpmc.Emulate

namespace Session

/-- `RDC_STOP` stops the file. -/
def StopsFile (s : Session) : Prop :=
  s.mediatype ≠ 0 ∧ s.isStopping ≠ .stopped ∧
    (s.isStopping ≠ .running ∨ s.mediatype = typeAudio ∨ s.lastKeyExit = true ∨
      s.mvpState ≠ .stopPending ∧ s.mvpState ≠ .live)

/-- When a message is handled in bounds. A length byte is read as a `char`. -/
def Meets (abi : Abi) (s : Session) (m : RdcMessage) (o : RdcOutcome) : Prop :=
  match m.command abi with
  | .play => 0 ≤ m.charAt abi 8 ∧ (m.byte 8 = 0 → s.current ≠ .freed)
  | .pause => o.avPaused = true → s.mediatype = typeVideo → ∃ name, s.current = .live name
  | .stop => s.StopsFile → s.current ≠ .freed
  | .settings => 0 ≤ m.charAt abi 7 ∧ ((m.byte 7).toNat ≤ m.rest.length → o.acked = true → 25 ≤ (m.byte 7).toNat)
  | .scale => 0 ≤ m.charAt abi 8 ∧ ((m.byte 8).toNat ≤ m.rest.length →
      2 ≤ (m.byte 8).toNat ∧ (m.rest.getD 1 0 ≠ 0 → 4 ≤ (m.byte 8).toNat))
  | _ => True

/-- A name is one that a message has brought. -/
def Short (s : Session) : Prop := ∀ name, s.current = .live name → name.length ≤ 255

end Session

/-- A `char` is the byte, unless it is negative. -/
theorem char_cases (abi : Abi) (b : UInt8) :
    (0 ≤ abi.char b.toBitVec ∧ abi.char b.toBitVec = b.toNat) ∨
      (-128 ≤ abi.char b.toBitVec ∧ abi.char b.toBitVec < 0 ∧ 128 ≤ b.toNat) := by
  have hb := b.toNat_lt
  have hnat : b.toBitVec.toNat = b.toNat := rfl
  unfold Abi.char
  split
  · rw [BitVec.toInt_eq_toNat_cond, hnat]
    split
    · exact .inl ⟨Int.natCast_nonneg _, rfl⟩
    · exact .inr (by omega)
  · exact .inl ⟨Int.natCast_nonneg _, congrArg Nat.cast hnat⟩

theorem mallocSize_natCast (n : Nat) : mallocSize n = n := if_neg (Int.not_lt.mpr (Int.natCast_nonneg n))

namespace Session
variable {abi : Abi} {s : Session} {m : RdcMessage} {o : RdcOutcome}

/-- A block that there is. -/
theorem clearAndRead_inside (abi : Abi) (n : Nat) : ∀ a ∈ clearAndRead abi n, a.Inside := by
  have hsize : sizeT abi n = n := if_neg (Int.not_lt.mpr (Int.natCast_nonneg n))
  simp only [clearAndRead, mallocSize_natCast, hsize, List.mem_cons, List.not_mem_nil, or_false]
  rintro a (rfl | rfl)
  · exact fun _ => ⟨le_refl 0, le_refl _⟩
  · exact fun _ => ⟨le_refl 0, le_refl _⟩

theorem pauseFileAck_inside_iff {type : Nat} (hs : s.Short) (ht : type ≠ 0) :
    (∀ a ∈ s.pauseFileAck type, a.Inside) ↔ (s.mediatype = typeVideo → ∃ name, s.current = .live name) := by
  unfold pauseFileAck
  by_cases hv : s.mediatype = typeVideo
  · rw [if_pos (.inl hv)]
    simp only [List.mem_singleton, forall_eq, Access.Inside, hv, true_implies]
    constructor
    · rintro ⟨name, hname, -⟩
      exact ⟨name, hname⟩
    · rintro ⟨name, hname⟩
      have := hs name hname
      exact ⟨name, hname, by omega⟩
  · rw [if_neg (not_or.mpr ⟨hv, ht⟩)]
    simp [hv]

/-- With a name the modes of `RDC_PLAY` are in bounds, and keep it. -/
theorem playMode_inside {name : List UInt8} (hname : s.current = .live name) (hlen : name.length ≤ 255) (mode length : Int) :
    (∀ a ∈ (s.playMode mode length).1, a.Inside) ∧ (s.playMode mode length).2.current = s.current := by
  have hack : ∀ a ∈ { s with paused := false }.pauseFileAck 1, a.Inside := by
    refine (pauseFileAck_inside_iff ?_ (by decide)).mpr fun _ => ⟨name, hname⟩
    intro name' hname'
    obtain rfl : name = name' := by simpa [hname] using hname'
    exact hlen
  unfold playMode
  repeat' split
  all_goals first
    | exact ⟨hack, rfl⟩
    | exact ⟨fun a ha => absurd ha List.not_mem_nil, rfl⟩

theorem playMode_current (s : Session) (mode length : Int) : (s.playMode mode length).2.current = s.current := by
  unfold playMode
  repeat' split
  all_goals rfl

theorem inBounds_iff : s.InBounds abi m o ↔
    max 0 (s.handle abi m o).asked = m.announced abi ∧ ∀ a ∈ (s.handle abi m o).accesses, a.Inside :=
  ⟨fun h => ⟨h.reads, h.inside⟩, fun h => ⟨fun _ => by decide, h.1, h.2⟩⟩

/-- A message that announces its bytes in `buf[i]`: for a negative `char` it reads none of them. -/
theorem inBounds_sized_iff {i : Nat} {P : Prop} (hann : m.announced abi = (m.byte i).toNat)
    (hasked : (s.handle abi m o).asked = m.charAt abi i)
    (hP : m.charAt abi i = (m.byte i).toNat → ((∀ a ∈ (s.handle abi m o).accesses, a.Inside) ↔ P)) :
    s.InBounds abi m o ↔ 0 ≤ m.charAt abi i ∧ P := by
  rw [inBounds_iff, hasked, hann]
  rcases char_cases abi (m.byte i) with ⟨hpos, heq⟩ | ⟨-, hneg, hbig⟩
  · have hreads : max 0 (m.charAt abi i) = (m.byte i).toNat := (max_eq_right hpos).trans heq
    rw [and_iff_right hreads, hP heq]
    exact (and_iff_right hpos).symm
  · have hlt : m.charAt abi i < 0 := hneg
    exact iff_of_false (fun h => by have := h.1; omega) fun h => absurd h.1 (Int.not_le.mpr hlt)

/-- The name that `RDC_PLAY` takes lies in the block it was read to. -/
theorem takeName_inside (rest : List UInt8) (n : Nat) :
    ((∀ a ∈ (s.takeName rest n).1, a.Inside) ↔ (n = 0 → s.current ≠ .freed)) ∧
      (s.Short → n ≤ 255 → (n = 0 → s.current ≠ .freed) →
        ∃ name, (s.takeName rest n).2.current = .live name ∧ name.length ≤ 255) := by
  unfold takeName
  by_cases hkeep : (n : Int) = 0 ∧ s.current ≠ .null
  · have h0 : n = 0 := by exact_mod_cast hkeep.1
    rw [if_pos hkeep]
    simp only [List.mem_singleton, forall_eq, Access.Inside, h0, true_implies]
    cases hcur : s.current with
    | null => exact absurd hcur hkeep.2
    | freed => simp
    | live name => exact ⟨by simp, fun hs _ _ => ⟨name, rfl, hs name hcur⟩⟩
  · have hname : ((rest.take (n : Int).toNat).takeWhile (· ≠ 0)).length ≤ n := by
      refine (List.takeWhile_prefix _).length_le.trans ?_
      rw [Int.toNat_natCast, List.length_take]
      exact min_le_left ..
    have hsize : mallocSize ((n : Int) + 1) = (n : Int) + 1 := mallocSize_natCast (n + 1)
    have hcur : n = 0 → s.current ≠ .freed := by
      intro h0 hfreed
      exact hkeep ⟨by exact_mod_cast h0, fun hnull => by rw [hnull] at hfreed; cases hfreed⟩
    rw [if_neg hkeep]
    dsimp only
    rw [hsize]
    refine ⟨iff_of_true ?_ hcur, fun _ hn _ => ⟨_, rfl, hname.trans hn⟩⟩
    simp only [List.mem_cons, List.not_mem_nil, or_false]
    rintro a (rfl | rfl)
    · exact fun _ => ⟨Int.natCast_nonneg n, le_refl _⟩
    · exact fun _ => ⟨le_refl 0, by omega⟩

theorem play_accesses_iff (hs : s.Short) {n : Nat} (hn : n ≤ 255) (hL : m.charAt abi 8 = n) :
    (∀ a ∈ (s.handlePlay abi m).accesses, a.Inside) ↔ (n = 0 → s.current ≠ .freed) := by
  have hread : (Access.block (mallocSize ((n : Int) + 1)) 0 n).Inside := by
    rw [show mallocSize ((n : Int) + 1) = (n : Int) + 1 from mallocSize_natCast (n + 1)]
    exact fun _ => ⟨le_refl 0, by omega⟩
  obtain ⟨hname, hlive⟩ := takeName_inside (s := s) m.rest n
  unfold handlePlay
  rw [hL]
  dsimp only
  split
  · refine iff_of_true ?_ fun h0 => by omega
    simp only [List.mem_singleton, forall_eq]
    exact hread
  · rw [List.forall_mem_cons, List.forall_mem_append, and_iff_right hread]
    constructor
    · intro h
      exact hname.mp h.1
    · intro h
      obtain ⟨name, hcur, hlen⟩ := hlive hs hn h
      exact ⟨hname.mpr h, (playMode_inside hcur hlen _ _).1⟩

theorem play_inBounds_iff (hs : s.Short) (hc : m.command abi = .play) : s.InBounds abi m o ↔ s.Meets abi m o := by
  have hhandle : s.handle abi m o = s.handlePlay abi m := by
    unfold handle
    rw [hc]
  have hann : m.announced abi = (m.byte 8).toNat := by
    unfold RdcMessage.announced
    rw [hc]
  have hmeets : s.Meets abi m o ↔ 0 ≤ m.charAt abi 8 ∧ (m.byte 8 = 0 → s.current ≠ .freed) := by
    unfold Meets
    rw [hc]
  have hasked : (s.handlePlay abi m).asked = m.charAt abi 8 := by
    unfold handlePlay
    dsimp only
    split <;> rfl
  rw [hmeets]
  refine inBounds_sized_iff hann (by rw [hhandle, hasked]) fun hL => ?_
  rw [hhandle, play_accesses_iff hs (Nat.le_of_lt_succ (m.byte 8).toNat_lt) hL, ← UInt8.toNat_inj]
  rfl

theorem pause_inBounds_iff (hs : s.Short) (hc : m.command abi = .pause) : s.InBounds abi m o ↔ s.Meets abi m o := by
  have hack := pauseFileAck_inside_iff (s := { s with paused := true }) hs (show 4 ≠ 0 by decide)
  rw [inBounds_iff]
  unfold handle RdcMessage.announced Meets clientPause
  rw [hc]
  dsimp only
  cases o.avPaused with
  | false => simp
  | true => simpa using hack

theorem stop_inBounds_iff (hc : m.command abi = .stop) : s.InBounds abi m o ↔ s.Meets abi m o := by
  have hstop : (∀ a ∈ s.handleStop.1, a.Inside) ↔ (s.StopsFile → s.current ≠ .freed) := by
    have hfree : (∀ a ∈ [Access.free s.current], a.Inside) ↔ s.current ≠ .freed := by
      rw [List.forall_mem_singleton]
      rfl
    have hnothing {P : Prop} (h : ¬ P) : (∀ a ∈ ([] : List Access), a.Inside) ↔ (P → s.current ≠ .freed) :=
      iff_of_true (fun a ha => absurd ha List.not_mem_nil) fun hp => absurd hp h
    have hstops {P : Prop} (h : P) : (∀ a ∈ [Access.free s.current], a.Inside) ↔ (P → s.current ≠ .freed) :=
      hfree.trans ⟨fun hf _ => hf, fun hf => hf h⟩
    unfold handleStop StopsFile clientStop
    dsimp only
    by_cases h0 : s.mediatype = 0
    · rw [if_pos h0]
      exact hnothing fun h => h.1 h0
    · by_cases hst : s.isStopping = .stopped
      · rw [if_neg h0, if_pos hst]
        exact hnothing fun h => h.2.1 hst
      · by_cases hnow : s.isStopping ≠ .running ∨ s.mediatype = typeAudio ∨ s.lastKeyExit = true
        · rw [if_neg h0, if_neg hst, if_pos hnow]
          exact hstops ⟨h0, hst, by tauto⟩
        · rw [if_neg h0, if_neg hst, if_neg hnow]
          cases hm : s.mvpState with
          | running => exact hstops ⟨h0, hst, .inr (.inr (.inr ⟨by decide, by decide⟩))⟩
          | stopPending => exact hnothing (by tauto)
          | live => exact hnothing (by tauto)
          | _ => exact hstops ⟨h0, hst, .inr (.inr (.inr ⟨by decide, by decide⟩))⟩
  rw [inBounds_iff]
  unfold handle RdcMessage.announced Meets
  rw [hc]
  simpa using hstop

/-- The settings are used up to the 25th byte. -/
theorem settings_accesses_iff {n : Nat} (hL : m.charAt abi 7 = n) (acked : Bool) :
    (∀ a ∈ (s.handleSettings abi m acked).accesses, a.Inside) ↔ (n ≤ m.rest.length → acked = true → 25 ≤ n) := by
  have hread := clearAndRead_inside abi n
  unfold handleSettings
  rw [hL]
  dsimp only
  split
  · rename_i h
    refine iff_of_true hread fun hle ht => ?_
    rcases h with hlt | hf
    · omega
    · exact absurd (ht.symm.trans hf) (by decide)
  · rename_i h
    obtain ⟨hle, ht⟩ := not_or.mp h
    rw [List.forall_mem_append, and_iff_right hread, mallocSize_natCast]
    simp only [List.forall_mem_cons, Access.Inside, List.not_mem_nil, false_implies, implies_true, and_true]
    constructor
    · rintro ⟨-, -, -, -, h25, -⟩ - -
      have := h25 (by decide)
      omega
    · intro h25
      have := h25 (by omega) (Bool.eq_true_of_not_eq_false ht)
      omega

theorem settings_inBounds_iff (hc : m.command abi = .settings) : s.InBounds abi m o ↔ s.Meets abi m o := by
  have hhandle : s.handle abi m o = s.handleSettings abi m o.acked := by
    unfold handle
    rw [hc]
  have hann : m.announced abi = (m.byte 7).toNat := by
    unfold RdcMessage.announced
    rw [hc]
  have hmeets : s.Meets abi m o ↔ 0 ≤ m.charAt abi 7 ∧
      ((m.byte 7).toNat ≤ m.rest.length → o.acked = true → 25 ≤ (m.byte 7).toNat) := by
    unfold Meets
    rw [hc]
  have hasked : (s.handleSettings abi m o.acked).asked = m.charAt abi 7 := by
    unfold handleSettings
    dsimp only
    split <;> rfl
  rw [hmeets]
  refine inBounds_sized_iff hann (by rw [hhandle, hasked]) fun hL => ?_
  rw [hhandle]
  exact settings_accesses_iff hL o.acked

/-- Of the scale the second byte is used, and two more if it is not zero. -/
theorem scale_accesses_iff {n : Nat} (hL : m.charAt abi 8 = n) :
    (∀ a ∈ (s.handleScale abi m).accesses, a.Inside) ↔
      (n ≤ m.rest.length → 2 ≤ n ∧ (m.rest.getD 1 0 ≠ 0 → 4 ≤ n)) := by
  have hread := clearAndRead_inside abi n
  unfold handleScale
  rw [hL]
  dsimp only
  split
  · exact iff_of_true hread fun hle => by omega
  · rw [List.forall_mem_append, and_iff_right hread, List.forall_mem_cons, mallocSize_natCast]
    split
    · rename_i hz
      have h4 : (m.rest.getD 1 0 ≠ 0 → 4 ≤ n) ↔ 4 ≤ n := ⟨fun h => h hz, fun h _ => h⟩
      rw [h4]
      simp only [List.forall_mem_cons, Access.Inside, List.not_mem_nil, false_implies, implies_true, and_true]
      omega
    · rename_i hz
      have h4 : (m.rest.getD 1 0 ≠ 0 → 4 ≤ n) ↔ True := iff_true_intro fun h => absurd h hz
      rw [h4]
      simp only [Access.Inside, List.not_mem_nil, false_implies, implies_true, and_true]
      omega

theorem scale_inBounds_iff (hc : m.command abi = .scale) : s.InBounds abi m o ↔ s.Meets abi m o := by
  have hhandle : s.handle abi m o = s.handleScale abi m := by
    unfold handle
    rw [hc]
  have hann : m.announced abi = (m.byte 8).toNat := by
    unfold RdcMessage.announced
    rw [hc]
  have hmeets : s.Meets abi m o ↔ 0 ≤ m.charAt abi 8 ∧ ((m.byte 8).toNat ≤ m.rest.length →
      2 ≤ (m.byte 8).toNat ∧ (m.rest.getD 1 0 ≠ 0 → 4 ≤ (m.byte 8).toNat)) := by
    unfold Meets
    rw [hc]
  have hasked : (s.handleScale abi m).asked = m.charAt abi 8 := by
    unfold handleScale
    dsimp only
    split <;> rfl
  rw [hmeets]
  refine inBounds_sized_iff hann (by rw [hhandle, hasked]) fun hL => ?_
  rw [hhandle]
  exact scale_accesses_iff hL

/-- A message is handled in bounds if and only if it meets the condition. -/
theorem handled_inBounds_iff (hs : s.Short) : s.InBounds abi m o ↔ s.Meets abi m o := by
  cases hc : m.command abi with
  | play => exact play_inBounds_iff hs hc
  | pause => exact pause_inBounds_iff hs hc
  | stop => exact stop_inBounds_iff hc
  | settings => exact settings_inBounds_iff hc
  | scale => exact scale_inBounds_iff hc
  | menu =>
    rw [inBounds_iff]
    unfold handle RdcMessage.announced Meets
    rw [hc]
    simp [Access.Inside]
  | other =>
    rw [inBounds_iff]
    unfold handle RdcMessage.announced Meets
    rw [hc]
    simp

/-- A name from a message is as long as a byte says, at most. -/
theorem handlePlay_short (hs : s.Short) : (s.handlePlay abi m).session.Short := by
  have hlen : (m.charAt abi 8).toNat ≤ 255 := by
    have hc := char_cases abi (m.byte 8)
    have hb := (m.byte 8).toNat_lt
    unfold RdcMessage.charAt
    omega
  unfold handlePlay
  dsimp only
  split
  · exact hs
  · intro name hname
    rw [playMode_current] at hname
    unfold takeName at hname
    split at hname
    · exact hs name hname
    · obtain rfl := FileName.live.inj hname
      refine ((List.takeWhile_prefix _).length_le.trans ?_).trans hlen
      rw [List.length_take]
      exact min_le_left ..

theorem handleStop_short (hs : s.Short) : s.handleStop.2.Short := by
  have hnull (s' : Session) (h : s'.current = .null) : s'.Short := fun name hname => by
    rw [h] at hname
    cases hname
  unfold handleStop clientStop
  dsimp only
  repeat' split
  all_goals first
    | exact hs
    | exact hnull _ rfl

/-- What comes to be the name is short. -/
theorem handle_short (hs : s.Short) : (s.handle abi m o).session.Short := by
  unfold handle
  split
  · exact handlePlay_short hs
  · unfold clientPause
    split <;> exact hs
  · exact handleStop_short hs
  · exact hs
  · unfold handleSettings
    dsimp only
    split <;> exact hs
  · unfold handleScale
    dsimp only
    split <;> exact hs
  · exact hs

end Session

/-- What happens between the remote-control messages and with them. -/
inductive RdcEvent where
  | message (m : RdcMessage) (o : RdcOutcome)
  /-- `pauseFileAck` called for a block or a step -/
  | mediaAck (type : Nat) (notStart : type ≠ 0)
  /-- `client_stop` at the end of the file -/
  | mediaEnd
  /-- `rfb_init` -/
  | connect
  /-- the green key, with the media type that there is behind it -/
  | green (mediatype : Nat)
  /-- the other threads -/
  | others (mediatype : Nat) (paused : Bool) (mvpState isStopping : EmuState) (lastKeyExit : Bool)

namespace Session
variable (abi : Abi) (s : Session)

/-- `rfb_init` takes a name of its own, sends it and frees it. -/
def packName : List UInt8 := "OSDPACK.MVP".toList.map fun c => UInt8.ofNat c.toNat

def connect : List Access × Session := ({ s with current := .live packName }.pauseFileAck 0, { s with current := .freed })

/-- `client_stop`, if there is no name that has been freed already. -/
def endFile : Option Session := if s.current = .freed then none else some s.clientStop.2

/-- The green key plays a page under a name of its own and frees it. The old name is restored if a copy was made and
something plays still. -/
def greenKey (mediatype : Nat) : Option Session :=
  if s.mediatype = 0 then some { s with mediatype := mediatype, current := .freed }
  else match s.current with
    | .freed => none
    | .null => some { s with mediatype := mediatype, current := .freed }
    | .live name => some { s with mediatype := mediatype, current := if mediatype = 0 then .freed else .live name }

/-- The state behind an event, where C says what it is: a freed name is not freed again or copied. -/
def after : RdcEvent → Option Session
  | .message m o => some (s.handle abi m o).session
  | .mediaAck _ _ => some s
  | .mediaEnd => s.endFile
  | .connect => some s.connect.2
  | .green mediatype => s.greenKey mediatype
  | .others mediatype paused mvpState isStopping lastKeyExit =>
    some { s with mediatype, paused, mvpState, isStopping, lastKeyExit }

/-- The event is handled in bounds. -/
def Bounded : RdcEvent → Prop
  | .message m o => s.InBounds abi m o
  | .mediaAck type _ => ∀ a ∈ s.pauseFileAck type, a.Inside
  | .connect => ∀ a ∈ s.connect.1, a.Inside
  | _ => True

/-- Every event of the run is handled in bounds. -/
def RunBounded : Session → List RdcEvent → Prop
  | _, [] => True
  | s, e :: es => s.Bounded abi e ∧ ∀ s' ∈ s.after abi e, RunBounded s' es

/-- When an event is. -/
def EventMeets : RdcEvent → Prop
  | .message m o => s.Meets abi m o
  | .mediaAck _ _ => s.mediatype = typeVideo → ∃ name, s.current = .live name
  | _ => True

/-- Every event of the run meets the condition in the state that it finds. -/
def RunMeets : Session → List RdcEvent → Prop
  | _, [] => True
  | s, e :: es => s.EventMeets abi e ∧ ∀ s' ∈ s.after abi e, RunMeets s' es

variable {abi s}

theorem connect_short (s : Session) : s.connect.2.Short := fun name hname => by cases hname

theorem short_of_freed (h : s.current = .freed) : s.Short := fun name hname => by
  rw [h] at hname
  cases hname

theorem endFile_short {s' : Session} (h : s' ∈ s.endFile) : s'.Short := by
  unfold endFile at h
  split at h
  · cases h
  · obtain rfl := Option.some.inj h
    exact fun name hname => by cases hname

theorem greenKey_short (hs : s.Short) {mediatype : Nat} {s' : Session} (h : s' ∈ s.greenKey mediatype) : s'.Short := by
  unfold greenKey at h
  split at h
  · obtain rfl := Option.some.inj h
    exact short_of_freed rfl
  · split at h
    · cases h
    · obtain rfl := Option.some.inj h
      exact short_of_freed rfl
    · rename_i name hcur
      obtain rfl := Option.some.inj h
      intro name' hname
      dsimp only at hname
      split at hname
      · cases hname
      · obtain rfl := FileName.live.inj hname
        exact hs _ hcur

theorem after_short (hs : s.Short) {e : RdcEvent} {s' : Session} (h : s' ∈ s.after abi e) : s'.Short := by
  cases e with
  | message m o =>
    obtain rfl := Option.some.inj h
    exact handle_short hs
  | mediaAck type h0 =>
    obtain rfl := Option.some.inj h
    exact hs
  | mediaEnd => exact endFile_short h
  | connect =>
    obtain rfl := Option.some.inj h
    exact connect_short s
  | green mediatype => exact greenKey_short hs h
  | others mediatype paused mvpState isStopping lastKeyExit =>
    obtain rfl := Option.some.inj h
    exact hs

theorem bounded_iff (hs : s.Short) (e : RdcEvent) : s.Bounded abi e ↔ s.EventMeets abi e := by
  cases e with
  | message m o => exact handled_inBounds_iff hs
  | mediaAck type h0 => exact pauseFileAck_inside_iff hs h0
  | connect =>
    refine iff_true_intro ?_
    unfold Bounded connect pauseFileAck
    rw [if_pos (.inr rfl)]
    simp only [List.forall_mem_singleton]
    exact ⟨packName, rfl, by decide⟩
  | _ => exact Iff.rfl

theorem runBounded_iff (hs : s.Short) (es : List RdcEvent) : s.RunBounded abi es ↔ s.RunMeets abi es := by
  induction es generalizing s with
  | nil => exact Iff.rfl
  | cons e es ih =>
    exact and_congr (bounded_iff hs e) (forall_congr' fun s' => forall_congr' fun h => ih (after_short hs h))

end Session

/-- From a connection on every event of a run is handled in bounds if and only if each one meets the condition. -/
theorem emulation_inBounds_iff (abi : Abi) (s : Session) (es : List RdcEvent) :
    s.connect.2.RunBounded abi es ↔ s.connect.2.RunMeets abi es :=
  Session.runBounded_iff (Session.connect_short s) es

/-- `RDC_SETTINGS` with one byte, between two connections of which nothing is known. -/
def shortSettings : RdcMessage where
  header := [0x0a, 0, 0, 0, 0, 0, 1] ++ List.replicate 26 0
  rest := [0]
  header_length := rfl

/-- Its answer takes the fifth byte of a block of one. -/
theorem short_settings_outside : ¬ ∀ (abi : Abi) (s : Session) (es : List RdcEvent), s.connect.2.RunBounded abi es := by
  intro h
  have hrun := h ⟨.w32, true⟩ ⟨.null, 0, false, .running, .running, false⟩ [.message shortSettings ⟨false, true⟩]
  have hmeets := (Session.settings_inBounds_iff (by decide)).mp hrun.1
  unfold Session.Meets at hmeets
  exact absurd (hmeets.2 (by decide) rfl) (by decide)

end Mvpmc.Emulate
