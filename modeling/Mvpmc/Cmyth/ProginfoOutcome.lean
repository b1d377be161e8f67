import Mvpmc.Cmyth.ProginfoBalance

/-! What becomes of the tokens of a message, from its bytes. Where the values that `cmyth_rcv_proginfo` leaves have
a string or a timestamp, the structure has a counted one, and where they have none it has NULL. -/
namespace Mvpmc.Cmyth.Refs
open Mvpmc.Lib
open Proginfo (StringField StampField NumberField Slot slots)

variable {t : Nat} {P : Finset Nat} {G G' : Nat → Field → Option Nat} {e : Multiset Nat} {h : Heap} {p : Nat}

/-- The fields that are not NULL. -/
def present (v : Proginfo) : Field → Bool
  | .string f => (v.strings f).isSome
  | .stamp f => (v.stamps f).isSome

def Agrees (p : Nat) (h : Heap) (v : Proginfo) : Prop := (fun f => (h.fields p f).isSome) = present v

/-- The fields that are not NULL, after some assignments. -/
def applied (ws : List (Field × Bool)) (F : Field → Bool) : Field → Bool :=
  ws.foldl (fun F w => Function.update F w.1 w.2) F

theorem Assigned.isSome {ws : List (Field × Bool)} (ha : Assigned p ws G G') :
    (fun f => (G' p f).isSome) = applied ws fun f => (G p f).isSome := by
  induction ha with
  | nil => rfl
  | @cons G G' f ws v _ ih =>
    have hone : (fun g => (assign G p f v p g).isSome) = Function.update (fun g => (G p g).isSome) f v.isSome := by
      funext g
      by_cases hg : g = f
      · rw [hg, assign_self, Function.update_self]
      · rw [assign_of_ne _ _ _ hg, Function.update_of_ne hg]
    rw [ih, hone]
    rfl

theorem Agrees.step {v w : Proginfo} {h' : Heap} {ws : List (Field × Bool)} (ha : Agrees p h v)
    (hw : Assigned p ws h.fields h'.fields) (hv : present w = applied ws (present v)) : Agrees p h' w := by
  unfold Agrees at ha ⊢
  rw [hw.isSome, ha, hv]

section Values
variable (v : Proginfo)

theorem present_setString (f : StringField) (s : Option (List UInt8)) :
    present (v.setString f s) = Function.update (present v) (.string f) s.isSome := by
  funext g
  cases g with
  | string g =>
    by_cases hg : g = f
    · simp [present, Proginfo.setString, hg]
    · simp [present, Proginfo.setString, hg]
  | stamp g => simp [present, Proginfo.setString]

theorem present_setStamp (f : StampField) (ts : Option Timestamp) :
    present (v.setStamp f ts) = Function.update (present v) (.stamp f) ts.isSome := by
  funext g
  cases g with
  | string g => simp [present, Proginfo.setStamp]
  | stamp g =>
    by_cases hg : g = f
    · simp [present, Proginfo.setStamp, hg]
    · simp [present, Proginfo.setStamp, hg]

theorem present_setNumber (f : NumberField) (x : Int) : present (v.setNumber f x) = present v := by
  funext g
  cases g <;> rfl

/-- A channel name and an icon are set, in one order or the other. -/
theorem present_setIcon (s : List UInt8) (version : Nat) : present (v.setIcon s) =
    applied (if 8 ≤ version then [(.string .chanicon, true), (.string .channame, true)]
      else [(.string .channame, true), (.string .chanicon, true)]) (present v) := by
  have hne : Field.string .chanicon ≠ .string .channame := by decide
  have hcomm := Function.update_comm hne true true (present v)
  have hicon : present (v.setIcon s) =
      Function.update (Function.update (present v) (.string .chanicon) true) (.string .channame) true := by
    unfold Proginfo.setIcon
    dsimp only
    split
    · rw [present_setString, present_setString]
      rfl
    · rw [present_setString, present_setString]
      exact hcomm.symm
  rw [hicon]
  split
  · rfl
  · exact hcomm

end Values

/-- What becomes of the token that a step receives. -/
def outcome (libc : Libc) (conn : Conn) (err : Int) (v : Proginfo) (count : Int) : Slot → Token
  | .timestamp _ =>
    let tbuf := cstring (rcvString conn 0 19 count).1.token
    ⟨if count ≤ 0 then EINVAL else (rcvString conn 0 19 count).1.err, tbuf.length ≤ 1,
      (Timestamp.fromString tbuf).isSome, true, true⟩
  | s => ⟨(s.rcv libc conn err v count).1.err, false, false, true, true⟩

section Steps
variable (libc : Libc) (conn : Conn) (err : Int) (v : Proginfo) (count : Int)

theorem received_outcome (s : Slot) :
    received (outcome libc conn err v count s) s = true ↔ (s.rcv libc conn err v count).1.err = 0 := by
  cases s with
  | timestamp f =>
    rw [received, outcome, Slot.rcv, Proginfo.rcvStamp, rcvTimestamp]
    dsimp only
    by_cases hc : count ≤ 0
    · simp [hc, EINVAL]
    by_cases he : (rcvString conn 0 19 count).1.err = 0
    · by_cases hs : (cstring (rcvString conn 0 19 count).1.token).length ≤ 1
      · simp [hc, he, hs]
      · cases hts : Timestamp.fromString (cstring (rcvString conn 0 19 count).1.token) with
        | none => simp [hc, he, hs, EINVAL]
        | some ts => simp [hc, he, hs]
    · simp [hc, he]
  | datetime f =>
    show (decide _ && true) = true ↔ _
    rw [Bool.and_true]
    exact decide_eq_true_iff
  | _ => exact decide_eq_true_iff

/-- What a timestamp is replaced by, or stays. -/
theorem present_keep (f : StampField) : present (v.setStamp f (v.stamps f)) = present v := by
  rw [present_setStamp]
  exact Function.update_eq_self (.stamp f) (present v)

theorem present_rcv (s : Slot) (version : Nat) : present (s.rcv libc conn err v count).1.value =
    applied (writes version (outcome libc conn err v count s) s) (present v) := by
  have htext (store : List UInt8 → Proginfo) (ws : List (Field × Bool))
      (hstore : ∀ text, present (store text) = applied ws (present v)) :
      present (Proginfo.rcvText conn err count v store).1.value =
        applied (if (Proginfo.rcvText conn err count v store).1.err ≠ 0 then [] else ws) (present v) := by
    unfold Proginfo.rcvText
    dsimp only
    split
    · rfl
    · exact hstore _
  have hnumber (r : Number × Conn) (f : NumberField) : present (Proginfo.rcvNumber r v f).1.value = present v := by
    unfold Proginfo.rcvNumber
    dsimp only
    split
    · rfl
    · exact present_setNumber v f _
  have hnone (tok : Token) : applied (if tok.err ≠ 0 then [] else []) (present v) = present v := by
    rw [ite_self]
    rfl
  cases s with
  | string f => exact htext _ _ fun text => present_setString v f (some text)
  | stars => exact htext _ _ fun text => present_setString v .stars _
  | icon => exact htext _ _ fun text => present_setIcon v text version
  | chanId =>
    refine (htext (fun s => v.setNumber .chanId (atoi s)) [] fun text => present_setNumber v .chanId _).trans ?_
    rfl
  | ulong f => exact (hnumber _ f).trans (hnone _).symm
  | long f => exact (hnumber _ f).trans (hnone _).symm
  | ushort f => exact (hnumber _ f).trans (hnone _).symm
  | length => exact (hnumber _ .length).trans (hnone _).symm
  | datetime f =>
    have hout : outcome libc conn err v count (.datetime f) =
        ⟨((Slot.datetime f).rcv libc conn err v count).1.err, false, false, true, true⟩ := rfl
    rw [writes, hout, Slot.rcv, Proginfo.rcvStamp, rcvDatetime]
    dsimp only
    by_cases hc : count ≤ 0
    · rw [if_pos hc]
      exact present_keep v f
    by_cases he : (rcvString conn 0 11 count).1.err ≠ 0
    · rw [if_neg hc, if_pos he, if_pos he]
      exact present_keep v f
    · rw [if_neg hc, if_neg he, if_neg (not_not.mpr rfl)]
      exact present_setStamp v f _
  | timestamp f =>
    rw [writes, outcome, Slot.rcv, Proginfo.rcvStamp, rcvTimestamp]
    dsimp only
    by_cases hc : count ≤ 0
    · rw [if_pos hc, if_pos hc, if_pos (by decide)]
      exact present_keep v f
    rw [if_neg hc, if_neg hc]
    by_cases he : (rcvString conn 0 19 count).1.err ≠ 0
    · rw [if_pos he, if_pos he]
      exact present_keep v f
    rw [if_neg he, if_neg he]
    by_cases hs : (cstring (rcvString conn 0 19 count).1.token).length ≤ 1
    · rw [if_pos hs, decide_eq_true hs, if_pos rfl]
      exact present_keep v f
    · rw [if_neg hs, decide_eq_false hs, if_neg Bool.false_ne_true]
      exact present_setStamp v f _

end Steps

section Messages

/-- What `cmyth_proginfo_parse_url` makes of the url in these values. -/
def urlOutcome (v : Proginfo) : Url where
  skip := v.strings .url = some (ascii "none") ∨ v.strings .url = some (ascii " ")
  host := (v.parseUrl.strings .host).isSome
  path := (v.parseUrl.strings .pathname).isSome

theorem present_parseUrl (v : Proginfo) : present v.parseUrl =
    applied (if v.strings .url = none ∨ (urlOutcome v).skip then []
      else [(.string .host, (urlOutcome v).host), (.string .pathname, (urlOutcome v).path)]) (present v) := by
  have htwo (w : Proginfo) (host path : Option (List UInt8)) (port : Int)
      (hw : w = { (v.setString .host host).setString .pathname path with port := port }) :
      present w = applied [(.string .host, (w.strings .host).isSome), (.string .pathname, (w.strings .pathname).isSome)]
        (present v) := by
    have hhost : w.strings .host = host := by
      rw [hw]
      rfl
    have hpath : w.strings .pathname = path := by
      rw [hw]
      rfl
    have hpresent : present w = present ((v.setString .host host).setString .pathname path) := by
      rw [hw]
      rfl
    rw [hhost, hpath, hpresent, present_setString, present_setString]
    rfl
  cases hurl : v.strings .url with
  | none =>
    have hv : v.parseUrl = v := by
      unfold Proginfo.parseUrl
      rw [hurl]
    rw [hv, if_pos (.inl rfl)]
    rfl
  | some url =>
    by_cases hskip : url = ascii "none" ∨ url = ascii " "
    · have hv : v.parseUrl = v := by
        unfold Proginfo.parseUrl
        rw [hurl]
        exact if_pos hskip
      have hs : (urlOutcome v).skip = true := by simpa [urlOutcome, hurl] using hskip
      rw [hv, if_pos (.inr hs)]
      rfl
    · have hs : ¬ (urlOutcome v).skip = true := by simpa [urlOutcome, hurl] using hskip
      rw [if_neg fun hc => hc.elim nofun hs]
      have hv : ∃ host path port,
          v.parseUrl = { (v.setString .host host).setString .pathname path with port := port } := by
        unfold Proginfo.parseUrl
        rw [hurl]
        dsimp only
        rw [if_neg hskip]
        split
        · exact ⟨_, _, _, rfl⟩
        · exact ⟨_, _, _, rfl⟩
      obtain ⟨host, path, port, hv⟩ := hv
      exact htwo v.parseUrl host path port hv

/-- The steps of the decoder, up to the url. -/
theorem slots_agree (libc : Libc) (version : Nat) (ss : List Slot) (conn : Conn) (err : Int) (v : Proginfo) (count : Int)
    (hstart : err = 0 ∨ ss ≠ []) : ∃ (tokens : Nat → Token) (w : Proginfo),
      (Proginfo.rcvSlots libc ss conn err v count).1.value =
        (if (Proginfo.rcvSlots libc ss conn err v count).1.err = 0 then w.parseUrl else w) ∧
      ∀ {t : Nat} {P : Finset Nat} {e : Multiset Nat} {h : Heap} {p : Nat}, Holds t P e h → p ∈ P → Agrees p h v →
        Ensures (rcvAll (rcvSlot version p) ss tokens) h fun err' h' => Holds t P e h' ∧
          (err' = 0 ↔ (Proginfo.rcvSlots libc ss conn err v count).1.err = 0) ∧ Agrees p h' w := by
  induction ss generalizing conn err v count with
  | nil =>
    have herr : err = 0 := hstart.resolve_right fun hne => hne rfl
    refine ⟨fun _ => ⟨0, false, false, true, true⟩, v, (if_pos herr).symm, fun hh _ ha => ?_⟩
    exact Ensures.ret ⟨hh, ⟨fun _ => herr, fun _ => rfl⟩, ha⟩
  | cons s ss ih =>
    have hstep {t : Nat} {P : Finset Nat} {e : Multiset Nat} {h : Heap} {p : Nat} (hh : Holds t P e h) (hp : p ∈ P)
        (ha : Agrees p h v) : Ensures (rcvSlot version p (outcome libc conn err v count s) s) h fun err' h' =>
          Holds t P e h' ∧ (err' = 0 ↔ (s.rcv libc conn err v count).1.err = 0) ∧
            Agrees p h' (s.rcv libc conn err v count).1.value := by
      refine (rcvSlot_ends hh hp version (outcome libc conn err v count s) s).mono ?_
      rintro err' h' ⟨hh', herr, hw⟩
      exact ⟨hh', herr.trans (received_outcome libc conn err v count s), ha.step hw (present_rcv libc conn err v count s version)⟩
    by_cases hgo : (s.rcv libc conn err v count).1.err = 0
    · obtain ⟨tokens, w, hw, hrun⟩ := ih (s.rcv libc conn err v count).2 (s.rcv libc conn err v count).1.err
        (s.rcv libc conn err v count).1.value (count - (s.rcv libc conn err v count).1.consumed) (.inl hgo)
      have hrest : (Proginfo.rcvSlots libc (s :: ss) conn err v count).1.err =
            (Proginfo.rcvSlots libc ss (s.rcv libc conn err v count).2 (s.rcv libc conn err v count).1.err
              (s.rcv libc conn err v count).1.value (count - (s.rcv libc conn err v count).1.consumed)).1.err ∧
          (Proginfo.rcvSlots libc (s :: ss) conn err v count).1.value =
            (Proginfo.rcvSlots libc ss (s.rcv libc conn err v count).2 (s.rcv libc conn err v count).1.err
              (s.rcv libc conn err v count).1.value (count - (s.rcv libc conn err v count).1.consumed)).1.value := by
        rw [Proginfo.rcvSlots]
        dsimp only
        rw [if_neg (not_not.mpr hgo)]
        exact ⟨rfl, rfl⟩
      rw [hrest.1, hrest.2]
      refine ⟨fun i => if i = 0 then outcome libc conn err v count s else tokens (i - 1), w, hw, fun hh hp ha => ?_⟩
      refine Ensures.bind (hstep hh hp ha) ?_
      rintro err' h' ⟨hh', herr, ha'⟩
      rw [if_neg (not_not.mpr (herr.mpr hgo))]
      exact hrun hh' hp ha'
    · have hstop : Proginfo.rcvSlots libc (s :: ss) conn err v count = s.rcv libc conn err v count := by
        rw [Proginfo.rcvSlots]
        exact if_pos hgo
      rw [hstop]
      refine ⟨fun _ => outcome libc conn err v count s, _, (if_neg hgo).symm, fun hh hp ha => ?_⟩
      refine Ensures.bind (hstep hh hp ha) ?_
      rintro err' h' ⟨hh', herr, ha'⟩
      rw [if_pos fun hz => hgo (herr.mp hz)]
      exact Ensures.ret ⟨hh', herr, ha'⟩

/-- A token that is not received stops the steps and changes nothing. -/
theorem rcvAll_failed (p : Nat) (tok : Token) (htok : tok.err ≠ 0) (version : Nat) {ss : List Slot} (hss : ss ≠ []) (h : Heap) :
    rcvAll (rcvSlot version p) ss (fun _ => tok) h = some (tok.err, h) := by
  cases ss with
  | nil => exact absurd rfl hss
  | cons s ss =>
    have hslot : rcvSlot version p tok s = pure tok.err := by
      cases s with
      | string f => exact if_pos htok
      | stars => exact if_pos htok
      | icon => exact if_pos htok
      | datetime f => exact if_pos htok
      | timestamp f => exact if_pos htok
      | chanId | ulong f | long f | ushort f | length => rfl
    rw [rcvAll, hslot, pure_bind, if_pos htok]
    rfl

theorem slots_ne_nil (version : Nat) : slots version ≠ [] := by
  unfold slots
  simp

/-- For the bytes of every message there are outcomes of its tokens with which the counted structure goes where the
values go. -/
theorem rcvProginfo_agrees (libc : Libc) (version : Nat) (conn : Conn) (err : Int) (v : Proginfo) (count : Int) :
    ∃ msg : Message, msg.version = version ∧ ∀ {t : Nat} {P : Finset Nat} {e : Multiset Nat} {h : Heap} {p : Nat},
      Holds t P e h → p ∈ P → Agrees p h v → Ensures (rcvProginfo p msg) h fun err' h' => Holds t P e h' ∧
        (err' = 0 ↔ (Cmyth.rcvProginfo libc version conn err v count).1.err = 0) ∧
        Agrees p h' (Cmyth.rcvProginfo libc version conn err v count).1.value := by
  unfold Cmyth.rcvProginfo
  by_cases hc : count ≤ 0
  · rw [if_pos hc]
    refine ⟨⟨version, fun _ => ⟨EINVAL, false, false, true, true⟩, ⟨true, true, true⟩⟩, rfl, fun {t P e h p} hh _ ha => ?_⟩
    have hfail := rcvAll_failed p ⟨EINVAL, false, false, true, true⟩ (by decide) version (slots_ne_nil version) h
    refine Ensures.bind (P := fun err' h' => err' = EINVAL ∧ h' = h) ⟨EINVAL, h, hfail, rfl, rfl⟩ ?_
    rintro _ _ ⟨rfl, rfl⟩
    exact Ensures.ret ⟨hh, Iff.rfl, ha⟩
  rw [if_neg hc]
  obtain ⟨tokens, w, hw, hrun⟩ := slots_agree libc version (slots version) conn err { v with version := version } count
    (.inr (slots_ne_nil version))
  refine ⟨⟨version, tokens, urlOutcome w⟩, rfl, fun {t P e h p} hh hp ha => ?_⟩
  refine Ensures.bind (hrun hh hp ha) ?_
  rintro err' h' ⟨hh', herr, ha'⟩
  by_cases hz : err' = 0
  · rw [if_pos (herr.mp hz)] at hw
    rw [if_neg (not_not.mpr hz), hw]
    refine Ensures.bind (parseUrl_ends hh' hp (urlOutcome w)) ?_
    rintro _ h'' ⟨hh'', hu⟩
    refine Ensures.ret ⟨hh'', ⟨fun _ => herr.mp hz, fun _ => rfl⟩, ha'.step hu ?_⟩
    have hurl : h'.fields p (.string .url) = none ↔ w.strings .url = none := by
      have hsome : (h'.fields p (.string .url)).isSome = (w.strings .url).isSome := congrFun ha' (.string .url)
      rw [← Option.isNone_iff_eq_none, ← Option.isNone_iff_eq_none, ← Option.not_isSome, ← Option.not_isSome, hsome]
    rw [present_parseUrl]
    simp only [hurl]
  · rw [if_neg fun he => hz (herr.mpr he)] at hw
    rw [if_pos hz, hw]
    exact Ensures.ret ⟨hh', herr, ha'⟩

end Messages

end Mvpmc.Cmyth.Refs
