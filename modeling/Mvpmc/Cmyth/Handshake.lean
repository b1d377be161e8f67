import Mvpmc.Cmyth.CommbreakReply
import Mvpmc.Cmyth.NumberTokens
import Mvpmc.Cmyth.MysqlQuery

/-! How a control or an event connection is made (`cmyth_conn_connect` in `connection.c`): client and backend look for
a version of the protocol on which they agree. -/
namespace Mvpmc.Cmyth
open Mvpmc.Lib
open Mysql (ascii)

/-- `protomap`, without the entry that ends it. -/
def protomap : List (Nat × List UInt8) :=
  [(62, ascii "78B5631E"), (63, ascii "3875641D"), (64, ascii "8675309J"), (65, ascii "D2BB94C2"), (66, ascii "0C0FFEE0"),
    (67, ascii "0G0G0G0"), (68, ascii "90094EAD"), (69, ascii "63835135"), (70, ascii "53153836"), (71, ascii "05e82186"),
    (72, ascii "D78EFD6F"), (73, ascii "D7FE8D6F"), (74, ascii "SingingPotato"), (75, ascii "SweetRock")]

/-- The first announcement. There is none for a version that needs a token but is not in the map. -/
def protoVersion (tmpVer : Nat) : Option (List UInt8) :=
  if 62 ≤ tmpVer ∧ tmpVer ≠ 23056 then
    (protomap.find? (·.1 = tmpVer)).map fun map =>
      ascii "MYTH_PROTO_VERSION " ++ Decimal.text tmpVer ++ ascii " " ++ map.2
  else some (ascii "MYTH_PROTO_VERSION " ++ Decimal.text tmpVer)

/-- The second one. -/
def annPlayback (myHostname : List UInt8) (event : Int) : List UInt8 :=
  ascii "ANN Playback " ++ myHostname ++ ascii " " ++ longText event

/-- A connection with its `conn_version`, what the backend remembers of it, and the requests that have been sent. -/
structure Peer (σ : Type) where
  conn : Conn
  version : Nat
  backend : σ
  sent : List (List UInt8)

/-- The other side: what becomes of `cmyth_connect`, and what comes in answer to a request. A request that cannot be
sent has none. -/
structure Backend (σ : Type) where
  connect : Nat → Option (Conn × σ)
  answer : σ → List UInt8 → Option (List (List UInt8) × σ)

/-- What `err` holds before it is set, in `cmyth_rcv_version` and in `cmyth_rcv_okay`. -/
structure Unset where
  version : Int
  okay : Int

/-- Where one pass from `top` ends. -/
inductive Attempt (σ : Type) where
  | unconnected
  | shut (conn : Peer σ)
  | other (conn : Peer σ) (tmpVer : Int)
  | agreed (conn : Peer σ)

/-- The connections that have been released, and the one that is returned. -/
structure Connected (σ : Type) where
  released : List (Peer σ)
  conn : Option (Peer σ)

section
variable {σ : Type} (b : Backend σ) (myHostname : List UInt8) (event : Int) (unset : Unset)

/-- `cmyth_send_message`. -/
def sendMessage (x : Peer σ) (request : List UInt8) : Option (Peer σ) :=
  (b.answer x.backend request).map fun r =>
    { x with conn := { x.conn with pieces := x.conn.pieces ++ r.1 }, backend := r.2, sent := x.sent ++ [request] }

/-- From the agreement to the return. -/
def playback (x : Peer σ) : Attempt σ :=
  match sendMessage b x (annPlayback myHostname event) with
  | none => .shut x
  | some x =>
    let r := rcvOkay x.conn unset.okay (ascii "OK")
    if r.1 < 0 then .shut { x with conn := r.2 } else .agreed { x with conn := r.2 }

/-- One pass. In the first, `tmp_ver` is what `cmyth_connect` has set. -/
def attempt (k : Nat) (tmpVer : Option Nat) : Attempt σ :=
  match b.connect k with
  | none => .unconnected
  | some (conn, s) =>
    let version := tmpVer.getD 8
    let x : Peer σ := ⟨conn, version, s, []⟩
    match protoVersion version with
    | none => .shut x
    | some announcement =>
      match sendMessage b x announcement with
      | none => .shut x
      | some x =>
        let r := rcvVersion x.conn unset.version version
        let x := { x with conn := r.2.2 }
        if r.1 < 0 then .shut x
        else if r.2.1 ≠ version then .other x r.2.1
        else playback b myHostname event unset x

/-- Version 23056 becomes 56. -/
def settled (x : Peer σ) : Peer σ := if x.version = 23056 then { x with version := 56 } else x

/-- `cmyth_conn_connect`. -/
def connConnect : Connected σ :=
  match attempt b myHostname event unset 0 none with
  | .unconnected => ⟨[], none⟩
  | .shut x => ⟨[x], none⟩
  | .agreed x => ⟨[], some (settled x)⟩
  | .other x tmpVer =>
    match attempt b myHostname event unset 1 (some tmpVer.toNat) with
    | .unconnected => ⟨[x], none⟩
    | .shut y => ⟨[x, y], none⟩
    | .other y _ => ⟨[x, y], none⟩
    | .agreed y => ⟨[x], some (settled y)⟩

end

/-- A version with an announcement. -/
theorem protoVersion_isSome_iff (v : Nat) : (protoVersion v).isSome ↔ v < 62 ∨ v = 23056 ∨ ∃ map ∈ protomap, map.1 = v := by
  unfold protoVersion
  split
  · rename_i hv
    rw [Option.isSome_map, List.find?_isSome]
    simp only [decide_eq_true_eq]
    constructor
    · exact fun h => .inr (.inr h)
    · rintro (h | h | h)
      · omega
      · exact absurd h hv.2
      · exact h
  · rename_i hv
    refine iff_of_true rfl ?_
    omega

theorem protomap_le {map : Nat × List UInt8} (h : map ∈ protomap) : 62 ≤ map.1 ∧ map.1 ≤ 75 := by
  revert map
  decide

/-- The versions that are returned grow with the versions of MythTV. -/
theorem settled_le {v : Nat} (h : (protoVersion v).isSome) : (if v = 23056 then 56 else v) ≤ 75 := by
  split
  · decide
  · rename_i hv
    rcases (protoVersion_isSome_iff v).mp h with h | h | ⟨map, hm, rfl⟩
    · omega
    · exact absurd h hv
    · exact (protomap_le hm).2

/-- A version is announced by a text of its own. -/
theorem protoVersion_inj {v v' : Nat} {a : List UInt8} (h : protoVersion v = some a) (h' : protoVersion v' = some a) : v = v' := by
  have hnamed (v : Nat) (h : protoVersion v = some a) : Decimal.eval ((a.drop 19).takeWhile Decimal.isDigit) = v := by
    have hall : (Decimal.text v).takeWhile Decimal.isDigit = Decimal.text v :=
      List.takeWhile_eq_self_iff.mpr (Decimal.isDigit_text v)
    have hdrop (rest : List UInt8) : (ascii "MYTH_PROTO_VERSION " ++ rest).drop 19 = rest := rfl
    unfold protoVersion at h
    split at h
    · obtain ⟨map, -, rfl⟩ := Option.map_eq_some_iff.mp h
      have hblank : (ascii " " ++ map.2).takeWhile Decimal.isDigit = [] := rfl
      rw [List.append_assoc, List.append_assoc, hdrop, List.takeWhile_append_of_pos (Decimal.isDigit_text v), hblank,
        List.append_nil, Decimal.eval_text]
    · obtain rfl := Option.some.inj h
      rw [hdrop, hall, Decimal.eval_text]
  exact (hnamed v h).symm.trans (hnamed v' h')

section
variable {conn : Conn} {payload next token : List UInt8} {n : Nat}

/-- The last token of a message is a number of 32 bits. -/
theorem At.rcvUlong_text (h : At conn (Decimal.text n) next) (hn : n < 2 ^ 32) :
    (Cmyth.rcvUlong conn (Decimal.text n).length).1.err = 0 ∧ (Cmyth.rcvUlong conn (Decimal.text n).length).1.value = n ∧
      At (Cmyth.rcvUlong conn (Decimal.text n).length).2 [] next := by
  have hplain : Plain (Decimal.text n) := fun b hb => ne_of_isDigit (digits_text n b hb) rfl
  have hzero : ∀ b ∈ Decimal.text n, b ≠ 0 := fun b hb => ne_of_isDigit (digits_text n b hb) rfl
  have hlen : (Decimal.text n).length ≤ 10 := Decimal.length_text_le (by decide) (by omega)
  have htoken : tokenIn (Decimal.text n) = Decimal.text n := by
    simpa using tokenIn_plain hplain hzero (.inl rfl)
  have heval : Decimal.evalFrom 0 (Decimal.text n) = n := Decimal.eval_text n
  have hdrop : (Decimal.text n).drop (receive 32 (Decimal.text n)).2 = [] := by
    rw [receive_last hplain.not_separator (by omega), List.drop_length]
  have hat := h.rcvUlong
  rw [hdrop] at hat
  rw [h.rcvUlong_code (Decimal.text_ne_nil n), htoken, List.take_of_length_le (by omega),
    parseUlong_digits (digits_text n) (by omega), heval]
  exact ⟨rfl, Int.one_mul _, hat⟩

/-- Answers to a call that is made with nothing in `conn_buf`. -/
structure Answered (conn : Conn) (payload : List UInt8) : Prop where
  ready : conn.Ready
  empty : conn.len ≤ conn.pos
  message : ∃ field, WellFormed field payload ∧ conn.pieces.flatten = field ++ payload

/-- A word for the buffer of eight bytes. -/
structure Word (token : List UInt8) : Prop where
  nonempty : token ≠ []
  plain : Plain token
  nonzero : ∀ b ∈ token, b ≠ 0
  short : token.length < 8

set_option maxRecDepth 4000 in
theorem word_ok : Word (ascii "OK") :=
  ⟨by decide, by unfold Plain; decide, by decide, by decide⟩

set_option maxRecDepth 4000 in
theorem word_accept : Word (ascii "ACCEPT") :=
  ⟨by decide, by unfold Plain; decide, by decide, by decide⟩

set_option maxRecDepth 4000 in
theorem word_reject : Word (ascii "REJECT") :=
  ⟨by decide, by unfold Plain; decide, by decide, by decide⟩

/-- The word in front of a message. -/
theorem Answered.word (h : Answered conn (token ++ payload)) (hw : Word token) (ht : Tail payload) (err : Int) :
    (rcvLength conn).1 = (token ++ payload).length ∧
      (rcvString (rcvLength conn).2 err 8 (token ++ payload).length).1.err = 0 ∧
      cstring (rcvString (rcvLength conn).2 err 8 (token ++ payload).length).1.token = token ∧
      ((token ++ payload).length : Int) - (rcvString (rcvLength conn).2 err 8 (token ++ payload).length).1.consumed =
        (payload.drop 5).length ∧
      At (rcvString (rcvLength conn).2 err 8 (token ++ payload).length).2 (payload.drop 5) [] := by
  obtain ⟨field, hfield, hbytes⟩ := h.message
  obtain ⟨hlen, hat, h0⟩ := rcvLength_at h.ready h.empty hfield (hbytes.trans (by rw [List.append_nil]))
  obtain ⟨htoken, hat'⟩ := hat.rcvString err 8
  obtain ⟨hword, hrest⟩ := receive_plain hw.plain hw.short ht
  have hcons : (rcvString (rcvLength conn).2 err 8 (token ++ payload).length).1.consumed = (receive 8 (token ++ payload)).2 :=
    congrArg Prod.snd htoken
  have hle := receive_le 8 (token ++ payload)
  have hsplit := congrArg List.length hrest
  rw [List.length_drop] at hsplit
  rw [hrest] at hat'
  refine ⟨hlen, hat.rcvString_err (.inr ⟨h0, by simp [hw.nonempty]⟩) 8, ?_, by omega, hat'⟩
  exact ((congrArg cstring (congrArg Prod.fst htoken)).trans (congrArg cstring hword)).trans (cstring_of_ne_zero hw.nonzero)

/-- Nothing is left behind the word. -/
theorem Answered.rcvOkay (h : Answered conn token) (hw : Word token) (err : Int) :
    (rcvOkay conn err token).1 = 0 ∧ At (rcvOkay conn err token).2 [] [] := by
  rw [← List.append_nil token] at h
  obtain ⟨hlen, herr, hword, -, hat⟩ := h.word hw (.inl rfl) err
  rw [List.append_nil] at hlen herr hword hat
  unfold Cmyth.rcvOkay
  dsimp only
  rw [hlen, if_neg (by omega), if_neg (not_not.mpr herr), if_pos hword]
  exact ⟨rfl, hat⟩

/-- The version behind the word is read as it is, whatever the word. -/
theorem Answered.rcvVersion (h : Answered conn (token ++ (separator ++ Decimal.text n))) (hw : Word token)
    (hn : n < 2 ^ 32) (err old : Int) :
    (rcvVersion conn err old).1 = 0 ∧ (rcvVersion conn err old).2.1 = n ∧ At (rcvVersion conn err old).2.2 [] [] := by
  obtain ⟨hlen, herr, -, hcount, hat⟩ := h.word hw (.inr ⟨_, rfl⟩) err
  have hdrop : (separator ++ Decimal.text n).drop 5 = Decimal.text n := rfl
  rw [hdrop] at hcount hat
  obtain ⟨h0, hvalue, hrest⟩ := hat.rcvUlong_text hn
  unfold Cmyth.rcvVersion
  dsimp only
  rw [hlen, if_neg (by omega), if_neg (not_not.mpr herr), hcount]
  exact ⟨by rw [h0, Int.neg_zero], hvalue, hrest⟩

end

/-- The pieces of one message. -/
structure Carries (pieces : List (List UInt8)) (payload : List UInt8) : Prop where
  cut : Pieces pieces
  message : ∃ field, WellFormed field payload ∧ pieces.flatten = field ++ payload

/-- The answer of a backend of version `s` to the announcement of `v`. -/
def versionReply (s v : Nat) : List UInt8 :=
  (if v = s then ascii "ACCEPT" else ascii "REJECT") ++ (separator ++ Decimal.text s)

/-- A backend of version `s`. A connection to it is new at first, and then may be one that it has accepted. -/
structure Speaks {σ : Type} (b : Backend σ) (s : Nat) (fresh accepted : σ → Prop) : Prop where
  connect (k : Nat) : ∃ conn state, b.connect k = some (conn, state) ∧ conn.Ready ∧ conn.len ≤ conn.pos ∧ conn.pieces = [] ∧
    fresh state
  version {state : σ} {v : Nat} {a : List UInt8} : fresh state → protoVersion v = some a →
    ∃ pieces state', b.answer state a = some (pieces, state') ∧ Carries pieces (versionReply s v) ∧ (v = s → accepted state')
  okay {state : σ} (myHostname : List UInt8) (event : Int) : accepted state →
    ∃ pieces state', b.answer state (annPlayback myHostname event) = some (pieces, state') ∧ Carries pieces (ascii "OK")

namespace Speaks
variable {σ : Type} {b : Backend σ} {s : Nat} {fresh accepted : σ → Prop} (h : Speaks b s fresh accepted) (hs : s < 2 ^ 32)
  (myHostname : List UInt8) (event : Int) (unset : Unset) (k : Nat) (tmpVer : Option Nat)
include h

theorem attempt_shut (hv : protoVersion (tmpVer.getD 8) = none) :
    ∃ x, attempt b myHostname event unset k tmpVer = .shut x := by
  obtain ⟨conn, state, hconn, -⟩ := h.connect k
  unfold attempt
  rw [hconn]
  dsimp only
  rw [hv]
  exact ⟨_, rfl⟩

/-- From the agreement on, the backend has only the playback to answer. -/
theorem playback_agreed {x : Peer σ} (hat : At x.conn [] []) (haccepted : accepted x.backend) :
    ∃ y : Peer σ, playback b myHostname event unset x = .agreed y ∧ y.version = x.version ∧
      y.sent = x.sent ++ [annPlayback myHostname event] ∧ At y.conn [] [] := by
  obtain ⟨pieces, state', hanswer, hcarries⟩ := h.okay myHostname event haccepted
  obtain ⟨hempty, hsocket⟩ := hat.emptied_iff.mpr rfl
  have hnone : x.conn.pieces = [] := by
    by_contra hne
    obtain ⟨piece, rest, hcons⟩ := List.exists_cons_of_ne_nil hne
    refine hat.ready.pieces piece (hcons ▸ List.mem_cons_self) ?_
    rw [hcons, List.flatten_cons] at hsocket
    exact (List.append_eq_nil_iff.mp hsocket).1
  have hanswered : Answered { x.conn with pieces := x.conn.pieces ++ pieces } (ascii "OK") := by
    rw [hnone, List.nil_append]
    exact ⟨⟨hat.ready.fd, hat.ready.buf, hat.ready.buflen, hcarries.cut⟩, hempty, hcarries.message⟩
  obtain ⟨h0, hat'⟩ := hanswered.rcvOkay word_ok unset.okay
  refine ⟨{ x with conn := _, backend := state', sent := x.sent ++ [annPlayback myHostname event] }, ?_, rfl, rfl, hat'⟩
  unfold playback sendMessage
  rw [hanswer, Option.map_some]
  dsimp only
  rw [h0, if_neg (by decide)]

include hs

/-- Up to the comparison of the versions. -/
theorem attempt_version {a : List UInt8} (hv : protoVersion (tmpVer.getD 8) = some a) :
    ∃ x : Peer σ, x.version = tmpVer.getD 8 ∧ x.sent = [a] ∧ At x.conn [] [] ∧ (tmpVer.getD 8 = s → accepted x.backend) ∧
      attempt b myHostname event unset k tmpVer =
        if s ≠ tmpVer.getD 8 then .other x s else playback b myHostname event unset x := by
  obtain ⟨conn, state, hconn, hr, hempty, hnone, hfresh⟩ := h.connect k
  obtain ⟨pieces, state', hanswer, hcarries, haccepted⟩ := h.version hfresh hv
  have hword : ∃ token, Word token ∧ versionReply s (tmpVer.getD 8) = token ++ (separator ++ Decimal.text s) := by
    unfold versionReply
    split
    · exact ⟨_, word_accept, rfl⟩
    · exact ⟨_, word_reject, rfl⟩
  obtain ⟨token, hw, hreply⟩ := hword
  have hanswered : Answered { conn with pieces := conn.pieces ++ pieces } (token ++ (separator ++ Decimal.text s)) := by
    rw [hnone, List.nil_append, ← hreply]
    exact ⟨⟨hr.fd, hr.buf, hr.buflen, hcarries.cut⟩, hempty, hcarries.message⟩
  obtain ⟨h0, hvalue, hat⟩ := hanswered.rcvVersion hw hs unset.version (tmpVer.getD 8)
  refine ⟨⟨_, _, _, _⟩, rfl, rfl, hat, haccepted, ?_⟩
  unfold attempt
  rw [hconn]
  dsimp only
  rw [hv]
  dsimp only [sendMessage]
  rw [hanswer, Option.map_some]
  dsimp only
  rw [h0, if_neg (by decide), hvalue]
  simp only [Nat.cast_inj, ne_eq]
  rfl

/-- A pass that announces the version of the backend. -/
theorem attempt_agreed {a : List UInt8} (hver : tmpVer.getD 8 = s) (hv : protoVersion s = some a) :
    ∃ x : Peer σ, attempt b myHostname event unset k tmpVer = .agreed x ∧ x.version = s ∧
      x.sent = [a, annPlayback myHostname event] ∧ At x.conn [] [] := by
  obtain ⟨x, hversion, hsent, hat, haccepted, hrun⟩ := h.attempt_version hs myHostname event unset k tmpVer (hver ▸ hv)
  obtain ⟨y, hplay, hversion', hsent', hat'⟩ := h.playback_agreed myHostname event unset hat (haccepted hver)
  rw [if_neg (not_not.mpr hver.symm), hplay] at hrun
  rw [hversion] at hversion'
  rw [hsent] at hsent'
  exact ⟨y, hrun, hversion'.trans hver, hsent', hat'⟩

end Speaks

/-- With a backend that speaks the protocol, the call agrees on the backend's version if that is one that can be announced.
A second connection is made if it is not the version 8. -/
theorem connConnect_speaks {σ : Type} {b : Backend σ} {s : Nat} {fresh accepted : σ → Prop} (h : Speaks b s fresh accepted)
    (hs : s < 2 ^ 32) (myHostname : List UInt8) (event : Int) (unset : Unset) :
    ((connConnect b myHostname event unset).conn.isSome ↔ s < 62 ∨ s = 23056 ∨ ∃ map ∈ protomap, map.1 = s) ∧
      (∀ x ∈ (connConnect b myHostname event unset).conn, ∃ a, protoVersion s = some a ∧
        x.sent = [a, annPlayback myHostname event] ∧ x.version = (if s = 23056 then 56 else s) ∧ Emptied x.conn []) ∧
      (connConnect b myHostname event unset).released.length =
        if s = 8 then 0 else if (connConnect b myHostname event unset).conn.isSome then 1 else 2 := by
  have hsettled (x : Peer σ) {a : List UInt8} (hver : x.version = s) (hv : protoVersion s = some a)
      (hsent : x.sent = [a, annPlayback myHostname event]) (hat : At x.conn [] []) :
      ∀ y ∈ some (settled x), ∃ a, protoVersion s = some a ∧ y.sent = [a, annPlayback myHostname event] ∧
        y.version = (if s = 23056 then 56 else s) ∧ Emptied y.conn [] := by
    rintro y hy
    obtain rfl := Option.some.inj hy
    have hempty := hat.emptied_iff.mpr rfl
    unfold settled
    rw [hver]
    split
    · exact ⟨a, hv, hsent, rfl, hempty⟩
    · exact ⟨a, hv, hsent, hver, hempty⟩
  rw [← protoVersion_isSome_iff]
  by_cases h8 : s = 8
  · have hsome : (protoVersion s).isSome := (protoVersion_isSome_iff s).mpr (.inl (by omega))
    obtain ⟨a, hv⟩ := Option.isSome_iff_exists.mp hsome
    obtain ⟨x, hrun, hver, hsent, hat⟩ := h.attempt_agreed hs myHostname event unset 0 none h8.symm hv
    unfold connConnect
    rw [hrun]
    exact ⟨iff_of_true rfl hsome, hsettled x hver hv hsent hat, (if_pos h8).symm⟩
  · obtain ⟨x, -, -, -, -, hrun⟩ := h.attempt_version hs myHostname event unset 0 none rfl
    have hother : s ≠ Option.none.getD 8 := h8
    rw [if_pos hother] at hrun
    rw [if_neg h8]
    cases hv : protoVersion s with
    | none =>
      obtain ⟨y, hrun'⟩ := h.attempt_shut myHostname event unset 1 (some s) hv
      have hconn : connConnect b myHostname event unset = ⟨[x, y], none⟩ := by
        unfold connConnect
        rw [hrun]
        dsimp only
        rw [Int.toNat_natCast, hrun']
      rw [hconn]
      exact ⟨iff_of_false Bool.false_ne_true Bool.false_ne_true, nofun, rfl⟩
    | some a =>
      obtain ⟨y, hrun', hver, hsent, hat⟩ := h.attempt_agreed hs myHostname event unset 1 (some s) rfl hv
      have hconn : connConnect b myHostname event unset = ⟨[x], some (settled y)⟩ := by
        unfold connConnect
        rw [hrun]
        dsimp only
        rw [Int.toNat_natCast, hrun']
      rw [hconn, ← hv]
      exact ⟨iff_of_true rfl (hv ▸ rfl), hsettled y hver hv hsent hat, rfl⟩

/-- A backend of version 63, which knows of a connection whether it has accepted it. -/
def backend63 : Backend Bool where
  connect _ := some (⟨3, some fun _ => 0, 4096, 0, 0, [], 104⟩, false)
  answer accepted request :=
    if accepted then some ([ascii "2       ", ascii "OK"], true)
    else if protoVersion 63 = some request then some ([ascii "13      ACC", ascii "EPT[]:[]63"], true)
    else some ([ascii "13      REJECT[]:", ascii "[]63"], false)

theorem backend63_speaks : Speaks backend63 63 (· = false) (· = true) where
  connect k := ⟨_, _, rfl, ⟨by decide, nofun, by decide, nofun⟩, le_rfl, rfl, rfl⟩
  version {state v a} hfresh hv := by
    subst hfresh
    by_cases h63 : v = 63
    · subst h63
      refine ⟨[ascii "13      ACC", ascii "EPT[]:[]63"], true, if_pos hv, ⟨?_, ascii "13      ", ?_, ?_⟩, fun _ => rfl⟩
      · unfold Pieces
        decide
      · exact ⟨rfl, by decide⟩
      · decide
    · have hother : protoVersion 63 ≠ some a := fun h => h63 (protoVersion_inj hv h)
      refine ⟨[ascii "13      REJECT[]:", ascii "[]63"], false, if_neg hother, ⟨?_, ascii "13      ", ?_, ?_⟩,
        fun h => absurd h h63⟩
      · unfold Pieces
        decide
      · unfold versionReply
        rw [if_neg h63]
        exact ⟨rfl, by decide⟩
      · unfold versionReply
        rw [if_neg h63]
        decide
  okay {state} myHostname event haccepted := by
    subst haccepted
    refine ⟨[ascii "2       ", ascii "OK"], true, rfl, ⟨?_, ascii "2       ", ?_, rfl⟩⟩
    · unfold Pieces
      decide
    · exact ⟨rfl, by decide⟩

theorem connConnect_speaks_63 : (connConnect backend63 (ascii "mvp") 0 ⟨5, 5⟩).conn.isSome = true ∧
    (connConnect backend63 (ascii "mvp") 0 ⟨5, 5⟩).released.length = 1 := by
  obtain ⟨hiff, -, hlen⟩ := connConnect_speaks backend63_speaks (by decide) (ascii "mvp") 0 ⟨5, 5⟩
  have hsome := hiff.mpr (.inr (.inr ⟨(63, ascii "3875641D"), by decide, rfl⟩))
  rw [hsome] at hlen
  exact ⟨hsome, hlen⟩

section
variable {σ : Type} {b : Backend σ} {myHostname : List UInt8} {event : Int} {unset : Unset}

/-- The dialogue on a connection for which `v` was announced: the answer named `v`, and the playback was answered by OK. -/
structure Dialogue (b : Backend σ) (myHostname : List UInt8) (event : Int) (unset : Unset) (v : Nat) (x : Peer σ) : Prop where
  version : x.version = v
  turns : ∃ k conn state a pieces state' pieces' state'', b.connect k = some (conn, state) ∧ protoVersion v = some a ∧
    b.answer state a = some (pieces, state') ∧
    b.answer state' (annPlayback myHostname event) = some (pieces', state'') ∧
    let r := rcvVersion { conn with pieces := conn.pieces ++ pieces } unset.version v
    let o := rcvOkay { r.2.2 with pieces := r.2.2.pieces ++ pieces' } unset.okay (ascii "OK")
    0 ≤ r.1 ∧ r.2.1 = v ∧ 0 ≤ o.1 ∧ x.conn = o.2 ∧ x.backend = state'' ∧ x.sent = [a, annPlayback myHostname event]

theorem attempt_dialogue {k : Nat} {tmpVer : Option Nat} {x : Peer σ}
    (h : attempt b myHostname event unset k tmpVer = .agreed x) :
    Dialogue b myHostname event unset (tmpVer.getD 8) x := by
  unfold attempt at h
  split at h
  · nomatch h
  · rename_i conn state hconn
    dsimp only at h
    split at h
    · nomatch h
    · rename_i a hv
      unfold sendMessage at h
      cases hanswer : b.answer state a with
      | none =>
        rw [hanswer] at h
        nomatch h
      | some turn =>
        rw [hanswer] at h
        dsimp only [Option.map_some] at h
        split at h
        · nomatch h
        · rename_i h0
          split at h
          · nomatch h
          · rename_i hsame
            unfold playback sendMessage at h
            dsimp only at h
            cases hanswer' : b.answer turn.2 (annPlayback myHostname event) with
            | none =>
              rw [hanswer'] at h
              nomatch h
            | some turn' =>
              rw [hanswer'] at h
              dsimp only [Option.map_some] at h
              split at h
              · nomatch h
              · rename_i hokay
                obtain rfl := Attempt.agreed.inj h
                exact ⟨rfl, k, conn, state, a, turn.1, turn.2, turn'.1, turn'.2, hconn, hv, hanswer, hanswer', not_lt.mp h0,
                  not_not.mp hsame, not_lt.mp hokay, rfl, rfl, rfl⟩

theorem Dialogue.announced {v : Nat} {x : Peer σ} (h : Dialogue b myHostname event unset v x) : (protoVersion v).isSome := by
  obtain ⟨k, conn, state, a, pieces, state', pieces', state'', -, hv, -⟩ := h.turns
  rw [hv]
  rfl

end

end Mvpmc.Cmyth
