import Mvpmc.Cmyth.File
import Mvpmc.Cmyth.Leftover

/-! Replies to `REQUEST_BLOCK` and `SEEK` without a number. The functions that read a number report an error
in `*err` and return the bytes consumed; the calls of `file.c` only look at what is returned. -/
namespace Mvpmc.Cmyth
open Mvpmc.Lib.Circular

/-- The number that a loop like that of `cmyth_rcv_long` finds in the first token, if it accepts the token. -/
def numberIn (parse : List UInt8 → Nat → Int ⊕ Nat) (bytes : List UInt8) : Option Int :=
  let num := cstring (receive 32 bytes).1
  match parse (if num.head? = some 0x2D then num.tail else num) 0 with
  | .inl _ => none
  | .inr val => some ((if num.head? = some 0x2D then -1 else 1) * val)

/-- What `cmyth_rcv_long` makes of a message. -/
def longOf (bytes : List UInt8) : Option Int := if bytes = [] then none else numberIn parseLong bytes

/-- What `cmyth_rcv_new_int64` makes of a message. -/
def int64Of (version : Nat) (forced : Bool) (bytes : List UInt8) : Option Int :=
  if twoNumbers version forced then
    (longOf bytes).bind fun hi => (longOf (bytes.drop (receive 32 bytes).2)).map fun lo => hi * 2 ^ 32 + lo % 2 ^ 32
  else if bytes = [] then none
  else numberIn parseInt64 bytes

theorem parseLong_error {num : List UInt8} {val : Nat} {err : Int} (h : parseLong num val = .inl err) : err ≠ 0 := by
  induction num generalizing val with
  | nil => exact absurd h (by simp [parseLong])
  | cons b num ih =>
    unfold parseLong at h
    split at h
    · exact Sum.inl.inj h ▸ show EINVAL ≠ 0 by decide
    · split at h
      · exact Sum.inl.inj h ▸ show ERANGE ≠ 0 by decide
      · exact ih h

namespace At
variable {conn : Conn} {payload next : List UInt8}

theorem rcvLong_number (h : At conn payload next) (old : Int) :
    (Cmyth.rcvLong conn old payload.length).1.value = (longOf payload).getD old ∧
      ((Cmyth.rcvLong conn old payload.length).1.err = 0 ↔ longOf payload ≠ none) ∧
      (payload ≠ [] → (Cmyth.rcvLong conn old payload.length).1.consumed = (receive 32 payload).2) := by
  unfold Cmyth.rcvLong longOf
  by_cases hnil : payload = []
  · subst hnil
    simp [EINVAL]
  · have hpos := List.length_pos_of_ne_nil hnil
    obtain ⟨hs, -⟩ := h.rcvString 0 32
    have htoken := congrArg Prod.fst hs
    have hcons := congrArg Prod.snd hs
    dsimp only at htoken hcons
    rw [if_neg (by omega), if_neg hnil]
    dsimp only
    rw [if_neg (not_not.mpr (h.rcvString_err (.inl rfl) 32)), htoken, hcons]
    unfold numberIn
    dsimp only
    cases hparse : parseLong (if (cstring (receive 32 payload).1).head? = some 0x2D then
      (cstring (receive 32 payload).1).tail else cstring (receive 32 payload).1) 0 with
    | inl err =>
      exact ⟨rfl, ⟨fun h0 => absurd h0 (parseLong_error hparse), fun h0 => absurd rfl h0⟩, fun _ => rfl⟩
    | inr val => exact ⟨rfl, ⟨fun _ => Option.some_ne_none _, fun _ => rfl⟩, fun _ => rfl⟩

theorem rcvOldInt64_number (h : At conn payload next) (old : Int) :
    (rcvOldInt64 conn old payload.length).1.value =
        ((longOf payload).bind fun hi => (longOf (payload.drop (receive 32 payload).2)).map fun lo =>
          hi * 2 ^ 32 + lo % 2 ^ 32).getD old ∧
      ((rcvOldInt64 conn old payload.length).1.err = 0 ↔
        longOf payload ≠ none ∧ longOf (payload.drop (receive 32 payload).2) ≠ none) := by
  by_cases hnil : payload = []
  · subst hnil
    exact ⟨rfl, iff_of_false (by simp [rcvOldInt64, EINVAL]) fun h => h.1 rfl⟩
  · have hpos := List.length_pos_of_ne_nil hnil
    obtain ⟨hval, herr, hcons⟩ := h.rcvLong_number 0
    have hcount : (payload.length : Int) - (receive 32 payload).2 = (payload.drop (receive 32 payload).2).length := by
      have hle := receive_le 32 payload
      rw [List.length_drop]
      omega
    obtain ⟨hval', herr', -⟩ := (h.rcvLong 0).rcvLong_number 0
    unfold rcvOldInt64
    rw [if_neg (by omega)]
    dsimp only
    rw [hcons hnil, hcount]
    cases hhi : longOf payload with
    | none =>
      have hfail : (Cmyth.rcvLong conn 0 payload.length).1.err ≠ 0 := fun h0 => herr.mp h0 hhi
      rw [if_pos hfail]
      exact ⟨rfl, iff_of_false hfail fun h => h.1 rfl⟩
    | some hi =>
      rw [if_neg (not_not.mpr (herr.mpr (by simp [hhi])))]
      cases hlo : longOf (payload.drop (receive 32 payload).2) with
      | none =>
        rw [if_pos fun h0 => herr'.mp h0 hlo]
        exact ⟨rfl, iff_of_false (fun h0 => herr'.mp h0 hlo) fun h => h.2 rfl⟩
      | some lo =>
        rw [if_neg (not_not.mpr (herr'.mpr (by simp [hlo])))]
        dsimp only
        rw [hval, hval', hhi, hlo]
        exact ⟨rfl, iff_of_true rfl ⟨Option.some_ne_none hi, Option.some_ne_none lo⟩⟩

theorem rcvNewInt64_number (h : At conn payload next) (version : Nat) (old : Int) (forced : Bool) :
    (rcvNewInt64 version conn old payload.length forced).1.value = (int64Of version forced payload).getD old := by
  unfold rcvNewInt64 int64Of
  by_cases htwo : twoNumbers version forced = true
  · rw [if_pos htwo, if_pos htwo]
    exact (h.rcvOldInt64_number old).1
  · rw [if_neg htwo, if_neg htwo]
    by_cases hnil : payload = []
    · subst hnil
      rfl
    · have hpos := List.length_pos_of_ne_nil hnil
      obtain ⟨hs, -⟩ := h.rcvString 0 32
      have htoken := congrArg Prod.fst hs
      dsimp only at htoken
      rw [if_neg (by omega), if_neg hnil]
      dsimp only
      rw [if_neg (not_not.mpr (h.rcvString_err (.inl rfl) 32)), htoken]
      unfold numberIn
      dsimp only
      cases hparse : parseInt64 (if (cstring (receive 32 payload).1).head? = some 0x2D then
        (cstring (receive 32 payload).1).tail else cstring (receive 32 payload).1) 0 with
      | inl err => rfl
      | inr val => rfl

end At

/-- What stands before the first separator of a message. -/
def firstToken : List UInt8 → List UInt8
  | [] => []
  | b :: bytes => if separator.isPrefixOf (b :: bytes) then [] else b :: firstToken bytes

/-- A number without its sign. -/
def magnitude (token : List UInt8) : List UInt8 := if token.head? = some 0x2D then token.tail else token

/-- A decimal number that is no larger than this. -/
def IsNumber (limit : Nat) (token : List UInt8) : Prop :=
  (magnitude token).isEmpty = false ∧ (magnitude token).all isDigit = true ∧ (magnitude token).foldl pushDigit 0 ≤ limit

instance (limit : Nat) (token : List UInt8) : Decidable (IsNumber limit token) := instDecidableAnd

namespace Transfer

/-- The state of a call: still in its loop, or returned. -/
inductive Call where
  | loops (f : File) (r : Reading)
  | returns (ret : Int) (f : File)

/-- It has returned an error with the counters as they were. -/
def Call.Refused (f : File) (call : Call) : Prop := ∃ ret, ret < 0 ∧ call = .returns ret f

/-- `cmyth_file_request_block` from its reply on, where `old` is in `c`. -/
def File.requestBlock (f : File) (old : Int) (conn : Conn) : Call :=
  let l := rcvLength conn
  if l.1 < 0 then .returns l.1 f
  else
    let c := (rcvLong l.2 old l.1).1.value
    .returns (c.bmod (2 ^ 32)) { f with req := wrap64 (f.req + c) }

/-- `cmyth_file_seek` from its reply on. The position is returned as a `long long`. -/
def File.seekReply (f : File) (offset : Int) (whence : Whence) (conn : Conn) : Call :=
  let l := rcvLength conn
  if l.1 < 0 then .returns l.1 f
  else
    -- the number that `cmyth_rcv_int64` leaves in `c` is not looked at
    let f := f.seekDone offset whence
    .returns ((f.pos : Int).bmod (2 ^ 64)) f

/-- What becomes of a round of `cmyth_file_read`, with the counters that a failure leaves. -/
def Round.call (left : File) : Round → Call
  | .again f r => .loops f r
  | .returned f buf => .returns buf.length f
  | .failed ret => .returns ret left

/-- What a round finds on the data connection, or that `select` or `recv` fails. -/
inductive Poll where
  | ready (n : Option Nat)
  | fails

namespace Reading

/-- The counters once a grant has been added. -/
def grant (f : File) (len64 : Int) : File := { f with req := (f.req + bounded len64) % 2 ^ 64 }

/-- The round of `cmyth_file_read` in which the reply has been read. -/
def answered (f : File) (r : Reading) (len64 : Int) (poll : Poll) (data : List Sent) : Call × List Sent :=
  match poll with
  | .ready n =>
    let t := r.round f ⟨0, 0⟩ (some len64) n data
    (t.1.call (grant f len64), t.2)
  | .fails =>
    let f := grant f len64
    if f.pos = f.req then (.returns r.buf.length f.grow, data) else (.returns (-1) f, data)

/-- The same round from the reply on, where `old` is in `len64`. -/
def reply (f : File) (r : Reading) (old : Int) (conn : Conn) (poll : Poll) (data : List Sent) : Call × List Sent :=
  let l := rcvLength conn
  if l.1 < 0 then (.returns l.1 f, data)
  else r.answered f (rcvNewInt64 f.version l.2 old l.1 true).1.value poll data

/-- The rounds behind it. -/
def rest : List Poll → Call → List Sent → Call
  | poll :: polls, .loops f r, data =>
    match poll with
    | .ready n =>
      let t := r.round f ⟨0, 0⟩ none n data
      rest polls (t.1.call f) t.2
    | .fails => .returns (-1) f
  | [], call, _ => call
  | _, .returns ret f, _ => .returns ret f

end Reading

/-- A call when its reply comes, with what is in the variable for the number, and for `cmyth_file_read` also
what the data connection does from then on. -/
inductive Asked where
  | requestBlock (f : File) (old : Int)
  | seek (f : File) (offset : Int) (whence : Whence)
  | read (f : File) (r : Reading) (old : Int) (poll : Poll) (polls : List Poll) (data : List Sent)

namespace Asked

def file : Asked → File
  | requestBlock f _ => f
  | seek f _ _ => f
  | read f _ _ _ _ _ => f

/-- What the types and the loop of `cmyth_file_read` ensure. -/
def Valid : Asked → Prop
  | requestBlock _ _ => True
  | seek f _ _ => f.pos < 2 ^ 64
  | read f r _ _ _ _ => f.pos < 2 ^ 64 ∧ f.req < 2 ^ 64 ∧ r.buf.length ≤ r.len ∧ r.len < 2 ^ 64

def run : Asked → Conn → Call
  | requestBlock f old, conn => f.requestBlock old conn
  | seek f offset whence, conn => f.seekReply offset whence conn
  | read f r old poll polls data, conn =>
    let t := r.reply f old conn poll data
    Reading.rest polls t.1 t.2

/-- The largest number the call can read. -/
def limit : Asked → Nat
  | requestBlock _ _ => 0x7FFFFFFF
  | seek f _ _ => if twoNumbers f.version false then 0x7FFFFFFF else 0x7FFFFFFFFFFFFFFF
  | read f _ _ _ _ _ => if twoNumbers f.version true then 0x7FFFFFFF else 0x7FFFFFFFFFFFFFFF

/-- A malformed reply changes nothing: the call returns an error with the counters as they were. -/
def Refuses (call : Asked) (conn : Conn) (payload : List UInt8) : Prop :=
  ¬ IsNumber call.limit (firstToken payload) → (call.run conn).Refused call.file

end Asked

/-- The position a seek leads to. -/
def File.seekTarget (f : File) (offset : Int) (whence : Whence) : Nat :=
  match whence with
  | .set => wrap64 offset
  | .cur => wrap64 (f.pos + offset)
  | .fromEnd => wrap64 (f.length - offset)

/-- The call fails before a byte comes. -/
def Dry (len : Nat) (data : List Sent) : List Poll → Prop
  | [] => False
  | .fails :: _ => True
  | .ready none :: _ => True
  | .ready (some n) :: polls => data.take (min n len) = [] ∧ Dry len data polls

/-- The same from the round of the reply on, in which there is no timeout. -/
def Starved (r : Reading) (data : List Sent) : Poll → List Poll → Prop
  | .fails, _ => True
  | .ready n, polls => r.buf = [] ∧ data.take (min (n.getD 0) r.len) = [] ∧ Dry r.len data polls

/-- Where the call returns an error by chance: never; a seek that stays where it is, beyond the positions that a
`long long` can hold; and a read whose grant is no grant, if it has received more than it asked for or
fails before it has received anything more. -/
def Asked.Spared : Asked → List UInt8 → Prop
  | .requestBlock _ _, _ => False
  | .seek f offset whence, _ =>
    f.seekTarget offset whence = f.pos ∧ f.req = f.pos ∧ f.pos ≤ f.length ∧ 2 ^ 63 ≤ f.pos
  | .read f r old poll polls data, payload =>
    Reading.bounded ((int64Of f.version true payload).getD old) = 0 ∧
      (f.req < f.pos ∨ f.pos < f.req ∧ Starved r data poll polls)

theorem wrap64_add_eq {x : Nat} {c : Int} (h : wrap64 (x + c) = x) : c % 2 ^ 64 = 0 := by
  unfold wrap64 at h
  omega

theorem bmod_neg_iff {x : Nat} (hx : x < 2 ^ 64) : (x : Int).bmod (2 ^ 64) < 0 ↔ 2 ^ 63 ≤ x := by
  rw [Int.bmod_def]
  split
  · omega
  · omega

/-- A block that is not granted is no error. -/
theorem not_refused_requestBlock (f : File) (c : Int) :
    ¬ Call.Refused f (.returns (c.bmod (2 ^ 32)) { f with req := wrap64 (f.req + c) }) := by
  rintro ⟨ret, hret, h⟩
  obtain ⟨hc, hreq⟩ := Call.returns.inj h
  have h64 := wrap64_add_eq (congrArg File.req hreq)
  have hdvd : ((2 ^ 32 : Nat) : Int) ∣ c := by omega
  rw [← hc, Int.bmod_eq_zero_of_dvd hdvd] at hret
  exact absurd hret (lt_irrefl 0)

theorem refused_seek_iff {f : File} (hp : f.pos < 2 ^ 64) (offset : Int) (whence : Whence) :
    Call.Refused f (.returns (((f.seekDone offset whence).pos : Int).bmod (2 ^ 64)) (f.seekDone offset whence)) ↔
      f.seekTarget offset whence = f.pos ∧ f.req = f.pos ∧ f.pos ≤ f.length ∧ 2 ^ 63 ≤ f.pos := by
  have hdone : f.seekDone offset whence = ⟨f.version, max f.length (f.seekTarget offset whence),
      f.seekTarget offset whence, f.seekTarget offset whence⟩ := by
    cases whence with
    | set => rfl
    | cur => rfl
    | fromEnd => rfl
  rw [hdone]
  constructor
  · rintro ⟨ret, hret, h⟩
    obtain ⟨rfl, hf⟩ := Call.returns.inj h
    have hpos := congrArg File.pos hf
    have hreq := congrArg File.req hf
    have hlen := congrArg File.length hf
    dsimp only at hpos hreq hlen hret
    rw [hpos] at hret
    exact ⟨hpos, hreq.symm.trans hpos, by omega, (bmod_neg_iff hp).mp hret⟩
  · rintro ⟨hpos, hreq, hlen, hbig⟩
    refine ⟨_, (bmod_neg_iff ?_).mpr ?_, congrArg (Call.returns _) ?_⟩
    · exact hpos ▸ hp
    · exact hpos ▸ hbig
    · rw [hpos, Nat.max_eq_left hlen]
      cases f
      exact congrArg _ hreq.symm

section Read
variable {f g h : File} {r : Reading} {n : Nat} {ret : Int} {data : List Sent} {poll : Poll} {polls : List Poll}

@[simp] theorem rest_returns : Reading.rest polls (.returns ret f) data = .returns ret f := by
  cases polls with
  | nil => rfl
  | cons poll polls => rfl

theorem loop_call (left : File) : (r.loop f).call left =
    if r.buf = [] ∨ r.req ∨ r.recvd then .loops f r else .returns r.buf.length f.grow := by
  unfold Reading.loop
  split
  · rfl
  · rfl

/-- A round that leads back to the test of the loop is followed by an error only if it leads on. -/
theorem rest_loop {left : File} (hret : ret < 0)
    (hr : Reading.rest polls ((r.loop f).call left) data = .returns ret h) :
    Reading.rest polls (.loops f r) data = .returns ret h := by
  rw [loop_call] at hr
  split at hr
  · exact hr
  · rw [rest_returns] at hr
    have := (Call.returns.inj hr).1
    omega

/-- The bytes that a round brings. -/
theorem takeData_some (hl : r.buf.length ≤ r.len) (n : Nat) (data : List Sent) (now : Seeks) : ∃ k r', k ≤ r.len - r.buf.length ∧
    (k = 0 → data.take (min n (r.len - r.buf.length)) = []) ∧
    (r.takeData f now (some n) data).1 = Reading.loop (f.advance k) r' ∧ r'.len = r.len ∧
    r'.buf.length = r.buf.length + k := by
  unfold Reading.takeData
  dsimp only
  rw [if_neg (not_lt.mpr hl)]
  refine ⟨_, _, ?_, List.length_eq_zero_iff.mp, rfl, rfl, ?_⟩
  · rw [List.length_take]
    omega
  · simp [File.handed]

/-- An error leaves `file_req` alone, and `file_pos` counts the bytes that have come. -/
theorem rest_error (hp : f.pos < 2 ^ 64) (hl : r.buf.length ≤ r.len) (hret : ret < 0)
    (hr : Reading.rest polls (.loops f r) data = .returns ret h) :
    h.req = f.req ∧ ∃ k ≤ r.len - r.buf.length, h.pos = (f.pos + k) % 2 ^ 64 := by
  induction polls generalizing f r data with
  | nil => exact absurd hr (by simp [Reading.rest])
  | cons poll polls ih =>
    have hstays : f = h → h.req = f.req ∧ ∃ k ≤ r.len - r.buf.length, h.pos = (f.pos + k) % 2 ^ 64 := by
      rintro rfl
      exact ⟨rfl, 0, Nat.zero_le _, (Nat.mod_eq_of_lt hp).symm⟩
    cases poll with
    | fails => exact hstays (Call.returns.inj hr).2
    | ready n =>
      unfold Reading.rest Reading.round at hr
      dsimp only at hr
      cases n with
      | none =>
        split at hr
        · rw [Round.call, rest_returns] at hr
          exact hstays (Call.returns.inj hr).2
        · exact ih (r := { r with recvd := false }) hp hl (rest_loop hret hr)
      | some n =>
        rw [if_neg (by simp)] at hr
        obtain ⟨k, r', hk, -, htake, hlen, hbuf⟩ := takeData_some (f := f) hl n data ⟨0, 0⟩
        rw [htake] at hr
        obtain ⟨hreq, k', hk', hpos⟩ := ih (f := f.advance k) (Nat.mod_lt _ (by decide)) (by omega) (rest_loop hret hr)
        refine ⟨hreq, k + k', by omega, ?_⟩
        rw [hpos]
        change ((f.pos + k) % 2 ^ 64 + k') % 2 ^ 64 = _
        omega

/-- Once a byte has come no error leaves the counters as they were. -/
theorem moved_not_refused (hl : r.buf.length ≤ r.len) (hlen : r.len < 2 ^ 64)
    (hn : data.take (min n (r.len - r.buf.length)) ≠ []) :
    ¬ Call.Refused f (Reading.rest polls ((r.takeData f ⟨0, 0⟩ (some n) data).1.call g)
      (r.takeData f ⟨0, 0⟩ (some n) data).2) := by
  rintro ⟨ret, hret, hr⟩
  obtain ⟨k, r', hk, hzero, htake, hlen', hbuf⟩ := takeData_some (f := f) hl n data ⟨0, 0⟩
  rw [htake] at hr
  obtain ⟨-, k', hk', hpos⟩ := rest_error (f := f.advance k) (Nat.mod_lt _ (by decide)) (by omega) hret (rest_loop hret hr)
  have hpos' : f.pos = ((f.pos + k) % 2 ^ 64 + k') % 2 ^ 64 := hpos
  have hk0 : k ≠ 0 := fun h0 => hn (hzero h0)
  omega

/-- Nothing has come and no reply is due. -/
theorem refused_rest_iff (hp : f.pos < 2 ^ 64) (hlen : r.len < 2 ^ 64) (hbuf : r.buf = []) (hv : r.recvd = false) :
    Call.Refused f (Reading.rest polls (.loops f r) data) ↔ Dry r.len data polls := by
  have hl : r.buf.length ≤ r.len := by simp [hbuf]
  have hroom : r.len - r.buf.length = r.len := by simp [hbuf]
  induction polls with
  | nil => exact ⟨fun ⟨_, _, h⟩ => absurd h (by simp [Reading.rest]), False.elim⟩
  | cons poll polls ih =>
    cases poll with
    | fails => exact ⟨fun _ => trivial, fun _ => ⟨-1, by decide, rfl⟩⟩
    | ready n =>
      cases n with
      | none =>
        refine ⟨fun _ => trivial, fun _ => ⟨-ETIMEDOUT, by decide, ?_⟩⟩
        simp [Reading.rest, Reading.round, hv, Round.call]
      | some n =>
        have hround : Reading.rest (.ready (some n) :: polls) (.loops f r) data =
            Reading.rest polls ((r.takeData f ⟨0, 0⟩ (some n) data).1.call f) (r.takeData f ⟨0, 0⟩ (some n) data).2 := by
          simp [Reading.rest, Reading.round]
        rw [hround]
        unfold Dry
        by_cases hn : data.take (min n r.len) = []
        · have hsame : { r with recvd := false } = r := by
            rw [← hv]
          rw [Reading.takeData_nothing hp hl (by rw [hroom]; exact hn), loop_call, hsame, if_pos (.inl hbuf)]
          exact ih.trans (and_iff_right hn).symm
        · refine iff_of_false (moved_not_refused hl hlen ?_) fun h => hn h.1
          rw [hroom]
          exact hn

theorem grant_eq_iff (hr : f.req < 2 ^ 64) {v : Int} : Reading.grant f v = f ↔ Reading.bounded v = 0 := by
  have hb : Reading.bounded v < 2 ^ 32 := by
    unfold Reading.bounded
    split <;> omega
  constructor
  · intro h
    have hreq : (f.req + Reading.bounded v) % 2 ^ 64 = f.req := congrArg File.req h
    omega
  · intro h
    unfold Reading.grant
    rw [h, Nat.add_zero, Nat.mod_eq_of_lt hr]

/-- A grant shows in the counters that an error leaves. -/
theorem granted_not_refused {ready : Option Nat} (hp : f.pos < 2 ^ 64) (hl : r.buf.length ≤ r.len) (hg : g.req ≠ f.req) :
    ¬ Call.Refused g (Reading.rest polls ((r.takeData f ⟨0, 0⟩ ready data).1.call f) (r.takeData f ⟨0, 0⟩ ready data).2) := by
  rintro ⟨ret, hret, hr⟩
  cases ready with
  | none => exact hg (rest_error (r := { r with recvd := false }) hp hl hret (rest_loop hret hr)).1
  | some n =>
    obtain ⟨k, r', hk, -, htake, hlen, hbuf⟩ := takeData_some (f := f) hl n data ⟨0, 0⟩
    rw [htake] at hr
    exact hg (rest_error (f := f.advance k) (Nat.mod_lt _ (by decide)) (by omega) hret (rest_loop hret hr)).1

theorem not_refused_done (buf : List Handed) : ¬ Call.Refused f (.returns buf.length g) := by
  rintro ⟨ret, hret, h⟩
  have := (Call.returns.inj h).1
  omega

theorem refused_failed_iff : Call.Refused f (.returns (-1) g) ↔ g = f :=
  ⟨fun ⟨_, _, h⟩ => (Call.returns.inj h).2, fun h => ⟨-1, by decide, congrArg _ h⟩⟩

/-- Nothing comes in the round of the reply. -/
theorem refused_quiet_iff (hp : f.pos < 2 ^ 64) (hlen : r.len < 2 ^ 64) :
    Call.Refused f (Reading.rest polls ((Reading.loop f { r with req := false, recvd := false }).call g) data) ↔
      r.buf = [] ∧ Dry r.len data polls := by
  rw [loop_call]
  by_cases hbuf : r.buf = []
  · rw [if_pos (.inl hbuf)]
    exact (refused_rest_iff (r := { r with req := false, recvd := false }) hp hlen hbuf rfl).trans (and_iff_right hbuf).symm
  · rw [if_neg (by simp [hbuf]), rest_returns]
    exact iff_of_false (not_refused_done r.buf) fun h => hbuf h.1

/-- A call that goes on with no more than it had asked for before. -/
theorem refused_starved_iff (hp : f.pos < 2 ^ 64) (hl : r.buf.length ≤ r.len) (hlen : r.len < 2 ^ 64) (ready : Option Nat) :
    Call.Refused f (Reading.rest polls ((({ r with req := false } : Reading).takeData f ⟨0, 0⟩ ready data).1.call f)
        (({ r with req := false } : Reading).takeData f ⟨0, 0⟩ ready data).2) ↔ Starved r data (.ready ready) polls := by
  cases ready with
  | none =>
    have hnone : ({ r with req := false } : Reading).takeData f ⟨0, 0⟩ none data =
        (Reading.loop f { r with req := false, recvd := false }, data) := rfl
    rw [hnone]
    refine (refused_quiet_iff (g := f) hp hlen).trans ?_
    simp [Starved]
  | some n =>
    by_cases hn : data.take (min n (r.len - r.buf.length)) = []
    · rw [Reading.takeData_nothing (r := { r with req := false }) hp hl hn]
      refine (refused_quiet_iff (g := f) hp hlen).trans (and_congr_right fun hbuf => ?_)
      rw [hbuf, List.length_nil, Nat.sub_zero] at hn
      exact (and_iff_right hn).symm
    · refine iff_of_false (moved_not_refused (r := { r with req := false }) hl hlen hn) ?_
      rintro ⟨hbuf, hn', -⟩
      rw [hbuf, List.length_nil, Nat.sub_zero] at hn
      exact hn hn'

/-- How the number in the reply decides what the round does. -/
theorem round_granted (v : Int) (ready : Option Nat) : r.round f ⟨0, 0⟩ (some v) ready data =
    if (Reading.grant f v).req < f.pos then (.failed (-1), data)
    else if f.pos = (Reading.grant f v).req then (.returned (Reading.grant f v).grow r.buf, data)
    else { r with req := false }.takeData (Reading.grant f v) ⟨0, 0⟩ ready data := by
  unfold Reading.round
  rw [if_neg (by simp)]
  rfl

theorem refused_read_iff (hp : f.pos < 2 ^ 64) (hr : f.req < 2 ^ 64) (hl : r.buf.length ≤ r.len) (hlen : r.len < 2 ^ 64)
    (v : Int) : Call.Refused f (Reading.rest polls (r.answered f v poll data).1 (r.answered f v poll data).2) ↔
      Reading.bounded v = 0 ∧ (f.req < f.pos ∨ f.pos < f.req ∧ Starved r data poll polls) := by
  by_cases hb : Reading.bounded v = 0
  · have hg := (grant_eq_iff hr).mpr hb
    rw [and_iff_right hb]
    cases poll with
    | fails =>
      unfold Reading.answered
      dsimp only
      rw [hg]
      by_cases heq : f.pos = f.req
      · rw [if_pos heq, rest_returns]
        exact iff_of_false (not_refused_done r.buf) (by omega)
      · rw [if_neg heq, rest_returns]
        exact iff_of_true (refused_failed_iff.mpr rfl) ((lt_or_gt_of_ne heq).symm.imp_right fun h => ⟨h, trivial⟩)
    | ready n =>
      unfold Reading.answered
      dsimp only
      rw [round_granted, hg]
      by_cases hlt : f.req < f.pos
      · rw [if_pos hlt, Round.call, rest_returns]
        exact iff_of_true (refused_failed_iff.mpr rfl) (.inl hlt)
      · rw [if_neg hlt]
        by_cases heq : f.pos = f.req
        · rw [if_pos heq, Round.call, rest_returns]
          exact iff_of_false (not_refused_done r.buf) (by omega)
        · have hgoes : f.pos < f.req := by omega
          rw [if_neg heq, or_iff_right hlt, and_iff_right hgoes]
          exact refused_starved_iff hp hl hlen n
  · have hg := mt (grant_eq_iff hr).mp hb
    rw [iff_false_right fun h => hb h.1]
    cases poll with
    | fails =>
      unfold Reading.answered
      dsimp only
      split
      · rw [rest_returns]
        exact not_refused_done r.buf
      · rw [rest_returns]
        exact mt refused_failed_iff.mp hg
    | ready n =>
      unfold Reading.answered
      dsimp only
      rw [round_granted]
      split
      · rw [Round.call, rest_returns]
        exact mt refused_failed_iff.mp hg
      · split
        · rw [Round.call, rest_returns]
          exact not_refused_done r.buf
        · refine granted_not_refused (r := { r with req := false }) hp hl fun h => hg ?_
          cases f
          exact congrArg _ h.symm

end Read

namespace Asked
variable {call : Asked} {conn : Conn} {field payload next : List UInt8}

theorem refused_iff (hv : call.Valid) (hr : conn.Ready) (hempty : conn.len ≤ conn.pos) (hw : WellFormed field payload)
    (hbytes : conn.pieces.flatten = field ++ (payload ++ next)) :
    (call.run conn).Refused call.file ↔ call.Spared payload := by
  obtain ⟨hlen, hat, -⟩ := rcvLength_at hr hempty hw hbytes
  cases call with
  | requestBlock f old =>
    unfold run File.requestBlock
    dsimp only
    rw [hlen, if_neg (by omega)]
    exact iff_of_false (not_refused_requestBlock f _) id
  | seek f offset whence =>
    unfold run File.seekReply
    dsimp only
    rw [hlen, if_neg (by omega)]
    exact refused_seek_iff hv offset whence
  | read f r old poll polls data =>
    obtain ⟨hp, hreq, hl, hlen'⟩ := hv
    unfold run Reading.reply
    dsimp only
    rw [hlen, if_neg (by omega), hat.rcvNewInt64_number f.version old true]
    exact refused_read_iff hp hreq hl hlen' _

end Asked

/-- A malformed reply is refused only by chance. -/
theorem malformed_refused_iff (call : Asked) (hv : call.Valid) (conn : Conn) (field payload next : List UInt8)
    (hr : conn.Ready) (hempty : conn.len ≤ conn.pos) (hw : WellFormed field payload)
    (hbytes : conn.pieces.flatten = field ++ (payload ++ next)) :
    call.Refuses conn payload ↔ IsNumber call.limit (firstToken payload) ∨ call.Spared payload := by
  unfold Asked.Refuses
  rw [Asked.refused_iff hv hr hempty hw hbytes, or_iff_not_imp_left]

/-- The byte `x` as the reply to a block request, when more has been received than has been granted and `len64` is 0. -/
theorem malformed_refused_read :
    let conn : Conn := ⟨3, some fun _ => 0, 16, 0, 0, [[0x31, 0x20, 0x20, 0x20, 0x20, 0x20, 0x20, 0x20, 0x78]], 0⟩
    let call : Asked := .read ⟨66, 100, 1, 0⟩ ⟨[⟨0, 7, ⟨0, 0⟩, ⟨0, 0⟩⟩], 10, true, true⟩ 0 (.ready none) [] []
    call.Refuses conn [0x78] ↔ IsNumber call.limit (firstToken [0x78]) ∨ call.Spared [0x78] :=
  malformed_refused_iff (.read ⟨66, 100, 1, 0⟩ ⟨[⟨0, 7, ⟨0, 0⟩, ⟨0, 0⟩⟩], 10, true, true⟩ 0 (.ready none) [] []) ⟨by decide, by decide, by decide, by decide⟩ _
    [0x31, 0x20, 0x20, 0x20, 0x20, 0x20, 0x20, 0x20] [0x78] [] ⟨by decide, by simp, by decide, by decide⟩ (by decide)
    ⟨rfl, by decide⟩ rfl

/-- The same reply, in front of which nothing is outstanding: a block of the 5 bytes that were in `c` counts as requested,
a seek to 7 succeeds, and a read for which 0 was in `len64` returns without any bytes as if it had succeeded. -/
theorem malformed_reply_accepted :
    let conn : Conn := ⟨3, some fun _ => 0, 16, 0, 0, [[0x31, 0x20, 0x20, 0x20, 0x20, 0x20, 0x20, 0x20, 0x78]], 0⟩
    let f : File := ⟨66, 100, 0, 0⟩
    ¬ Asked.Refuses (.requestBlock f 5) conn [0x78] ∧ ¬ Asked.Refuses (.seek f 7 .set) conn [0x78] ∧
      ¬ Asked.Refuses (.read f ⟨[], 1, true, false⟩ 0 (.ready none) [] []) conn [0x78] := by
  intro conn f
  have hnot (limit : Nat) : ¬ IsNumber limit (firstToken [0x78]) := fun h => absurd h.2.1 (by decide)
  have hw : WellFormed [0x31, 0x20, 0x20, 0x20, 0x20, 0x20, 0x20, 0x20] [0x78] := ⟨rfl, by decide⟩
  have hiff (call : Asked) (hv : call.Valid) : (call.run conn).Refused call.file ↔ call.Spared [0x78] :=
    Asked.refused_iff hv ⟨by decide, by simp [conn], by decide, by decide⟩ (by decide) hw
      (show conn.pieces.flatten = [0x31, 0x20, 0x20, 0x20, 0x20, 0x20, 0x20, 0x20] ++ ([0x78] ++ []) from rfl)
  refine ⟨fun h => ?_, fun h => ?_, fun h => ?_⟩
  · exact (hiff (.requestBlock f 5) trivial).mp (h (hnot _))
  · obtain ⟨htarget, -⟩ := (hiff (.seek f 7 .set) (show 0 < 2 ^ 64 by decide)).mp (h (hnot _))
    exact absurd htarget (by decide)
  · obtain ⟨-, hlt | ⟨hlt, -⟩⟩ := (hiff (.read f ⟨[], 1, true, false⟩ 0 (.ready none) [] [])
      ⟨by decide, by decide, by decide, by decide⟩).mp (h (hnot _))
    · exact absurd hlt (lt_irrefl 0)
    · exact absurd hlt (lt_irrefl 0)

end Transfer
end Mvpmc.Cmyth
