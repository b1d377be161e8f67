import Mvpmc.Cmyth.EventGet

/-! The event connection stays in step with its messages. -/
namespace Mvpmc.Cmyth

/-- So many bytes have been taken from the front of what was left of a message. -/
structure Consumes (payload next : List UInt8) (consumed : Nat) (conn : Conn) : Prop where
  le : consumed ≤ payload.length
  rest : At conn (payload.drop consumed) next

section Taking
variable {conn : Conn} {payload next : List UInt8}

theorem At.took_none (h : At conn payload next) : Consumes payload next 0 conn := ⟨Nat.zero_le _, by rwa [List.drop_zero]⟩

theorem Consumes.count {consumed : Nat} (h : Consumes payload next consumed conn) :
    (payload.length : Int) - consumed = (payload.drop consumed).length := by
  have hle := h.le
  rw [List.length_drop]
  omega

theorem Consumes.trans {consumed taken : Nat} {conn' : Conn} (h : Consumes payload next consumed conn)
    (h' : Consumes (payload.drop consumed) next taken conn') : Consumes payload next (consumed + taken) conn' := by
  have hle := h.le
  have hle' := h'.le
  have hrest := h'.rest
  rw [List.length_drop] at hle'
  rw [List.drop_drop] at hrest
  exact ⟨by omega, hrest⟩

theorem At.took_string (h : At conn payload next) (err : Int) (buflen : Nat) :
    Consumes payload next (Cmyth.rcvString conn err buflen payload.length).1.consumed
      (Cmyth.rcvString conn err buflen payload.length).2 := by
  obtain ⟨htoken, hat⟩ := h.rcvString err buflen
  have hcons := congrArg Prod.snd htoken
  dsimp only at hcons
  rw [hcons]
  exact ⟨receive_le buflen payload, hat⟩

theorem At.took_ulong (h : At conn payload next) :
    Consumes payload next (Cmyth.rcvUlong conn payload.length).1.consumed (Cmyth.rcvUlong conn payload.length).2 := by
  have hs := h.took_string 0 32
  unfold Cmyth.rcvUlong
  split
  · exact h.took_none
  · dsimp only
    split
    · exact hs
    · split
      · exact hs
      · exact hs

theorem At.took_long (h : At conn payload next) (old : Int) :
    Consumes payload next (Cmyth.rcvLong conn old payload.length).1.consumed (Cmyth.rcvLong conn old payload.length).2 := by
  have hs := h.took_string 0 32
  unfold Cmyth.rcvLong
  split
  · exact h.took_none
  · dsimp only
    split
    · exact hs
    · split
      · exact hs
      · exact hs

theorem At.took_ushort (h : At conn payload next) :
    Consumes payload next (rcvUshort conn payload.length).1.consumed (rcvUshort conn payload.length).2 := by
  have hu := h.took_ulong
  unfold rcvUshort
  split
  · exact h.took_none
  · dsimp only
    split
    · exact hu
    · split
      · exact hu
      · exact hu

/-- Two numbers, one behind the other. -/
theorem At.took_old_int64 (h : At conn payload next) (old : Int) :
    Consumes payload next (rcvOldInt64 conn old payload.length).1.consumed (rcvOldInt64 conn old payload.length).2 := by
  have hhi := h.took_long 0
  have hlo := hhi.trans (hhi.rest.took_long 0)
  unfold rcvOldInt64
  split
  · exact h.took_none
  · dsimp only
    rw [hhi.count]
    split
    · exact hhi
    · split
      · exact hlo
      · exact hlo

theorem At.took_new_int64 (h : At conn payload next) (version : Nat) (old : Int) (forced : Bool) :
    Consumes payload next (rcvNewInt64 version conn old payload.length forced).1.consumed
      (rcvNewInt64 version conn old payload.length forced).2 := by
  have hs := h.took_string 0 32
  unfold rcvNewInt64
  split
  · exact h.took_old_int64 old
  · split
    · exact h.took_none
    · dsimp only
      split
      · exact hs
      · split
        · exact hs
        · exact hs

theorem At.took_timestamp (h : At conn payload next) (ts : Option Timestamp) :
    Consumes payload next (rcvTimestamp conn ts payload.length).1.consumed (rcvTimestamp conn ts payload.length).2 := by
  have hs := h.took_string 0 19
  unfold rcvTimestamp
  split
  · exact h.took_none
  · dsimp only
    split
    · exact hs
    · split
      · exact hs
      · exact hs

theorem At.took_datetime (h : At conn payload next) (libc : Libc) (ts : Option Timestamp) :
    Consumes payload next (rcvDatetime libc conn ts payload.length).1.consumed (rcvDatetime libc conn ts payload.length).2 := by
  have hs := h.took_string 0 11
  unfold rcvDatetime
  split
  · exact h.took_none
  · dsimp only
    split
    · exact hs
    · exact hs

open Proginfo

theorem At.took_slot (h : At conn payload next) (libc : Libc) (slot : Slot) (err : Int) (p : Proginfo) :
    Consumes payload next (slot.rcv libc conn err p payload.length).1.consumed (slot.rcv libc conn err p payload.length).2 := by
  cases slot with
  | string f => exact h.took_string err 32767
  | chanId => exact h.took_string err 32767
  | icon => exact h.took_string err 32767
  | stars => exact h.took_string err 32767
  | ulong f => exact h.took_ulong
  | long f => exact h.took_long _
  | ushort f => exact h.took_ushort
  | length => exact h.took_new_int64 _ _ _
  | datetime f => exact h.took_datetime libc _
  | timestamp f => exact h.took_timestamp _

theorem At.took_slots (h : At conn payload next) (libc : Libc) (slots : List Slot) (err : Int) (p : Proginfo) :
    Consumes payload next (rcvSlots libc slots conn err p payload.length).1.consumed
      (rcvSlots libc slots conn err p payload.length).2 := by
  induction slots generalizing conn payload err p with
  | nil => exact h.took_none
  | cons slot slots ih =>
    have hslot := h.took_slot libc slot err p
    unfold rcvSlots
    dsimp only
    split
    · exact hslot
    · rw [hslot.count]
      exact hslot.trans (ih hslot.rest _ _)

/-- Program information, whether it is received whole or not, is counted right. -/
theorem At.took_proginfo (h : At conn payload next) (libc : Libc) (version : Nat) (err : Int) (p : Proginfo) :
    Consumes payload next (rcvProginfo libc version conn err p payload.length).1.consumed
      (rcvProginfo libc version conn err p payload.length).2 := by
  unfold rcvProginfo
  split
  · exact h.took_none
  · exact h.took_slots libc _ _ _

end Taking

/-! ### The string in `tmp` -/

section Strings
variable {conn : Conn} {payload next : List UInt8}

theorem cstring_zero (bytes rest : List UInt8) : cstring (bytes ++ 0 :: rest) = cstring bytes := by
  unfold cstring
  induction bytes with
  | nil => rfl
  | cons b bytes ih =>
    by_cases hb : b = 0
    · subst hb
      rfl
    · rw [List.cons_append, List.takeWhile_cons_of_pos (by simpa using hb), List.takeWhile_cons_of_pos (by simpa using hb), ih]

theorem stringAt_write {r : Received} {k : Nat} (hz : r.zero = some k) (hk : k < 1024) (hbuf : k ≤ r.buf.length) (tmp : Tmp) :
    stringAt (r.write tmp) 0 = cstring (r.buf.take k) := by
  obtain ⟨m, hm⟩ : ∃ m, 1024 = k + 1 + m := ⟨1023 - k, by omega⟩
  have hzero : r.write tmp k = 0 := if_pos hz
  have hplaced : (List.range k).map (r.write tmp) = r.buf.take k := by
    refine List.ext_getElem (by rw [List.length_map, List.length_range, List.length_take_of_le hbuf]) fun i hi hi' => ?_
    have hik : i < k := by simpa using hi
    have hne : r.zero ≠ some i := fun he => absurd (Option.some.inj (hz.symm.trans he)) (by omega)
    rw [List.getElem_map, List.getElem_range, List.getElem_take]
    unfold Received.write
    rw [if_neg hne, List.getElem?_eq_getElem (by omega)]
    rfl
  have hsplit : (List.range 1024).map (r.write tmp) =
      r.buf.take k ++ 0 :: (List.range m).map (fun i => r.write tmp (k + 1 + i)) := by
    rw [hm, List.range_add, List.range_succ, List.map_append, List.map_append, hplaced, List.map_singleton, hzero,
      List.append_assoc, List.map_map]
    rfl
  unfold stringAt
  simp only [Nat.zero_add, Nat.sub_zero]
  rw [hsplit, cstring_zero]

namespace Scan

/-- A match starts at a byte that has been placed. -/
theorem byte_sepStart (buflen : Nat) {s : Scan} (hs : ∀ j, s.sepStart = some j → j ≤ s.placed.length) (b : UInt8) :
    ∀ j, (s.byte buflen b).sepStart = some j → j ≤ (s.byte buflen b).placed.length := by
  intro j hj
  have hgrow := (byte_placed buflen s b).length_le
  unfold byte at hj
  dsimp only at hj
  split_ifs at hj with h₁ h₂
  · exact (Option.some.inj hj).symm.le.trans hgrow
  · exact (hs j hj).trans hgrow

theorem run_sepStart (buflen : Nat) (bytes : List UInt8) {s : Scan} (hs : ∀ j, s.sepStart = some j → j ≤ s.placed.length) :
    ∀ j, (run buflen bytes s).1.sepStart = some j → j ≤ (run buflen bytes s).1.placed.length := by
  induction bytes generalizing s with
  | nil => exact hs
  | cons b bytes ih =>
    unfold run
    split
    · exact byte_sepStart buflen hs b
    · exact ih (byte_sepStart buflen hs b)

theorem zero_le (buflen : Nat) (bytes : List UInt8) {k : Nat} (hk : zero buflen (run buflen bytes {}) = some k) :
    k ≤ (run buflen bytes {}).1.placed.length := by
  have hs := run_sepStart buflen bytes (s := {}) fun j hj => absurd hj (by simp)
  have hend : ∀ j, (run buflen bytes {}).1.atEnd buflen = some j → j ≤ (run buflen bytes {}).1.placed.length := by
    intro j hj
    unfold atEnd at hj
    split at hj
    · exact (Option.some.inj hj).symm.le
    · cases hj
  unfold zero at hk
  split at hk
  · unfold atSeparator at hk
    rcases Option.or_eq_some_iff.mp hk with hsep | ⟨-, hj⟩
    · exact hs k hsep
    · exact hend k hj
  · exact hend k hk

theorem zero_none {buflen : Nat} {bytes : List UInt8} (hz : zero buflen (run buflen bytes {}) = none) :
    buflen ≤ (run buflen bytes {}).1.placed.length := by
  have hend : (run buflen bytes {}).1.atEnd buflen = none := by
    unfold zero at hz
    split at hz
    · exact (Option.or_eq_none_iff.mp hz).2
    · exact hz
  unfold atEnd at hend
  split at hend
  · cases hend
  · omega

end Scan

/-- The string received is in `tmp`, if it is shorter than `tmp`. -/
theorem At.stringAt_tmp (h : At conn payload next) (err : Int) (tmp : Tmp) (hl : (receive 1023 payload).1.length < 1023) :
    stringAt ((Cmyth.rcvString conn err 1023 payload.length).1.write tmp) 0 = cstring (receive 1023 payload).1 := by
  have hfd : ¬ (conn.fd < 0 ∨ conn.buf = none) := by
    rintro (hfd | hbuf)
    · exact absurd h.ready.fd (not_le.mpr hfd)
    · exact h.ready.buf hbuf
  have hlen : payload.length ≤ conn.stream.length := by rw [h.bytes, List.length_append]; omega
  have htake : conn.stream.take payload.length = payload := by rw [h.bytes, List.take_left]
  obtain ⟨hscan, hzero, -⟩ := rcvLoop_stream 1023 payload.length { conn := conn, err := err } h.ready h.buffered hlen
  rw [htake] at hscan hzero
  have hr : (Cmyth.rcvString conn err 1023 payload.length).1.buf = (Scan.run 1023 payload {}).1.placed ∧
      (Cmyth.rcvString conn err 1023 payload.length).1.zero = Scan.zero 1023 (Scan.run 1023 payload {}) := by
    unfold Cmyth.rcvString
    rw [if_neg (by omega), if_neg hfd, Int.toNat_natCast]
    exact ⟨congrArg Scan.placed hscan, hzero⟩
  obtain ⟨hbuf, hz⟩ := hr
  unfold receive Received.token at hl ⊢
  dsimp only at hl ⊢
  cases hk : Scan.zero 1023 (Scan.run 1023 payload {}) with
  | none =>
    rw [hk] at hl
    exact absurd (Scan.zero_none hk) (not_le.mpr hl)
  | some k =>
    have hle := Scan.zero_le 1023 payload hk
    rw [hk] at hl
    dsimp only at hl ⊢
    rw [List.length_take_of_le hle] at hl
    rw [stringAt_write (hz.trans hk) (by omega) (by rw [hbuf]; exact hle), hbuf]

theorem receive_pos (buflen : Nat) (hne : payload ≠ []) : 0 < (receive buflen payload).2 := by
  obtain ⟨rest, hcut⟩ := exists_cut [] 0 payload .nil (by decide)
  rw [List.nil_append, List.take_zero, List.nil_append] at hcut
  cases rest with
  | none =>
    rw [receive_whole buflen hcut]
    exact List.length_pos_of_ne_nil hne
  | some rest =>
    have hsum := (receive_found buflen hcut).2
    have hlt : rest.length < payload.length := by
      cases hcut
      rw [List.length_append, List.length_append]
      exact (Nat.lt_add_of_pos_left (show 0 < separator.length by decide)).trans_le (Nat.le_add_left _ _)
    omega

/-- The first of some tokens is received, and the others are left. -/
theorem receive_tokens {tokens : List (List UInt8)} (hvalid : ∀ token ∈ tokens, ¬ separator <:+: token ∧ token.length < 1023)
    (hclean : ∀ token ∈ tokens.dropLast.take 1, Clean token) :
    (receive 1023 (separator.intercalate tokens)).1 = tokens.headD [] ∧
      (separator.intercalate tokens).drop (receive 1023 (separator.intercalate tokens)).2 =
        separator.intercalate tokens.tail := by
  match tokens with
  | [] => exact ⟨rfl, rfl⟩
  | [token] =>
    obtain ⟨hsep, hlen⟩ := hvalid token List.mem_cons_self
    have hone : separator.intercalate [token] = token := List.append_nil token
    rw [hone, receive_last hsep hlen, List.drop_length]
    exact ⟨rfl, rfl⟩
  | token :: token' :: tokens =>
    obtain ⟨hsep, hlen⟩ := hvalid token List.mem_cons_self
    have hc : Clean token := hclean token List.mem_cons_self
    rw [intercalate_cons, receive_clean hsep hlen hc.stateAfter]
    refine ⟨rfl, ?_⟩
    have hl : (token ++ separator).length = token.length + 5 := List.length_append
    rw [← List.append_assoc, ← hl, List.drop_left]
    rfl

end Strings

/-! ### One message -/

/-- So much of a message is left, and it is counted. -/
structure Getting.On (g : Getting) (payload next : List UInt8) : Prop where
  conn : At g.conn payload next
  count : g.count = payload.length

namespace Getting
variable {g : Getting} {payload others : List UInt8}

theorem On.rcv (h : g.On payload others) : At g.rcv.2.conn (payload.drop (receive 1023 payload).2) others := by
  unfold Getting.rcv
  rw [h.count]
  exact (h.conn.rcvString g.err 1023).2

theorem On.next (h : g.On payload others) : g.next.On (payload.drop (receive 1023 payload).2) others := by
  refine ⟨h.rcv, ?_⟩
  have htoken := (h.conn.rcvString g.err 1023).1
  have hcons := congrArg Prod.snd htoken
  have hle := receive_le 1023 payload
  dsimp only at hcons
  unfold Getting.next Getting.rcv
  dsimp only
  rw [h.count, hcons, List.length_drop]
  omega

theorem On.next_tmp (h : g.On payload others) (hl : (receive 1023 payload).1.length < 1023) :
    stringAt g.next.tmp 0 = cstring (receive 1023 payload).1 := by
  unfold Getting.next Getting.rcv
  rw [h.count]
  exact h.conn.stringAt_tmp g.err g.tmp hl

theorem On.proginfo (h : g.On payload others) (libc : Libc) (version : Nat) : ∃ rest, (g.proginfo libc version).On rest others := by
  have hp := h.conn.took_proginfo libc version g.err Proginfo.create
  refine ⟨payload.drop (rcvProginfo libc version g.conn g.err Proginfo.create payload.length).1.consumed, ?_, ?_⟩
  · unfold Getting.proginfo
    rw [h.count]
    exact hp.rest
  · unfold Getting.proginfo
    rw [h.count]
    exact hp.count

/-- A loop whose rounds each take something of the message takes all of it. -/
theorem whileCount_ends {round : Getting → Getting}
    (hround : ∀ g payload, g.On payload others → payload ≠ [] → ∃ rest : List UInt8, rest.length < payload.length ∧ (round g).On rest others)
    {n : Nat} (h : g.On payload others) (hn : payload.length ≤ n) :
    ∃ g', whileCount round n g = some g' ∧ g'.On [] others := by
  induction n generalizing g payload with
  | zero =>
    obtain rfl := List.length_eq_zero_iff.mp (Nat.le_zero.mp hn)
    refine ⟨g, if_neg ?_, h⟩
    rw [h.count]
    exact lt_irrefl _
  | succ n ih =>
    unfold whileCount
    by_cases hnil : payload = []
    · subst hnil
      refine ⟨g, if_neg ?_, h⟩
      rw [h.count]
      exact lt_irrefl _
    · obtain ⟨rest, hlt, hrest⟩ := hround g payload h hnil
      have hpos := List.length_pos_of_ne_nil hnil
      rw [if_pos (by rw [h.count]; omega)]
      exact ih hrest (by omega)

theorem next_shorter (h : g.On payload others) (hne : payload ≠ []) :
    ∃ rest : List UInt8, rest.length < payload.length ∧ g.next.On rest others := by
  have hpos := receive_pos 1023 hne
  have hle := receive_le 1023 payload
  exact ⟨_, by rw [List.length_drop]; omega, h.next⟩

theorem On.leftover (h : g.On payload others) : ∃ g', g.leftover = some g' ∧ g'.On [] others :=
  whileCount_ends (fun _ _ h hne => next_shorter h hne) h (by rw [h.count, Int.toNat_natCast])

/-- The loop of `SIGNAL`, which reads two strings at a time. -/
theorem On.signal (h : g.On payload others) : ∃ g', whileCount (fun g => g.next.next) g.count.toNat g = some g' ∧ g'.On [] others := by
  refine whileCount_ends (fun g payload h hne => ?_) h (by rw [h.count, Int.toNat_natCast])
  obtain ⟨rest, hlt, hrest⟩ := next_shorter h hne
  exact ⟨_, lt_of_le_of_lt (by rw [List.length_drop]; omega) hlt, hrest.next⟩

/-- Every branch keeps the count of what is left, but for that of `GENERATED_PIXMAP`, for which nothing may be. -/
theorem On.body (h : g.On payload others) (libc : Libc) (version : Nat) (env : Env) (event : Event)
    (hcreated : event.hasProginfo version = true → env.created = true) (hpixmap : event = .generatedPixmap → payload = []) :
    ∃ data g' rest, event.body libc version env g = some (some (data, g')) ∧ g'.On rest others := by
  have hother : ∀ event : Event, (event.hasProginfo version = true → env.created = true) →
      ∃ data g' rest, (if event.hasProginfo version then
          some (if env.created then some (none, g.proginfo libc version) else none)
        else if event = .askRecording then some (some (none, g.next.next.next.next))
        else some (some (event.dataAt.map fun k => strncpy (stringAt g.tmp k) env.len, g))) =
          some (some (data, g')) ∧ g'.On rest others := by
    intro event hcreated
    by_cases hp : event.hasProginfo version = true
    · obtain ⟨rest, hrest⟩ := h.proginfo libc version
      rw [if_pos hp, if_pos (hcreated hp)]
      exact ⟨none, _, rest, rfl, hrest⟩
    · rw [if_neg hp]
      split
      · exact ⟨none, _, _, rfl, h.next.next.next.next⟩
      · exact ⟨_, g, payload, rfl, h⟩
  cases event with
  | signal =>
    obtain ⟨g', hloop, hg⟩ := h.signal
    unfold Event.body
    rw [hloop]
    exact ⟨none, g', [], rfl, hg⟩
  | generatedPixmap =>
    obtain rfl := hpixmap rfl
    have hstay : ∀ {g : Getting}, g.On [] others → g.rcv.2.On [] others := by
      intro g hg
      have hrcv := hg.rcv
      rw [List.drop_nil] at hrcv
      exact ⟨hrcv, hg.count⟩
    unfold Event.body
    dsimp only
    split
    · exact ⟨_, _, [], rfl, hstay (hstay h)⟩
    · exact ⟨_, _, [], rfl, hstay h⟩
  | _ => exact hother _ hcreated

end Getting

/-- A message of the backend: its length field and its tokens. -/
structure Message where
  field : List UInt8
  tokens : List (List UInt8)
  deriving DecidableEq, Repr

namespace Message

/-- What stands behind the first `n` tokens. -/
def behind (m : Message) (n : Nat) : List UInt8 := separator.intercalate (m.tokens.drop n)

/-- The message as it is sent. -/
def bytes (m : Message) : List UInt8 := m.field ++ m.behind 0

/-- The string that is the `n`th token. -/
def string (m : Message) (n : Nat) : List UInt8 := cstring ((m.tokens.drop n).headD [])

/-- The event that the message is about. One without a payload ends the connection, and one that is no message of a
backend is about nothing known. -/
def event (m : Message) : Event :=
  if m.behind 0 = [] then .close
  else if m.string 0 ≠ ascii "BACKEND_MESSAGE" then .unknown
  else .ofToken (m.string 1)

/-- The length field is that of the tokens, and none of them has a separator in it or 1023 bytes. -/
structure Valid (m : Message) : Prop where
  framed : WellFormed m.field (m.behind 0)
  tokens : ∀ token ∈ m.tokens, ¬ separator <:+: token ∧ token.length < 1023

/-- When `cmyth_event_get` reads the message, and no more than it. -/
structure Kept (version : Nat) (env : Env) (m : Message) : Prop where
  /-- The first two tokens are found, if another follows. -/
  clean : ∀ token ∈ m.tokens.dropLast.take 2, Clean token
  /-- The branch to `fail` has nothing more to read. -/
  first : m.string 0 = ascii "BACKEND_MESSAGE" ∨ m.behind 1 = []
  /-- Nor has the branch that does not count what it reads. -/
  pixmap : m.event = .generatedPixmap → m.behind 2 = []
  created : m.event.hasProginfo version = true → env.created = true

end Message

namespace Message
variable {m : Message} {g : Getting} {others : List UInt8}

/-- Reading a token that is found: what `tmp` holds then, and what is left. -/
theorem Valid.read (hm : m.Valid) {n : Nat} (hclean : ∀ token ∈ (m.tokens.drop n).dropLast.take 1, Clean token)
    (hg : g.On (m.behind n) others) : g.next.On (m.behind (n + 1)) others ∧ stringAt g.next.tmp 0 = m.string n := by
  have hvalid : ∀ token ∈ m.tokens.drop n, ¬ separator <:+: token ∧ token.length < 1023 :=
    fun token ht => hm.tokens token (List.mem_of_mem_drop ht)
  obtain ⟨hfirst, hrest⟩ := receive_tokens hvalid hclean
  have hshort : ((m.tokens.drop n).headD []).length < 1023 := by
    cases hd : m.tokens.drop n with
    | nil => exact (by decide : 0 < 1023)
    | cons token tokens => exact (hvalid token (hd ▸ List.mem_cons_self)).2
  have hon := hg.next
  have htmp := hg.next_tmp (by rw [Message.behind, hfirst]; exact hshort)
  unfold Message.behind at hon htmp
  rw [hrest, List.tail_drop] at hon
  rw [hfirst] at htmp
  exact ⟨hon, htmp⟩

end Message

/-- A message that meets the condition is read whole, and nothing behind it; the event is the one its second token
tells. -/
theorem eventGet_kept (libc : Libc) {version : Nat} {env : Env} {m : Message} {conn : Conn} {next : List UInt8}
    (hr : conn.Ready) (hempty : conn.len ≤ conn.pos) (hm : m.Valid) (hk : m.Kept version env)
    (hbytes : conn.pieces.flatten = m.bytes ++ next) :
    ∃ r conn', eventGet libc version env conn = some (r, conn') ∧ r.event = m.event ∧ conn'.Ready ∧ Emptied conn' next := by
  obtain ⟨hlen, hat, -⟩ := rcvLength_at hr hempty hm.framed (by rw [hbytes, Message.bytes, List.append_assoc])
  have hstart : Getting.On ⟨(rcvLength conn).2, env.err, (rcvLength conn).1, env.tmp⟩ (m.behind 0) next := ⟨hat, hlen⟩
  unfold eventGet
  dsimp only
  by_cases hnil : m.behind 0 = []
  · rw [hnil] at hat hlen
    rw [if_pos (by rw [hlen]; exact le_refl _)]
    exact ⟨_, _, rfl, (if_pos hnil).symm, hat.ready, hat.emptied_iff.mpr rfl⟩
  have hpos := List.length_pos_of_ne_nil hnil
  have hclean₀ : ∀ token ∈ (m.tokens.drop 0).dropLast.take 1, Clean token := by
    intro token ht
    exact hk.clean token (List.take_subset_take_left _ (by decide) ht)
  obtain ⟨hfirst, htmp⟩ := hm.read hclean₀ hstart
  rw [if_neg (by omega), htmp]
  by_cases hb : m.string 0 = ascii "BACKEND_MESSAGE"
  · have hclean₁ : ∀ token ∈ (m.tokens.drop 1).dropLast.take 1, Clean token := by
      intro token ht
      cases htokens : m.tokens with
      | nil =>
        rw [htokens] at ht
        exact absurd ht List.not_mem_nil
      | cons t tokens =>
        rw [htokens] at ht
        refine hk.clean token ?_
        rw [htokens]
        cases tokens with
        | nil => exact absurd ht List.not_mem_nil
        | cons t' tokens => exact List.mem_cons_of_mem t ht
    obtain ⟨hsecond, htmp'⟩ := hm.read hclean₁ hfirst
    have hevent : m.event = .ofToken (m.string 1) := by
      unfold Message.event
      rw [if_neg hnil, if_neg (not_not.mpr hb)]
    obtain ⟨data, g, rest, hbody, hg⟩ := hsecond.body libc version env m.event hk.created hk.pixmap
    obtain ⟨g', hleft, hg'⟩ := hg.leftover
    rw [if_neg (not_not.mpr hb), htmp', ← hevent, hbody, Option.bind_eq_bind, Option.bind_some]
    dsimp only
    rw [hleft]
    exact ⟨_, _, rfl, rfl, hg'.conn.ready, hg'.conn.emptied_iff.mpr rfl⟩
  · have hend := hk.first.resolve_left hb
    rw [hend] at hfirst
    rw [if_pos hb]
    refine ⟨_, _, rfl, ?_, hfirst.conn.ready, hfirst.conn.emptied_iff.mpr rfl⟩
    unfold Message.event
    rw [if_neg hnil, if_pos hb]

/-- Calls of `cmyth_event_get`, one behind the other. -/
def getEvents (libc : Libc) (version : Nat) : List Env → Conn → Option (List Event × Conn)
  | [], conn => some ([], conn)
  | env :: envs, conn => do
    let r ← eventGet libc version env conn
    let t ← getEvents libc version envs r.2
    return (r.1.event :: t.1, t.2)

/-- However the bytes arrive: as long as the messages meet the condition, each call takes exactly one of them from the
connection, and the event it returns is that of the message. -/
theorem events_in_step (libc : Libc) (version : Nat) (calls : List (Message × Env)) (conn : Conn) (next : List UInt8)
    (hr : conn.Ready) (hempty : conn.len ≤ conn.pos) (hm : ∀ c ∈ calls, c.1.Valid) (hk : ∀ c ∈ calls, c.1.Kept version c.2)
    (hbytes : conn.pieces.flatten = calls.flatMap (fun c => c.1.bytes) ++ next) :
    ∃ conn', getEvents libc version (calls.map Prod.snd) conn = some (calls.map fun c => c.1.event, conn') ∧
      Emptied conn' next := by
  induction calls generalizing conn with
  | nil => exact ⟨conn, rfl, hempty, hbytes⟩
  | cons c calls ih =>
    rw [List.flatMap_cons, List.append_assoc] at hbytes
    obtain ⟨r, conn', hget, hevent, hready, hempty', hrest⟩ :=
      eventGet_kept libc hr hempty (hm c List.mem_cons_self) (hk c List.mem_cons_self) hbytes
    obtain ⟨conn'', hgets, hend⟩ := ih conn' hready hempty' (fun c hc => hm c (List.mem_cons_of_mem _ hc))
      (fun c hc => hk c (List.mem_cons_of_mem _ hc)) hrest
    refine ⟨conn'', ?_, hend⟩
    simp only [List.map_cons, getEvents, hget, Option.bind_eq_bind, Option.bind_some, hgets, hevent]
    rfl

def scheduleChange : Message := ⟨ascii "35      ", [ascii "BACKEND_MESSAGE", ascii "SCHEDULE_CHANGE"]⟩

def generatedPixmap : Message := ⟨ascii "49      ", [ascii "BACKEND_MESSAGE", ascii "GENERATED_PIXMAP", ascii "OK", ascii "f"]⟩

/-- None of the messages below has a time in it. -/
def noTimes : Libc := ⟨fun _ => ⟨0, 0, 0, 0, 0, 0, 0⟩, id⟩

def zeros : Env := ⟨0, fun _ => 0, 256, true⟩

def eventConn (bytes : List UInt8) : Conn := ⟨5, some fun _ => 0, 4096, 0, 0, [bytes], 104⟩

theorem scheduleChange_valid : scheduleChange.Valid := ⟨⟨by decide, by decide⟩, by decide⟩

theorem scheduleChange_kept : scheduleChange.Kept 40 zeros where
  clean := by
    intro token ht
    obtain rfl : token = ascii "BACKEND_MESSAGE" := List.mem_singleton.mp ht
    exact (clean_iff _ (by decide)).mpr (by decide)
  first := .inl (by decide)
  pixmap := by decide
  created := fun _ => rfl

theorem events_in_step_twice : ∃ conn', getEvents noTimes 40 [zeros, zeros]
    (eventConn (scheduleChange.bytes ++ scheduleChange.bytes)) = some ([.scheduleChange, .scheduleChange], conn') ∧
      Emptied conn' [] :=
  events_in_step noTimes 40 [(scheduleChange, zeros), (scheduleChange, zeros)] _ []
    ⟨by decide, Option.some_ne_none _, by decide, by decide⟩ (le_refl 0)
    (List.forall_mem_cons.mpr ⟨scheduleChange_valid, List.forall_mem_singleton.mpr scheduleChange_valid⟩)
    (List.forall_mem_cons.mpr ⟨scheduleChange_kept, List.forall_mem_singleton.mpr scheduleChange_kept⟩) (by decide)

set_option maxRecDepth 4000 in
/-- The file of a pixmap is read and not counted: the loop at the end reads into the next message, which is then taken
for one that ends the connection. -/
theorem pixmap_overruns : generatedPixmap.Valid ∧ scheduleChange.Valid ∧
    [generatedPixmap, scheduleChange].map Message.event = [.generatedPixmap, .scheduleChange] ∧
      (getEvents noTimes 40 [zeros, zeros] (eventConn (generatedPixmap.bytes ++ scheduleChange.bytes))).map Prod.fst =
        some [.generatedPixmap, .close] :=
  ⟨⟨⟨by decide, by decide⟩, by decide⟩, scheduleChange_valid, by decide, by decide⟩

end Mvpmc.Cmyth
