import Mvpmc.Demux.Jit
import Mvpmc.Demux.Ring

/-! Just-in-time delivery of audio goes packet by packet: each is written whole or thrown away whole. -/
namespace Mvpmc.Demux
open Mvpmc.Lib Mvpmc.Lib.Circular

/-- A packet of audio: start code, stream, length of the payload, payload. -/
structure AudioPacket where
  id : UInt8
  payload : List UInt8
  fits : payload.length < 65536

namespace AudioPacket

def bytes (p : AudioPacket) : List UInt8 :=
  [0, 0, 1, p.id, UInt8.ofNat (p.payload.length / 256), UInt8.ofNat (p.payload.length % 256)] ++ p.payload

theorem bytes_length (p : AudioPacket) : p.bytes.length = p.payload.length + 6 := by
  simp [bytes]

/-- The two bytes of the length. -/
theorem length_bytes (p : AudioPacket) :
    (p.bytes.getD 4 0).toNat * 256 + (p.bytes.getD 5 0).toNat = p.payload.length := by
  have hf := p.fits
  have h4 : p.bytes.getD 4 0 = UInt8.ofNat (p.payload.length / 256) := rfl
  have h5 : p.bytes.getD 5 0 = UInt8.ofNat (p.payload.length % 256) := rfl
  rw [h4, h5, UInt8.toNat_ofNat', UInt8.toNat_ofNat']
  omega

end AudioPacket

def flat (ps : List AudioPacket) : List UInt8 := ps.flatMap AudioPacket.bytes

@[simp] theorem flat_nil : flat [] = [] := rfl

@[simp] theorem flat_cons (p : AudioPacket) (ps : List AudioPacket) : flat (p :: ps) = p.bytes ++ flat ps := rfl

@[simp] theorem flat_append (ps qs : List AudioPacket) : flat (ps ++ qs) = flat ps ++ flat qs := by
  simp [flat]

/-- A handle, with the bytes that have been in its audio ring, those written to the descriptor and those
thrown away. -/
structure JitState where
  h : Handle
  arrived : List UInt8
  sent : List UInt8 := []
  dropped : List UInt8 := []

section
variable (cast : Int → UInt32)

/-- Bytes arrive in the ring: whatever brings them leaves the ring in order, and without a seek it leaves the
bookkeeping of the writer alone. Or the writer is called, to keep audio in sync. -/
inductive JitStep (s : JitState) : JitState → Prop where
  | arrive (data : List UInt8) (h : Handle) : h.audio.Ok → h.audio.contents = s.h.audio.contents ++ data →
      h.jit = s.h.jit → JitStep s { s with h := h, arrived := s.arrived ++ data }
  | call (stc : UInt32) (mode : Nat) (first second : Option Nat) : mode = 2 ∨ mode = 3 →
      JitStep s { s with
        h := (demuxJitWriteAudio cast s.h stc mode first second).1
        sent := s.sent ++ (demuxJitWriteAudio cast s.h stc mode first second).2.sent
        dropped := s.dropped ++ (demuxJitWriteAudio cast s.h stc mode first second).2.dropped }

def JitSteps : JitState → JitState → Prop := Relation.ReflTransGen (JitStep cast)

end

/-- A cut of the packets: thrown away, written, in progress (so far and still to do), and not begun. -/
structure Cut where
  out : List AudioPacket
  written : List AudioPacket
  packet : Option AudioPacket := none
  done : List UInt8 := []
  todo : List UInt8 := []
  coming : List AudioPacket

/-- The cut shows where the delivery of `ps` stands. -/
structure Cut.Of (c : Cut) (ps : List AudioPacket) (s : JitState) : Prop where
  ok : s.h.audio.Ok
  arrived : s.arrived = s.dropped ++ s.sent ++ s.h.audio.contents
  packets : ps = c.out ++ c.written ++ c.packet.toList ++ c.coming
  bytes : flat c.packet.toList = c.done ++ c.todo
  inProgress : c.packet.isSome → c.todo ≠ []
  remain : s.h.jit.frameRemain = c.todo.length
  dropped : s.dropped = flat c.out ++ if s.h.jit.seekEndPts = 0 then [] else c.done
  sent : s.sent = flat c.written ++ if s.h.jit.seekEndPts = 0 then c.done else []
  seeking : s.h.jit.seekEndPts ≠ 0 → c.written = []

namespace Cut
variable {c : Cut} {ps : List AudioPacket} {s : JitState}

/-- The ring goes on where the delivery stands. -/
theorem Of.front (hc : c.Of ps s) (ha : s.arrived <+: flat ps) : s.h.audio.contents <+: c.todo ++ flat c.coming := by
  have hsplit : s.dropped ++ s.sent = flat c.out ++ flat c.written ++ c.done := by
    rw [hc.dropped, hc.sent]
    split
    · simp
    · rename_i hne
      rw [hc.seeking hne]
      simp
  rw [hc.arrived, hsplit, hc.packets, flat_append, flat_append, flat_append, hc.bytes, List.append_assoc _ _ (flat c.coming),
    List.append_assoc c.done, List.append_assoc _ c.done] at ha
  exact (List.prefix_append_right_inj _).mp ((List.prefix_append_right_inj _).mp ha)

/-- Without a packet in progress none of it is done. -/
theorem Of.idle (hc : c.Of ps s) (h0 : s.h.jit.frameRemain = 0) : c.packet = none ∧ c.done = [] ∧ c.todo = [] := by
  have htodo : c.todo = [] := by
    have := hc.remain
    exact List.length_eq_zero_iff.mp (by omega)
  have hnone : c.packet = none := by
    cases hp : c.packet with
    | none => rfl
    | some p => exact absurd htodo (hc.inProgress (by rw [hp]; rfl))
  have hb := hc.bytes
  rw [hnone, htodo, List.append_nil] at hb
  exact ⟨hnone, hb.symm, htodo⟩

/-- The cut after `n` more bytes of the packet in progress, which are thrown away or written. -/
def advance (c : Cut) (n : Nat) (seeking : Bool) : Cut :=
  if n < c.todo.length then { c with done := c.done ++ c.todo.take n, todo := c.todo.drop n }
  else
    { out := c.out ++ if seeking then c.packet.toList else []
      written := c.written ++ if seeking then [] else c.packet.toList
      coming := c.coming }

/-- The state after `n` more bytes of the packet in progress. -/
theorem Of.advance {h : Handle} {n : Nat} (hc : c.Of ps s) (hn : n ≤ c.todo.length) (hok : h.audio.Ok)
    (hcon : s.h.audio.contents = c.todo.take n ++ h.audio.contents) (hjit : h.jit =
      { s.h.jit with frameRemain := s.h.jit.frameRemain - n }) :
    (c.advance n (decide (s.h.jit.seekEndPts ≠ 0))).Of ps { s with
      h := h
      sent := s.sent ++ if s.h.jit.seekEndPts = 0 then c.todo.take n else []
      dropped := s.dropped ++ if s.h.jit.seekEndPts = 0 then [] else c.todo.take n } := by
  have hrem := hc.remain
  have hstays : h.jit.seekEndPts = s.h.jit.seekEndPts := by rw [hjit]
  have harr : s.arrived = (s.dropped ++ if s.h.jit.seekEndPts = 0 then [] else c.todo.take n) ++
      (s.sent ++ if s.h.jit.seekEndPts = 0 then c.todo.take n else []) ++ h.audio.contents := by
    rw [hc.arrived, hcon]
    split
    · simp
    · rename_i hne
      have hsent : s.sent = [] := by
        rw [hc.sent, hc.seeking hne, if_neg hne]
        rfl
      simp [hsent]
  unfold Cut.advance
  split
  · rename_i hlt
    refine ⟨hok, harr, hc.packets, ?_, ?_, ?_, ?_, ?_, ?_⟩
    · rw [List.append_assoc, List.take_append_drop]
      exact hc.bytes
    · intro _ hnil
      have := congrArg List.length hnil
      rw [List.length_drop, List.length_nil] at this
      omega
    · simp only [hjit, List.length_drop]
      omega
    · simp only [hstays, hc.dropped]
      split <;> simp
    · simp only [hstays, hc.sent]
      split <;> simp
    · simp only [hstays]
      exact hc.seeking
  · rename_i hge
    have hall : c.todo.take n = c.todo := List.take_of_length_le (by omega)
    have hb := hc.bytes
    rw [hall] at harr ⊢
    refine ⟨hok, harr, ?_, rfl, fun hs => absurd hs (by simp), ?_, ?_, ?_, ?_⟩
    · simp only [hc.packets]
      by_cases hs : s.h.jit.seekEndPts = 0
      · simp [hs]
      · simp [hs, hc.seeking hs]
    · simp only [hjit, List.length_nil]
      omega
    · simp only [hstays, hc.dropped]
      by_cases hs : s.h.jit.seekEndPts = 0
      · simp [hs]
      · simp [hs, hb]
    · simp only [hstays, hc.sent]
      by_cases hs : s.h.jit.seekEndPts = 0
      · simp [hs, hb]
      · simp [hs]
    · simp only [hstays]
      intro hs
      simp [hs, hc.seeking hs]

/-- The rest of the packet in progress is delivered as far as the ring and the descriptor go. -/
theorem Of.deliver (hc : c.Of ps s) (ha : s.arrived <+: flat ps) (first second : Option Nat) :
    (∃ c' : Cut, c'.Of ps { s with
      h := (jitDeliver s.h first second).1
      sent := s.sent ++ (jitDeliver s.h first second).2.sent
      dropped := s.dropped ++ (jitDeliver s.h first second).2.dropped }) ∧
    (jitDeliver s.h first second).1.jit.seekEndPts = s.h.jit.seekEndPts ∧
    (s.h.jit.seekEndPts = 0 → (jitDeliver s.h first second).2.dropped = []) := by
  have hrem := hc.remain
  have hfront := hc.front ha
  -- what is taken from the ring belongs to the packet in progress
  have htake (n : Nat) (hn : n ≤ c.todo.length) (hav : n ≤ s.h.audio.contents.length) :
      s.h.audio.contents.take n = c.todo.take n := by
    have he := List.prefix_iff_eq_take.mp ((List.take_prefix n s.h.audio.contents).trans hfront)
    rw [List.length_take, Nat.min_eq_left hav, List.take_append_of_le_length hn] at he
    exact he
  unfold jitDeliver
  split
  · split
    · rename_i hseek
      obtain ⟨hok, hcon, hout⟩ := Stream.drain_eq hc.ok s.h.jit.frameRemain
      have hto : s.h.jit.frameRemain.toNat = c.todo.length := by omega
      rw [hto] at hcon hout
      have hn : (s.h.audio.contents.take c.todo.length).length ≤ c.todo.length := by
        rw [List.length_take]
        exact Nat.min_le_left _ _
      have hx : s.h.audio.contents.take c.todo.length = c.todo.take (s.h.audio.contents.take c.todo.length).length := by
        rw [← htake _ hn (by rw [List.length_take]; exact Nat.min_le_right _ _), List.length_take]
        exact List.take_eq_take_min
      have hadv := hc.advance (h := { s.h with
          audio := (s.h.audio.drain s.h.jit.frameRemain).1
          jit.frameRemain := s.h.jit.frameRemain - (s.h.audio.drain s.h.jit.frameRemain).2.1 }) hn hok
        (by rw [hcon, ← hx, List.take_append_drop]) (by rw [hout])
      refine ⟨⟨c.advance (s.h.audio.contents.take c.todo.length).length (decide (s.h.jit.seekEndPts ≠ 0)), ?_⟩, rfl,
        fun h0 => absurd h0 hseek⟩
      simp only [if_neg hseek] at hadv
      rw [← hx] at hadv
      simp only [hout] at hadv ⊢
      exact hadv
    · rename_i hseek
      have hseek : s.h.jit.seekEndPts = 0 := not_not.mp hseek
      obtain ⟨n, hav, hmax, hok, hcon, hout⟩ := Stream.drainFd_eq hc.ok s.h.jit.frameRemain first second
      have hn : n ≤ c.todo.length := by
        have := hmax (by omega)
        omega
      have hx := htake n hn (by rw [Stream.contents_length]; exact hav)
      have hadv := hc.advance (h := { s.h with
          audio := (s.h.audio.drainFd s.h.jit.frameRemain first second).1
          jit.frameRemain := s.h.jit.frameRemain - (s.h.audio.drainFd s.h.jit.frameRemain first second).2.1 }) hn hok
        (by rw [hcon, ← hx, List.take_append_drop]) (by rw [hout])
      refine ⟨⟨c.advance n (decide (s.h.jit.seekEndPts ≠ 0)), ?_⟩, rfl, fun _ => rfl⟩
      simp only [if_pos hseek] at hadv
      rw [← hx] at hadv
      simp only [hout] at hadv ⊢
      exact hadv
  · refine ⟨⟨c, ?_⟩, rfl, fun _ => rfl⟩
    simp only [List.append_nil]
    exact hc

end Cut

theorem Stream.peek_keeps {s : Stream} (hok : s.Ok) (max : Int) : (s.peek max).1.Ok ∧ (s.peek max).1.contents = s.contents := by
  unfold Stream.peek Stream.countEmpty
  split
  · exact ⟨hok, rfl⟩
  · split
    · exact ⟨⟨hok.size_lt, hok.head_lt, hok.tail_lt, hok.head_ne⟩, rfl⟩
    · exact ⟨hok, rfl⟩

/-- The look-ahead sees the header of the packet in front, whatever follows it. -/
theorem header_seen {contents rest : List UInt8} {p : AudioPacket} (hp : contents <+: p.bytes ++ rest)
    (hl : 8 ≤ contents.length) {k : Nat} (hk : k < 6) : (contents.take 14).getD k 0 = p.bytes.getD k 0 := by
  have hb := p.bytes_length
  obtain ⟨more, hm⟩ := hp
  have he : (contents ++ more)[k]? = (p.bytes ++ rest)[k]? := by rw [hm]
  rw [List.getElem?_append_left (by omega), List.getElem?_append_left (by omega)] at he
  rw [List.getD_eq_getElem?_getD, List.getD_eq_getElem?_getD, List.getElem?_take_of_lt (by omega), he]

section
variable {cast : Int → UInt32}

/-- A decision not to start changes nothing, and a seek that has been caught up with stays so. -/
theorem jitDecide_keeps (jit : JitAudioData) (stc : UInt32) (mode : Nat) (pts : UInt32) :
    ((jitDecide cast jit stc mode pts).stall = true → (jitDecide cast jit stc mode pts).jit = jit) ∧
      (jit.seekEndPts = 0 → (jitDecide cast jit stc mode pts).jit.seekEndPts = 0) := by
  unfold jitDecide
  dsimp only
  split
  · rename_i hseek
    refine ⟨?_, fun h0 => absurd h0 hseek.2⟩
    split
    · exact fun hs => absurd hs (by simp)
    · split <;> exact fun hs => absurd hs (by simp)
  · split
    · exact ⟨fun hs => absurd hs (by simp), fun h0 => h0⟩
    · split
      · split
        · exact ⟨fun _ => rfl, fun h0 => h0⟩
        · split <;> exact ⟨fun _ => rfl, fun h0 => h0⟩
      · exact ⟨fun _ => rfl, fun h0 => h0⟩

/-- Between two packets nothing is thrown away in search of the next one, and what is started is the
packet in front, at its full length. -/
theorem jitStart_found {h : Handle} {coming : List AudioPacket} (hok : h.audio.Ok)
    (hfront : h.audio.contents <+: flat coming) (stc : UInt32) (mode : Nat) :
    (jitStart cast h stc mode).audio.Ok ∧ (jitStart cast h stc mode).audio.contents = h.audio.contents ∧
      (jitStart cast h stc mode).dropped = [] ∧
      ∀ d, (jitStart cast h stc mode).result = some d → (d.stall = true → d.jit = h.jit) ∧
        (h.jit.seekEndPts = 0 → d.jit.seekEndPts = 0) ∧
        (d.stall = false → ∃ p rest, coming = p :: rest ∧ d.jit.frameRemain = p.bytes.length) := by
  obtain ⟨hpok, hpcon⟩ := Stream.peek_keeps hok 14
  have hpeek := Stream.peek_eq hok 14
  rw [show (14 : Int).toNat = 14 from rfl] at hpeek
  unfold jitStart
  simp only [hpeek]
  split
  · exact ⟨hpok, hpcon, rfl, fun d hd => by cases hd⟩
  · rename_i hshort
    have hl : 8 ≤ h.audio.contents.length := by
      rw [List.length_take] at hshort
      omega
    obtain ⟨p, rest, rfl⟩ : ∃ p rest, coming = p :: rest := by
      cases coming with
      | nil =>
        have hnil := List.prefix_nil.mp hfront
        rw [hnil] at hl
        exact absurd hl (by decide)
      | cons p rest => exact ⟨p, rest, rfl⟩
    have hseen (k : Nat) (hk : k < 6) := header_seen hfront hl hk
    have h0 := hseen 0 (by decide)
    have h1 := hseen 1 (by decide)
    have h2 := hseen 2 (by decide)
    have hsync : unsynced (h.audio.contents.take 14) = false := by
      rw [unsynced, h0, h1, h2]
      rfl
    have hlen : ((h.audio.contents.take 14).getD 4 0).toNat * 256 + ((h.audio.contents.take 14).getD 5 0).toNat =
        p.payload.length := by
      rw [hseen 4 (by decide), hseen 5 (by decide)]
      exact p.length_bytes
    -- a decision that starts the packet in front at its full length
    have hstart (d : JitDecision) (hstall : d.stall = true → d.jit = h.jit)
        (hseek : h.jit.seekEndPts = 0 → d.jit.seekEndPts = 0) :
        let e : JitDecision := if d.stall then d else { d with jit.frameRemain := (p.payload.length : Int) + 6 }
        (e.stall = true → e.jit = h.jit) ∧ (h.jit.seekEndPts = 0 → e.jit.seekEndPts = 0) ∧
          (e.stall = false → ∃ q r, p :: rest = q :: r ∧ e.jit.frameRemain = q.bytes.length) := by
      dsimp only
      cases hs : d.stall with
      | true => exact ⟨fun _ => hstall hs, hseek, fun hf => by simp [hs] at hf⟩
      | false =>
        refine ⟨fun ht => by simp at ht, hseek, fun _ => ⟨p, rest, rfl, ?_⟩⟩
        simp [p.bytes_length]
    simp only [resync, hsync, Bool.false_eq_true, if_false, hlen]
    split
    · split
      · exact ⟨hpok, hpcon, rfl, fun d hd => by cases hd⟩
      · refine ⟨hpok, hpcon, rfl, fun d hd => ?_⟩
        cases hd
        obtain ⟨hk1, hk2⟩ := @jitDecide_keeps cast h.jit stc mode (audioPts (h.audio.contents.take 14))
        exact hstart _ hk1 hk2
    · refine ⟨hpok, hpcon, rfl, fun d hd => ?_⟩
      cases hd
      exact hstart { jit := h.jit } (fun _ => rfl) fun h0 => h0

namespace Cut
variable {c : Cut} {ps : List AudioPacket} {s : JitState}

/-- Changes of the ring that keep its contents, and of no bookkeeping the cut depends on. -/
theorem Of.same {h : Handle} (hc : c.Of ps s) (hok : h.audio.Ok) (hcon : h.audio.contents = s.h.audio.contents)
    (hjit : h.jit = s.h.jit) : c.Of ps { s with h := h } :=
  ⟨hok, by rw [hcon]; exact hc.arrived, hc.packets, hc.bytes, hc.inProgress, by rw [hjit]; exact hc.remain,
    by rw [hjit]; exact hc.dropped, by rw [hjit]; exact hc.sent, by rw [hjit]; exact hc.seeking⟩

/-- The packet in front is begun. -/
theorem Of.begun {h : Handle} {p : AudioPacket} {rest : List AudioPacket} (hc : c.Of ps s)
    (hidle : c.packet = none ∧ c.done = [] ∧ c.todo = []) (hcoming : c.coming = p :: rest) (hok : h.audio.Ok)
    (hcon : h.audio.contents = s.h.audio.contents) (hrem : h.jit.frameRemain = p.bytes.length)
    (hseek : s.h.jit.seekEndPts = 0 → h.jit.seekEndPts = 0) :
    ({ c with packet := some p, done := [], todo := p.bytes, coming := rest } : Cut).Of ps { s with h := h } := by
  obtain ⟨hnone, hdone, htodo⟩ := hidle
  have hdropped := hc.dropped
  have hsent := hc.sent
  rw [hdone, ite_self, List.append_nil] at hdropped hsent
  refine ⟨hok, by rw [hcon]; exact hc.arrived, ?_, by simp, fun _ hnil => ?_, hrem, by simp [hdropped],
    by simp [hsent], fun hne => hc.seeking fun h0 => hne (hseek h0)⟩
  · rw [hc.packets, hnone, hcoming]
    simp
  · have hb := p.bytes_length
    have hl : p.bytes.length = 0 := congrArg List.length hnil
    omega

/-- A call goes on with the packet in progress, or starts the one in front. -/
theorem Of.call (hc : c.Of ps s) (ha : s.arrived <+: flat ps) (stc : UInt32) {mode : Nat} (hm : mode = 2 ∨ mode = 3)
    (first second : Option Nat) :
    (∃ c' : Cut, c'.Of ps { s with
      h := (demuxJitWriteAudio cast s.h stc mode first second).1
      sent := s.sent ++ (demuxJitWriteAudio cast s.h stc mode first second).2.sent
      dropped := s.dropped ++ (demuxJitWriteAudio cast s.h stc mode first second).2.dropped }) ∧
    (s.h.jit.seekEndPts = 0 → (demuxJitWriteAudio cast s.h stc mode first second).1.jit.seekEndPts = 0 ∧
      (demuxJitWriteAudio cast s.h stc mode first second).2.dropped = []) := by
  have hfront := hc.front ha
  unfold demuxJitWriteAudio
  rw [if_neg (by omega)]
  split
  · rename_i h0
    have hidle := hc.idle (by have := hc.remain; omega)
    rw [hidle.2.2, List.nil_append] at hfront
    obtain ⟨hok, hcon, hdrop, hres⟩ := @jitStart_found cast _ _ hc.ok hfront stc mode
    dsimp only
    match hr : (jitStart cast s.h stc mode).result with
    | none =>
      refine ⟨⟨c, ?_⟩, fun hs => ⟨hs, hdrop⟩⟩
      simp only [hdrop, List.append_nil]
      exact hc.same hok hcon rfl
    | some d =>
      obtain ⟨hstall, hseek, hstart⟩ := hres d hr
      cases hd : d.stall with
      | true =>
        simp only [hd, if_true]
        refine ⟨⟨c, ?_⟩, fun hs => ⟨hseek hs, hdrop⟩⟩
        simp only [hdrop, List.append_nil]
        exact hc.same hok hcon (hstall hd)
      | false =>
        obtain ⟨p, rest, hcoming, hrem⟩ := hstart hd
        have hbegun := hc.begun (h := { s.h with audio := (jitStart cast s.h stc mode).audio, jit := d.jit }) hidle hcoming
          hok hcon hrem hseek
        obtain ⟨hcut, hkeep, hnone⟩ := hbegun.deliver ha first second
        simp only [hd, Bool.false_eq_true, if_false, hdrop, List.nil_append]
        exact ⟨hcut, fun hs => ⟨hkeep.trans (hseek hs), hnone (hseek hs)⟩⟩
  · obtain ⟨hcut, hkeep, hnone⟩ := hc.deliver ha first second
    exact ⟨hcut, fun hs => ⟨hkeep.trans hs, hnone hs⟩⟩

/-- Every step keeps a cut. -/
theorem Of.step {s' : JitState} (hc : c.Of ps s) (hs : JitStep cast s s') (ha : s'.arrived <+: flat ps) :
    (∃ c' : Cut, c'.Of ps s') ∧ (s.h.jit.seekEndPts = 0 → s'.h.jit.seekEndPts = 0 ∧ s'.dropped = s.dropped) := by
  cases hs with
  | arrive data h hok hcon hjit =>
    refine ⟨⟨c, ?_⟩, fun h0 => ⟨by rw [hjit]; exact h0, rfl⟩⟩
    refine ⟨hok, ?_, hc.packets, hc.bytes, hc.inProgress, by rw [hjit]; exact hc.remain, by rw [hjit]; exact hc.dropped,
      by rw [hjit]; exact hc.sent, by rw [hjit]; exact hc.seeking⟩
    rw [hcon, ← List.append_assoc, ← hc.arrived]
  | call stc mode first second hm =>
    obtain ⟨hcut, hkeep⟩ := hc.call ha stc hm first second
    refine ⟨hcut, fun h0 => ⟨(hkeep h0).1, ?_⟩⟩
    simp only [(hkeep h0).2, List.append_nil]

end Cut

theorem JitStep.arrived {s s' : JitState} (hs : JitStep cast s s') : s.arrived <+: s'.arrived := by
  cases hs with
  | arrive data h hok hcon hjit => exact List.prefix_append _ _
  | call stc mode first second hm => exact List.prefix_refl _

theorem JitSteps.arrived {s s' : JitState} (hs : JitSteps cast s s') : s.arrived <+: s'.arrived := by
  induction hs with
  | refl => exact List.prefix_refl _
  | tail _ hs ih => exact ih.trans hs.arrived

/-- Every run keeps a cut, and throws away nothing once the seek has been caught up with. -/
theorem Cut.Of.steps {c : Cut} {ps : List AudioPacket} {s s' : JitState} (hc : c.Of ps s) (hs : JitSteps cast s s')
    (ha : s'.arrived <+: flat ps) :
    (∃ c' : Cut, c'.Of ps s') ∧ (s.h.jit.seekEndPts = 0 → s'.h.jit.seekEndPts = 0 ∧ s'.dropped = s.dropped) := by
  induction hs with
  | refl => exact ⟨⟨c, hc⟩, fun h0 => ⟨h0, rfl⟩⟩
  | tail _ hstep ih =>
    obtain ⟨⟨c', hc'⟩, hkeep⟩ := ih (hstep.arrived.trans ha)
    obtain ⟨hcut, hlast⟩ := hc'.step hstep ha
    refine ⟨hcut, fun h0 => ?_⟩
    obtain ⟨h1, hd⟩ := hkeep h0
    exact ⟨(hlast h1).1, (hlast h1).2.trans hd⟩

/-- Whatever the clock, the writes and the feeding do: in every state of every run the packets are cut into
those thrown away, those written, at most one in progress, of which `frame_remain` bytes are to come, and the
rest; and nothing is thrown away in a state that follows one with `seek_end_pts = 0`. -/
theorem delivery_packet_atomic {ps : List AudioPacket} {h : Handle} (hok : h.audio.Ok) (h0 : h.jit.frameRemain = 0)
    {s s' : JitState} (hs : JitSteps cast { h := h, arrived := h.audio.contents } s) (hs' : JitSteps cast s s')
    (ha : s'.arrived <+: flat ps) :
    (∃ c : Cut, c.Of ps s') ∧ (s.h.jit.seekEndPts = 0 → s'.h.jit.seekEndPts = 0 ∧ s'.dropped = s.dropped) := by
  have hinit : ({ out := [], written := [], coming := ps } : Cut).Of ps { h := h, arrived := h.audio.contents } :=
    ⟨hok, rfl, rfl, rfl, fun hn => absurd hn (by simp), h0, by simp, by simp, fun _ => rfl⟩
  obtain ⟨⟨c, hc⟩, -⟩ := hinit.steps hs (hs'.arrived.trans ha)
  exact hc.steps hs' ha

/-- A `stream_add` on the audio ring is a step in which all of the block arrives, or nothing. -/
theorem JitStep.of_streamAdd {s : JitState} (hok : s.h.audio.Ok) (hcb : s.h.audio.parserCallback = false)
    {data : List UInt8} (hl : data.length + 6 < s.h.audio.size) :
    ∃ taken, (taken = data ∨ taken = []) ∧
      JitStep cast s { s with h := (streamAdd s.h .audio data true).1, arrived := s.arrived ++ taken } := by
  obtain ⟨hok', -, hcase⟩ := Stream.append_eq hok s.h.seeking data hl
  rw [streamAdd_audio s.h data hcb]
  rcases hcase with ⟨-, hcon, -⟩ | ⟨-, hcon, -⟩
  · exact ⟨data, .inl rfl, .arrive data _ hok' hcon rfl⟩
  · exact ⟨[], .inr rfl, .arrive [] _ hok' (by rw [List.append_nil]; exact hcon) rfl⟩

end

/-- A packet of eight bytes. -/
def eightBytes : AudioPacket := ⟨0xC0, [1, 2], by decide⟩

/-- Eight bytes arrive and a call writes three of them. -/
theorem delivery_packet_atomic_short :
    let h := (streamAdd (demuxInit 100 fun _ => 0) .audio eightBytes.bytes true).1
    let r := demuxJitWriteAudio UInt32.ofInt h 0 2 (some 3) none
    ∃ c : Cut, c.Of [eightBytes] { h := r.1, arrived := eightBytes.bytes, sent := r.2.sent, dropped := r.2.dropped } := by
  intro h r
  have h1 : JitStep UInt32.ofInt { h := demuxInit 100 fun _ => 0, arrived := [] } { h := h, arrived := eightBytes.bytes } :=
    .arrive eightBytes.bytes h ⟨by decide, by decide, by decide, by decide⟩ (by decide) rfl
  have h2 : JitStep UInt32.ofInt { h := h, arrived := eightBytes.bytes } _ := .call 0 2 (some 3) none (.inl rfl)
  have hcut := (delivery_packet_atomic (h := demuxInit 100 fun _ => 0) ⟨by decide, by decide, by decide, by decide⟩ rfl .refl
    (.tail (.single h1) h2) (show _ <+: flat [eightBytes] from List.prefix_refl _)).1
  simpa only [List.nil_append] using hcut

end Mvpmc.Demux
