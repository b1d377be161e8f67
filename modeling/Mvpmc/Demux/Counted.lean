import Mvpmc.Demux.Steps
import Mvpmc.Demux.Consumed

/-! The position `handle->bytes`. The search counts every byte, but one byte more for
each packet it meets, and the bytes of a packet that is continued are not counted. -/
namespace Mvpmc.Demux

theorem setStream_bytes (h : Handle) (sid : StreamId) (s : Stream) : (h.setStream sid s).bytes = h.bytes := by
  cases sid <;> rfl

theorem streamAdd_bytes (h : Handle) (sid : StreamId) (data : List UInt8) (force : Bool) :
    (streamAdd h sid data force).1.bytes = h.bytes := by
  have parser (g : Handle) (w : Bool) (stop : Nat) : (runParser g w stop).bytes = g.bytes :=
    (runParser_only g w stop).1.field Handle.bytes
  unfold streamAdd
  dsimp only
  split
  · rfl
  · split
    · rfl
    · split
      · exact setStream_bytes ..
      · rw [setStream_bytes]
        split
        · rw [parser, setStream_bytes]
        · exact setStream_bytes ..

/-- `parse_frame` does not count. -/
theorem parseFrame_bytes (h : Handle) (buf : List UInt8) (past : Nat → UInt8) (type : Nat) :
    (parseFrame h buf past type).1.bytes = h.bytes := by
  have hk : Kept fun g => g.bytes = h.bytes := by
    constructor
    · intro g g' hg hq
      exact hq.bytes.trans hg
    · intro g sid data hg
      exact (streamAdd_bytes ..).trans hg
  exact hk.carried.parseFrame buf past type rfl

/-- The packets whose type byte `add_buffer` reads: its rounds in state 4. -/
def packetsBegun (past : Nat → UInt8) : Nat → Handle → List UInt8 → Nat
  | 0, _, _ => 0
  | _, _, [] => 0
  | fuel + 1, h, b :: rest =>
    if h.state = 4 then
      let r := parseFrame h (b :: rest) past 0
      if r.1.state ≠ 1 then 1
      else 1 + packetsBegun past fuel (r.1.counted (r.2 + 1)) ((b :: rest).drop r.2)
    else packetsBegun past fuel (Handle.counted { h with state := scanByte h.state b } 1) rest

/-- The bytes `demux_put` takes for the packet it finds the parser in. -/
def continued (h : Handle) (buf : List UInt8) (past : Nat → UInt8) : Nat :=
  if isHeaderState h.state then 0 else (parseFrame h buf past h.state).2

/-- The search of `demux_put` for the next packets: where it starts and what it is shown. -/
def searched (h : Handle) (buf : List UInt8) (past : Nat → UInt8) : Option (Handle × List UInt8) :=
  if isHeaderState h.state then some (h, buf)
  else
    let r := parseFrame h buf past h.state
    if r.1.state = 1 then some (r.1, buf.drop r.2) else none

/-- The packets `demux_put` begins. -/
def begun (h : Handle) (buf : List UInt8) (past : Nat → UInt8) : Nat :=
  match searched h buf past with
  | some (g, rest) => packetsBegun past rest.length g rest
  | none => 0

/-- The bytes of the buffer that `demux_put` leaves processed. -/
def processed (h : Handle) (buf : List UInt8) (past : Nat → UInt8) : Nat :=
  continued h buf past +
    match searched h buf past with
    | some (g, rest) => (addBuffer g rest past).2
    | none => 0

/-- The search for a prefix 00 00 01 from `state` comes to a byte behind it. -/
def reachesType (state : Nat) : List UInt8 → Bool
  | [] => false
  | b :: rest => state == 4 || reachesType (scanByte state b) rest

theorem counted_counted (b : UInt32) (m n : Nat) : b + UInt32.ofNat m + UInt32.ofNat n = b + UInt32.ofNat (m + n) := by
  rw [UInt32.ofNat_add, UInt32.add_assoc]

/-- `add_buffer` counts what it consumes and one more for each packet. -/
theorem addBufferLoop_bytes (past : Nat → UInt8) (fuel : Nat) (h : Handle) (buf : List UInt8) :
    (addBufferLoop past fuel h buf).1.bytes =
      h.bytes + UInt32.ofNat ((addBufferLoop past fuel h buf).2 + packetsBegun past fuel h buf) := by
  fun_induction addBufferLoop past fuel h buf with
  | case1 h buf => simp [packetsBegun]
  | case2 fuel h hfuel => simp [packetsBegun]
  | case3 fuel h b rest hs r h' hne =>
    have hbegun : packetsBegun past (fuel + 1) h (b :: rest) = 1 := by
      rw [packetsBegun, if_pos hs]
      exact if_pos hne
    have hbytes : r.1.bytes = h.bytes := parseFrame_bytes ..
    rw [hbegun]
    change r.1.bytes + UInt32.ofNat (r.2 + 1) = _
    rw [hbytes]
  | case4 fuel h b rest hs r h' hne t ih =>
    have hbegun : packetsBegun past (fuel + 1) h (b :: rest) =
        1 + packetsBegun past fuel h' ((b :: rest).drop r.2) := by
      rw [packetsBegun, if_pos hs]
      exact if_neg hne
    have hbytes : r.1.bytes = h.bytes := parseFrame_bytes ..
    have hcount : h'.bytes = h.bytes + UInt32.ofNat (r.2 + 1) := by
      rw [← hbytes]
      rfl
    rw [ih, hcount, counted_counted, hbegun]
    congr 2
    simp only [t]
    omega
  | case5 fuel h b rest hs t ih =>
    have hbegun : packetsBegun past (fuel + 1) h (b :: rest) =
        packetsBegun past fuel (Handle.counted { h with state := scanByte h.state b } 1) rest := by
      rw [packetsBegun, if_neg hs]
    have hcount : (Handle.counted { h with state := scanByte h.state b } 1).bytes = h.bytes + UInt32.ofNat 1 := rfl
    rw [ih, hcount, counted_counted, hbegun]
    congr 2
    simp only [t]
    omega

/-- A packet is begun if and only if the search comes to a type byte. -/
theorem packetsBegun_eq_zero (past : Nat → UInt8) (buf : List UInt8) (fuel : Nat) (h : Handle)
    (hf : buf.length ≤ fuel) : packetsBegun past fuel h buf = 0 ↔ reachesType h.state buf = false := by
  induction buf generalizing fuel h with
  | nil => cases fuel <;> simp [packetsBegun, reachesType]
  | cons b rest ih =>
    obtain ⟨fuel, rfl⟩ : ∃ k, fuel = k + 1 := ⟨fuel - 1, by simp only [List.length_cons] at hf; omega⟩
    rw [packetsBegun, reachesType]
    by_cases hs : h.state = 4
    · rw [if_pos hs, hs]
      simp only [BEq.rfl, Bool.true_or, Bool.true_eq_false, iff_false]
      split <;> omega
    · have hne : (h.state == 4) = false := beq_eq_false_iff_ne.mpr hs
      rw [if_neg hs, hne, Bool.false_or]
      refine ih fuel _ ?_
      simp only [List.length_cons] at hf
      omega

theorem packetsBegun_le (past : Nat → UInt8) (fuel : Nat) (h : Handle) (buf : List UInt8) :
    packetsBegun past fuel h buf ≤ fuel := by
  induction fuel generalizing h buf with
  | zero => rw [packetsBegun]
  | succ fuel ih =>
    cases buf with
    | nil => exact Nat.zero_le _
    | cons b rest =>
      rw [packetsBegun]
      split
      · dsimp only
        split
        · omega
        · have hrec := ih ((parseFrame h (b :: rest) past 0).1.counted ((parseFrame h (b :: rest) past 0).2 + 1))
            ((b :: rest).drop (parseFrame h (b :: rest) past 0).2)
          omega
      · exact (ih _ _).trans (Nat.le_succ _)

/-- `demux_put` goes on with the packet it is in and then searches. -/
theorem demuxPut_eq_search {h : Handle} (buf : List UInt8) (past : Nat → UInt8)
    (hs : isHeaderState h.state = true ∨ isFrameState h.state = true) :
    (demuxPut h buf past).1 =
      match searched h buf past with
      | some (g, rest) => (addBuffer g rest past).1
      | none => (parseFrame h buf past h.state).1 := by
  unfold searched
  by_cases hb : buf = []
  · subst hb
    rw [demuxPut, if_pos List.length_nil]
    by_cases hh : isHeaderState h.state = true
    · rw [if_pos hh]
      rfl
    · have hne : (parseFrame h [] past h.state).1.state ≠ 1 := frame_ne_one (hs.resolve_left hh)
      rw [if_neg hh]
      dsimp only
      rw [if_neg hne]
      rfl
  · rw [demuxPut, if_neg (by simpa using hb)]
    by_cases hh : isHeaderState h.state = true
    · rw [if_pos hh, if_pos hh]
    · rw [if_neg hh, if_neg hh, if_pos (hs.resolve_left hh)]
      dsimp only
      by_cases h1 : (parseFrame h buf past h.state).1.state = 1
      · rw [if_pos h1, if_pos h1]
        split
        · rename_i hnone
          have hnil : buf.drop (parseFrame h buf past h.state).2 = [] := List.drop_eq_nil_of_le (by omega)
          rw [hnil]
          rfl
        · rfl
      · rw [if_neg h1, if_neg h1]

/-- `processed` is what the calls of the parser have consumed. -/
theorem demuxPut_processes {h : Handle} (buf : List UInt8) (past : Nat → UInt8)
    (hs : isHeaderState h.state = true ∨ isFrameState h.state = true) :
    Processes past h buf (processed h buf past) (demuxPut h buf past).1 := by
  rw [demuxPut_eq_search buf past hs]
  by_cases hh : isHeaderState h.state = true
  · have hone := Processes.one past h buf
    rw [parserCall, if_pos hh] at hone
    simpa only [processed, continued, searched, if_pos hh, Nat.zero_add] using hone
  · have hcall : parserCall h buf past = parseFrame h buf past h.state := if_neg hh
    by_cases h1 : (parseFrame h buf past h.state).1.state = 1
    · have hsecond := Processes.one past (parseFrame h buf past h.state).1 (buf.drop (parseFrame h buf past h.state).2)
      rw [parserCall, if_pos (by rw [h1]; rfl)] at hsecond
      rw [← hcall] at hsecond
      have hboth := Processes.call hsecond
      rw [hcall] at hboth
      simpa only [processed, continued, searched, if_neg hh, if_pos h1] using hboth
    · have hone := Processes.one past h buf
      rw [hcall] at hone
      simpa only [processed, continued, searched, if_neg hh, if_neg h1, Nat.add_zero] using hone

/-- The counter moves by the bytes searched and one more for each packet begun. -/
theorem demuxPut_bytes {h : Handle} (buf : List UInt8) (past : Nat → UInt8)
    (hs : isHeaderState h.state = true ∨ isFrameState h.state = true) :
    (demuxPut h buf past).1.bytes + UInt32.ofNat (continued h buf past) =
      h.bytes + UInt32.ofNat (processed h buf past) + UInt32.ofNat (begun h buf past) := by
  rw [demuxPut_eq_search buf past hs]
  unfold processed begun searched
  by_cases hh : isHeaderState h.state = true
  · simp only [if_pos hh, continued]
    rw [addBuffer, addBufferLoop_bytes, counted_counted, counted_counted]
    congr 2
    omega
  · have hbytes := parseFrame_bytes h buf past h.state
    by_cases h1 : (parseFrame h buf past h.state).1.state = 1
    · simp only [if_neg hh, if_pos h1]
      rw [addBuffer, addBufferLoop_bytes, hbytes, counted_counted, counted_counted]
      congr 2
      omega
    · simp only [if_neg hh, if_neg h1, hbytes]
      rw [counted_counted, Nat.add_zero]

theorem continued_le (h : Handle) (buf : List UInt8) (past : Nat → UInt8) : continued h buf past ≤ buf.length := by
  unfold continued
  split
  · exact Nat.zero_le _
  · exact parseFrame_le ..

theorem begun_le (h : Handle) (buf : List UInt8) (past : Nat → UInt8) : begun h buf past ≤ buf.length := by
  unfold begun searched
  split
  · rename_i g rest hsome
    have hle := packetsBegun_le past rest.length g rest
    split at hsome
    · cases hsome
      exact hle
    · dsimp only at hsome
      split at hsome
      · cases hsome
        rw [List.length_drop] at hle
        rw [List.length_drop]
        omega
      · cases hsome
  · exact Nat.zero_le _

/-- The counter is exact for a call if and only if the packets it begins are as many as
the bytes it takes for the packet it finds the parser in; for a call that finds the parser
in the search this means that the search comes to no type byte. -/
theorem bytes_exact_iff {ok : Handle → AnyCall → Prop} {size : Nat} {h : Handle} (ha : Attained ok size h)
    (buf : List UInt8) (past : Nat → UInt8) (hlen : buf.length < 2147483648) :
    Processes past h buf (processed h buf past) (demuxPut h buf past).1 ∧
      ((demuxPut h buf past).1.bytes = h.bytes + UInt32.ofNat (processed h buf past) ↔
        begun h buf past = continued h buf past) ∧
      (isHeaderState h.state = true →
        (begun h buf past = continued h buf past ↔ reachesType h.state buf = false)) := by
  have hs := ha.shape.state
  refine ⟨demuxPut_processes buf past hs, ?_, ?_⟩
  · have hsum := demuxPut_bytes buf past hs
    have hle := continued_le h buf past
    have hle' := begun_le h buf past
    constructor
    · intro he
      rw [he] at hsum
      have hcast := (UInt32.add_right_inj (h.bytes + UInt32.ofNat (processed h buf past))).mp hsum
      have hnat := congrArg UInt32.toNat hcast
      rw [UInt32.toNat_ofNat_of_lt' (by simp only [UInt32.size]; omega),
        UInt32.toNat_ofNat_of_lt' (by simp only [UInt32.size]; omega)] at hnat
      exact hnat.symm
    · intro he
      rw [he] at hsum
      exact (UInt32.add_left_inj _).mp hsum
  · intro hh
    have hc : continued h buf past = 0 := if_pos hh
    have hb : begun h buf past = packetsBegun past buf.length h buf := by
      simp only [begun, searched, if_pos hh]
    rw [hc, hb]
    exact packetsBegun_eq_zero past buf buf.length h (le_refl _)

/-- Three bytes without a start code, put into a fresh handle. -/
theorem bytes_exact_search :
    (demuxPut (demuxInit 100 fun _ => 0) [0, 0, 7] fun _ => 0).1.bytes =
      (demuxInit 100 fun _ => 0).bytes + UInt32.ofNat (processed (demuxInit 100 fun _ => 0) [0, 0, 7] fun _ => 0) := by
  have ha : Attained (fun _ _ => True) 100 (demuxInit 100 fun _ => 0) := .start ⟨_, rfl⟩
  obtain ⟨-, hiff, hsearch⟩ := bytes_exact_iff ha [0, 0, 7] (fun _ => 0) (by decide)
  exact hiff.mpr ((hsearch rfl).mpr (by decide))

/-- A padding packet of eight bytes is counted as nine; cut behind its type byte it is
counted as five. -/
theorem bytes_depend_on_cut :
    let h := demuxInit 100 fun _ => 0
    let g := (demuxPut h [0, 0, 1, 0xBE] fun _ => 0).1
    processed h [0, 0, 1, 0xBE, 0, 2, 9, 9] (fun _ => 0) = 8 ∧
      (demuxPut h [0, 0, 1, 0xBE, 0, 2, 9, 9] fun _ => 0).1.bytes = 9 ∧
      processed g [0, 2, 9, 9] (fun _ => 0) = 4 ∧ g.bytes = 5 ∧ (demuxPut g [0, 2, 9, 9] fun _ => 0).1.bytes = 5 ∧
      ¬ (∀ buf, (demuxPut h buf fun _ => 0).1.bytes = h.bytes + UInt32.ofNat (processed h buf fun _ => 0)) := by
  intro h g
  refine ⟨by decide, by decide, by decide, by decide, by decide, fun hall => ?_⟩
  exact absurd (hall [0, 0, 1, 0xBE, 0, 2, 9, 9]) (by decide)

end Mvpmc.Demux
