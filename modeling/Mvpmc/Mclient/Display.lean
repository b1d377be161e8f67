import Mvpmc.Mclient.OutBuf

/-! The display of the music server's player (`mclient.c`): what the packets put on it. -/
namespace Mvpmc.Mclient
open Mvpmc.Lib.Circular

def DISPLAY_SIZE : Nat := 128

/-- Translates the characters of the display to Latin-1. -/
def vfd2latin1 : List UInt8 := [
  0x00, 0x01, 0x02, 0x03, 0x04, 0x05, 0x06, 0x07, 0x08, 0x09, 0x0a, 0x0b, 0x0c, 0x0d, 0x0e, 0x0f,
  0x10, 0x11, 0x12, 0x13, 0x14, 0x15, 0x16, 0x17, 0x18, 0x19, 0x1a, 0x1b, 0x1c, 0x1d, 0x1e, 0x1f,
  0x20, 0x21, 0x22, 0x23, 0x24, 0x25, 0x26, 0x27, 0x28, 0x29, 0x2a, 0x2b, 0x2c, 0x2d, 0x2e, 0x2f,
  0x30, 0x31, 0x32, 0x33, 0x34, 0x35, 0x36, 0x37, 0x38, 0x39, 0x3a, 0x3b, 0x3c, 0x3d, 0x3e, 0x3f,
  0x40, 0x41, 0x42, 0x43, 0x44, 0x45, 0x46, 0x47, 0x48, 0x49, 0x4a, 0x4b, 0x4c, 0x4d, 0x4e, 0x4f,
  0x50, 0x51, 0x52, 0x53, 0x54, 0x55, 0x56, 0x57, 0x58, 0x59, 0x5a, 0x5b, 0xa5, 0x5d, 0x5e, 0x5f,
  0x60, 0x61, 0x62, 0x63, 0x64, 0x65, 0x66, 0x67, 0x68, 0x69, 0x6a, 0x6b, 0x6c, 0x6d, 0x6e, 0x6f,
  0x70, 0x71, 0x72, 0x73, 0x74, 0x75, 0x76, 0x77, 0x78, 0x79, 0x7a, 0x7b, 0x7c, 0x7d, 0xbb, 0xab,
  0xc4, 0xc3, 0xc5, 0xe1, 0xe5, 0x85, 0xd6, 0xf6, 0xd8, 0xf8, 0xdc, 0x8b, 0x5c, 0x8d, 0x7e, 0xa7,
  0xc6, 0xe6, 0xa3, 0x93, 0xb7, 0x6f, 0x96, 0x97, 0xa6, 0xc7, 0x9a, 0x9b, 0x9c, 0x9d, 0x9e, 0x9f,
  0xa0, 0xa1, 0xa2, 0xac, 0xa4, 0xb7, 0xa6, 0xa7, 0xa8, 0xa9, 0xaa, 0xab, 0xac, 0xad, 0xae, 0xaf,
  0x2d, 0xb1, 0xb2, 0xb3, 0xb4, 0xb5, 0xb6, 0xb1, 0xb8, 0xb9, 0xba, 0xbb, 0xbc, 0xbd, 0xbe, 0xbf,
  0xc0, 0xc1, 0xc2, 0xc3, 0xc4, 0xc5, 0xc6, 0xc7, 0xc8, 0xc9, 0xca, 0xcb, 0xcc, 0xcd, 0xce, 0xcf,
  0xd0, 0xd1, 0xd2, 0xd3, 0xd4, 0xd5, 0xd6, 0xd7, 0xd8, 0xd9, 0xda, 0xdb, 0xdc, 0xdd, 0xa8, 0xb0,
  0xe0, 0xe4, 0xdf, 0xe3, 0xb5, 0xe5, 0x70, 0x67, 0xe8, 0xe9, 0x6a, 0xa4, 0xa2, 0xed, 0xf1, 0xf6,
  0x70, 0x71, 0xf2, 0xf3, 0xf4, 0xfc, 0xf6, 0xf7, 0xf8, 0x79, 0xfa, 0xfb, 0xfc, 0xf7, 0xfe, 0xff]

set_option maxRecDepth 2000 in
theorem vfd2latin1_length : vfd2latin1.length = 256 := rfl

/-- `slimp3_display` with its terminator, and the cursor `addr`. -/
structure Lcd where
  ddram : List UInt8
  addr : Int
  deriving DecidableEq, Repr

/-- The display of `mclient_local_init`. -/
def blankLcd : Lcd := ⟨List.replicate DISPLAY_SIZE 32 ++ [0], 0⟩

/-- The cursor is on the display or right behind it, and the terminator stands. -/
structure Lcd.Inside (s : Lcd) : Prop where
  length : s.ddram.length = DISPLAY_SIZE + 1
  terminated : s.ddram[DISPLAY_SIZE]? = some 0
  addr_nonneg : 0 ≤ s.addr
  addr_le : s.addr ≤ DISPLAY_SIZE

section
variable (isprint : UInt8 → Bool)

/-- A character as it is displayed. -/
def printable (c : UInt8) : UInt8 :=
  let c := vfd2latin1.getD c.toNat 0
  if c = 0xaf ∨ c = 0xbb then c else if isprint c then c else 32

/-- A character at the cursor; `none` is a write outside the display. -/
def lcdCharacter (c : UInt8) (s : Lcd) : Option Lcd :=
  if s.addr < DISPLAY_SIZE then
    if 0 ≤ s.addr ∧ s.addr < s.ddram.length then
      some { s with ddram := s.ddram.set s.addr.toNat (printable isprint c), addr := s.addr + 1 }
    else none
  else some s

/-- A command. -/
def lcdCommand (c : UInt8) (s : Lcd) : Option Lcd :=
  if c = 0x01 then
    if DISPLAY_SIZE ≤ s.ddram.length then
      some { s with ddram := List.replicate DISPLAY_SIZE 32 ++ s.ddram.drop DISPLAY_SIZE, addr := 0 }
    else none
  else if c = 0x02 ∨ c = 0x03 then some { s with addr := 0 }
  else if c = 0x10 ∨ c = 0x11 ∨ c = 0x12 ∨ c = 0x13 then
    let addr := s.addr - 1
    if addr < 0 then some { s with addr := 0 } else some { s with addr }
  else if c = 0x0e ∨ c = 0x14 ∨ c = 0x15 ∨ c = 0x16 ∨ c = 0x17 then
    let addr := s.addr + 1
    if addr ≥ DISPLAY_SIZE then some { s with addr := DISPLAY_SIZE - 1 } else some { s with addr }
  else if c &&& 0x80 = 0x80 then some { s with addr := (c &&& 0x7f).toNat }
  else some s

/-- One element: its type in the high byte, the character or the command in the low one. -/
def lcdElement (s : Lcd) (d : UInt8 × UInt8) : Option Lcd :=
  if d.1 = 0x03 then lcdCharacter isprint d.2 s
  else if d.1 = 0x02 then lcdCommand d.2 s
  else some s

/-- `display_data[n]`, in the order of the network. -/
def displayData (data : Nat → UInt8) (n : Nat) : UInt8 × UInt8 := (data (18 + 2 * n), data (18 + 2 * n + 1))

/-- `receive_display_data`. -/
def receiveDisplayData (data : Nat → UInt8) (bytesRead : Nat) (s : Lcd) : Option Lcd :=
  let bytesRead := if bytesRead % 2 ≠ 0 then bytesRead - 1 else bytesRead
  (List.range (bytesRead / 2)).foldlM (fun s n => lcdElement isprint s (displayData data n)) s

/-- The receive buffer and the display. -/
structure Receiver where
  recvbuf : Nat → UInt8
  lcd : Lcd

/-- What `recvfrom` takes of a packet. -/
def received (packet : List UInt8) : List UInt8 := packet.take RECV_BUF_SIZE

/-- A packet with data for the display, which begins with the letter l. -/
def IsDisplay (packet : List UInt8) : Prop := 18 ≤ (received packet).length ∧ packet.head? = some 108

instance (packet : List UInt8) : Decidable (IsDisplay packet) := inferInstanceAs (Decidable (_ ∧ _))

/-- `read_packet`, as far as the display goes. -/
def readPacket (m : Receiver) (packet : List UInt8) : Option Receiver :=
  let recvbuf := blit m.recvbuf 0 (received packet)
  let bytesRead := (received packet).length
  if bytesRead < 18 then some { m with recvbuf }
  else if recvbuf 0 = 108 then
    (receiveDisplayData isprint recvbuf bytesRead m.lcd).map fun lcd => { recvbuf, lcd }
  else some { m with recvbuf }

def readPackets (m : Receiver) (packets : List (List UInt8)) : Option Receiver := packets.foldlM (readPacket isprint) m

end

/-- The elements of some bytes; a byte left over is none. -/
def elements : List UInt8 → List (UInt8 × UInt8)
  | t :: c :: bytes => (t, c) :: elements bytes
  | _ => []

section
variable (isprint : UInt8 → Bool)

def lcdElements (data : List (UInt8 × UInt8)) (s : Lcd) : Option Lcd := data.foldlM (lcdElement isprint) s

/-- What a packet has for the display. -/
def packetElements (packet : List UInt8) : List (UInt8 × UInt8) :=
  if IsDisplay packet then elements ((received packet).drop 18) else []

/-- The display and the cursor that the packets ask for. -/
def shown (packets : List (List UInt8)) : Option Lcd := lcdElements isprint (packets.flatMap packetElements) blankLcd

/-- The display shows what was sent, and the cursor is in its place. -/
def Shows (recvbuf : Nat → UInt8) (packets : List (List UInt8)) : Prop :=
  ∃ m s, readPackets isprint ⟨recvbuf, blankLcd⟩ packets = some m ∧ shown isprint packets = some s ∧ m.lcd = s ∧ s.Inside

/-- The receive buffer behind some packets. -/
def bufferAfter (recvbuf : Nat → UInt8) (packets : List (List UInt8)) : Nat → UInt8 :=
  packets.foldl (fun data packet => blit data 0 (received packet)) recvbuf

/-- The nine elements that stand in the buffer behind the whole elements of a packet. -/
def staleElements (data : Nat → UInt8) (packet : List UInt8) : List (UInt8 × UInt8) :=
  (List.range 9).map fun i => displayData data (((received packet).length - 18) / 2 + i)

/-- What stands behind the elements of a packet does nothing where they have led. -/
def StaleIdle (recvbuf : Nat → UInt8) (packets : List (List UInt8)) (packet : List UInt8) : Prop :=
  IsDisplay packet → ∀ s, shown isprint (packets ++ [packet]) = some s →
    lcdElements isprint (staleElements (bufferAfter recvbuf (packets ++ [packet])) packet) s = some s

variable {isprint}

theorem lcdCharacter_inside {s : Lcd} (h : s.Inside) (c : UInt8) :
    ∃ t, lcdCharacter isprint c s = some t ∧ t.Inside := by
  obtain ⟨hl, ht, h0, hle⟩ := h
  rw [lcdCharacter]
  split
  · rw [if_pos ⟨h0, by omega⟩]
    refine ⟨_, rfl, by simpa using hl, ?_, by simp only; omega, by simp only; omega⟩
    rw [List.getElem?_set_ne (by omega)]
    exact ht
  · exact ⟨s, rfl, hl, ht, h0, hle⟩

theorem lcdCommand_inside {s : Lcd} (h : s.Inside) (c : UInt8) : ∃ t, lcdCommand c s = some t ∧ t.Inside := by
  obtain ⟨hl, ht, h0, hle⟩ := h
  have hmove : ∀ a : Int, 0 ≤ a → a ≤ DISPLAY_SIZE → ({ s with addr := a } : Lcd).Inside :=
    fun a ha hb => ⟨hl, ht, ha, hb⟩
  rw [lcdCommand]
  split
  · rw [if_pos (by omega)]
    refine ⟨_, rfl, by simp [hl], ?_, by simp, by simp⟩
    rw [List.getElem?_append_right (by simp)]
    simpa using ht
  · have h7 : (c &&& 0x7f).toNat ≤ 127 := by
      rw [UInt8.toNat_and]
      exact Nat.and_le_right
    have hsize : (DISPLAY_SIZE : Int) = 128 := rfl
    dsimp only
    split_ifs <;> exact ⟨_, rfl, hmove _ (by omega) (by omega)⟩

variable (isprint) in
theorem lcdElement_inside {s : Lcd} (h : s.Inside) (d : UInt8 × UInt8) :
    ∃ t, lcdElement isprint s d = some t ∧ t.Inside := by
  rw [lcdElement]
  split
  · exact lcdCharacter_inside h _
  split
  · exact lcdCommand_inside h _
  · exact ⟨s, rfl, h⟩

variable (isprint) in
/-- No element leads outside the display. -/
theorem lcdElements_inside {s : Lcd} (h : s.Inside) (data : List (UInt8 × UInt8)) :
    ∃ t, lcdElements isprint data s = some t ∧ t.Inside := by
  induction data generalizing s with
  | nil => exact ⟨s, rfl, h⟩
  | cons d data ih =>
    obtain ⟨t, ht, hti⟩ := lcdElement_inside isprint h d
    obtain ⟨u, hu, hui⟩ := ih hti
    exact ⟨u, by rw [lcdElements, List.foldlM_cons, ht]; exact hu, hui⟩

theorem lcdElements_append (xs ys : List (UInt8 × UInt8)) (s : Lcd) :
    lcdElements isprint (xs ++ ys) s = lcdElements isprint xs s >>= lcdElements isprint ys := by
  rw [lcdElements, List.foldlM_append]
  rfl

theorem elements_length : ∀ bytes : List UInt8, (elements bytes).length = bytes.length / 2
  | [] => rfl
  | [_] => by simp [elements]
  | t :: c :: bytes => by
    simp only [elements, List.length_cons, elements_length bytes]
    omega

theorem elements_getElem? (bytes : List UInt8) (n : Nat) (h : 2 * n + 1 < bytes.length) :
    (elements bytes)[n]? = some (bytes.getD (2 * n) 0, bytes.getD (2 * n + 1) 0) := by
  induction n generalizing bytes with
  | zero =>
    match bytes, h with
    | t :: c :: rest, _ => rfl
  | succ n ih =>
    match bytes, h with
    | t :: c :: rest, h =>
      rw [elements, List.getElem?_cons_succ, ih rest (by simp at h; omega)]
      rfl

/-- The elements that a display packet is read as: its own, and nine more. -/
theorem displayData_received (data : Nat → UInt8) {packet : List UInt8} (h : IsDisplay packet) :
    (List.range ((received packet).length / 2)).map (displayData (blit data 0 (received packet))) =
      packetElements packet ++ staleElements (blit data 0 (received packet)) packet := by
  have hlen : (received packet).length / 2 = ((received packet).length - 18) / 2 + 9 := by
    have := h.1
    omega
  rw [hlen, List.range_add, List.map_append, List.map_map, packetElements, if_pos h]
  refine congrArg (· ++ _) (List.ext_getElem? fun n => ?_)
  by_cases hn : n < ((received packet).length - 18) / 2
  · rw [elements_getElem? _ n (by rw [List.length_drop]; omega)]
    have hbyte : ∀ k, k < (received packet).length - 18 →
        blit data 0 (received packet) (18 + k) = ((received packet).drop 18).getD k 0 := by
      intro k hk
      have := blit_of_mem data 0 (18 + k) (received packet) (by omega)
      simp only [Nat.zero_add] at this
      rw [this, List.getD_eq_getElem?_getD, List.getElem?_drop, List.getElem?_eq_getElem (by omega)]
      rfl
    simp only [List.getElem?_map, List.getElem?_range hn, Option.map_some, displayData, hbyte (2 * n) (by omega),
      Nat.add_assoc, hbyte (2 * n + 1) (by omega)]
  · rw [List.getElem?_eq_none (by simp; omega), List.getElem?_eq_none (by rw [elements_length]; simp; omega)]

/-- The first byte in the buffer is that of the packet. -/
theorem blit_received_zero (data : Nat → UInt8) {packet : List UInt8} (h : 18 ≤ (received packet).length) :
    blit data 0 (received packet) 0 = 108 ↔ packet.head? = some 108 := by
  cases packet with
  | nil => simp [received] at h
  | cons b packet => simp [received, RECV_BUF_SIZE, blit]

/-- One packet: the buffer takes it, and the display is given its elements and the nine behind them. -/
theorem readPacket_eq (m : Receiver) (packet : List UInt8) :
    readPacket isprint m packet =
      (lcdElements isprint (packetElements packet ++
        if IsDisplay packet then staleElements (blit m.recvbuf 0 (received packet)) packet else []) m.lcd).map
        fun lcd => ⟨blit m.recvbuf 0 (received packet), lcd⟩ := by
  rw [readPacket]
  by_cases hlen : (received packet).length < 18
  · have hnot : ¬ IsDisplay packet := fun h => absurd h.1 (by omega)
    simp [hlen, hnot, packetElements, lcdElements]
  · by_cases h : IsDisplay packet
    · have hfirst := (blit_received_zero m.recvbuf h.1).mpr h.2
      have heven : (if (received packet).length % 2 ≠ 0 then (received packet).length - 1
          else (received packet).length) / 2 = (received packet).length / 2 := by
        split <;> omega
      simp only [if_neg hlen, if_pos hfirst, if_pos h, receiveDisplayData, heven]
      rw [← displayData_received _ h, lcdElements, List.foldlM_map]
    · have hfirst : ¬ blit m.recvbuf 0 (received packet) 0 = 108 := fun hf =>
        h ⟨by omega, (blit_received_zero m.recvbuf (by omega)).mp hf⟩
      simp [hlen, hfirst, h, packetElements, lcdElements]

theorem readPackets_concat (m : Receiver) (packets : List (List UInt8)) (packet : List UInt8) :
    readPackets isprint m (packets ++ [packet]) =
      readPackets isprint m packets >>= fun m => readPacket isprint m packet := by
  simp [readPackets, List.foldlM_append]

theorem shown_concat (packets : List (List UInt8)) (packet : List UInt8) :
    shown isprint (packets ++ [packet]) = shown isprint packets >>= lcdElements isprint (packetElements packet) := by
  rw [shown, List.flatMap_append, lcdElements_append]
  simp [shown]

/-- The buffer does not depend on what the display shows. -/
theorem readPacket_recvbuf {m n : Receiver} {packet : List UInt8} (h : readPacket isprint m packet = some n) :
    n.recvbuf = blit m.recvbuf 0 (received packet) := by
  rw [readPacket_eq] at h
  obtain ⟨lcd, -, rfl⟩ := Option.map_eq_some_iff.mp h
  rfl

theorem readPackets_recvbuf {recvbuf : Nat → UInt8} {lcd : Lcd} {packets : List (List UInt8)} {m : Receiver}
    (h : readPackets isprint ⟨recvbuf, lcd⟩ packets = some m) : m.recvbuf = bufferAfter recvbuf packets := by
  induction packets using List.reverseRecOn generalizing m with
  | nil =>
    obtain rfl : (⟨recvbuf, lcd⟩ : Receiver) = m := by simpa [readPackets] using h
    rfl
  | append_singleton packets packet ih =>
    rw [readPackets_concat] at h
    obtain ⟨n, hn, hm⟩ := Option.bind_eq_some_iff.mp h
    rw [readPacket_recvbuf hm, ih hn]
    simp [bufferAfter]

theorem blankLcd_inside : blankLcd.Inside where
  length := rfl
  terminated := rfl
  addr_nonneg := le_refl _
  addr_le := by decide

/-- What is sent is always something the display can show. -/
theorem shown_inside (packets : List (List UInt8)) : ∃ s, shown isprint packets = some s ∧ s.Inside :=
  lcdElements_inside isprint blankLcd_inside _

/-- One packet more: the display goes on showing what was sent as long as the nine elements behind do nothing. -/
theorem shows_concat_iff {recvbuf : Nat → UInt8} {packets : List (List UInt8)} (h : Shows isprint recvbuf packets)
    (packet : List UInt8) :
    Shows isprint recvbuf (packets ++ [packet]) ↔ StaleIdle isprint recvbuf packets packet := by
  obtain ⟨m, s, hm, hs, rfl, hin⟩ := h
  obtain ⟨t, ht, htin⟩ := lcdElements_inside isprint hin (packetElements packet)
  have hshown : shown isprint (packets ++ [packet]) = some t := by rw [shown_concat, hs]; exact ht
  have hbuf : bufferAfter recvbuf (packets ++ [packet]) = blit m.recvbuf 0 (received packet) := by
    rw [readPackets_recvbuf hm]
    simp [bufferAfter]
  obtain ⟨u, hu, huin⟩ := lcdElements_inside isprint htin
    (if IsDisplay packet then staleElements (blit m.recvbuf 0 (received packet)) packet else [])
  have hread : readPackets isprint ⟨recvbuf, blankLcd⟩ (packets ++ [packet]) =
      some ⟨blit m.recvbuf 0 (received packet), u⟩ := by
    rw [readPackets_concat, hm]
    show readPacket isprint m packet = _
    rw [readPacket_eq, lcdElements_append, ht]
    show (lcdElements isprint _ t).map _ = _
    rw [hu]
    rfl
  have hiff : Shows isprint recvbuf (packets ++ [packet]) ↔ u = t := by
    constructor
    · rintro ⟨m', s', hm', hs', rfl, -⟩
      obtain rfl := Option.some.inj (hread.symm.trans hm')
      exact Option.some.inj (hs'.symm.trans hshown)
    · rintro rfl
      exact ⟨_, u, hread, hshown, rfl, huin⟩
  rw [hiff]
  constructor
  · rintro rfl hd s' hs'
    obtain rfl := Option.some.inj (hshown.symm.trans hs')
    rw [if_pos hd] at hu
    rw [hbuf, hu]
  · intro hidle
    by_cases hd : IsDisplay packet
    · have := hidle hd t hshown
      rw [if_pos hd, ← hbuf, this] at hu
      exact (Option.some.inj hu).symm
    · rw [if_neg hd] at hu
      exact (Option.some.inj hu).symm

theorem shows_nil (recvbuf : Nat → UInt8) : Shows isprint recvbuf [] :=
  ⟨_, blankLcd, rfl, rfl, rfl, blankLcd_inside⟩

end

section
variable (isprint : UInt8 → Bool) (recvbuf : Nat → UInt8)

/-- Over all of a run the display shows what was sent exactly if what stands in the receive buffer behind the elements
of each packet does nothing where they have led. -/
theorem shows_iff_staleIdle (packets : List (List UInt8)) :
    (∀ sent, sent <+: packets → Shows isprint recvbuf sent) ↔
      ∀ sent packet, sent ++ [packet] <+: packets → StaleIdle isprint recvbuf sent packet := by
  constructor
  · intro h sent packet hp
    exact (shows_concat_iff (h sent ((List.prefix_append _ _).trans hp)) packet).mp (h _ hp)
  · intro h sent
    induction sent using List.reverseRecOn with
    | nil => exact fun _ => shows_nil recvbuf
    | append_singleton sent packet ih =>
      intro hp
      exact (shows_concat_iff (ih ((List.prefix_append _ _).trans hp)) packet).mpr (h sent packet hp)

end

section
variable {isprint : UInt8 → Bool} {recvbuf : Nat → UInt8}

/-- Whatever is received, nothing is written outside the display and the cursor stays in its place. -/
theorem readPackets_inside (packets : List (List UInt8)) :
    ∃ m, readPackets isprint ⟨recvbuf, blankLcd⟩ packets = some m ∧ m.lcd.Inside := by
  induction packets using List.reverseRecOn with
  | nil => exact ⟨_, rfl, blankLcd_inside⟩
  | append_singleton packets packet ih =>
    obtain ⟨m, hm, hin⟩ := ih
    obtain ⟨lcd, hlcd, hlin⟩ := lcdElements_inside isprint hin (packetElements packet ++
      if IsDisplay packet then staleElements (blit m.recvbuf 0 (received packet)) packet else [])
    refine ⟨⟨blit m.recvbuf 0 (received packet), lcd⟩, ?_, hlin⟩
    rw [readPackets_concat, hm]
    show readPacket isprint m packet = _
    rw [readPacket_eq, hlcd]
    rfl

/-- The buffer is as it was behind the longest packet. -/
theorem bufferAfter_of_le {packets : List (List UInt8)} {i : Nat} (h : ∀ p ∈ packets, (received p).length ≤ i) :
    bufferAfter recvbuf packets i = recvbuf i := by
  induction packets generalizing recvbuf with
  | nil => rfl
  | cons p packets ih =>
    have hp := h p List.mem_cons_self
    rw [bufferAfter, List.foldl_cons, ← bufferAfter, ih fun q hq => h q (List.mem_cons_of_mem _ hq),
      blit_of_ge _ _ _ _ (by omega)]

theorem lcdElements_delay (n : Nat) (s : Lcd) : lcdElements isprint (List.replicate n (0, 0)) s = some s := by
  induction n with
  | zero => rfl
  | succ n ih => rw [List.replicate_succ, lcdElements, List.foldlM_cons]; exact ih

/-- Behind a packet that is as long as all before it stand the zeros that the buffer was allocated with. -/
theorem staleIdle_of_longest (hzero : ∀ i, recvbuf i = 0) {sent : List (List UInt8)} {packet : List UInt8}
    (heven : (received packet).length % 2 = 0) (hle : ∀ p ∈ sent, (received p).length ≤ (received packet).length) :
    StaleIdle isprint recvbuf sent packet := by
  intro hd s _
  have hbuf : ∀ i, (received packet).length ≤ i → bufferAfter recvbuf (sent ++ [packet]) i = 0 := by
    intro i hi
    rw [bufferAfter_of_le, hzero]
    intro p hp
    rcases List.mem_append.mp hp with hp | hp
    · exact (hle p hp).trans hi
    · rwa [List.mem_singleton.mp hp]
  have hstale : staleElements (bufferAfter recvbuf (sent ++ [packet])) packet = List.replicate 9 (0, 0) := by
    refine List.ext_getElem (by simp [staleElements]) fun i _ _ => ?_
    have := hd.1
    simp only [staleElements, List.getElem_map, List.getElem_range, displayData, List.getElem_replicate]
    rw [hbuf _ (by omega), hbuf _ (by omega)]
  rw [hstale, lcdElements_delay]

/-- Packets of even sizes that never get shorter are shown as they are sent. -/
theorem shows_of_growing (hzero : ∀ i, recvbuf i = 0) {packets : List (List UInt8)}
    (heven : ∀ p ∈ packets, (received p).length % 2 = 0)
    (hgrow : packets.Pairwise fun p q => (received p).length ≤ (received q).length) {sent : List (List UInt8)}
    (hp : sent <+: packets) : Shows isprint recvbuf sent := by
  induction sent using List.reverseRecOn with
  | nil => exact shows_nil recvbuf
  | append_singleton sent packet ih =>
    have hpair := List.pairwise_append.mp (hgrow.sublist hp.sublist)
    refine (shows_concat_iff (ih ((List.prefix_append _ _).trans hp)) packet).mpr ?_
    exact staleIdle_of_longest hzero (heven packet (hp.subset (by simp))) fun p hps => hpair.2.2 p hps packet (by simp)

end

/-- A character for the display, then a packet of its header alone: the second packet shows the character once more. -/
theorem shows_stale_characters :
    ¬ ∀ sent, sent <+: [108 :: List.replicate 17 0 ++ [3, 65], 108 :: List.replicate 17 0] →
      Shows (fun c => 32 ≤ c && c < 127) (fun _ => 0) sent := by
  intro h
  obtain ⟨m, s, hm, hs, rfl, -⟩ := h _ (List.prefix_refl _)
  have haddr : (readPackets (fun c => 32 ≤ c && c < 127) ⟨fun _ => 0, blankLcd⟩
      [108 :: List.replicate 17 0 ++ [3, 65], 108 :: List.replicate 17 0]).map (fun m => m.lcd.addr) = some 2 := by
    decide +kernel
  have hsent : (shown (fun c => 32 ≤ c && c < 127)
      [108 :: List.replicate 17 0 ++ [3, 65], 108 :: List.replicate 17 0]).map (fun s => s.addr) = some 1 := by
    decide +kernel
  rw [hm] at haddr
  rw [hs] at hsent
  simp_all

end Mvpmc.Mclient
