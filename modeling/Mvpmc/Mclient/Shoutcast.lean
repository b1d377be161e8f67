import Mvpmc.Mclient.OutBuf
import Mvpmc.Lib.Transducer

/-! `http_read_stream`: the audio of a Shoutcast stream told from the text between it. What is shown of the text
is left out. -/
namespace Mvpmc.Mclient
open Mvpmc.Lib

/-- The locals of `http_read_stream` that survive a receive. -/
structure MetaState where
  metaRead : Int
  metaStart : Int := 0
  metaIgnored : Int := 0

/-- How the reader breaks down: by a call of `abort`, or in `http_metadata` with a negative length. -/
inductive MetaStop where
  | abort | wildCopy
  deriving DecidableEq, Repr

/-- What a receive comes to: the calls of `http_buffer`, and the offsets and lengths of the writes to `metaTemp`. -/
structure Handled where
  state : MetaState
  buffered : List (List UInt8) := []
  temp : List (Int × Int) := []
  stop : Option MetaStop := none

/-- The bytes that `http_buffer` takes out of `recvbuf`. -/
def portion (recvbuf : List UInt8) (messageLength offset : Int) : List UInt8 :=
  (recvbuf.drop offset.toNat).take messageLength.toNat

/-- The value of a `char`. -/
def charValue (signed : Bool) (b : UInt8) : Int := if signed ∧ 128 ≤ b.toNat then b.toNat - 256 else b.toNat

/-- The bytes behind the text, if there are any. -/
def pastText (metaInt : Int) (m : MetaState) (recvbuf audio : List UInt8) (metaStart : Int) : Handled :=
  if metaStart < recvbuf.length then
    { state := { m with metaRead := metaInt - (recvbuf.length - metaStart), metaStart := metaStart }
      buffered := [audio, portion recvbuf (recvbuf.length - metaStart) metaStart] }
  else { state := { m with metaRead := metaInt, metaStart := metaStart }, buffered := [audio] }

/-- What `http_read_stream` does with the bytes received. -/
def metaPiece (signed : Bool) (metaInt : Int) (m : MetaState) (recvbuf : List UInt8) : Handled :=
  let messageLen : Int := recvbuf.length
  if metaInt = 0 then { state := { m with metaRead := m.metaRead - messageLen }, buffered := [recvbuf] }
  else if m.metaRead < messageLen then
    let metaData := charValue signed (recvbuf.getD m.metaRead.toNat 0)
    let audio := portion recvbuf m.metaRead 0
    if metaData = 0 then pastText metaInt m recvbuf audio (m.metaRead + 1)
    else
      let metaStart := m.metaRead + metaData * 16 + 1
      if metaStart ≤ messageLen then
        if metaData < 0 then
          { state := { m with metaRead := metaInt, metaStart := metaStart }, buffered := [audio], stop := some .wildCopy }
        else pastText metaInt m recvbuf audio metaStart
      else
        { state := ⟨metaInt + (metaStart - messageLen), metaStart - messageLen, messageLen - m.metaRead⟩
          buffered := [audio]
          temp := [(0, messageLen - m.metaRead), (messageLen - m.metaRead - 1, 1)] }
  else if metaInt < m.metaRead then
    if 4000 < m.metaStart + m.metaIgnored then { state := m, stop := some .abort }
    else
      let metaStart := m.metaRead - metaInt
      let temp := [(m.metaIgnored - 1, metaStart)]
      if metaInt < m.metaRead - messageLen then
        { state := ⟨m.metaRead - messageLen, metaStart, m.metaIgnored + metaStart⟩, temp := temp }
      else
        { state := { m with metaRead := m.metaRead - metaStart - (messageLen - metaStart), metaStart := metaStart }
          buffered := [portion recvbuf (messageLen - metaStart) metaStart]
          temp := temp }
  else { state := { m with metaRead := m.metaRead - messageLen }, buffered := [recvbuf] }

/-- The pieces received one after the other, until the reader breaks down. -/
def readStream (signed : Bool) (metaInt : Int) (m : MetaState) : List (List UInt8) → Handled
  | [] => { state := m }
  | piece :: pieces =>
    let h := metaPiece signed metaInt m piece
    if h.stop.isSome then h
    else
      let t := readStream signed metaInt h.state pieces
      { t with buffered := h.buffered ++ t.buffered, temp := h.temp ++ t.temp }

/-- A place in a Shoutcast stream: so many bytes of audio before the next length byte, or so many of text. -/
inductive Place where
  | audio (left : Nat)
  | text (left : Nat)
  deriving DecidableEq, Repr

/-- One byte further, and the byte if it is audio. -/
def Place.step (metaInt : Nat) : Place → UInt8 → Place × List UInt8
  | .audio 0, b => (if b = 0 then .audio metaInt else .text (16 * b.toNat), [])
  | .audio (k + 1), b => (.audio k, [b])
  | .text k, _ => (if k ≤ 1 then .audio metaInt else .text (k - 1), [])

/-- The audio bytes among those received. -/
def audioOf (metaInt : Nat) (bytes : List UInt8) : List UInt8 :=
  (Transducer.run (Place.step metaInt) (.audio metaInt) bytes).2

/-- A group of a Shoutcast stream: audio, a length byte, and text. -/
structure Group (metaInt : Nat) where
  audio : List UInt8
  size : UInt8
  text : List UInt8
  audio_length : audio.length = metaInt
  text_length : text.length = 16 * size.toNat

def Group.bytes {metaInt : Nat} (g : Group metaInt) : List UInt8 := g.audio ++ g.size :: g.text

/-- The audio is separated exactly: the reader does not break down, what it buffers is the audio received, and
it writes inside the 4081 bytes of `metaTemp`. -/
structure Separates (signed : Bool) (metaInt : Nat) (pieces : List (List UInt8)) : Prop where
  goesOn : (readStream signed metaInt ⟨metaInt, 0, 0⟩ pieces).stop = none
  audio : (readStream signed metaInt ⟨metaInt, 0, 0⟩ pieces).buffered.flatten = audioOf metaInt pieces.flatten
  inside : ∀ w ∈ (readStream signed metaInt ⟨metaInt, 0, 0⟩ pieces).temp, 0 ≤ w.1 ∧ 0 ≤ w.2 ∧ w.1 + w.2 ≤ 4081

/-- The place in front of a receive and, of the text it is in, how many bytes came with the length byte and how
many were left at each receive since, the latest first. -/
structure Track where
  place : Place
  first : Nat := 0
  rests : List Nat := []

namespace Track

/-- A receive further. -/
def receive (metaInt : Nat) (t : Track) (piece : List UInt8) : Track :=
  let place := (Transducer.run (Place.step metaInt) t.place piece).1
  match t.place with
  | .audio k => ⟨place, piece.length - (k + 1), []⟩
  | .text k => ⟨place, t.first, k :: t.rests⟩

/-- What the reader takes for the length of the text when `k` bytes of it are left: at every receive it adds all
that were left before it. -/
def tally (t : Track) (k : Nat) : Nat := t.rests.headD k + (t.first + 1 + t.rests.sum)

/-- The receive does not break the reader: a text is taken for no more than 4000 bytes, and where `char` is
signed its length byte is below 128. -/
def Fits (signed : Bool) (t : Track) (piece : List UInt8) : Prop :=
  match t.place with
  | .audio k => signed = true → (piece.getD k 0).toNat < 128
  | .text k => t.tally k ≤ 4000

def AllFit (signed : Bool) (metaInt : Nat) : Track → List (List UInt8) → Prop
  | _, [] => True
  | t, piece :: pieces => t.Fits signed piece ∧ (t.receive metaInt piece).AllFit signed metaInt pieces

instance decidableFits (signed : Bool) : (t : Track) → (piece : List UInt8) → Decidable (t.Fits signed piece)
  | ⟨.audio k, _, _⟩, piece => inferInstanceAs (Decidable (signed = true → (piece.getD k 0).toNat < 128))
  | ⟨.text k, first, rests⟩, _ => inferInstanceAs (Decidable (tally ⟨.text k, first, rests⟩ k ≤ 4000))

instance decidableAllFit (signed : Bool) (metaInt : Nat) (t : Track) :
    ∀ pieces, Decidable (t.AllFit signed metaInt pieces)
  | [] => .isTrue trivial
  | piece :: pieces =>
    have := decidableAllFit signed metaInt (t.receive metaInt piece) pieces
    inferInstanceAs (Decidable (t.Fits signed piece ∧ (t.receive metaInt piece).AllFit signed metaInt pieces))

end Track

section Places
variable {metaInt : Nat}

theorem run_audio (metaInt : Nat) {k : Nat} {bytes : List UInt8} (h : bytes.length ≤ k) :
    Transducer.run (Place.step metaInt) (.audio k) bytes = (.audio (k - bytes.length), bytes) := by
  induction bytes generalizing k with
  | nil => rfl
  | cons b bytes ih =>
    obtain ⟨k, rfl⟩ : ∃ j, k = j + 1 := ⟨k - 1, by rw [List.length_cons] at h; omega⟩
    rw [List.length_cons] at h
    rw [Transducer.run_cons, Place.step, ih (by omega), List.length_cons, Nat.add_sub_add_right]
    rfl

theorem run_text_lt (metaInt : Nat) {k : Nat} {bytes : List UInt8} (h : bytes.length < k) :
    Transducer.run (Place.step metaInt) (.text k) bytes = (.text (k - bytes.length), []) := by
  induction bytes generalizing k with
  | nil => rfl
  | cons b bytes ih =>
    rw [List.length_cons] at h
    have hk : ¬ k ≤ 1 := by omega
    rw [Transducer.run_cons, Place.step, if_neg hk, ih (by omega), List.length_cons, Nat.sub_sub, Nat.add_comm 1]
    rfl

theorem run_text_eq {k : Nat} {bytes : List UInt8} (hk : 0 < k) (h : bytes.length = k) :
    Transducer.run (Place.step metaInt) (.text k) bytes = (.audio metaInt, []) := by
  obtain ⟨front, b, rfl⟩ := List.eq_nil_or_concat bytes |>.resolve_left (by rintro rfl; simp at h; omega)
  rw [List.concat_eq_append] at h ⊢
  rw [List.length_append, List.length_singleton] at h
  have hone : k - front.length ≤ 1 := by omega
  rw [Transducer.run_append, run_text_lt _ (by omega), Transducer.run_singleton, Place.step, if_pos hone]
  rfl

/-- Text, and audio behind it up to the next length byte at most. -/
theorem run_text_past {metaInt k : Nat} {bytes : List UInt8} (hk : 0 < k) (h : k ≤ bytes.length)
    (hl : bytes.length - k ≤ metaInt) :
    Transducer.run (Place.step metaInt) (.text k) bytes = (.audio (metaInt - (bytes.length - k)), bytes.drop k) := by
  conv_lhs => rw [← List.take_append_drop k bytes]
  rw [Transducer.run_append, run_text_eq hk (List.length_take_of_le h)]
  dsimp only
  rw [run_audio _ (by rw [List.length_drop]; exact hl), List.length_drop, List.nil_append]

/-- Audio up to the length byte, and that byte. -/
theorem run_length (metaInt : Nat) {k : Nat} {bytes : List UInt8} (h : k < bytes.length) :
    Transducer.run (Place.step metaInt) (.audio k) bytes =
      let t := Transducer.run (Place.step metaInt) (if bytes[k] = 0 then .audio metaInt else .text (16 * bytes[k].toNat))
        (bytes.drop (k + 1))
      (t.1, bytes.take k ++ t.2) := by
  conv_lhs => rw [← List.take_append_drop k bytes, List.drop_eq_getElem_cons h]
  rw [Transducer.run_append, run_audio _ (List.length_take_le k bytes), List.length_take_of_le h.le, Nat.sub_self,
    Transducer.run_cons]
  rfl

theorem Group.run_bytes (g : Group metaInt) :
    Transducer.run (Place.step metaInt) (.audio metaInt) g.bytes = (.audio metaInt, g.audio) := by
  have ha := run_audio metaInt g.audio_length.le
  rw [g.audio_length, Nat.sub_self] at ha
  have hstep : Place.step metaInt (.audio 0) g.size =
      (if g.size = 0 then .audio metaInt else .text (16 * g.size.toNat), []) := rfl
  rw [Group.bytes, Transducer.run_append, ha]
  dsimp only
  rw [Transducer.run_cons, hstep]
  by_cases hz : g.size = 0
  · have htext : g.text = [] := by
      have hl := g.text_length
      rw [hz] at hl
      exact List.eq_nil_of_length_eq_zero hl
    rw [if_pos hz, htext, Transducer.run_nil]
    simp
  · have hpos : 0 < g.size.toNat := Nat.pos_of_ne_zero fun he => hz (UInt8.toNat_inj.mp he)
    rw [if_neg hz, run_text_eq (by omega) g.text_length]
    simp

/-- In a stream of whole groups it is the audio of each of them. -/
theorem audioOf_groups (groups : List (Group metaInt)) :
    audioOf metaInt (groups.flatMap Group.bytes) = groups.flatMap Group.audio := by
  have hrun : Transducer.run (Place.step metaInt) (.audio metaInt) (groups.flatMap Group.bytes) =
      (.audio metaInt, groups.flatMap Group.audio) := by
    induction groups with
    | nil => rfl
    | cons g groups ih =>
      rw [List.flatMap_cons, List.flatMap_cons, Transducer.run_append, g.run_bytes]
      dsimp only
      rw [ih]
  rw [audioOf, hrun]

end Places

/-- The reader's counters say where it is. -/
def Track.Sim (metaInt : Nat) (t : Track) (m : MetaState) : Prop :=
  match t.place with
  | .audio k => k ≤ metaInt ∧ m.metaRead = k
  | .text k => 0 < k ∧ m.metaRead = metaInt + k ∧ k ≤ t.rests.headD k ∧ m.metaStart = t.rests.headD k ∧
      m.metaIgnored = t.first + 1 + t.rests.sum

/-- A receive as it should be. -/
structure Handled.Good (metaInt : Nat) (t : Track) (piece : List UInt8) (h : Handled) : Prop where
  stop : h.stop = none
  sim : (t.receive metaInt piece).Sim metaInt h.state
  audio : h.buffered.flatten = (Transducer.run (Place.step metaInt) t.place piece).2
  inside : ∀ w ∈ h.temp, 0 ≤ w.1 ∧ 0 ≤ w.2 ∧ w.1 + w.2 ≤ 4081

section Pieces
variable {signed : Bool} {metaInt : Nat} {t : Track} {m : MetaState} {piece audio : List UInt8}

theorem pastText_eq (metaInt : Nat) (m : MetaState) (audio : List UInt8) {j : Nat} (hj : j ≤ piece.length) :
    (pastText metaInt m piece audio j).stop = none ∧ (pastText metaInt m piece audio j).temp = [] ∧
      (pastText metaInt m piece audio j).state.metaRead = metaInt - (piece.length - j : Nat) ∧
      (pastText metaInt m piece audio j).buffered.flatten = audio ++ piece.drop j := by
  unfold pastText
  split
  · rename_i hlt
    refine ⟨rfl, rfl, by dsimp only; omega, ?_⟩
    have hall : portion piece (piece.length - j) j = piece.drop j := by
      unfold portion
      rw [Int.toNat_natCast]
      exact List.take_of_length_le (by rw [List.length_drop]; omega)
    rw [hall]
    simp
  · rename_i hge
    have hend : j = piece.length := by omega
    refine ⟨rfl, rfl, by dsimp only; omega, ?_⟩
    rw [hend, List.drop_length]
    simp

theorem charValue_of_lt {b : UInt8} (h : signed = true → b.toNat < 128) : charValue signed b = b.toNat := by
  unfold charValue
  rw [if_neg]
  rintro ⟨hs, hge⟩
  have := h hs
  omega

section Audio
variable {k : Nat}

/-- A receive that ends in the audio behind a text. -/
theorem pastText_good {j : Nat} (hj : j ≤ piece.length) (hle : piece.length - j ≤ metaInt) (hp : t.place = .audio k)
    (hrun : Transducer.run (Place.step metaInt) (.audio k) piece =
      (.audio (metaInt - (piece.length - j)), piece.take k ++ piece.drop j)) :
    (pastText metaInt m piece (piece.take k) j).Good metaInt t piece := by
  obtain ⟨hstop, htemp, hmeta, hbuf⟩ := pastText_eq metaInt m (piece.take k) hj
  refine ⟨hstop, ?_, ?_, ?_⟩
  · unfold Track.Sim Track.receive
    rw [hp]
    dsimp only
    rw [hrun]
    exact ⟨Nat.sub_le _ _, by rw [hmeta]; omega⟩
  · rw [hbuf, hp, hrun]
  · rw [htemp]
    simp

theorem portion_front (hread : m.metaRead = k) : portion piece m.metaRead 0 = piece.take k := by
  unfold portion
  rw [hread, Int.toNat_natCast]
  rfl

theorem getD_lengthByte (hread : m.metaRead = k) (hlt : k < piece.length) :
    piece.getD m.metaRead.toNat 0 = piece[k] := by
  rw [hread, Int.toNat_natCast, List.getD_eq_getElem?_getD, List.getElem?_eq_getElem hlt, Option.getD_some]

/-- A receive that ends in the audio it began in. -/
theorem metaPiece_allAudio (hz : (metaInt : Int) ≠ 0) (hk : k ≤ metaInt) (hread : m.metaRead = k)
    (hp : t.place = .audio k) (hle : piece.length ≤ k) : (metaPiece signed metaInt m piece).Good metaInt t piece := by
  have hrun := run_audio metaInt hle
  have hh : metaPiece signed metaInt m piece =
      { state := { m with metaRead := m.metaRead - piece.length }, buffered := [piece] } := by
    unfold metaPiece
    dsimp only
    rw [if_neg hz, if_neg (by omega), if_neg (by omega)]
  rw [hh]
  refine ⟨rfl, ?_, ?_, by simp⟩
  · unfold Track.Sim Track.receive
    rw [hp]
    dsimp only
    rw [hrun]
    dsimp only
    omega
  · rw [hp, hrun]
    simp

/-- A length byte that announces no text. -/
theorem metaPiece_noText (hz : (metaInt : Int) ≠ 0) (hread : m.metaRead = k) (hp : t.place = .audio k)
    (hn : piece.length ≤ metaInt) (hlt : k < piece.length) (hb : piece[k] = 0) :
    (metaPiece signed metaInt m piece).Good metaInt t piece := by
  have hrun := run_length metaInt hlt
  have hpost := run_audio metaInt (show (piece.drop (k + 1)).length ≤ metaInt by rw [List.length_drop]; omega)
  rw [if_pos hb, hpost, List.length_drop] at hrun
  have hnone : charValue signed piece[k] = 0 := by
    rw [hb]
    exact charValue_of_lt fun _ => by decide
  have hh : metaPiece signed metaInt m piece = pastText metaInt m piece (piece.take k) (k + 1 : Nat) := by
    unfold metaPiece
    dsimp only
    rw [if_neg hz, if_pos (by omega), getD_lengthByte hread hlt, if_pos hnone, portion_front hread, hread]
    rfl
  rw [hh]
  exact pastText_good hlt (by omega) hp hrun

/-- A text that ends in the receive it began in. -/
theorem metaPiece_wholeText (hz : (metaInt : Int) ≠ 0) (hread : m.metaRead = k) (hp : t.place = .audio k)
    (hn : piece.length ≤ metaInt) (hlt : k < piece.length) (hvalue : charValue signed piece[k] = piece[k].toNat)
    (hb : piece[k] ≠ 0) (hend : k + 16 * piece[k].toNat + 1 ≤ piece.length) :
    (metaPiece signed metaInt m piece).Good metaInt t piece := by
  have hsize : 0 < piece[k].toNat := Nat.pos_of_ne_zero fun he => hb (UInt8.toNat_inj.mp he)
  have hj : k + 1 + 16 * piece[k].toNat = k + 16 * piece[k].toNat + 1 := by omega
  have hrun := run_length metaInt hlt
  rw [if_neg hb, run_text_past (by omega) (by rw [List.length_drop]; omega) (by rw [List.length_drop]; omega),
    List.length_drop, List.drop_drop, hj, Nat.sub_sub, hj] at hrun
  have hh : metaPiece signed metaInt m piece =
      pastText metaInt m piece (piece.take k) (k + 16 * piece[k].toNat + 1 : Nat) := by
    unfold metaPiece
    dsimp only
    rw [if_neg hz, if_pos (by omega), getD_lengthByte hread hlt, hvalue, if_neg (by omega), if_pos (by omega),
      if_neg (by omega), portion_front hread, hread]
    congr 1
    push_cast
    ring
  rw [hh]
  exact pastText_good hend (by omega) hp hrun

/-- A text of which the rest comes later. -/
theorem metaPiece_textBegun (hz : (metaInt : Int) ≠ 0) (hread : m.metaRead = k) (hp : t.place = .audio k)
    (hn : piece.length ≤ 4080) (hlt : k < piece.length) (hvalue : charValue signed piece[k] = piece[k].toNat)
    (hb : piece[k] ≠ 0) (hend : piece.length < k + 16 * piece[k].toNat + 1) :
    (metaPiece signed metaInt m piece).Good metaInt t piece := by
  have hsize : 0 < piece[k].toNat := Nat.pos_of_ne_zero fun he => hb (UInt8.toNat_inj.mp he)
  have hrun := run_length metaInt hlt
  rw [if_neg hb, run_text_lt _ (by rw [List.length_drop]; omega), List.length_drop] at hrun
  have hh : metaPiece signed metaInt m piece =
      { state := ⟨metaInt + (m.metaRead + (piece[k].toNat : Int) * 16 + 1 - piece.length),
          m.metaRead + (piece[k].toNat : Int) * 16 + 1 - piece.length, piece.length - m.metaRead⟩
        buffered := [piece.take k]
        temp := [(0, piece.length - m.metaRead), (piece.length - m.metaRead - 1, 1)] } := by
    unfold metaPiece
    dsimp only
    rw [if_neg hz, if_pos (by omega), getD_lengthByte hread hlt, hvalue, if_neg (by omega), if_neg (by omega),
      portion_front hread]
  rw [hh]
  refine ⟨rfl, ?_, ?_, ?_⟩
  · unfold Track.Sim Track.receive
    rw [hp]
    dsimp only
    rw [hrun]
    dsimp only [List.headD_nil, List.sum_nil]
    omega
  · rw [hp, hrun]
    simp
  · simp only [List.forall_mem_cons, List.not_mem_nil, false_implies, implies_true, and_true]
    omega

/-- A receive that begins in the audio. -/
theorem metaPiece_audio (hm : STREAM_PACKET_SIZE ≤ metaInt) (hn : piece.length ≤ STREAM_PACKET_SIZE)
    (hp : t.place = .audio k) (hs : t.Sim metaInt m) (hf : t.Fits signed piece) :
    (metaPiece signed metaInt m piece).Good metaInt t piece := by
  unfold STREAM_PACKET_SIZE at hm hn
  unfold Track.Sim at hs
  unfold Track.Fits at hf
  rw [hp] at hs hf
  obtain ⟨hk, hread⟩ := hs
  have hz : (metaInt : Int) ≠ 0 := by omega
  rcases Nat.lt_or_ge k piece.length with hlt | hle
  · have hbyte := getD_lengthByte hread hlt
    rw [hread, Int.toNat_natCast] at hbyte
    dsimp only at hf
    rw [hbyte] at hf
    have hvalue : charValue signed piece[k] = piece[k].toNat := charValue_of_lt hf
    by_cases hb : piece[k] = 0
    · exact metaPiece_noText hz hread hp (by omega) hlt hb
    · rcases Nat.lt_or_ge piece.length (k + 16 * piece[k].toNat + 1) with hend | hend
      · exact metaPiece_textBegun hz hread hp (by omega) hlt hvalue hb hend
      · exact metaPiece_wholeText hz hread hp (by omega) hlt hvalue hb hend
  · exact metaPiece_allAudio hz hk hread hp hle

end Audio

/-- A receive that begins in the text. -/
theorem metaPiece_text {k : Nat} (hm : STREAM_PACKET_SIZE ≤ metaInt) (hpos : 0 < piece.length)
    (hn : piece.length ≤ STREAM_PACKET_SIZE) (hp : t.place = .text k) (hs : t.Sim metaInt m) (hf : t.Fits signed piece) :
    (metaPiece signed metaInt m piece).Good metaInt t piece := by
  unfold STREAM_PACKET_SIZE at hm hn
  unfold Track.Sim at hs
  unfold Track.Fits Track.tally at hf
  rw [hp] at hs hf
  obtain ⟨hk, hread, hhead, hstart, hignored⟩ := hs
  dsimp only at hf
  have hzero : (metaInt : Int) ≠ 0 := by omega
  have hrest : m.metaRead - metaInt = k := by omega
  by_cases hlt : piece.length < k
  · have hrun := run_text_lt metaInt hlt
    have hh : metaPiece signed metaInt m piece =
        { state := ⟨m.metaRead - piece.length, k, m.metaIgnored + k⟩, temp := [(m.metaIgnored - 1, (k : Int))] } := by
      unfold metaPiece
      dsimp only
      rw [if_neg hzero, if_neg (by omega), if_pos (by omega), if_neg (by omega), if_pos (by omega), hrest]
    rw [hh]
    refine ⟨rfl, ?_, ?_, ?_⟩
    · unfold Track.Sim Track.receive
      rw [hp]
      dsimp only
      rw [hrun]
      simp only [List.headD_cons, List.sum_cons]
      exact ⟨by omega, by omega, by omega, trivial, by omega⟩
    · rw [hp, hrun]
      rfl
    · rw [List.forall_mem_singleton]
      dsimp only
      omega
  · have hle : k ≤ piece.length := not_lt.mp hlt
    have hrun := run_text_past hk hle (show piece.length - k ≤ metaInt by omega)
    have hh : metaPiece signed metaInt m piece =
        { state := { m with metaRead := m.metaRead - k - (piece.length - k), metaStart := k }
          buffered := [portion piece (piece.length - k) k], temp := [(m.metaIgnored - 1, (k : Int))] } := by
      unfold metaPiece
      dsimp only
      rw [if_neg hzero, if_neg (by omega), if_pos (by omega), if_neg (by omega), if_neg (by omega), hrest]
    rw [hh]
    refine ⟨rfl, ?_, ?_, ?_⟩
    · unfold Track.Sim Track.receive
      rw [hp]
      dsimp only
      rw [hrun]
      dsimp only
      omega
    · rw [hp, hrun]
      have hall : portion piece (piece.length - k) k = piece.drop k := by
        unfold portion
        rw [Int.toNat_natCast]
        exact List.take_of_length_le (by rw [List.length_drop]; omega)
      rw [hall]
      simp
    · rw [List.forall_mem_singleton]
      dsimp only
      omega

/-- A receive that breaks the reader. -/
theorem metaPiece_stops (hm : STREAM_PACKET_SIZE ≤ metaInt) (hn : piece.length ≤ STREAM_PACKET_SIZE)
    (hs : t.Sim metaInt m) (hf : ¬ t.Fits signed piece) : (metaPiece signed metaInt m piece).stop ≠ none := by
  unfold STREAM_PACKET_SIZE at hm hn
  unfold Track.Sim at hs
  unfold Track.Fits at hf
  have hzero : (metaInt : Int) ≠ 0 := by omega
  cases hp : t.place with
  | audio k =>
    rw [hp] at hs hf
    obtain ⟨hk, hread⟩ := hs
    dsimp only at hf
    push Not at hf
    obtain ⟨hsigned, hge⟩ := hf
    have hlt : k < piece.length := by
      by_contra hout
      rw [List.getD_eq_getElem?_getD, List.getElem?_eq_none (not_lt.mp hout)] at hge
      simp at hge
    have hget : piece.getD m.metaRead.toNat 0 = piece.getD k 0 := by
      rw [hread, Int.toNat_natCast]
    have hvalue : charValue signed (piece.getD k 0) = (piece.getD k 0).toNat - 256 := by
      unfold charValue
      rw [if_pos ⟨hsigned, hge⟩]
    have hbyte := (piece.getD k 0).toNat_lt
    unfold metaPiece
    dsimp only
    rw [if_neg hzero, if_pos (by omega), hget, hvalue, if_neg (by omega), if_pos (by omega), if_pos (by omega)]
    exact Option.some_ne_none _
  | text k =>
    rw [hp] at hs hf
    obtain ⟨hk, hread, hhead, hstart, hignored⟩ := hs
    unfold Track.tally at hf
    dsimp only at hf
    unfold metaPiece
    dsimp only
    rw [if_neg hzero, if_neg (by omega), if_pos (by omega), if_pos (by omega)]
    exact Option.some_ne_none _

theorem metaPiece_good (hm : STREAM_PACKET_SIZE ≤ metaInt) (hpos : 0 < piece.length)
    (hn : piece.length ≤ STREAM_PACKET_SIZE) (hs : t.Sim metaInt m) (hf : t.Fits signed piece) :
    (metaPiece signed metaInt m piece).Good metaInt t piece := by
  cases hp : t.place with
  | audio k => exact metaPiece_audio hm hn hp hs hf
  | text k => exact metaPiece_text hm hpos hn hp hs hf

end Pieces

section Runs
variable {signed : Bool} {metaInt : Nat} {t : Track} {m : MetaState} {pieces : List (List UInt8)}

theorem Track.receive_place (piece : List UInt8) :
    (t.receive metaInt piece).place = (Transducer.run (Place.step metaInt) t.place piece).1 := by
  unfold Track.receive
  split <;> rfl

/-- As long as the receives fit, the reader is where the stream is. -/
theorem readStream_of_allFit (hm : STREAM_PACKET_SIZE ≤ metaInt)
    (hp : ∀ p ∈ pieces, 0 < p.length ∧ p.length ≤ STREAM_PACKET_SIZE) (hs : t.Sim metaInt m)
    (hf : t.AllFit signed metaInt pieces) :
    (readStream signed metaInt m pieces).stop = none ∧
      (readStream signed metaInt m pieces).buffered.flatten =
        (Transducer.run (Place.step metaInt) t.place pieces.flatten).2 ∧
      ∀ w ∈ (readStream signed metaInt m pieces).temp, 0 ≤ w.1 ∧ 0 ≤ w.2 ∧ w.1 + w.2 ≤ 4081 := by
  induction pieces generalizing t m with
  | nil => exact ⟨rfl, rfl, by simp [readStream]⟩
  | cons piece pieces ih =>
    obtain ⟨⟨hpos, hn⟩, hrest⟩ := List.forall_mem_cons.mp hp
    obtain ⟨hfit, hfits⟩ := hf
    obtain ⟨hstop, hsim, haudio, hinside⟩ := metaPiece_good hm hpos hn hs hfit
    obtain ⟨hstops, haudios, hinsides⟩ := ih hrest hsim hfits
    have hgo : ¬ (metaPiece signed metaInt m piece).stop.isSome := by simp [hstop]
    rw [readStream]
    dsimp only
    rw [if_neg hgo]
    refine ⟨hstops, ?_, ?_⟩
    · rw [List.flatten_append, haudio, haudios, Track.receive_place, List.flatten_cons, Transducer.run_append]
    · intro w hw
      cases List.mem_append.mp hw with
      | inl h => exact hinside w h
      | inr h => exact hinsides w h

/-- The first receive that does not fit ends the run. -/
theorem allFit_of_readStream (hm : STREAM_PACKET_SIZE ≤ metaInt)
    (hp : ∀ p ∈ pieces, 0 < p.length ∧ p.length ≤ STREAM_PACKET_SIZE) (hs : t.Sim metaInt m)
    (hstop : (readStream signed metaInt m pieces).stop = none) : t.AllFit signed metaInt pieces := by
  induction pieces generalizing t m with
  | nil => trivial
  | cons piece pieces ih =>
    obtain ⟨⟨hpos, hn⟩, hrest⟩ := List.forall_mem_cons.mp hp
    rw [readStream] at hstop
    dsimp only at hstop
    by_cases hfit : t.Fits signed piece
    · have hgood := metaPiece_good hm hpos hn hs hfit
      have hgo : ¬ (metaPiece signed metaInt m piece).stop.isSome := by simp [hgood.stop]
      rw [if_neg hgo] at hstop
      exact ⟨hfit, ih hrest hgood.sim hstop⟩
    · have hbreak := metaPiece_stops hm hn hs hfit
      rw [if_pos (Option.isSome_iff_ne_none.mpr hbreak)] at hstop
      exact absurd hstop hbreak

end Runs

/-- The audio is separated exactly when every receive fits. -/
theorem separates_iff (signed : Bool) {metaInt : Nat} (hm : STREAM_PACKET_SIZE ≤ metaInt) {pieces : List (List UInt8)}
    (hp : ∀ p ∈ pieces, 0 < p.length ∧ p.length ≤ STREAM_PACKET_SIZE) :
    Separates signed metaInt pieces ↔ (Track.mk (.audio metaInt) 0 []).AllFit signed metaInt pieces := by
  have hs : (Track.mk (.audio metaInt) 0 []).Sim metaInt ⟨metaInt, 0, 0⟩ := ⟨le_rfl, rfl⟩
  constructor
  · intro h
    exact allFit_of_readStream hm hp hs h.goesOn
  · intro h
    obtain ⟨hstop, haudio, hinside⟩ := readStream_of_allFit hm hp hs h
    exact ⟨hstop, haudio, hinside⟩

/-- A text of 32 bytes that comes in two receives. -/
theorem separates_short_text :
    Separates true 1448 [List.replicate 1448 7, 2 :: List.replicate 12 65, List.replicate 20 65 ++ [8, 9]] := by
  refine (separates_iff true (by decide) ?_).mpr ?_
  · decide +kernel
  · decide +kernel

/-- A text of 4000 bytes that begins in one receive and goes on in the next. -/
theorem long_text_aborts :
    ¬ Separates false 1448 [List.replicate 1448 0, [250], List.replicate 1448 32, List.replicate 1448 32,
      List.replicate 1104 32] := by
  have hstop : (readStream false 1448 ⟨1448, 0, 0⟩ [List.replicate 1448 0, [250], List.replicate 1448 32,
      List.replicate 1448 32, List.replicate 1104 32]).stop = some .abort := by decide +kernel
  intro h
  have hgo := h.goesOn
  rw [Nat.cast_ofNat, hstop] at hgo
  exact Option.some_ne_none _ hgo

end Mvpmc.Mclient
