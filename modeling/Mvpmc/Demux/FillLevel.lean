import Mvpmc.Demux.Indices

/-! The fill statistic `cur_bytes`: when it is the number of bytes a drain could return. -/
namespace Mvpmc.Demux
open Mvpmc.Lib Mvpmc.Lib.Circular

namespace Stream
variable {s s' : Stream}

/-- The ring is in order and its statistic is what it holds. -/
structure Told (s : Stream) : Prop where
  ok : s.Ok
  curBytes : s.attr.stats.curBytes = UInt32.ofNat s.avail

/-- The order of a ring depends on its indices only. -/
theorem Ok.of_indices (h : s.Ok) (hh : s'.head = s.head) (ht : s'.tail = s.tail) (hz : s'.size = s.size) : s'.Ok :=
  ⟨hz ▸ h.size_lt, hh ▸ hz ▸ h.head_lt, ht ▸ hz ▸ h.tail_lt, hh ▸ ht ▸ h.head_ne⟩

theorem avail_of_indices (hh : s'.head = s.head) (ht : s'.tail = s.tail) (hz : s'.size = s.size) :
    s'.avail = s.avail := by
  rw [avail, avail, hh, ht, hz]

theorem Told.of_indices (h : s.Told) (hh : s'.head = s.head) (ht : s'.tail = s.tail) (hz : s'.size = s.size)
    (hc : s'.attr.stats.curBytes = s.attr.stats.curBytes) : s'.Told :=
  ⟨h.ok.of_indices hh ht hz, by rw [hc, h.curBytes, avail_of_indices hh ht hz]⟩

theorem Told.of_same (h : s.Told) (hs : SameStore s s') : s'.Told := h.of_indices hs.head hs.tail hs.size hs.curBytes

/-- Bytes that leave a ring leave the statistic. -/
theorem Told.less (h : s.Told) {n : Nat} (hn : n ≤ s.avail) (hok : s'.Ok) (hav : s'.avail = s.avail - n)
    (hc : s'.attr.stats.curBytes = s.attr.stats.curBytes - UInt32.ofInt n) : s'.Told := by
  refine ⟨hok, ?_⟩
  have hcast : UInt32.ofInt (n : Int) = UInt32.ofNat n := by
    have hmod : ((n : Int) % 2 ^ 32).toNat = n % 2 ^ 32 := by omega
    rw [UInt32.ofInt, hmod]
    exact UInt32.ofNat_mod_size
  rw [hc, h.curBytes, hav, hcast, UInt32.ofNat_sub hn]

theorem Told.drain (h : s.Told) (max : Int) : (s.drain max).1.Told := by
  obtain ⟨hok, hcon, hout⟩ := drain_eq h.ok max
  have hlen := congrArg List.length hcon
  rw [contents_length, List.length_drop, contents_length] at hlen
  have hn : (s.drain max).2.1 = ((min max.toNat s.avail : Nat) : Int) := by
    rw [hout, List.length_take, contents_length]
  refine h.less (n := min max.toNat s.avail) (Nat.min_le_right ..) hok (by omega) ?_
  rw [← hn]
  change (s.peek max).1.attr.stats.curBytes - UInt32.ofInt (s.peek max).2.1 = _
  rw [(s.peek_same max).curBytes]
  rfl

theorem Told.drainFd (h : s.Told) (max : Int) (first second : Option Nat) : (s.drainFd max first second).1.Told := by
  obtain ⟨n, hn, -, hok, hcon, hout⟩ := drainFd_eq h.ok max first second
  have hlen := congrArg List.length hcon
  rw [contents_length, List.length_drop, contents_length] at hlen
  rcases s.drainFd_cases max first second with ⟨he, -⟩ | he
  · rw [he]
    exact h
  · refine h.less hn hok hlen ?_
    rw [he, hout]
    rfl

theorem Told.empty (h : s.Told) : s.empty.Told := by
  obtain ⟨hok, hcon⟩ := empty_eq h.ok
  have hav : s.empty.avail = 0 := by rw [← contents_length, hcon, List.length_nil]
  exact ⟨hok, by rw [hav]; rfl⟩

/-- A block goes into a ring without a parser as a whole or not at all. -/
theorem Told.append (h : s.Told) (seeking : Bool) (data : List UInt8) (hl : data.length + 6 < s.size) :
    (s.append seeking data).1.Told := by
  obtain ⟨hok, -, hcase⟩ := append_eq h.ok seeking data hl
  refine ⟨hok, ?_⟩
  rw [← contents_length]
  unfold Stream.append at hcase ⊢
  split
  · rw [contents_length]
    exact h.curBytes
  · rename_i hd
    rw [if_neg hd] at hcase
    split
    · rename_i hf
      exact h.curBytes.trans (by rw [← contents_length]; rfl)
    · rename_i hf
      rw [if_neg hf] at hcase
      rcases hcase with ⟨-, hcon, -⟩ | ⟨⟨-, -⟩, -, hn⟩
      · rw [hcon, List.length_append, contents_length, UInt32.ofNat_add, ← h.curBytes]
        cases seeking <;> rfl
      · exact absurd hn hd

end Stream

namespace Scan

/-- The scan does not touch `seeking`; only its end does. -/
theorem code_seeking (sc : Scan) (tail head size identifier : Nat) :
    (sc.code tail head size identifier).1.h.seeking = sc.h.seeking := by
  have hgop (sc : Scan) : (sc.gopCode tail head size).1.h.seeking = sc.h.seeking := by
    unfold gopCode
    dsimp only
    split
    · split
      · rfl
      · split
        · rfl
        · split <;> rfl
    · rfl
  unfold code
  split
  · unfold videoCode
    dsimp only
    split
    · rfl
    · rw [seekStart_h]
  · split
    · unfold pictureCode
      split
      · split <;> rfl
      · rfl
    · split
      · unfold sequenceCode announceAspect
        dsimp only
        split
        · split <;> split <;> rfl
        · rfl
      · split
        · unfold userDataCode announceAspect
          dsimp only
          split
          · rw [hgop]
            split
            · split <;> rfl
            · rfl
          · rfl
        · split
          · exact hgop sc
          · rfl

theorem loop_seeking (tail head size fuel : Nat) (sc : Scan) :
    (loop tail head size fuel sc).h.seeking = sc.h.seeking := by
  induction fuel generalizing sc with
  | zero => rfl
  | succ fuel ih =>
    unfold loop
    dsimp only
    split
    · split
      · have hc := code_seeking (sc.wrap size) tail head size ((sc.wrap size).behind size 1).toNat
        split
        · exact hc
        · exact (ih _).trans hc
      · exact ih _
    · rfl

end Scan

/-- The parser ends seeks and starts none. -/
theorem runParser_seeking {h : Handle} (w : Bool) (stop : Nat) (hs : h.seeking = false) :
    (runParser h w stop).seeking = false := by
  have hl := Scan.loop_seeking h.video.parserTail stop h.video.size h.video.size { h := h, i := h.video.parserTail + 5 }
  have hp : (parseVideoStream h h.video.parserTail stop h.video.size).1.seeking = false := by
    unfold parseVideoStream
    dsimp only
    split
    · rfl
    · exact hl.trans hs
  unfold runParser
  dsimp only
  split <;> exact hp

/-- The parser moves the parser's tail; the head and the tail only where a seek ends. -/
theorem runParser_indices (h : Handle) (w : Bool) (stop : Nat) :
    (runParser h w stop).video.size = h.video.size ∧
      (runParser h w stop).video.seekingHead = h.video.seekingHead ∧
      (runParser h w stop).video.seekingHeadValid = h.video.seekingHeadValid ∧
      (runParser h w stop).video.attr.stats.curBytes = h.video.attr.stats.curBytes ∧
      (runParser h w stop).video.head = (if w && !(runParser h w stop).seeking then stop else h.video.head) ∧
      (runParser h w stop).video.tail =
        (if w && !(runParser h w stop).seeking then (runParser h w stop).video.parserTail else h.video.tail) := by
  have hring := (parseVideoStream_only h h.video.parserTail stop h.video.size).ring
  generalize hp : parseVideoStream h h.video.parserTail stop h.video.size = r at hring
  have hrun : runParser h w stop =
      if w && !r.1.seeking then
        { r.1 with video := { r.1.video with
            parserTail := h.video.prod stop r.2, head := stop, tail := h.video.prod stop r.2 } }
      else { r.1 with video := { r.1.video with parserTail := h.video.prod stop r.2 } } := by
    rw [← hp]
    rfl
  have hvideo (f : Stream → Nat) : f r.1.video = f { h.video with
      buf := r.1.video.buf, parserData := r.1.video.parserData
      attr.stats.video := r.1.video.attr.stats.video } := congrArg f hring
  by_cases hend : (w && !r.1.seeking) = true
  · rw [if_pos hend] at hrun
    rw [hrun]
    simp only [hend, if_true]
    refine ⟨hvideo Stream.size, hvideo Stream.seekingHead, ?_, ?_, trivial, trivial⟩
    · rw [hring]
    · rw [hring]
  · rw [if_neg hend] at hrun
    rw [hrun]
    simp only [hend, Bool.false_eq_true, if_false]
    refine ⟨hvideo Stream.size, hvideo Stream.seekingHead, ?_, ?_, hvideo Stream.head, hvideo Stream.tail⟩
    · rw [hring]
    · rw [hring]

namespace Handle
variable {h : Handle} {data : List UInt8}

theorem parsed_size : (h.parsed data).video.size = h.video.size := by
  have hr := (runParser_indices (h.written data) h.seeking (h.video.stop h.seeking data)).1
  exact (Stream.filled_same ..).1.size.trans (hr.trans
    ((Stream.advance_same ..).1.size.trans (Stream.hide_same ..).1.size))

/-- The statistic counts every block that the ring takes. -/
theorem parsed_curBytes : (h.parsed data).video.attr.stats.curBytes =
    h.video.attr.stats.curBytes + UInt32.ofNat data.length := by
  obtain ⟨-, -, -, hr, -, -⟩ := runParser_indices (h.written data) h.seeking (h.video.stop h.seeking data)
  have hw : (h.written data).video.attr.stats.curBytes = h.video.attr.stats.curBytes := by
    unfold written Stream.advance
    rw [Stream.hide_eq]
    dsimp only
    split <;> rfl
  unfold parsed Stream.filled Stream.countFill
  dsimp only
  split <;> exact congrArg (· + UInt32.ofNat data.length) (hr.trans hw)

/-- Outside a seek the head moves over the block. -/
theorem parsed_play (hs : h.seeking = false) :
    (h.parsed data).seeking = false ∧ (h.parsed data).video.head = h.video.stop false data ∧
      (h.parsed data).video.tail = h.video.tail ∧ (h.parsed data).video.seekingHeadValid = false := by
  obtain ⟨-, -, -, -, hh, ht⟩ := runParser_indices (h.written data) h.seeking (h.video.stop h.seeking data)
  have hend := runParser_seeking (h := h.written data) h.seeking (h.video.stop h.seeking data) hs
  have hhide : h.video.hide false = h.video := if_neg fun he => Bool.false_ne_true he.1
  rw [hs] at hh ht hend
  refine ⟨?_, ?_, ?_, ?_⟩ <;> unfold parsed <;> dsimp only <;> rw [hs]
  · exact hend
  · rw [hend]
    refine hh.trans ?_
    unfold written
    rw [hs, hhide]
    rfl
  · rw [hend]
    refine ht.trans ?_
    unfold written
    rw [hs, hhide]
    rfl
  · rw [hend]
    rfl

/-- Inside a seek the head of the seek moves. -/
theorem parsed_seek (hs : h.seeking = true) (hgo : (h.parsed data).seeking = true) :
    (h.parsed data).video.head = h.video.head ∧ (h.parsed data).video.tail = (h.video.hide true).tail ∧
      (h.parsed data).video.seekingHead = h.video.stop true data ∧
      (h.parsed data).video.seekingHeadValid = true := by
  obtain ⟨-, hsh, hsv, -, hh, ht⟩ := runParser_indices (h.written data) h.seeking (h.video.stop h.seeking data)
  have hgo' : (runParser (h.written data) h.seeking (h.video.stop h.seeking data)).seeking = true := hgo
  rw [hgo'] at hh ht
  rw [hs] at hsh hsv hh ht hgo'
  refine ⟨?_, ?_, ?_, ?_⟩ <;> unfold parsed <;> dsimp only <;> rw [hs, hgo']
  · refine hh.trans ?_
    unfold written
    rw [hs, Stream.hide_eq]
    rfl
  · refine ht.trans ?_
    unfold written
    rw [hs]
    rfl
  · refine hsh.trans ?_
    unfold written
    rw [hs]
    simp only [Stream.advance, if_true]
    rw [Stream.hide_eq]
    rfl
  · refine hsv.trans ?_
    unfold written
    rw [hs]
    rfl

/-- Where a seek ends the ring starts behind the parser's tail. -/
theorem parsed_end (hs : h.seeking = true) (hend : (h.parsed data).seeking = false) :
    (h.parsed data).video.head = h.video.stop true data ∧
      (h.parsed data).video.tail = (h.parsed data).video.parserTail ∧
      (h.parsed data).video.seekingHeadValid = false := by
  obtain ⟨-, -, -, -, hh, ht⟩ := runParser_indices (h.written data) h.seeking (h.video.stop h.seeking data)
  have hend' : (runParser (h.written data) h.seeking (h.video.stop h.seeking data)).seeking = false := hend
  rw [hend'] at hh ht
  rw [hs] at hh ht hend'
  refine ⟨?_, ?_, ?_⟩ <;> unfold parsed <;> dsimp only <;> rw [hs, hend']
  · exact hh
  · exact ht
  · rfl

end Handle

/-- A block that is not refused leaves room before the limit. -/
theorem Stream.room_of_limit {size head limit len : Nat} (hz : size < 2147483648) (hh : head < size)
    (ht : limit < size) (hl : len + 6 < size) (hf : Stream.isFull size head limit len = false) :
    (head + size - limit - 1) % size + len + 7 ≤ size := by
  have hne : head ≠ limit := by
    rintro rfl
    simp [Stream.isFull] at hf
  let s : Stream := { Stream.init size with head := head, tail := limit }
  have hok : s.Ok := ⟨hz, hh, ht, hne⟩
  by_contra hno
  have hfull := (Stream.isFull_iff hok hl).mpr hno
  exact absurd (hf.symm.trans hfull) Bool.false_ne_true

/-- Outside a seek the earlier one of the two tails bounds the ring. -/
theorem Stream.room_of_accepts {s : Stream} (hok : s.Ok) (hp : s.parserTail < s.size) (hc : s.parserCallback = true)
    {data : List UInt8} (hl : data.length + 6 < s.size) (hf : s.refuses false data = false) :
    s.avail + data.length + 7 ≤ s.size := by
  have hh := hok.head_lt
  have ht := hok.tail_lt
  have hlimit : s.limit false = s.parserTail ∧
      (s.head + s.size - s.tail) % s.size < (s.head + s.size - s.parserTail) % s.size ∨ s.limit false = s.tail := by
    unfold Stream.limit
    rw [if_pos hc, if_neg Bool.false_ne_true]
    split
    · exact .inl ⟨rfl, ‹_›⟩
    · exact .inr rfl
  have hw : s.writeHead false = s.head := if_neg fun he => Bool.false_ne_true he.1
  unfold Stream.refuses at hf
  rw [hw] at hf
  rcases hlimit with ⟨he, hlt⟩ | he <;> rw [he] at hf
  · have hroom := Stream.room_of_limit hok.size_lt hh hp hl hf
    have hne : s.head ≠ s.parserTail := by
      intro heq
      rw [heq, Nat.add_sub_cancel_left, Nat.mod_self] at hlt
      omega
    rcases hok.avail_cases with ⟨h1, hav⟩ | ⟨h1, hav⟩ <;>
      rcases mod_cases (s.head + s.size - s.tail) s.size (by omega) with ⟨h2, hd⟩ | ⟨h2, hd⟩ <;>
      rcases mod_cases (s.head + s.size - s.parserTail) s.size (by omega) with ⟨h3, hd'⟩ | ⟨h3, hd'⟩ <;>
      rcases mod_cases (s.head + s.size - s.parserTail - 1) s.size (by omega) with ⟨h4, hd''⟩ | ⟨h4, hd''⟩ <;>
      omega
  · exact Stream.room_of_limit hok.size_lt hh ht hl hf

/-- The head moves over a block that fits. -/
theorem Stream.avail_advance {s s' : Stream} (hok : s.Ok) {len : Nat} (hroom : s.avail + len + 7 ≤ s.size)
    (hh : s'.head = (s.head + len) % s.size) (ht : s'.tail = s.tail) (hz : s'.size = s.size) :
    s'.Ok ∧ s'.avail = s.avail + len := by
  have h1 := hok.head_lt
  have h2 := hok.tail_lt
  have hcase := mod_cases (s.head + len) s.size (by omega)
  have hok' : s'.Ok := by
    refine ⟨hz ▸ hok.size_lt, ?_, ?_, ?_⟩
    · rw [hh, hz]
      exact Nat.mod_lt _ (by omega)
    · rw [ht, hz]
      exact h2
    · rw [hh, ht]
      rcases hok.avail_cases with ⟨hlt, he⟩ | ⟨hlt, he⟩ <;> rcases hcase with ⟨hw, hs⟩ | ⟨hw, hs⟩ <;> omega
  refine ⟨hok', ?_⟩
  rcases hok'.avail_cases with ⟨hlt', he'⟩ | ⟨hlt', he'⟩ <;> rw [he'] <;> rw [hh, ht] at hlt' ⊢ <;>
    rcases hok.avail_cases with ⟨hlt, he⟩ | ⟨hlt, he⟩ <;> rcases hcase with ⟨hw, hs⟩ | ⟨hw, hs⟩ <;> omega

/-- What the statistic tells during a seek: the bytes from the head, where the seek began, to the
head of the seek. Nothing is visible, and the parser has skipped nothing. -/
structure Stream.Hidden (s : Stream) : Prop where
  ok : s.Ok
  empty : s.head = (s.tail + 1) % s.size
  parserTail : s.parserTail = s.tail
  seekingHead : s.seekingHead < s.size
  curBytes : s.attr.stats.curBytes = UInt32.ofNat ((s.seekingHead + s.size - s.tail - 1) % s.size)

/-- Each `stream_add` leaves seven cells of its ring free; a video block during a seek finds the
ring empty if it is the first, and leaves the parser in front of the first byte of the seek. -/
def Accounted (h : Handle) (sid : StreamId) (data : List UInt8) : Prop :=
  data.length + 6 < (h.stream sid).size ∧ Unprodded h sid data ∧
    (sid = .video → h.seeking = true →
      (h.video.seekingHeadValid = false → h.video.head = (h.video.tail + 1) % h.video.size) ∧
      (h.video.refuses true data = false → (h.parsed data).video.parserTail = h.video.tail))

/-- The statistics tell the truth, or a seek is under way. -/
structure Level (size : Nat) (h : Handle) : Prop where
  range : InRange size h
  audio : h.audio.Told
  seeking : h.video.seekingHeadValid = true → h.seeking = true
  visible : h.video.seekingHeadValid = false → h.video.Told
  hidden : h.video.seekingHeadValid = true → h.video.Hidden

namespace Level
variable {size : Nat} {h : Handle} {data : List UInt8}

theorem ok (hl : Level size h) : h.video.Ok := by
  cases hv : h.video.seekingHeadValid with
  | false => exact (hl.visible hv).ok
  | true => exact (hl.hidden hv).ok

theorem quiet {h' : Handle} (hl : Level size h) (hq : Quiet h h') : Level size h' := by
  have hv := hq.video
  refine ⟨hl.range.quiet hq, hl.audio.of_same hq.audio, ?_, ?_, ?_⟩
  · rw [hv.seekingHeadValid, hq.seeking]
    exact hl.seeking
  · rw [hv.seekingHeadValid]
    exact fun he => (hl.visible he).of_same hv
  · rw [hv.seekingHeadValid]
    intro he
    have hh := hl.hidden he
    refine ⟨hh.ok.of_indices hv.head hv.tail hv.size, ?_, ?_, ?_, ?_⟩
    · rw [hv.head, hv.tail, hv.size, hh.empty]
    · rw [hv.parserTail, hv.tail, hh.parserTail]
    · rw [hv.seekingHead, hv.size]
      exact hh.seekingHead
    · rw [hv.curBytes, hv.seekingHead, hv.size, hv.tail, hh.curBytes]

/-- During a seek the ring looks empty, so there is nothing to hide. -/
theorem hide_eq_self (hl : Level size h) (ha : Accounted h .video data) : h.video.hide h.seeking = h.video := by
  refine if_neg ?_
  rintro ⟨hs, hne⟩
  refine hne ?_
  cases hv : h.video.seekingHeadValid with
  | false => exact (ha.2.2 rfl hs).1 hv
  | true => exact (hl.hidden hv).empty

/-- Where a seek stands: the bytes of it that are in the ring, and the room there is. -/
theorem seek_room (hl : Level size h) (ha : Accounted h .video data) (hs : h.seeking = true)
    (hf : h.video.refuses true data = false) : ∃ n, h.video.attr.stats.curBytes = UInt32.ofNat n ∧
      h.video.writeHead true = (h.video.tail + 1 + n) % h.video.size ∧ n + data.length + 1 < h.video.size := by
  have hz : data.length + 6 < h.video.size := ha.1
  have hok := hl.ok
  have ht := hok.tail_lt
  cases hv : h.video.seekingHeadValid with
  | false =>
    have hempty := (ha.2.2 rfl hs).1 hv
    have hw : h.video.writeHead true = h.video.head := if_neg fun he => Bool.false_ne_true (hv.symm.trans he.2)
    have hav : h.video.avail = 0 := by
      rcases mod_cases (h.video.tail + 1) h.video.size (by omega) with ⟨h1, he⟩ | ⟨h1, he⟩ <;>
        rcases hok.avail_cases with ⟨h2, ha'⟩ | ⟨h2, ha'⟩ <;> omega
    refine ⟨0, ?_, hw.trans hempty, by omega⟩
    rw [(hl.visible hv).curBytes, hav]
  | true =>
    have hh := hl.hidden hv
    have hw : h.video.writeHead true = h.video.seekingHead := if_pos ⟨rfl, hv⟩
    have hlim : h.video.limit true = h.video.tail := by
      unfold Stream.limit
      rw [if_pos hl.range.videoCallback, if_pos rfl, hh.parserTail]
    unfold Stream.refuses at hf
    rw [hw, hlim] at hf
    have hroom := Stream.room_of_limit hok.size_lt hh.seekingHead ht hz hf
    refine ⟨_, hh.curBytes, ?_, by omega⟩
    have hsh := hh.seekingHead
    rw [hw, Nat.add_mod_mod, show h.video.tail + 1 + (h.video.seekingHead + h.video.size - h.video.tail - 1) =
      h.video.seekingHead + h.video.size by omega, Nat.add_mod_right, Nat.mod_eq_of_lt hsh]

/-- `n` bytes behind the tail of a ring. -/
theorem distance {size tail n : Nat} (ht : tail < size) (hn : n + 1 < size) :
    ((tail + 1 + n) % size + size - tail - 1) % size = n := by
  rcases mod_cases (tail + 1 + n) size (by omega) with ⟨h1, he⟩ | ⟨h1, he⟩ <;> rw [he]
  · rw [show tail + 1 + n + size - tail - 1 = n + size by omega, Nat.add_mod_right, Nat.mod_eq_of_lt (by omega)]
  · rw [show tail + 1 + n - size + size - tail - 1 = n by omega, Nat.mod_eq_of_lt (by omega)]

/-- In play the bytes go behind the head, and both the head and the count move on. -/
theorem parsed_told_play (hl : Level size h) (ha : Accounted h .video data) (hs : h.seeking = false)
    (hf : h.video.refuses false data = false) : (h.parsed data).video.Told := by
  have hz : data.length + 6 < h.video.size := ha.1
  have hok := hl.ok
  obtain ⟨-, hhead, htail, -⟩ := @Handle.parsed_play h data hs
  have hvalid : h.video.seekingHeadValid = false := by
    by_contra hne
    exact Bool.false_ne_true (hs.symm.trans (hl.seeking (by simpa using hne)))
  have htold := hl.visible hvalid
  have hroom := Stream.room_of_accepts hok hl.range.video.parserTail hl.range.videoCallback hz hf
  have hw : h.video.writeHead false = h.video.head := if_neg fun he => Bool.false_ne_true he.1
  have hstop : (h.parsed data).video.head = (h.video.head + data.length) % h.video.size := by
    rw [hhead, Stream.stop, hw]
  obtain ⟨hok', hav⟩ := Stream.avail_advance hok hroom hstop htail Handle.parsed_size
  exact ⟨hok', by rw [Handle.parsed_curBytes, htold.curBytes, hav, UInt32.ofNat_add]⟩

/-- At the end of a seek the bytes collected become visible. -/
theorem parsed_told_end (hl : Level size h) (ha : Accounted h .video data) (hs : h.seeking = true)
    (hf : h.video.refuses true data = false) (hr : InRange size (h.parsed data))
    (hend : (h.parsed data).seeking = false) : (h.parsed data).video.Told := by
  have ht := hl.ok.tail_lt
  obtain ⟨hhead, htail, -⟩ := Handle.parsed_end hs hend
  obtain ⟨n, hcur, hwrite, hroom⟩ := hl.seek_room ha hs hf
  have htail' : (h.parsed data).video.tail = h.video.tail := htail.trans ((ha.2.2 rfl hs).2 hf)
  have hstop : (h.parsed data).video.head = (h.video.tail + 1 + (n + data.length)) % h.video.size := by
    rw [hhead, Stream.stop, hwrite, Nat.mod_add_mod, ← Nat.add_assoc]
  have hdist := distance ht (n := n + data.length) (by omega)
  rw [← hstop] at hdist
  have hav : (h.parsed data).video.avail = n + data.length := by
    rw [Stream.avail, Handle.parsed_size, htail', hdist]
  refine ⟨⟨?_, hr.video.head, hr.video.tail, ?_⟩, ?_⟩
  · rw [Handle.parsed_size]
    exact hl.ok.size_lt
  · rw [htail', hstop]
    rcases mod_cases (h.video.tail + 1 + (n + data.length)) h.video.size (by omega) with ⟨h1, he⟩ | ⟨h1, he⟩ <;> omega
  · rw [Handle.parsed_curBytes, hcur, hav, UInt32.ofNat_add]

/-- While a seek goes on the ring looks empty, and the bytes collected are counted. -/
theorem parsed_hidden (hl : Level size h) (ha : Accounted h .video data) (hs : h.seeking = true)
    (hf : h.video.refuses true data = false) (hr : InRange size (h.parsed data))
    (hv : (h.parsed data).video.seekingHeadValid = true) (hgo : (h.parsed data).seeking = true) :
    (h.parsed data).video.Hidden := by
  have hok := hl.ok
  have hhide := hl.hide_eq_self ha
  rw [hs] at hhide
  obtain ⟨hhead, htail, hseek, -⟩ := Handle.parsed_seek hs hgo
  rw [hhide] at htail
  obtain ⟨n, hcur, hwrite, hroom⟩ := hl.seek_room ha hs hf
  have hempty : h.video.head = (h.video.tail + 1) % h.video.size := by
    cases hv' : h.video.seekingHeadValid with
    | false => exact (ha.2.2 rfl hs).1 hv'
    | true => exact (hl.hidden hv').empty
  have hstop : (h.parsed data).video.seekingHead = (h.video.tail + 1 + (n + data.length)) % h.video.size := by
    rw [hseek, Stream.stop, hwrite, Nat.mod_add_mod, ← Nat.add_assoc]
  have hdist := distance hok.tail_lt (n := n + data.length) (by omega)
  refine ⟨hok.of_indices hhead htail Handle.parsed_size, ?_, ?_, hr.video.seekingHead hv, ?_⟩
  · rw [hhead, htail, Handle.parsed_size]
    exact hempty
  · rw [htail]
    exact (ha.2.2 rfl hs).2 hf
  · rw [Handle.parsed_curBytes, hcur, hstop, Handle.parsed_size, htail, hdist, UInt32.ofNat_add]

theorem parsed (hl : Level size h) (ha : Accounted h .video data) (hf : h.video.refuses h.seeking data = false)
    (hr : InRange size (h.parsed data)) (haudio : (h.parsed data).audio = h.audio) : Level size (h.parsed data) := by
  refine ⟨hr, haudio ▸ hl.audio, ?_, ?_, ?_⟩
  · cases hs : h.seeking with
    | false => exact fun he => absurd ((Handle.parsed_play hs).2.2.2.symm.trans he) Bool.false_ne_true
    | true =>
      intro he
      by_contra hno
      have hend := (Handle.parsed_end hs (Bool.not_eq_true _ ▸ hno)).2.2
      exact Bool.false_ne_true (hend.symm.trans he)
  · intro hv
    cases hs : h.seeking with
    | false =>
      rw [hs] at hf
      exact hl.parsed_told_play ha hs hf
    | true =>
      rw [hs] at hf
      have hend : (h.parsed data).seeking = false := by
        by_contra hne
        have hgo := (Handle.parsed_seek hs (by simpa using hne)).2.2.2
        exact Bool.false_ne_true (hv.symm.trans hgo)
      exact hl.parsed_told_end ha hs hf hr hend
  · intro hv
    have hs : h.seeking = true := by
      by_contra hne
      have hplay := (@Handle.parsed_play h data (by simpa using hne)).2.2.2
      exact Bool.false_ne_true (hplay.symm.trans hv)
    have hgo : (h.parsed data).seeking = true := by
      by_contra hne
      have hend := (Handle.parsed_end hs (by simpa using hne)).2.2
      exact Bool.false_ne_true (hend.symm.trans hv)
    rw [hs] at hf
    exact hl.parsed_hidden ha hs hf hr hv hgo

theorem add (hl : Level size h) (sid : StreamId) (ha : Accounted h sid data) :
    Level size (streamAdd h sid data sid.force).1 := by
  have hr := streamAdd_inRange hl.range sid data ha.2.1
  cases sid with
  | audio =>
    simp only [StreamId.force] at hr ⊢
    rw [streamAdd_audio h data hl.range.audioCallback] at hr ⊢
    exact ⟨hr, hl.audio.append h.seeking data ha.1, hl.seeking, hl.visible, hl.hidden⟩
  | video =>
    simp only [StreamId.force] at hr ⊢
    have haudio := (streamAdd_video h data hl.range.videoCallback).1.audio
    rcases streamAdd_video_cases data hl.range.videoCallback with ⟨-, he⟩ | ⟨-, he⟩ | ⟨-, hf, he⟩ <;>
      rw [he] at hr haudio ⊢
    · exact hl
    · rw [hl.hide_eq_self ha]
      refine hl.quiet ⟨.refl _, ?_, rfl, rfl, rfl⟩
      exact ⟨rfl, rfl, rfl, rfl, rfl, rfl, rfl, rfl, rfl⟩
    · exact hl.parsed ha hf hr haudio

end Level

namespace Stream
variable {s : Stream}

/-- A drain of a ring that looks empty changes nothing. -/
theorem drained_none (hok : s.Ok) : SameStore s (s.drained 0) := by
  have ht := hok.tail_lt
  have hz := hok.size_lt
  refine ⟨rfl, rfl, ?_, rfl, rfl, rfl, rfl, rfl, ?_⟩
  · change u32 ((s.tail : Int) + 0) % s.size = s.tail
    rw [Int.add_zero, u32_of_lt (by omega), Nat.mod_eq_of_lt ht]
  · change s.attr.stats.curBytes - 0 = s.attr.stats.curBytes
    exact UInt32.sub_zero _

theorem drain_none (hok : s.Ok) (hav : s.avail = 0) (max : Int) : SameStore s (s.drain max).1 := by
  have ht := hok.tail_lt
  have hz := hok.size_lt
  have hnone : (s.peek max).2.1 = 0 := by
    rw [peek_eq hok max, List.length_take, contents_length, hav, Nat.min_zero]
    rfl
  have hp := s.peek_same max
  refine ⟨hp.buf, hp.head, ?_, hp.size, hp.parserTail, hp.seekingHead, hp.seekingHeadValid, hp.parserCallback, ?_⟩
  · change u32 ((s.tail : Int) + (s.peek max).2.1) % s.size = s.tail
    rw [hnone, Int.add_zero, u32_of_lt (by omega), Nat.mod_eq_of_lt ht]
  · change (s.peek max).1.attr.stats.curBytes - UInt32.ofInt (s.peek max).2.1 = s.attr.stats.curBytes
    rw [hnone, hp.curBytes]
    exact UInt32.sub_zero _

theorem drainFd_none (hok : s.Ok) (hav : s.avail = 0) (max : Int) (first second : Option Nat) :
    SameStore s (s.drainFd max first second).1 := by
  obtain ⟨n, hn, -, -, -, hout⟩ := drainFd_eq hok max first second
  have h0 : n = 0 := by omega
  rcases s.drainFd_cases max first second with ⟨he, -⟩ | he
  · rw [he]
    exact .refl s
  · rw [he, hout, h0]
    exact drained_none hok

theorem Hidden.avail (hh : s.Hidden) : s.avail = 0 := by
  have ht := hh.ok.tail_lt
  have hd := Level.distance ht (n := 0) (by have := hh.ok.avail_lt; omega)
  rw [Nat.add_zero, ← hh.empty] at hd
  exact hd

end Stream

/-- The calls after which the statistics are right: those whose `stream_add`s are accounted for, no flush
in the middle of a seek, and no reset while a statistic is not zero. -/
def FillKept (h : Handle) : AnyCall → Prop
  | .base (.put buf past) => Steps Accounted h (demuxPut h buf past).1
  | .base .flush => h.video.seekingHeadValid = false
  | .reset => h.audio.attr.stats.curBytes = 0 ∧ h.video.attr.stats.curBytes = 0
  | .attrReset => h.audio.attr.stats.curBytes = 0 ∧ h.video.attr.stats.curBytes = 0
  | _ => True

/-- A call that leaves the video ring and its statistic alone, or one that drains it. -/
theorem Level.setStream {size : Nat} {h : Handle} (hl : Level size h) {sid : StreamId} {s : Stream}
    (hr : InRange size (h.setStream sid s)) (htold : (h.stream sid).Told → s.Told)
    (hhide : (h.stream sid).Hidden → SameStore (h.stream sid) s)
    (hv : s.seekingHeadValid = (h.stream sid).seekingHeadValid) : Level size (h.setStream sid s) := by
  cases sid with
  | audio => exact ⟨hr, htold hl.audio, hl.seeking, hl.visible, hl.hidden⟩
  | video =>
    cases hvalid : h.video.seekingHeadValid with
    | true => exact hl.quiet (.setStream (hhide (hl.hidden hvalid)) : Quiet h (h.setStream .video s))
    | false =>
      have hv' : s.seekingHeadValid = false := hv.trans hvalid
      refine ⟨hr, hl.audio, ?_, fun _ => htold (hl.visible hvalid), ?_⟩
      · exact fun he => absurd (hv'.symm.trans he) Bool.false_ne_true
      · exact fun he => absurd (hv'.symm.trans he) Bool.false_ne_true

/-- An empty ring of at least two cells whose statistic is zero. -/
theorem Stream.Told.of_empty {s : Stream} (h2 : 2 ≤ s.size) (hz : s.size < 2147483648) (hh : s.head = 0)
    (ht : s.tail = s.size - 1) (hc : s.attr.stats.curBytes = 0) : s.Told := by
  refine ⟨⟨hz, by omega, by omega, by omega⟩, ?_⟩
  have hav : s.avail = 0 := by
    rw [Stream.avail, hh, ht, show 0 + s.size - (s.size - 1) - 1 = 0 by omega, Nat.zero_mod]
  rw [hc, hav]
  rfl

theorem base_level {size : Nat} {h : Handle} (hl : Level size h) (c : Call) (hc : FillKept h (.base c)) :
    Level size (c.run h) := by
  cases c with
  | put buf past =>
    refine Steps.keep Level.quiet ?_ ?_ hc hl
    · intro g n hg
      exact ⟨hg.range.of_same (.refl _) (.refl _) rfl, hg.audio, hg.seeking, hg.visible, hg.hidden⟩
    · intro g sid data hg ha
      exact hg.add sid ha
  | get sid max =>
    have hr := base_inRange hl.range (.get sid max) trivial
    simp only [Call.run, demuxGet] at hr ⊢
    split
    · exact hl
    · rename_i hm
      rw [if_neg hm] at hr
      exact hl.setStream hr (·.drain max) (fun hh => Stream.drain_none hh.ok hh.avail max)
        ((h.stream sid).peek_same max).seekingHeadValid
  | write sid max first second =>
    have hr := base_inRange hl.range (.write sid max first second) trivial
    refine hl.setStream hr (·.drainFd max first second)
      (fun hh => Stream.drainFd_none hh.ok hh.avail max first second) ?_
    rcases (h.stream sid).drainFd_cases max first second with ⟨he, -⟩ | he <;> rw [he]
    rfl
  | jit data => exact hl.quiet (.of_eq rfl rfl rfl rfl rfl)
  | select sid id =>
    simp only [Call.run, demuxSetStream]
    split
    · exact hl
    · split
      · refine hl.quiet (.setStream ?_)
        exact ⟨rfl, rfl, rfl, rfl, rfl, rfl, rfl, rfl, rfl⟩
      · exact hl
  | seek =>
    have hr := base_inRange hl.range .seek trivial
    exact ⟨hr, hl.audio, fun _ => rfl, hl.visible, hl.hidden⟩
  | flush =>
    have hr := base_inRange hl.range .flush trivial
    refine ⟨hr, hl.audio.empty, fun _ => rfl, fun _ => (hl.visible hc).empty, ?_⟩
    exact fun he => absurd (hc.symm.trans he) Bool.false_ne_true

theorem call_level {size : Nat} {h : Handle} (h10 : 10 ≤ size) (hz : size < 2147483648) (hl : Level size h)
    (c : AnyCall) (hc : FillKept h c) : Level size (c.run h) := by
  have hsize := hl.range.size
  have h5 : 5 ≤ size := by omega
  cases c with
  | base c => exact base_level hl c hc
  | reset =>
    have hr := call_inRange h5 hl.range .reset trivial
    refine ⟨hr, ?_, fun _ => rfl, fun _ => ?_, fun he => absurd he Bool.false_ne_true⟩
    · refine .of_empty ?_ ?_ rfl rfl hc.1
      · change 2 ≤ h.size / 5
        omega
      · change h.size / 5 < _
        omega
    · refine .of_empty ?_ ?_ rfl rfl hc.2
      · change 2 ≤ h.size - h.size / 5
        omega
      · change h.size - h.size / 5 < _
        omega
  | attrReset =>
    have hr := call_inRange h5 hl.range .attrReset trivial
    refine ⟨hr, hl.audio.of_indices rfl rfl rfl hc.1.symm, hl.seeking, ?_, ?_⟩
    · exact fun he => (hl.visible he).of_indices rfl rfl rfl hc.2.symm
    · intro he
      have hh := hl.hidden he
      exact ⟨hh.ok.of_indices rfl rfl rfl, hh.empty, hh.parserTail, hh.seekingHead, hc.2.symm.trans hh.curBytes⟩

theorem init_level {size : Nat} (h10 : 10 ≤ size) (hz : size < 2147483648) (junk : Nat → UInt8) :
    Level size (demuxInit size junk) := by
  refine ⟨init_inRange (by omega) junk, ?_, fun _ => rfl, fun _ => ?_, fun he => absurd he Bool.false_ne_true⟩
  · refine .of_empty ?_ ?_ rfl rfl rfl
    · change 2 ≤ size / 5
      omega
    · change size / 5 < _
      omega
  · refine .of_empty ?_ ?_ rfl rfl rfl
    · change 2 ≤ size - size / 5
      omega
    · change size - size / 5 < _
      omega

/-- The payload of a short video packet with the header of an I frame. -/
def iFramePayload : List UInt8 := [0xFF, 0, 0xFF, 0xFF, 0, 0, 1, 0, 0xFF, 8, 0xFF, 0xFF]

section FirstPacket

/-- A fresh handle that has read the type and the length of such a packet. -/
private def headed : Handle :=
  (collect ((startFrame ({ demuxInit 100 fun _ => 0 with state := 4 }.counted 3) 0xE0).meet .video 0xE0) 2 [0, 12]).1

private def addPart (h : Handle) (data : List UInt8) : Handle :=
  { (streamAdd h .video data false).1 with headernum := h.headernum + 1 }

private theorem addPart_steps {h g : Handle} {data : List UInt8} (hs : Steps Accounted h g)
    (hc : Accounted g .video data) : Steps Accounted h (addPart g data) :=
  .quiet (.add .video data hs hc) (.of_eq rfl rfl rfl rfl rfl)

private def part1 : Handle := addPart headed (startCode 0xE0)
private def part2 : Handle := addPart part1 [0, 12]
private def part3 : Handle := addPart part2 (startCode 0xE0)
private def part4 : Handle := addPart part3 [0, 12]
private def part5 : Handle := { part4 with video := part4.video.countFrame }

private theorem accounted_of {h : Handle} {data : List UInt8} (hl : data.length + 6 < h.video.size)
    (hu : 10 < (h.video.size + h.video.parserTail - h.video.stop h.seeking data) % h.video.size)
    (he : h.video.seekingHeadValid = false → h.video.head = (h.video.tail + 1) % h.video.size)
    (hp : (h.parsed data).video.parserTail = h.video.tail) : Accounted h .video data :=
  ⟨hl, fun _ => .inr hu, fun _ _ => ⟨he, fun _ => hp⟩⟩

private theorem firstPacket_steps : Steps Accounted (demuxInit 100 fun _ => 0)
    (demuxPut (demuxInit 100 fun _ => 0) ([0, 0, 1, 0xE0, 0, 12] ++ iFramePayload) fun _ => 0).1 := by
  have hput : (demuxPut (demuxInit 100 fun _ => 0) ([0, 0, 1, 0xE0, 0, 12] ++ iFramePayload) fun _ => 0).1 =
      Handle.counted { (streamAdd part5 .video iFramePayload false).1 with state := 1 } 16 := rfl
  have hscan : Steps Accounted (demuxInit 100 fun _ => 0) ({ demuxInit 100 fun _ => 0 with state := 4 }.counted 3) :=
    .count 3 (.quiet .refl (.of_eq rfl rfl rfl rfl rfl))
  have h0 : Steps Accounted (demuxInit 100 fun _ => 0) headed := by
    refine .quiet hscan ⟨.refl _, ?_, rfl, rfl, rfl⟩
    exact ⟨rfl, rfl, rfl, rfl, rfl, rfl, rfl, rfl, rfl⟩
  have h1 : Steps Accounted (demuxInit 100 fun _ => 0) part1 :=
    addPart_steps h0 (accounted_of (by decide) (by decide) (by decide) (by decide))
  have h2 : Steps Accounted (demuxInit 100 fun _ => 0) part2 :=
    addPart_steps h1 (accounted_of (by decide) (by decide) (by decide) (by decide))
  have h3 : Steps Accounted (demuxInit 100 fun _ => 0) part3 :=
    addPart_steps h2 (accounted_of (by decide) (by decide) (by decide) (by decide))
  have h4 : Steps Accounted (demuxInit 100 fun _ => 0) part4 :=
    addPart_steps h3 (accounted_of (by decide) (by decide) (by decide) (by decide))
  have h5 : Steps Accounted (demuxInit 100 fun _ => 0) part5 := by
    refine .quiet h4 ⟨.refl _, ?_, rfl, rfl, rfl⟩
    exact ⟨rfl, rfl, rfl, rfl, rfl, rfl, rfl, rfl, rfl⟩
  have h6 := Steps.add .video iFramePayload h5
    (accounted_of (by decide) (by decide) (by decide) (by decide))
  rw [hput]
  exact .count 16 (.quiet h6 (.of_eq rfl rfl rfl rfl rfl))

end FirstPacket

end Mvpmc.Demux
