import Mvpmc.Demux.Steps
import Mvpmc.Demux.VideoAdd

/-! The indices of the rings stay inside them, unless the parser is prodded off the last
cell of the video ring. -/
namespace Mvpmc.Demux
open Mvpmc.Lib Mvpmc.Lib.Circular

/-- The indices of a ring are below its size. -/
structure Stream.InRange (s : Stream) : Prop where
  head : s.head < s.size
  tail : s.tail < s.size
  parserTail : s.parserTail < s.size
  seekingHead : s.seekingHeadValid = true → s.seekingHead < s.size

/-- Before the last cell of the ring, or with more than ten free cells behind the new
bytes, a parser that has got nowhere is not prodded off the end of the ring. -/
def Unprodded (h : Handle) (sid : StreamId) (data : List UInt8) : Prop :=
  sid = .video → h.video.parserTail + 1 < h.video.size ∨
    10 < (h.video.size + h.video.parserTail - h.video.stop h.seeking data) % h.video.size

theorem SameStore.inRange {s s' : Stream} (hs : SameStore s s') (hr : s.InRange) : s'.InRange := by
  refine ⟨?_, ?_, ?_, ?_⟩
  · rw [hs.head, hs.size]
    exact hr.head
  · rw [hs.tail, hs.size]
    exact hr.tail
  · rw [hs.parserTail, hs.size]
    exact hr.parserTail
  · rw [hs.seekingHeadValid, hs.seekingHead, hs.size]
    exact hr.seekingHead

/-- Both rings are in range, and only the video ring is parsed. -/
structure InRange (size : Nat) (h : Handle) : Prop where
  audio : h.audio.InRange
  video : h.video.InRange
  audioCallback : h.audio.parserCallback = false
  videoCallback : h.video.parserCallback = true
  size : h.size = size

theorem InRange.quiet {size : Nat} {h h' : Handle} (hr : InRange size h) (hq : Quiet h h') : InRange size h' :=
  ⟨hq.audio.inRange hr.audio, hq.video.inRange hr.video, hq.audio.parserCallback.trans hr.audioCallback,
    hq.video.parserCallback.trans hr.videoCallback, hq.size.trans hr.size⟩

namespace Stream
variable {s : Stream}

theorem InRange.pos (hr : s.InRange) : 0 < s.size := Nat.lt_of_le_of_lt (Nat.zero_le _) hr.head

theorem InRange.hide (hr : s.InRange) (w : Bool) : (s.hide w).InRange := by
  unfold Stream.hide
  split
  · exact ⟨hr.head, Nat.mod_lt _ hr.pos, hr.parserTail, hr.seekingHead⟩
  · exact hr

theorem InRange.advance (hr : s.InRange) (w : Bool) (head : Nat) (data : List UInt8) :
    (s.advance w head data).InRange := by
  unfold Stream.advance
  dsimp only
  split
  · exact ⟨hr.head, hr.tail, hr.parserTail, fun _ => Nat.mod_lt _ hr.pos⟩
  · exact ⟨Nat.mod_lt _ hr.pos, hr.tail, hr.parserTail, hr.seekingHead⟩

theorem InRange.filled (hr : s.InRange) (seeking : Bool) (n : Nat) : (s.filled seeking n).InRange := by
  cases seeking with
  | false => exact ⟨hr.head, hr.tail, hr.parserTail, fun h => absurd h Bool.false_ne_true⟩
  | true => exact ⟨hr.head, hr.tail, hr.parserTail, hr.seekingHead⟩

theorem peek_same (s : Stream) (max : Int) : SameStore s (s.peek max).1 := by
  unfold peek countEmpty
  split
  · exact .refl s
  · split <;> exact ⟨rfl, rfl, rfl, rfl, rfl, rfl, rfl, rfl, rfl⟩

/-- A drain through a descriptor fails, or moves the tail over what was written. -/
theorem drainFd_cases (s : Stream) (max : Int) (first second : Option Nat) :
    (s.drainFd max first second).1 = s ∧ (s.drainFd max first second).2.1 = 0 ∨
      (s.drainFd max first second).1 = s.drained (s.drainFd max first second).2.1 := by
  unfold drainFd
  generalize (if max ≥ 0 then clip max s.spans else s.spans) = sizes
  dsimp only
  split
  · split
    · exact .inl ⟨rfl, rfl⟩
    · split
      · exact .inr rfl
      · split <;> exact .inr rfl
  · split <;> exact .inr rfl

theorem InRange.drain (hr : s.InRange) (max : Int) : (s.drain max).1.InRange := by
  have hp := (s.peek_same max).inRange hr
  have hsize := (s.peek_same max).size
  exact ⟨hp.head, hsize ▸ Nat.mod_lt _ hr.pos, hp.parserTail, hp.seekingHead⟩

theorem InRange.drainFd (hr : s.InRange) (max : Int) (first second : Option Nat) :
    (s.drainFd max first second).1.InRange := by
  rcases s.drainFd_cases max first second with ⟨he, -⟩ | he <;> rw [he]
  · exact hr
  · exact ⟨hr.head, Nat.mod_lt _ hr.pos, hr.parserTail, hr.seekingHead⟩

end Stream

theorem parseVideoStream_tail (h : Handle) (tail head : Nat) {size : Nat} (hz : 0 < size) :
    (parseVideoStream h tail head size).2 < size := Nat.mod_lt _ hz

/-- The parser brings its tail back into the ring, and so does the end of a seek. -/
theorem runParser_inRange {h : Handle} (hr : h.video.InRange) (w : Bool) {stop : Nat} (hstop : stop < h.video.size)
    (hspare : h.video.parserTail + 1 < h.video.size ∨
      10 < (h.video.size + h.video.parserTail - stop) % h.video.size) : (runParser h w stop).video.InRange := by
  have hs := parseVideoStream_only h h.video.parserTail stop h.video.size
  have hring := hs.ring
  have htail := parseVideoStream_tail h h.video.parserTail stop hr.pos
  have hnew : h.video.prod stop (parseVideoStream h h.video.parserTail stop h.video.size).2 < h.video.size := by
    unfold Stream.prod
    split
    · rename_i hp
      obtain ⟨he, hle⟩ := hp
      rw [he] at hle ⊢
      omega
    · exact htail
  have hsame : (parseVideoStream h h.video.parserTail stop h.video.size).1.video.InRange := by
    rw [hring]
    exact ⟨hr.head, hr.tail, hr.parserTail, hr.seekingHead⟩
  have hsize : (parseVideoStream h h.video.parserTail stop h.video.size).1.video.size = h.video.size := by
    rw [hring]
  unfold runParser
  dsimp only
  split
  · refine ⟨?_, ?_, ?_, hsame.seekingHead⟩ <;> dsimp only <;> rw [hsize]
    · exact hstop
    · exact hnew
    · exact hnew
  · refine ⟨hsame.head, hsame.tail, ?_, hsame.seekingHead⟩
    dsimp only
    rw [hsize]
    exact hnew

theorem InRange.setStream {size : Nat} {h : Handle} (hr : InRange size h) {sid : StreamId} {s : Stream}
    (hs : s.InRange) (hc : s.parserCallback = (h.stream sid).parserCallback) : InRange size (h.setStream sid s) := by
  cases sid with
  | audio => exact ⟨hs, hr.video, hc.trans hr.audioCallback, hr.videoCallback, hr.size⟩
  | video => exact ⟨hr.audio, hs, hr.audioCallback, hc.trans hr.videoCallback, hr.size⟩

theorem parsed_inRange {h : Handle} (hr : h.video.InRange) (data : List UInt8) (hu : Unprodded h .video data) :
    (h.parsed data).video.InRange := by
  have hw : (h.written data).video.InRange := (hr.hide _).advance _ _ data
  have hsize : (h.written data).video.size = h.video.size :=
    (Stream.advance_same ..).1.size.trans (Stream.hide_same ..).1.size
  have hpt : (h.written data).video.parserTail = h.video.parserTail := by
    simp only [Handle.written, Stream.advance]
    rw [Stream.hide_eq]
    split <;> rfl
  refine Stream.InRange.filled (runParser_inRange hw h.seeking ?_ ?_) _ _
  · rw [hsize]
    exact Nat.mod_lt _ hr.pos
  · rw [hsize, hpt]
    exact hu rfl

/-- The audio ring takes a block, or refuses it. -/
theorem append_inRange {s : Stream} (hr : s.InRange) (seeking : Bool) (data : List UInt8) :
    (s.append seeking data).1.InRange := by
  unfold Stream.append
  split
  · exact hr
  · split
    · exact ⟨hr.head, hr.tail, hr.parserTail, hr.seekingHead⟩
    · exact (hr.advance ..).filled ..

/-- `stream_add` keeps the indices in range where the parser is not prodded off the ring. -/
theorem streamAdd_inRange {size : Nat} {h : Handle} (hr : InRange size h) (sid : StreamId) (data : List UInt8)
    (hu : Unprodded h sid data) : InRange size (streamAdd h sid data sid.force).1 := by
  cases sid with
  | audio =>
    simp only [StreamId.force]
    rw [streamAdd_audio h data hr.audioCallback]
    exact (hr.setStream (append_inRange hr.audio ..) (Stream.append_same ..).parserCallback : InRange size (h.setStream .audio _))
  | video =>
    obtain ⟨honly, hsame⟩ := streamAdd_video h data hr.videoCallback
    have hv : (streamAdd h .video data false).1.video.InRange := by
      rcases streamAdd_video_cases data hr.videoCallback with ⟨-, he⟩ | ⟨-, he⟩ | ⟨-, -, he⟩ <;> rw [he]
      · exact hr.video
      · have hh := hr.video.hide h.seeking
        exact ⟨hh.head, hh.tail, hh.parserTail, hh.seekingHead⟩
      · exact parsed_inRange hr.video data hu
    exact ⟨honly.audio ▸ hr.audio, hv, honly.audio ▸ hr.audioCallback, hsame.parserCallback.trans hr.videoCallback,
      (honly.field Handle.size).trans hr.size⟩

/-- The calls whose `stream_add`s all meet `C`. -/
def AddsMeet (C : Handle → StreamId → List UInt8 → Prop) (h : Handle) : AnyCall → Prop
  | .base (.put buf past) => Steps C h (demuxPut h buf past).1
  | _ => True

theorem init_inRange {size : Nat} (hz : 5 ≤ size) (junk : Nat → UInt8) : InRange size (demuxInit size junk) := by
  have hdiv : size / 5 < size := by omega
  have hpos : 0 < size / 5 := by omega
  refine ⟨⟨hpos, ?_, ?_, ?_⟩, ⟨?_, ?_, ?_, ?_⟩, rfl, rfl, rfl⟩
  · exact Nat.sub_lt hpos Nat.one_pos
  · exact Nat.sub_lt hpos Nat.one_pos
  · exact fun h => absurd h Bool.false_ne_true
  · exact Nat.sub_pos_of_lt hdiv
  · exact Nat.sub_lt (Nat.sub_pos_of_lt hdiv) Nat.one_pos
  · exact Nat.sub_lt (Nat.sub_pos_of_lt hdiv) Nat.one_pos
  · exact fun h => absurd h Bool.false_ne_true

theorem Stream.InRange.emptied {s : Stream} (hz : 0 < s.size) (hh : s.head = 0) (ht : s.tail = s.size - 1)
    (hp : s.parserTail = s.size - 1) (hs : s.seekingHeadValid = true → s.seekingHead < s.size) : s.InRange := by
  refine ⟨?_, ?_, ?_, hs⟩ <;> omega

theorem InRange.stream {size : Nat} {h : Handle} (hr : InRange size h) (sid : StreamId) : (h.stream sid).InRange := by
  cases sid
  · exact hr.audio
  · exact hr.video

/-- A change of the attributes, which the rings do not see. -/
theorem InRange.of_same {size : Nat} {h h' : Handle} (hr : InRange size h) (ha : SameStore h.audio h'.audio)
    (hv : SameStore h.video h'.video) (hz : h'.size = h.size) : InRange size h' :=
  ⟨ha.inRange hr.audio, hv.inRange hr.video, ha.parserCallback.trans hr.audioCallback,
    hv.parserCallback.trans hr.videoCallback, hz.trans hr.size⟩

theorem base_inRange {size : Nat} {h : Handle} (hr : InRange size h) (c : Call)
    (hc : AddsMeet Unprodded h (.base c)) : InRange size (c.run h) := by
  cases c with
  | put buf past =>
    refine Steps.keep InRange.quiet ?_ ?_ hc hr
    · intro g n hg
      exact hg.of_same (.refl _) (.refl _) rfl
    · intro g sid data hg hu
      exact streamAdd_inRange hg sid data hu
  | get sid max =>
    simp only [Call.run, demuxGet]
    split
    · exact hr
    · exact hr.setStream ((hr.stream sid).drain max) ((h.stream sid).peek_same max).parserCallback
  | write sid max first second =>
    refine hr.setStream ((hr.stream sid).drainFd max first second) ?_
    rcases (h.stream sid).drainFd_cases max first second with ⟨he, -⟩ | he <;> rw [he]
    rfl
  | jit data => exact hr.of_same (.refl _) (.refl _) rfl
  | select sid id =>
    simp only [Call.run, demuxSetStream]
    split
    · exact hr
    · split
      · refine hr.quiet (.setStream ?_)
        exact ⟨rfl, rfl, rfl, rfl, rfl, rfl, rfl, rfl, rfl⟩
      · exact hr
  | seek => exact hr.of_same (.refl _) (.refl _) rfl
  | flush =>
    refine ⟨?_, ?_, hr.audioCallback, hr.videoCallback, hr.size⟩
    · exact .emptied hr.audio.pos rfl rfl rfl hr.audio.seekingHead
    · exact .emptied hr.video.pos rfl rfl rfl hr.video.seekingHead

theorem call_inRange {size : Nat} {h : Handle} (hz : 5 ≤ size) (hr : InRange size h) (c : AnyCall)
    (hc : AddsMeet Unprodded h c) : InRange size (c.run h) := by
  have hsize := hr.size
  cases c with
  | base c => exact base_inRange hr c hc
  | reset =>
    refine ⟨?_, ?_, hr.audioCallback, hr.videoCallback, hr.size⟩
    · refine .emptied ?_ rfl rfl rfl fun h => absurd h Bool.false_ne_true
      change 0 < h.size / 5
      omega
    · refine .emptied ?_ rfl rfl rfl fun h => absurd h Bool.false_ne_true
      change 0 < h.size - h.size / 5
      omega
  | attrReset =>
    refine ⟨?_, ?_, hr.audioCallback, hr.videoCallback, hr.size⟩
    · exact ⟨hr.audio.head, hr.audio.tail, hr.audio.parserTail, hr.audio.seekingHead⟩
    · exact ⟨hr.video.head, hr.video.tail, hr.video.parserTail, hr.video.seekingHead⟩

end Mvpmc.Demux
