import Mvpmc.Demux.Untouched

/-! The three outcomes of `stream_add` on the video ring. -/
namespace Mvpmc.Demux
open Mvpmc.Lib.Circular

namespace Stream

theorem hide_eq (s : Stream) (w : Bool) : s.hide w = { s with tail := (s.hide w).tail } := by
  unfold hide
  split <;> rfl

theorem writeHead_hide (s : Stream) (w : Bool) : (s.hide w).writeHead w = s.writeHead w := by
  rw [hide_eq]
  rfl

/-- Where the head of a ring stands once `data` is in it. -/
def stop (s : Stream) (wasSeeking : Bool) (data : List UInt8) : Nat :=
  (s.writeHead wasSeeking + data.length) % s.size

/-- There is no room for `data`. -/
def refuses (s : Stream) (wasSeeking : Bool) (data : List UInt8) : Bool :=
  isFull s.size (s.writeHead wasSeeking) (s.limit wasSeeking) data.length

end Stream

namespace Handle

/-- `data` is in the video ring, and not yet parsed. -/
def written (h : Handle) (data : List UInt8) : Handle :=
  { h with video := (h.video.hide h.seeking).advance h.seeking (h.video.writeHead h.seeking) data }

/-- `data` is in the video ring and parsed. -/
def parsed (h : Handle) (data : List UInt8) : Handle :=
  let g := runParser (h.written data) h.seeking (h.video.stop h.seeking data)
  { g with video := g.video.filled g.seeking data.length }

end Handle

/-- `stream_add` has nothing to do, refuses, or writes and parses. -/
theorem streamAdd_video_cases {h : Handle} (data : List UInt8) (hc : h.video.parserCallback = true) :
    data = [] ∧ streamAdd h .video data false = (h, 0) ∨
      h.video.refuses h.seeking data = true ∧
        streamAdd h .video data false = ({ h with video := (h.video.hide h.seeking).countFull }, 0) ∨
      data ≠ [] ∧ h.video.refuses h.seeking data = false ∧
        streamAdd h .video data false = (h.parsed data, data.length) := by
  have hsize : (h.video.hide h.seeking).size = h.video.size := (h.video.hide_same h.seeking).1.size
  have hcb : (h.video.hide h.seeking).parserCallback = true := by
    rw [Stream.hide_eq]
    exact hc
  unfold streamAdd
  simp only [Handle.stream, Bool.not_false, Bool.and_true, hc, Bool.true_eq_false, false_and, if_false]
  rw [hsize, Stream.writeHead_hide, hcb]
  by_cases hd : data = []
  · subst hd
    exact .inl ⟨rfl, rfl⟩
  · right
    rw [if_neg (by simpa using hd)]
    unfold Stream.refuses
    split
    · rename_i hf
      exact .inl ⟨hf, rfl⟩
    · rename_i hf
      exact .inr ⟨hd, Bool.not_eq_true _ ▸ hf, by rw [if_pos rfl]; rfl⟩

end Mvpmc.Demux
