import Mathlib.Data.List.GetD
import Mvpmc.Demux.HeaderReader
import Mvpmc.Demux.Restart

/-! The start codes that the video parser handles do not depend on how a byte string is cut
into additions, nor on the drains in between. -/
namespace Mvpmc.Demux
open Mvpmc.Lib Mvpmc.Lib.Circular

/-- The calls on the video ring: `stream_add`, and the drains with the outcomes of `write`. -/
inductive VideoOp where
  | add (data : List UInt8)
  | drain (max : Int)
  | drainFd (max : Int) (first second : Option Nat)

/-- A handle with the count of the bytes that its video ring has taken, and the start codes that
its parser has handled to completion. -/
structure Watched where
  h : Handle
  total : Nat := 0
  handled : List Handled := []

namespace VideoOp

def bytes : VideoOp → List UInt8
  | add data => data
  | _ => []

/-- The call is no addition that the ring refuses. -/
def Taken (h : Handle) : VideoOp → Prop
  | add data => data = [] ∨ h.video.refuses h.seeking data = false
  | _ => True

/-- An addition is at least seven bytes shorter than the ring. -/
def Fits (size : Nat) : VideoOp → Prop
  | add data => data.length + 6 < size
  | _ => True

end VideoOp

namespace Stream

/-- The number of bytes that the parser has still to pass. -/
def ahead (s : Stream) : Nat := (s.head + s.size - s.parserTail - 1) % s.size

/-- The bytes that the parser has still to pass. -/
def pending (s : Stream) : List UInt8 := window s.buf s.size (s.parserTail + 1) s.ahead

end Stream

namespace Watched

/-- What the parser handles to completion when `data` is added: the start codes of the scan
that `parse_video_stream` makes of the ring with `data` in it. -/
def scanned (w : Watched) (data : List UInt8) : List Handled :=
  Scan.handled (w.total + data.length) w.h.video.parserTail (w.h.video.stop w.h.seeking data) w.h.video.size
    w.h.video.size { h := w.h.written data, i := w.h.video.parserTail + 5 }

def step (w : Watched) : VideoOp → Watched
  | .add data =>
    let r := streamAdd w.h .video data false
    if r.2 = 0 then { w with h := r.1 }
    else { h := r.1, total := w.total + r.2, handled := w.handled ++ w.scanned data }
  | .drain max => { w with h.video := (w.h.video.drain max).1 }
  | .drainFd max first second => { w with h.video := (w.h.video.drainFd max first second).1 }

def run (w : Watched) (ops : List VideoOp) : Watched := ops.foldl step w

/-- The stream begins with the bytes that the parser has still to pass. -/
def start (h : Handle) : Watched := { h := h, total := h.video.pending.length }

/-- No addition of the run is refused. -/
def Takes : Watched → List VideoOp → Prop
  | _, [] => True
  | w, op :: ops => op.Taken w.h ∧ Takes (w.step op) ops

end Watched

/-- A video ring of at least 64 bytes outside a seek. Six cells in front of the parser's tail are
free, as `stream_add` leaves them. -/
structure PlayReady (h : Handle) : Prop where
  parserCallback : h.video.parserCallback = true
  seeking : h.seeking = false
  size_ge : 64 ≤ h.video.size
  size_lt : h.video.size < 2147483648
  head : h.video.head < h.video.size
  tail : h.video.tail < h.video.size
  parserTail : h.video.parserTail < h.video.size
  room : h.video.ahead + 7 ≤ h.video.size

/-- The ring behind the end of a seek is one. -/
theorem seek_end_playReady {h : Handle} {data : List UInt8} (hr : SeekReady h) (hs : h.seeking = true)
    (h64 : 64 ≤ h.video.size) (hc : h.ClearSeek data) (hend : (h.parsed data).seeking = false) :
    PlayReady (h.parsed data) := by
  have sp := Handle.span_of_free hr.inRange hc.room
  have hroom := sp.room
  have hsize : (h.parsed data).video.size = h.video.size := Handle.parsed_size
  obtain ⟨a, b, e, hcell, hlt, hab, -, hbe, hhi, -, -, -⟩ := Handle.parsed_positions hr hs hc hend
  obtain ⟨hh, ht, -⟩ := Handle.parsed_end hs hend
  have hstop : (h.parsed data).video.head = (h.video.parserTail + 1 + h.unparsed data) % h.video.size := by
    rw [hh, ← sp.head, hs]
  have hcallback : (h.parsed data).video.parserCallback = h.video.parserCallback :=
    (Stream.filled_same ..).1.parserCallback.trans ((runParser_only ..).2.1.parserCallback.trans
      ((Stream.advance_same ..).1.parserCallback.trans (Stream.hide_same ..).1.parserCallback))
  refine ⟨hcallback.trans hr.parserCallback, hend, ?_, ?_, ?_, ?_, ?_, ?_⟩
  · rw [hsize]
    exact h64
  · rw [hsize]
    exact hr.size_lt
  · rw [hstop, hsize]
    exact Nat.mod_lt _ hr.inRange.pos
  · rw [hsize]
    exact hlt
  · rw [hsize, ← ht]
    exact hlt
  · have hdist : (h.parsed data).video.ahead = h.unparsed data - a := by
      rw [Stream.ahead, hsize, ← ht, Nat.sub_sub]
      refine lap_distance hcell ?_ (by omega) (by omega) (by omega)
      rw [hstop, Nat.mod_mod]
    rw [hdist, hsize]
    omega

/-- After some additions of the bytes of a string, the first `start` of which have been in the ring
before: the parser is where a reader of the string waits, and the ring holds what the reader
has still to read. -/
structure Reads (displayHeight size base start : Nat) (bytes : List UInt8) (w : Watched) (k : Nat) (r : Reader) : Prop where
  reached : r = Emitter.after (Reader.read · displayHeight) k (reader bytes)
  emitted : w.handled = Emitter.emitted (Reader.read · displayHeight) k (reader bytes)
  parserCallback : w.h.video.parserCallback = true
  seeking : w.h.seeking = false
  height : w.h.height = displayHeight
  size_eq : w.h.video.size = size
  tail : w.h.video.tail < size
  span : Span base size r.y w.total w.h.video.parserTail w.h.video.head
  tape : ∀ z, r.y ≤ z → z < w.total → unroll w.h.video.buf size base z = r.tape z
  rest : ∀ z, w.total ≤ z → r.tape z = bytes.getD z 0
  waits : start < w.total → r.waits w.total = true

theorem PlayReady.reads {h : Handle} (hp : PlayReady h) (added : List UInt8) :
    Reads h.height h.video.size (h.video.parserTail + 1) h.video.pending.length (h.video.pending ++ added)
      (Watched.start h) 0 (reader (h.video.pending ++ added)) := by
  have hpos : 0 < h.video.size := Nat.lt_of_le_of_lt (Nat.zero_le _) hp.head
  have hlen : h.video.pending.length = h.video.ahead := window_length _ _ _ _
  refine ⟨rfl, rfl, hp.parserCallback, hp.seeking, rfl, rfl, hp.tail, ⟨hp.parserTail, rfl, ?_, Nat.zero_le _, ?_⟩, ?_,
    fun _ _ => rfl, fun hlt => absurd hlt (Nat.lt_irrefl _)⟩
  · dsimp only [Watched.start]
    rw [hlen, Stream.ahead, Nat.add_mod, Nat.mod_mod, ← Nat.add_mod]
    have hh := hp.head
    have hpt := hp.parserTail
    rw [show h.video.parserTail + 1 + (h.video.head + h.video.size - h.video.parserTail - 1) =
      h.video.head + h.video.size by omega, Nat.add_mod_right, Nat.mod_eq_of_lt hh]
  · have hroom := hp.room
    dsimp only [Watched.start, reader]
    omega
  · intro z _ hz
    have hz' : z < h.video.ahead := hlen ▸ hz
    unfold reader
    dsimp only
    rw [List.getD_append _ _ _ _ hz, List.getD_eq_getElem _ _ hz]
    simp [Watched.start, Stream.pending, window, unroll]

/-- An addition that is not refused leaves six cells free in front of the parser's tail. -/
theorem Stream.parser_room {s : Stream} (hz : s.size < 2147483648) (hh : s.head < s.size) (ht : s.tail < s.size)
    (hp : s.parserTail < s.size) (hne : s.head ≠ s.parserTail) (hc : s.parserCallback = true) {data : List UInt8}
    (hl : data.length + 6 < s.size) (hf : s.refuses false data = false) :
    (s.head + s.size - s.parserTail - 1) % s.size + data.length + 7 ≤ s.size := by
  have hw : s.writeHead false = s.head := if_neg fun he => Bool.false_ne_true he.1
  unfold Stream.refuses Stream.limit at hf
  rw [hw, if_pos hc, if_neg Bool.false_ne_true] at hf
  split at hf
  · exact Stream.room_of_limit hz hh hp hl hf
  · rename_i hle
    have hroom := Stream.room_of_limit hz hh ht hl hf
    rcases mod_cases (s.head + s.size - s.tail) s.size (by omega) with ⟨h1, hd⟩ | ⟨h1, hd⟩ <;>
      rcases mod_cases (s.head + s.size - s.parserTail) s.size (by omega) with ⟨h2, hd'⟩ | ⟨h2, hd'⟩ <;>
      rcases mod_cases (s.head + s.size - s.parserTail - 1) s.size (by omega) with ⟨h3, hd''⟩ | ⟨h3, hd''⟩ <;>
      rcases mod_cases (s.head + s.size - s.tail - 1) s.size (by omega) with ⟨h4, hd'''⟩ | ⟨h4, hd'''⟩ <;>
      omega

/-- The parser outside a seek: where its scan stops, and its new tail behind it. -/
theorem parse_play {h : Handle} (tail head : Nat) {size : Nat} (hs : h.seeking = false) :
    parseVideoStream h tail head size =
      let sc := Scan.loop tail head size size { h := h, i := tail + 5 }
      (sc.h, u32 ((size : Int) + sc.i - 5) % size) := by
  have hseek := Scan.loop_seeking tail head size size { h := h, i := tail + 5 }
  have hne : (Scan.loop tail head size size { h := h, i := tail + 5 }).h.seeking ≠ true := by
    rw [hseek]
    exact Bool.eq_false_iff.mp hs
  unfold parseVideoStream
  dsimp only
  rw [if_neg fun hc => hne hc.1, if_neg fun hc => hne hc.1]

/-- Outside a seek the bytes go to the head. -/
theorem written_play {h : Handle} {data : List UInt8} (hs : h.seeking = false) (hh : h.video.head < h.video.size)
    (hl : data.length < h.video.size) (hd : data ≠ []) :
    (h.written data).seeking = false ∧ (h.written data).height = h.height ∧
      (h.written data).video.buf = store h.video.buf h.video.size h.video.head data ∧
      h.video.stop h.seeking data = (h.video.head + data.length) % h.video.size := by
  have hhide : h.video.hide false = h.video := if_neg fun he => Bool.false_ne_true he.1
  have hwrite : h.video.writeHead false = h.video.head := if_neg fun he => Bool.false_ne_true he.1
  refine ⟨hs, rfl, ?_, ?_⟩
  · unfold Handle.written
    rw [hs, hhide, hwrite]
    exact Stream.copyIn_eq _ hh hl.le hd
  · unfold Stream.stop
    rw [hs, hwrite]

namespace Reads
variable {displayHeight size base start k : Nat} {bytes : List UInt8} {w : Watched} {r : Reader} {data : List UInt8}

/-- The ring with `data` in it holds what the reader has still to read. -/
theorem written (hr : Reads displayHeight size base start bytes w k r) (hz : size < 2147483648)
    (hd : data ≠ []) (hfit : data.length + 6 < size) (htaken : w.h.video.refuses w.h.seeking data = false)
    (hdata : data <+: bytes.drop w.total) :
    Span base size r.y (w.total + data.length) w.h.video.parserTail (w.h.video.stop w.h.seeking data) ∧
      Follows base size (w.total + data.length) { h := w.h.written data, i := w.h.video.parserTail + 5 } r := by
  have sp := hr.span
  have hle := sp.le
  have hroom := sp.room
  have hpt := sp.tail_lt
  have hsize := hr.size_eq
  have hhead : w.h.video.head < size := by
    rw [sp.head]
    exact Nat.mod_lt _ (by omega)
  have hcount : (w.h.video.head + size - w.h.video.parserTail - 1) % size = w.total - r.y := by
    rw [Nat.sub_sub]
    refine lap_distance sp.first ?_ (by omega) hle (by omega)
    rw [sp.head, Nat.mod_mod]
  have hne : w.h.video.head ≠ w.h.video.parserTail := by
    intro he
    rw [he, Nat.add_sub_cancel_left, Nat.mod_eq_of_lt (by omega)] at hcount
    omega
  rw [hr.seeking] at htaken
  have hfree := Stream.parser_room (by omega) (by omega) (by rw [hsize]; exact hr.tail) (by omega) hne
    hr.parserCallback (by omega) htaken
  rw [hsize, hcount] at hfree
  obtain ⟨-, -, hbuf, hstop⟩ := written_play hr.seeking (by omega) (by omega) hd
  rw [hsize] at hbuf hstop
  refine ⟨⟨hpt, sp.first, ?_, by omega, by omega⟩, ⟨⟨?_, ?_, ?_⟩, ?_⟩⟩
  · rw [hstop, sp.head, Nat.mod_add_mod, Nat.add_assoc]
  · dsimp only
    rw [show w.h.video.parserTail + 5 = w.h.video.parserTail + 1 + 4 from rfl, Nat.add_mod, sp.first, ← Nat.add_mod,
      Nat.add_assoc]
  · exact Nat.succ_pos _
  · dsimp only
    omega
  · intro z hyz hzhi
    rw [hbuf, sp.head]
    rcases Nat.lt_or_ge z w.total with hlt | hge
    · rw [unroll_store_of_lt _ _ (by omega) hlt (by omega)]
      exact hr.tape z hyz hlt
    · obtain ⟨j, rfl⟩ := Nat.exists_eq_add_of_le hge
      have hj : j < data.length := by omega
      have hj' : w.total + j < bytes.length := by
        have := hdata.length_le
        rw [List.length_drop] at this
        omega
      rw [unroll_store_written _ _ (by omega) (by omega) hj, hr.rest _ hge, List.getD_eq_getElem _ _ hj',
        hdata.getElem hj, List.getElem_drop]

/-- A parser that has got nowhere is far from the head, in a ring of 64 bytes. -/
theorem prod_play {s : Stream} {stop newtail y y' hi : Nat} (h64 : 64 ≤ size) (hs : s.size = size)
    (sp : Span base size y hi s.parserTail stop) (hfirst : (newtail + 1) % size = (base + y') % size) (hy : y ≤ y')
    (hhi : y' ≤ hi) (hr : r.y = y') (hwaits : r.waits hi = true) : s.prod stop newtail = newtail := by
  have hle := sp.le
  have hroom := sp.room
  have hstop : stop < size := by
    rw [sp.head]
    exact Nat.mod_lt _ (by omega)
  have hpt := sp.tail_lt
  unfold Stream.prod
  refine if_neg ?_
  rintro ⟨rfl, hfree⟩
  obtain rfl : y = y' := lap_inj (sp.first.symm.trans hfirst) (by omega) (by omega)
  have hnear : hi ≤ y + 18 := by
    have := lookAhead_le r.ahead r.identifier
    unfold Reader.waits at hwaits
    simp only [Bool.or_eq_true, Bool.and_eq_true, decide_eq_true_eq] at hwaits
    omega
  have hdist : (stop + size - (s.parserTail + 1)) % size = hi - y := by
    refine lap_distance sp.first ?_ (by omega) hle (by omega)
    rw [sp.head, Nat.mod_mod]
  rw [hs] at hfree
  rcases mod_cases (stop + size - (s.parserTail + 1)) size (by omega) with ⟨h1, hd⟩ | ⟨h1, hd⟩ <;>
    rcases mod_cases (size + s.parserTail - stop) size (by omega) with ⟨h2, hd'⟩ | ⟨h2, hd'⟩ <;>
    omega

/-- The handle after an addition that is taken outside a seek, in terms of the scan. -/
theorem parsed_scan {h : Handle} (data : List UInt8) (hs : h.seeking = false) :
    let sc := Scan.loop h.video.parserTail (h.video.stop h.seeking data) h.video.size h.video.size
      { h := h.written data, i := h.video.parserTail + 5 }
    (h.parsed data).video.buf = sc.h.video.buf ∧
      (h.parsed data).video.parserTail = (h.written data).video.prod (h.video.stop h.seeking data)
        (u32 ((h.video.size : Int) + sc.i - 5) % h.video.size) := by
  obtain ⟨-, -, hbuf, htail⟩ := runParser_parse (h.written data) h.seeking (h.video.stop h.seeking data)
  have hs' : (h.written data).seeking = false := hs
  rw [Handle.written_size, Handle.written_parserTail, parse_play _ _ hs'] at hbuf htail
  exact ⟨(Stream.filled_buf ..).trans hbuf, (Stream.filled_parserTail ..).trans htail⟩

/-- An addition makes the reader read on. -/
theorem add (hr : Reads displayHeight size base start bytes w k r) (h64 : 64 ≤ size) (hz : size < 2147483648)
    (hd : data ≠ []) (hfit : data.length + 6 < size) (htaken : w.h.video.refuses w.h.seeking data = false)
    (hdata : data <+: bytes.drop w.total) :
    ∃ k' r', Reads displayHeight size base start bytes (w.step (.add data)) k' r' ∧
      (w.step (.add data)).total = w.total + data.length := by
  obtain ⟨sp, hfollows⟩ := hr.written hz hd hfit htaken hdata
  have hle := sp.le
  have hroom := sp.room
  have hlen : data.length ≠ 0 := fun h0 => hd (List.length_eq_zero_iff.mp h0)
  have hadd : streamAdd w.h .video data false = (w.h.parsed data, data.length) := by
    rcases streamAdd_video_cases data hr.parserCallback with ⟨h0, -⟩ | ⟨hf, -⟩ | ⟨-, -, he⟩
    · exact absurd h0 hd
    · exact absurd (htaken.symm.trans hf) Bool.false_ne_true
    · exact he
  have hstep : w.step (.add data) =
      { h := w.h.parsed data, total := w.total + data.length, handled := w.handled ++ w.scanned data } := by
    unfold Watched.step
    dsimp only
    rw [hadd]
    exact if_neg hlen
  obtain ⟨honly, hsame⟩ := streamAdd_video w.h data hr.parserCallback
  rw [hadd] at honly hsame
  obtain ⟨hbuf, htail⟩ := parsed_scan data hr.seeking
  obtain ⟨hseek, hhead', htail', -⟩ := @Handle.parsed_play w.h data hr.seeking
  have hheight : (w.h.written data).height = displayHeight := hr.height
  have hfuel : w.total + data.length ≤ r.y + 4 + size := by omega
  obtain ⟨j, hemit, hfol, hwaits, hge, hend, hrest⟩ := hfollows.loop sp (le_refl _) hle hz hheight hfuel
  have hscanned : w.scanned data = Emitter.emitted (Reader.read · displayHeight) j r := by
    unfold Watched.scanned
    rw [hr.size_eq]
    exact hemit
  rw [hr.size_eq] at hbuf htail
  generalize hloop : Scan.loop w.h.video.parserTail (w.h.video.stop w.h.seeking data) size size
    { h := w.h.written data, i := w.h.video.parserTail + 5 } = sc at *
  generalize hafter : Emitter.after (Reader.read · displayHeight) j r = r' at *
  have hi := hfol.pos.pos
  have hile := hfol.pos.le
  have hu : u32 ((size : Int) + sc.i - 5) = size + sc.i - 5 := by
    rw [show (size : Int) + sc.i - 5 = ((size + sc.i - 5 : Nat) : Int) by omega]
    exact Stream.u32_of_lt (by omega)
  have hfirst : ((size + sc.i - 5) % size + 1) % size = (base + r'.y) % size := by
    have hmod : size + sc.i - 5 + 1 + 4 ≡ base + r'.y + 4 [MOD size] := by
      rw [show size + sc.i - 5 + 1 + 4 = sc.i + size by omega, Nat.add_assoc]
      exact (Nat.add_mod_right _ _).trans hfol.pos.cell
    rw [Nat.mod_add_mod]
    exact Nat.ModEq.add_right_cancel' 4 hmod
  have hsize : (w.h.written data).video.size = size := Handle.written_size.trans hr.size_eq
  have hsp : Span base size r.y (w.total + data.length) (w.h.written data).video.parserTail
      (w.h.video.stop w.h.seeking data) := by
    rw [Handle.written_parserTail]
    exact sp
  rw [hu, prod_play h64 hsize hsp hfirst hge hend rfl hwaits] at htail
  have hnewtail : (size + sc.i - 5) % size < size := Nat.mod_lt _ (by omega)
  refine ⟨k + j, r', ?_, by rw [hstep]⟩
  rw [hstep]
  refine ⟨?_, ?_, hsame.parserCallback.trans hr.parserCallback, hseek, ?_, hsame.size.trans hr.size_eq, ?_,
    ⟨?_, ?_, ?_, hend, ?_⟩, ?_, ?_, fun _ => hwaits⟩
  · rw [Emitter.after_add, ← hr.reached, hafter]
  · rw [Emitter.emitted_add, ← hr.reached, ← hr.emitted, hscanned]
  · exact (honly.field Handle.height).trans hr.height
  · exact htail'.trans_lt hr.tail
  · exact htail.trans_lt hnewtail
  · dsimp only
    rw [htail]
    exact hfirst
  · dsimp only
    rw [hhead', ← sp.head, hr.seeking]
  · dsimp only
    omega
  · intro z hyz hzhi
    rw [hbuf]
    exact hfol.tape z hyz hzhi
  · intro z hz
    exact (hrest z hz).trans (hr.rest z (Nat.le_of_add_right_le hz))

/-- A drain moves the tail only, which the parser does not see. -/
theorem drained (hr : Reads displayHeight size base start bytes w k r) {s : Stream} (hbuf : s.buf = w.h.video.buf)
    (hhead : s.head = w.h.video.head) (hsize : s.size = w.h.video.size) (htail : s.tail < size)
    (hparser : s.parserTail = w.h.video.parserTail) (hcallback : s.parserCallback = w.h.video.parserCallback) :
    Reads displayHeight size base start bytes { w with h.video := s } k r := by
  refine ⟨hr.reached, hr.emitted, hcallback.trans hr.parserCallback, hr.seeking, hr.height, hsize.trans hr.size_eq,
    htail, ?_, ?_, hr.rest, hr.waits⟩
  · dsimp only
    rw [hparser, hhead]
    exact hr.span
  · dsimp only
    rw [hbuf]
    exact hr.tape

/-- Every call keeps the parser at a place where the reader waits. -/
theorem step (hr : Reads displayHeight size base start bytes w k r) (h64 : 64 ≤ size) (hz : size < 2147483648) (op : VideoOp)
    (htaken : op.Taken w.h) (hfit : op.Fits size) (hbytes : op.bytes <+: bytes.drop w.total) :
    ∃ k' r', Reads displayHeight size base start bytes (w.step op) k' r' ∧ (w.step op).total = w.total + op.bytes.length := by
  cases op with
  | add data =>
    rcases htaken with rfl | htaken
    · exact ⟨k, r, hr, rfl⟩
    · by_cases hd : data = []
      · subst hd
        exact ⟨k, r, hr, rfl⟩
      · exact hr.add h64 hz hd hfit htaken hbytes
  | drain max =>
    have hp := w.h.video.peek_same max
    refine ⟨k, r, hr.drained hp.buf hp.head hp.size ?_ hp.parserTail hp.parserCallback, rfl⟩
    rw [← hr.size_eq]
    exact Nat.mod_lt _ (by rw [hr.size_eq]; omega)
  | drainFd max first second =>
    have htail : (w.h.video.drainFd max first second).1.tail < size := by
      rcases w.h.video.drainFd_cases max first second with ⟨he, -⟩ | he <;> rw [he]
      · exact hr.tail
      · rw [← hr.size_eq]
        exact Nat.mod_lt _ (by rw [hr.size_eq]; omega)
    refine ⟨k, r, hr.drained ?_ ?_ ?_ htail ?_ ?_, rfl⟩ <;>
      rcases w.h.video.drainFd_cases max first second with ⟨he, -⟩ | he <;> rw [he] <;> rfl

/-- A run that adds the whole string brings the reader as far as the string allows. -/
theorem run (hr : Reads displayHeight size base start bytes w k r) (h64 : 64 ≤ size) (hz : size < 2147483648)
    {ops : List VideoOp} (htaken : w.Takes ops) (hfit : ∀ op ∈ ops, op.Fits size)
    (hbytes : ops.flatMap VideoOp.bytes = bytes.drop w.total) (htotal : w.total ≤ bytes.length) :
    ∃ k' r', Reads displayHeight size base start bytes (w.run ops) k' r' ∧ (w.run ops).total = bytes.length := by
  induction ops generalizing w k r with
  | nil =>
    have hge : bytes.length ≤ w.total := List.drop_eq_nil_iff.mp hbytes.symm
    exact ⟨k, r, hr, Nat.le_antisymm htotal hge⟩
  | cons op ops ih =>
    obtain ⟨hop, hops⟩ := htaken
    rw [List.flatMap_cons] at hbytes
    have hprefix : op.bytes <+: bytes.drop w.total := ⟨_, hbytes⟩
    obtain ⟨k', r', hr', htotal'⟩ := hr.step h64 hz op hop (hfit op List.mem_cons_self) hprefix
    have hrest : ops.flatMap VideoOp.bytes = bytes.drop (w.step op).total := by
      rw [htotal', ← List.drop_drop, ← hbytes, List.drop_left]
    have hle : (w.step op).total ≤ bytes.length := by
      have := hprefix.length_le
      rw [List.length_drop] at this
      omega
    exact ih hr' hops (fun op' hmem => hfit op' (List.mem_cons_of_mem _ hmem)) hrest hle

end Reads

/-- What such a run leaves is ready for another one. -/
theorem Reads.playReady {displayHeight size base start k : Nat} {bytes : List UInt8} {w : Watched} {r : Reader}
    (hr : Reads displayHeight size base start bytes w k r) (h64 : 64 ≤ size) (hz : size < 2147483648) :
    PlayReady w.h := by
  have sp := hr.span
  have hle := sp.le
  have hroom := sp.room
  have hpt := sp.tail_lt
  have hsize := hr.size_eq
  have hhead : w.h.video.head < size := by
    rw [sp.head]
    exact Nat.mod_lt _ (by omega)
  have hahead : w.h.video.ahead = w.total - r.y := by
    rw [Stream.ahead, hsize, Nat.sub_sub]
    refine lap_distance sp.first ?_ (by omega) hle (by omega)
    rw [sp.head, Nat.mod_mod]
  refine ⟨hr.parserCallback, hr.seeking, ?_, ?_, ?_, ?_, ?_, ?_⟩ <;> rw [hsize]
  · exact h64
  · exact hz
  · exact hhead
  · exact hr.tail
  · exact sp.tail_lt
  · omega

/-- However a byte string is cut into additions that the ring takes, and whatever is drained in
between, the parser handles the start codes of the string in order, at least up to the first
that lacks look-ahead, and two ways of adding it differ at most in how far they got. -/
theorem headers_chunk_independent {h : Handle} (hp : PlayReady h) {ops₁ ops₂ : List VideoOp}
    (hbytes : ops₁.flatMap VideoOp.bytes = ops₂.flatMap VideoOp.bytes)
    (htaken₁ : (Watched.start h).Takes ops₁) (htaken₂ : (Watched.start h).Takes ops₂)
    (hfit₁ : ∀ op ∈ ops₁, op.Fits h.video.size) (hfit₂ : ∀ op ∈ ops₂, op.Fits h.video.size) :
    let added := ops₁.flatMap VideoOp.bytes
    let expected := headers h.height (h.video.pending ++ added)
    let handled₁ := ((Watched.start h).run ops₁).handled
    let handled₂ := ((Watched.start h).run ops₂).handled
    (added ≠ [] → expected <+: handled₁ ∧ expected <+: handled₂) ∧
      (handled₁ <+: handled₂ ∨ handled₂ <+: handled₁) := by
  intro added expected handled₁ handled₂
  have hstart : (Watched.start h).total ≤ (h.video.pending ++ added).length := by
    rw [List.length_append]
    exact Nat.le_add_right _ _
  have hdrop : (h.video.pending ++ added).drop (Watched.start h).total = added := List.drop_left
  obtain ⟨k₁, r₁, hr₁, ht₁⟩ := (hp.reads added).run hp.size_ge hp.size_lt htaken₁ hfit₁ hdrop.symm hstart
  obtain ⟨k₂, r₂, hr₂, ht₂⟩ := (hp.reads added).run hp.size_ge hp.size_lt htaken₂ hfit₂
    (hbytes.symm.trans hdrop.symm) hstart
  have hexpected (hne : added ≠ []) {k : Nat} {w : Watched} {r : Reader}
      (hr : Reads h.height h.video.size (h.video.parserTail + 1) h.video.pending.length (h.video.pending ++ added) w k r)
      (ht : w.total = (h.video.pending ++ added).length) : expected <+: w.handled := by
    have hpos := List.length_pos_iff.mpr hne
    rw [hr.emitted]
    apply Emitter.beforeStop_prefix
    rw [← hr.reached, ← ht]
    apply hr.waits
    rw [ht, List.length_append]
    omega
  have he₁ : handled₁ = Emitter.emitted (Reader.read · h.height) k₁ (reader (h.video.pending ++ added)) := hr₁.emitted
  have he₂ : handled₂ = Emitter.emitted (Reader.read · h.height) k₂ (reader (h.video.pending ++ added)) := hr₂.emitted
  refine ⟨fun hne => ⟨hexpected hne hr₁ ht₁, hexpected hne hr₂ ht₂⟩, ?_⟩
  rw [he₁, he₂]
  exact Emitter.emitted_comparable _ _ _ _

/-- A sequence header and a picture header. -/
def headerBytes : List UInt8 := [0, 0, 1, 0xB3, 0x2D, 0x02, 0x40, 0x23, 0, 0, 1, 0, 0xFF, 0x08, 0xFF, 0xFF]

/-- The ring of 64 bytes behind the end of a seek, with the 24 bytes of the restart point. -/
def seekEnded : Handle := (streamAdd seekStarted .video (restartBytes 0xB8) false).1

private theorem seekEnded_ready : PlayReady seekEnded := by
  refine ⟨?_, ?_, ?_, ?_, ?_, ?_, ?_, ?_⟩ <;> decide

/-- In one piece, and cut in the sequence header with a drain in between. -/
theorem headers_chunk_independent_cut :
    let ops₁ := [VideoOp.add headerBytes]
    let ops₂ := [VideoOp.add (headerBytes.take 6), .drain 3, .add (headerBytes.drop 6)]
    let expected := headers seekEnded.height (seekEnded.video.pending ++ headerBytes)
    expected.drop 3 = [⟨28, 0xb3, .sequence 720 576 2 3⟩, ⟨36, 0, .picture 1⟩] ∧
      expected <+: ((Watched.start seekEnded).run ops₁).handled ∧
      expected <+: ((Watched.start seekEnded).run ops₂).handled := by
  intro ops₁ ops₂ expected
  have htaken₁ : (Watched.start seekEnded).Takes ops₁ := ⟨.inr (by decide), trivial⟩
  have htaken₂ : (Watched.start seekEnded).Takes ops₂ :=
    ⟨.inr (by decide), trivial, .inr (by decide), trivial⟩
  have hsize : seekEnded.video.size = 64 := by decide
  have hfit₁ : ∀ op ∈ ops₁, op.Fits seekEnded.video.size := by
    intro op hop
    obtain rfl := List.mem_singleton.mp hop
    rw [hsize]
    show headerBytes.length + 6 < 64
    decide
  have hfit₂ : ∀ op ∈ ops₂, op.Fits seekEnded.video.size := by
    intro op hop
    rw [hsize]
    simp only [ops₂, List.mem_cons, List.not_mem_nil, or_false] at hop
    rcases hop with rfl | rfl | rfl
    · show (headerBytes.take 6).length + 6 < 64
      decide
    · trivial
    · show (headerBytes.drop 6).length + 6 < 64
      decide
  have hbytes : ops₁.flatMap VideoOp.bytes = ops₂.flatMap VideoOp.bytes := by decide
  obtain ⟨h₁, h₂⟩ := (headers_chunk_independent seekEnded_ready hbytes htaken₁ htaken₂ hfit₁ hfit₂).1 (by decide)
  exact ⟨by decide, h₁, h₂⟩

/-- A picture header at the beginning of as many bytes as the ring has. -/
def ringful : List UInt8 := [0, 0, 1, 0, 0xFF, 0x08] ++ List.replicate 58 0xFF

/-- A ring takes as many bytes as it has, over those that it holds, and its head is where it was:
the parser sees no start code any more. In two halves, with a drain in between, the bytes are
parsed. -/
theorem ringful_not_parsed :
    let ops₁ := [VideoOp.add ringful]
    let ops₂ := [VideoOp.add (ringful.take 32), .drain 64, .add (ringful.drop 32)]
    PlayReady seekEnded ∧ ops₁.flatMap VideoOp.bytes = ops₂.flatMap VideoOp.bytes ∧
      (Watched.start seekEnded).Takes ops₁ ∧ (Watched.start seekEnded).Takes ops₂ ∧
      ((Watched.start seekEnded).run ops₁).handled = [] ∧
      ((Watched.start seekEnded).run ops₂).handled = headers seekEnded.height (seekEnded.video.pending ++ ringful) ∧
      headers seekEnded.height (seekEnded.video.pending ++ ringful) ≠ [] := by
  refine ⟨seekEnded_ready, ?_, ⟨.inr ?_, trivial⟩, ⟨.inr ?_, trivial, .inr ?_, trivial⟩, ?_, ?_, ?_⟩ <;>
    decide

end Mvpmc.Demux
