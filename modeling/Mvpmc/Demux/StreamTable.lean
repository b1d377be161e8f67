import Mvpmc.Demux.Announced
import Mvpmc.Demux.Indices

/-! The tables of stream ids over whole runs: `register_stream` tests nothing but whether an id is
there, while the audio ring takes ids of three kinds and `ids[]` has sixteen entries. -/
namespace Mvpmc.Demux
open Mvpmc.Lib

/-- A handle, and the packets it has read since `demux_attr_reset`. -/
structure Watch where
  handle : Handle
  heard : List Announcement

namespace Watch

def next (w : Watch) (c : AnyCall) : Watch where
  handle := c.run w.handle
  heard := match c with
    | .base (.put buf past) => w.heard ++ putAnnounces w.handle buf past
    | .attrReset => []
    | _ => w.heard

/-- A run from `demux_init`. -/
def run (size : Nat) (junk : Nat → UInt8) (cs : List AnyCall) : Watch :=
  cs.foldl next ⟨demuxInit size junk, []⟩

/-- The ids that packets have named on a ring since `demux_attr_reset`, each once. -/
def named (w : Watch) (sid : StreamId) : List Nat := ((namedOn sid w.heard).map (·.id)).dedup

/-- The tables are what the packets named, in the order of their first one. -/
structure Recorded (w : Watch) : Prop where
  ids : ∀ sid, (w.handle.stream sid).attr.ids = Roster.enterAll (·.id) [] (namedOn sid w.heard)
  proper : ∀ a ∈ w.heard, a.Proper

end Watch

/-- No id stands twice in the table of a ring, and `ids[16]` holds it. -/
def Stream.TableHolds (s : Stream) : Prop := (s.attr.ids.map (·.id)).Nodup ∧ s.attr.ids.length ≤ 16

theorem Stream.drain_ids (s : Stream) (max : Int) : (s.drain max).1.attr.ids = s.attr.ids := by
  unfold Stream.drain Stream.peek Stream.countEmpty
  dsimp only
  split
  · rfl
  · split <;> rfl

/-- No call but `demux_put` and `demux_attr_reset` touches the tables. -/
theorem AnyCall.run_ids {h : Handle} {c : AnyCall} (hput : ∀ buf past, c ≠ .base (.put buf past))
    (hreset : c ≠ .attrReset) : SameIds h (c.run h) := by
  cases c with
  | reset => exact ⟨rfl, rfl⟩
  | attrReset => exact absurd rfl hreset
  | base c =>
    cases c with
    | put buf past => exact absurd rfl (hput buf past)
    | get sid max =>
      change SameIds h (demuxGet h sid max).1
      unfold demuxGet
      split
      · exact .refl h
      · exact .setStream (Stream.drain_ids ..)
    | write sid max first second =>
      refine .setStream ?_
      rcases (h.stream sid).drainFd_cases max first second with ⟨he, -⟩ | he <;> rw [he]
      rfl
    | jit data => exact ⟨rfl, rfl⟩
    | select sid id =>
      change SameIds h (demuxSetStream h sid id).1
      unfold demuxSetStream
      dsimp only
      split
      · exact .refl h
      · split
        · exact .setStream rfl
        · exact .refl h
    | seek => exact ⟨rfl, rfl⟩
    | flush => exact ⟨rfl, rfl⟩

namespace Watch

theorem Recorded.init (size : Nat) (junk : Nat → UInt8) : Recorded ⟨demuxInit size junk, []⟩ where
  ids sid := by cases sid <;> rfl
  proper := List.forall_mem_nil _

theorem Recorded.next {w : Watch} (hw : w.Recorded) (c : AnyCall) : (w.next c).Recorded := by
  by_cases hput : ∃ buf past, c = .base (.put buf past)
  · obtain ⟨buf, past, rfl⟩ := hput
    have he := demuxPut_enrolled w.handle buf past
    refine ⟨fun sid => ?_, List.forall_mem_append.mpr ⟨hw.proper, putAnnounces_proper _ _ _⟩⟩
    have happ : namedOn sid (w.heard ++ putAnnounces w.handle buf past) =
        namedOn sid w.heard ++ namedOn sid (putAnnounces w.handle buf past) := by
      rw [namedOn, List.filter_append, List.map_append]
      rfl
    refine (he.ids sid).trans ?_
    rw [hw.ids sid, ← Roster.enterAll_append, ← happ]
    rfl
  by_cases hreset : c = .attrReset
  · subst hreset
    exact ⟨fun sid => by cases sid <;> rfl, List.forall_mem_nil _⟩
  have hput' (buf : List UInt8) (past : Nat → UInt8) : c ≠ .base (.put buf past) := fun he => hput ⟨buf, past, he⟩
  have hheard : (w.next c).heard = w.heard := by
    unfold Watch.next
    dsimp only
    split
    · exact absurd rfl (hput' _ _)
    · exact absurd rfl hreset
    · rfl
  refine ⟨fun sid => ?_, hheard ▸ hw.proper⟩
  rw [hheard, ← hw.ids sid]
  exact (AnyCall.run_ids hput' hreset).stream sid

theorem recorded_run (size : Nat) (junk : Nat → UInt8) (cs : List AnyCall) : (run size junk cs).Recorded := by
  have hall (w : Watch) (hw : w.Recorded) : (cs.foldl Watch.next w).Recorded := by
    induction cs generalizing w with
    | nil => exact hw
    | cons c cs ih => exact ih _ (hw.next c)
  exact hall _ (.init size junk)

/-- In every state reached a table has no id twice, and one entry for each id that was named. -/
theorem Recorded.table {w : Watch} (hw : w.Recorded) (sid : StreamId) :
    ((w.handle.stream sid).attr.ids.map (·.id)).Nodup ∧
      (w.handle.stream sid).attr.ids.length = (w.named sid).length := by
  rw [hw.ids sid]
  exact ⟨Roster.nodup_enterAll _ _ List.nodup_nil, Roster.length_enterAll _ _⟩

/-- There are sixteen start codes of video streams. -/
theorem Recorded.video {w : Watch} (hw : w.Recorded) : (w.named .video).length ≤ 16 := by
  have hsub : w.named .video ⊆ List.range' 0xE0 16 := by
    intro id hid
    obtain ⟨info, hinfo, rfl⟩ := List.mem_map.mp (List.mem_dedup.mp hid)
    obtain ⟨a, ha, rfl⟩ := List.mem_map.mp hinfo
    obtain ⟨hmem, hring⟩ := List.mem_filter.mp ha
    have hp := hw.proper a hmem
    unfold Announcement.Proper at hp
    rw [of_decide_eq_true hring] at hp
    have hv : isVideoStream a.info.id = true := by
      cases htype : a.info.type with
      | mpeg => simpa only [htype] using hp
      | ac3 => simp only [htype] at hp
      | pcm => simp only [htype] at hp
    simp only [isVideoStream, Bool.and_eq_true, decide_eq_true_eq] at hv
    rw [List.mem_range'_1]
    omega
  calc (w.named .video).length ≤ (List.range' 0xE0 16).length := ((List.nodup_dedup _).subperm hsub).length_le
    _ = 16 := List.length_range'

/-- Up to the next `demux_attr_reset` an id keeps its place in the table, and its type. -/
theorem ids_kept (w : Watch) (sid : StreamId) {later : List AnyCall} (hr : AnyCall.attrReset ∉ later) :
    (w.handle.stream sid).attr.ids <+: ((later.foldl next w).handle.stream sid).attr.ids := by
  induction later generalizing w with
  | nil => exact List.prefix_refl _
  | cons c later ih =>
    have hc : c ≠ .attrReset := fun he => hr (he ▸ List.mem_cons_self)
    refine List.IsPrefix.trans ?_ (ih (w.next c) fun hl => hr (List.mem_cons_of_mem c hl))
    by_cases hput : ∃ buf past, c = .base (.put buf past)
    · obtain ⟨buf, past, rfl⟩ := hput
      have he := (demuxPut_enrolled w.handle buf past).ids sid
      change _ <+: ((demuxPut w.handle buf past).1.stream sid).attr.ids
      rw [he]
      exact Roster.prefix_enterAll ..
    · have hput' (buf : List UInt8) (past : Nat → UInt8) : c ≠ .base (.put buf past) := fun he => hput ⟨buf, past, he⟩
      have hs := (AnyCall.run_ids (h := w.handle) hput' hc).stream sid
      change _ <+: ((c.run w.handle).stream sid).attr.ids
      rw [hs]

end Watch

/-- The tables of a run are sound throughout just when its packets never name more than sixteen
audio streams between two calls of `demux_attr_reset`. -/
theorem tables_hold_iff (size : Nat) (junk : Nat → UInt8) (cs : List AnyCall) :
    (∀ past, past <+: cs → ∀ sid, ((Watch.run size junk past).handle.stream sid).TableHolds ∧
        ∀ later, past ++ later <+: cs → AnyCall.attrReset ∉ later →
          ((Watch.run size junk past).handle.stream sid).attr.ids <+:
            ((Watch.run size junk (past ++ later)).handle.stream sid).attr.ids) ↔
      ∀ past, past <+: cs → ((Watch.run size junk past).named .audio).length ≤ 16 := by
  constructor
  · intro hall past hpast
    rw [← ((Watch.recorded_run size junk past).table .audio).2]
    exact (hall past hpast .audio).1.2
  · intro hfew past hpast sid
    have hrec := Watch.recorded_run size junk past
    refine ⟨⟨(hrec.table sid).1, ?_⟩, fun later _ hr => ?_⟩
    · rw [(hrec.table sid).2]
      cases sid with
      | audio => exact hfew past hpast
      | video => exact hrec.video
    · rw [Watch.run, Watch.run, List.foldl_append]
      exact Watch.ids_kept _ sid hr

set_option maxRecDepth 4000 in
/-- One packet for each of seventeen AC3 substreams: the last one is written behind `ids[15]`. -/
theorem seventeenth_audio_stream :
    let packets := (List.range 17).flatMap fun i => [0, 0, 1, 0xBD, 0, 7, 0x80, 0, 0, UInt8.ofNat (0x80 + i), 0, 0, 0]
    (demuxPut (demuxInit 100 fun _ => 0) packets fun _ => 0).1.audio.attr.ids.length = 17 ∧
      ¬ ∀ cs sid, ((Watch.run 100 (fun _ => 0) cs).handle.stream sid).TableHolds := by
  intro packets
  have hlen : (demuxPut (demuxInit 100 fun _ => 0) packets fun _ => 0).1.audio.attr.ids.length = 17 := by
    decide
  refine ⟨hlen, fun hall => ?_⟩
  have hle : (demuxPut (demuxInit 100 fun _ => 0) packets fun _ => 0).1.audio.attr.ids.length ≤ 16 :=
    (hall [.base (.put packets fun _ => 0)] .audio).2
  rw [hlen] at hle
  exact absurd hle (by decide)

end Mvpmc.Demux
