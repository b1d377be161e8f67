import Mathlib.Data.List.Dedup
import Mathlib.Data.List.Pairwise
import Mathlib.Logic.Function.Basic
import Mvpmc.Lib.Reach

/-! The program map tables of a transport stream (`ts_demux_pmt_callback` in `ts_demux.c`), and the ipacks that
are given to the PIDs they list. -/
namespace Mvpmc.TsDemux
open Mvpmc.Lib

def TS_MAXIPACKS : Nat := 8

/-- The entry of a PID that has no ipack. -/
def noIpack : Nat := 255

/-- `dvbpsi_descriptor_t`: a tag, and the memory behind `p_data`. -/
structure Descriptor where
  tag : Nat
  data : Nat → UInt8

/-- `dvbpsi_pmt_es_t`. -/
structure Es where
  type : Nat
  pid : Nat
  descriptors : List Descriptor := []

/-- `dvbpsi_pmt_t`. -/
structure Pmt where
  pcrPid : Nat
  es : List Es

/-- The part of `ts_demux_handle_t` that says where the packets of a PID go: `streamId` is the field of
that name of each ipack. -/
structure Pids where
  numpids : Nat
  ipackIndex : Nat → Nat
  streamId : Nat → Nat

/-- `ts_demux_reset`; the stream ids stay. -/
def Pids.reset (h : Pids) : Pids := { h with numpids := 0, ipackIndex := fun _ => noIpack }

/-- `ts_demux_allocate_next_ipack`. -/
def allocateNextIpack (h : Pids) (pid streamid : Nat) : Pids :=
  if TS_MAXIPACKS ≤ h.numpids then h
  else {
    numpids := h.numpids + 1
    ipackIndex := Function.update h.ipackIndex pid h.numpids
    streamId := Function.update h.streamId h.numpids streamid }

/-- The loop over the descriptors; `none` is the audio type -1. -/
def Es.audioType (es : Es) : Option Nat :=
  es.descriptors.foldl (fun audioType desc =>
    let audioType := if desc.tag = 0x0a then some (desc.data 3).toNat else audioType
    if desc.tag = 0x6a ∧ audioType = none then some 0x6a else audioType) none

/-- The locals of `ts_demux_pmt_callback` in the loop over the elementary streams. -/
structure Counts where
  video : Nat := 0
  audio : Nat := 0
  pcrPidAdded : Bool := false

/-- One round of the loop over the elementary streams. -/
def addEs (pcrPid : Nat) (s : Pids × Counts) (es : Es) : Pids × Counts :=
  let (h, n) := s
  let added (n : Counts) : Counts := { n with pcrPidAdded := n.pcrPidAdded || es.pid = pcrPid }
  if es.type = 2 then (allocateNextIpack h es.pid (0xe0 + n.video), added { n with video := n.video + 1 })
  else if es.type = 3 ∨ es.type = 4 then
    if es.audioType ≠ some 3 then (allocateNextIpack h es.pid (0xC0 + n.audio), added { n with audio := n.audio + 1 })
    else (h, { n with audio := n.audio + 1 })
  else if es.type = 6 then
    if es.audioType ≠ some 0x6a then (h, n)
    else (allocateNextIpack h es.pid 0xBD, added { n with audio := n.audio + 1 })
  else if es.type = 0x81 then (allocateNextIpack h es.pid 0xBD, added { n with audio := n.audio + 1 })
  else (h, n)

/-- `ts_demux_pmt_callback`. -/
def pmtCallback (h : Pids) (pmt : Pmt) : Pids :=
  let s := pmt.es.foldl (addEs pmt.pcrPid) (h, {})
  if s.2.pcrPidAdded then s.1 else allocateNextIpack s.1 pmt.pcrPid 0

inductive Kind where
  | video | mpegAudio | ac3
  deriving DecidableEq

/-- A supported elementary stream, and the stream id it is to have. -/
structure Request where
  pid : Nat
  streamId : Nat
  kind : Kind
  deriving DecidableEq

/-- The supported streams of a table, behind `video` video and `audio` audio streams. -/
def requests : Nat → Nat → List Es → List Request
  | _, _, [] => []
  | video, audio, es :: rest =>
    if es.type = 2 then ⟨es.pid, 0xe0 + video, .video⟩ :: requests (video + 1) audio rest
    else if es.type = 3 ∨ es.type = 4 then
      if es.audioType ≠ some 3 then ⟨es.pid, 0xC0 + audio, .mpegAudio⟩ :: requests video (audio + 1) rest
      else requests video (audio + 1) rest
    else if es.type = 6 then
      if es.audioType ≠ some 0x6a then requests video audio rest
      else ⟨es.pid, 0xBD, .ac3⟩ :: requests video (audio + 1) rest
    else if es.type = 0x81 then ⟨es.pid, 0xBD, .ac3⟩ :: requests video (audio + 1) rest
    else requests video audio rest

def Pmt.requests (pmt : Pmt) : List Request := TsDemux.requests 0 0 pmt.es

def allocateAll (h : Pids) (rs : List Request) : Pids :=
  rs.foldl (fun h r => allocateNextIpack h r.pid r.streamId) h

/-- The loop over the elementary streams asks for an ipack for each supported one, in order. -/
theorem foldl_addEs (pcrPid : Nat) (es : List Es) (h : Pids) (n : Counts) :
    (es.foldl (addEs pcrPid) (h, n)).1 = allocateAll h (requests n.video n.audio es) ∧
      (es.foldl (addEs pcrPid) (h, n)).2.pcrPidAdded =
        (n.pcrPidAdded || (requests n.video n.audio es).any (·.pid = pcrPid)) := by
  induction es generalizing h n with
  | nil => exact ⟨rfl, (Bool.or_false _).symm⟩
  | cons es rest ih =>
    rw [List.foldl_cons]
    unfold addEs requests
    dsimp only
    split
    · obtain ⟨h1, h2⟩ := ih (allocateNextIpack h es.pid (0xe0 + n.video))
        { n with video := n.video + 1, pcrPidAdded := n.pcrPidAdded || es.pid = pcrPid }
      exact ⟨h1, h2.trans (by rw [List.any_cons, Bool.or_assoc])⟩
    · split
      · split
        · obtain ⟨h1, h2⟩ := ih (allocateNextIpack h es.pid (0xC0 + n.audio))
            { n with audio := n.audio + 1, pcrPidAdded := n.pcrPidAdded || es.pid = pcrPid }
          exact ⟨h1, h2.trans (by rw [List.any_cons, Bool.or_assoc])⟩
        · exact ih h { n with audio := n.audio + 1 }
      · split
        · split
          · exact ih h n
          · obtain ⟨h1, h2⟩ := ih (allocateNextIpack h es.pid 0xBD)
              { n with audio := n.audio + 1, pcrPidAdded := n.pcrPidAdded || es.pid = pcrPid }
            exact ⟨h1, h2.trans (by rw [List.any_cons, Bool.or_assoc])⟩
        · split
          · obtain ⟨h1, h2⟩ := ih (allocateNextIpack h es.pid 0xBD)
              { n with audio := n.audio + 1, pcrPidAdded := n.pcrPidAdded || es.pid = pcrPid }
            exact ⟨h1, h2.trans (by rw [List.any_cons, Bool.or_assoc])⟩
          · exact ih h n

/-- A table asks for its supported streams, and for the PCR PID if it is not one of these. -/
theorem pmtCallback_eq (h : Pids) (pmt : Pmt) : pmtCallback h pmt =
    if pmt.requests.any (·.pid = pmt.pcrPid) then allocateAll h pmt.requests
    else allocateNextIpack (allocateAll h pmt.requests) pmt.pcrPid 0 := by
  obtain ⟨h1, h2⟩ := foldl_addEs pmt.pcrPid pmt.es h {}
  unfold pmtCallback
  dsimp only
  rw [h1, h2, Bool.false_or]
  rfl

/-- Ipacks are below `numpids`, and none serves two PIDs. -/
structure Pids.Sound (h : Pids) : Prop where
  numpids_le : h.numpids ≤ TS_MAXIPACKS
  below : ∀ pid, h.ipackIndex pid ≠ noIpack → h.ipackIndex pid < h.numpids
  apart : ∀ p q, h.ipackIndex p ≠ noIpack → h.ipackIndex p = h.ipackIndex q → p = q

theorem Pids.Sound.allocate {h : Pids} (hs : h.Sound) (pid streamid : Nat) :
    (allocateNextIpack h pid streamid).Sound := by
  unfold allocateNextIpack
  split
  · exact hs
  · rename_i hfree
    have hold (p : Nat) (hp : p ≠ pid) : Function.update h.ipackIndex pid h.numpids p = h.ipackIndex p :=
      Function.update_of_ne hp ..
    have hnew : Function.update h.ipackIndex pid h.numpids pid = h.numpids := Function.update_self ..
    refine ⟨by dsimp only; omega, fun p hp => ?_, fun p q hp hpq => ?_⟩
    · dsimp only at hp ⊢
      by_cases he : p = pid
      · rw [he, hnew]
        exact Nat.lt_succ_self _
      · rw [hold p he] at hp ⊢
        exact Nat.lt_succ_of_lt (hs.below p hp)
    · dsimp only at hp hpq
      by_cases he : p = pid <;> by_cases he' : q = pid
      · rw [he, he']
      · rw [he, hnew, hold q he'] at hpq
        have hlt := hs.below q (by rw [← hpq]; unfold TS_MAXIPACKS noIpack at *; omega)
        omega
      · rw [he', hnew, hold p he] at hpq
        rw [hold p he] at hp
        have hlt := hs.below p hp
        omega
      · rw [hold p he] at hp hpq
        rw [hold q he'] at hpq
        exact hs.apart p q hp hpq

theorem Pids.Sound.allocateAll {h : Pids} (hs : h.Sound) (rs : List Request) : (allocateAll h rs).Sound := by
  induction rs generalizing h with
  | nil => exact hs
  | cons r rs ih => exact ih (hs.allocate r.pid r.streamId)

theorem Pids.Sound.pmtCallback {h : Pids} (hs : h.Sound) (pmt : Pmt) : (pmtCallback h pmt).Sound := by
  rw [pmtCallback_eq]
  split
  · exact hs.allocateAll _
  · exact (hs.allocateAll _).allocate _ _

theorem Pids.Sound.reset (h : Pids) : h.reset.Sound :=
  ⟨Nat.zero_le _, fun _ hp => absurd rfl hp, fun _ _ hp => absurd rfl hp⟩

/-- With an ipack left for each of them the requests are granted: the last one for a PID decides. -/
theorem allocateAll_granted {h : Pids} {rs : List Request} (hroom : h.numpids + rs.length ≤ TS_MAXIPACKS) :
    (allocateAll h rs).numpids = h.numpids + rs.length ∧
      (∀ i < h.numpids, (allocateAll h rs).streamId i = h.streamId i) ∧
      (∀ pid, (∀ r ∈ rs, r.pid ≠ pid) → (allocateAll h rs).ipackIndex pid = h.ipackIndex pid) ∧
      ∀ before r after, rs = before ++ r :: after → (∀ r' ∈ after, r'.pid ≠ r.pid) →
        (allocateAll h rs).ipackIndex r.pid = h.numpids + before.length ∧
          (allocateAll h rs).streamId (h.numpids + before.length) = r.streamId := by
  induction rs generalizing h with
  | nil =>
    refine ⟨rfl, fun _ _ => rfl, fun _ _ => rfl, fun before r after he => ?_⟩
    exact absurd he (by simp)
  | cons r rs ih =>
    rw [List.length_cons] at hroom
    have hfree : ¬ TS_MAXIPACKS ≤ h.numpids := by omega
    have hfirst : allocateNextIpack h r.pid r.streamId = {
        numpids := h.numpids + 1
        ipackIndex := Function.update h.ipackIndex r.pid h.numpids
        streamId := Function.update h.streamId h.numpids r.streamId } := if_neg hfree
    have hnum : (allocateNextIpack h r.pid r.streamId).numpids = h.numpids + 1 := by rw [hfirst]
    obtain ⟨h1, h2, h3, h4⟩ := ih (h := allocateNextIpack h r.pid r.streamId) (by rw [hnum]; omega)
    rw [hnum] at h1 h2 h4
    have hstep : allocateAll h (r :: rs) = allocateAll (allocateNextIpack h r.pid r.streamId) rs := rfl
    rw [hstep]
    refine ⟨by rw [h1, List.length_cons]; omega, fun i hi => ?_, fun pid hp => ?_, fun before s after he hlast => ?_⟩
    · refine (h2 i (by omega)).trans ?_
      rw [hfirst]
      exact Function.update_of_ne (by omega) ..
    · refine (h3 pid fun r' hr' => hp r' (List.mem_cons_of_mem r hr')).trans ?_
      rw [hfirst]
      exact Function.update_of_ne (hp r List.mem_cons_self).symm ..
    · cases before with
      | nil =>
        obtain ⟨rfl, rfl⟩ := List.cons.inj he
        refine ⟨(h3 r.pid hlast).trans ?_, (h2 h.numpids (Nat.lt_succ_self _)).trans ?_⟩ <;> rw [hfirst] <;>
          exact Function.update_self ..
      | cons b before =>
        obtain ⟨rfl, rfl⟩ := List.cons.inj he
        have hlen : h.numpids + (r :: before).length = h.numpids + 1 + before.length := by
          rw [List.length_cons]
          omega
        rw [hlen]
        exact h4 before s after rfl hlast

/-- The video streams of a table. -/
def Pmt.videos (pmt : Pmt) : Nat := pmt.es.countP (·.type = 2)

/-- The numbers of the audio streams do not run into those of the video streams. Streams for the visually
impaired, which are passed over, are numbered as well. -/
def Pmt.NumbersApart (pmt : Pmt) : Prop :=
  ∀ r ∈ pmt.requests, r.kind = .mpegAudio → r.streamId < 0xe0 ∨ 0xe0 + pmt.videos ≤ r.streamId

instance (pmt : Pmt) : Decidable pmt.NumbersApart := List.decidableBAll _ _

/-- MPEG audio and video. -/
def Request.IsMpeg (r : Request) : Prop := r.kind ≠ .ac3

/-- The last entry of a table for a PID is `r`. -/
def Pmt.Lists (pmt : Pmt) (r : Request) : Prop :=
  ∃ before after, pmt.requests = before ++ r :: after ∧ ∀ r' ∈ after, r'.pid ≠ r.pid

/-- Streams that are numbered from some counts on, `n` of them video streams. -/
structure Numbered (video audio n : Nat) (rs : List Request) : Prop where
  video : ∀ r ∈ rs, r.kind = .video → 0xe0 + video ≤ r.streamId ∧ r.streamId < 0xe0 + video + n
  audio : ∀ r ∈ rs, r.kind = .mpegAudio → 0xC0 + audio ≤ r.streamId
  apart : rs.Pairwise fun r s => r.kind = s.kind → r.IsMpeg → r.streamId ≠ s.streamId

namespace Numbered
variable {video audio n pid : Nat} {rs : List Request}

theorem nil : Numbered video audio n [] := ⟨nofun, nofun, List.Pairwise.nil⟩

/-- Numbers from a later count on. -/
theorem skip (h : Numbered video (audio + 1) n rs) : Numbered video audio n rs :=
  ⟨h.video, fun r hr hk => Nat.le_of_succ_le (h.audio r hr hk), h.apart⟩

theorem cons_ac3 (h : Numbered video audio n rs) : Numbered video audio n (⟨pid, 0xBD, .ac3⟩ :: rs) where
  video := List.forall_mem_cons.mpr ⟨nofun, h.video⟩
  audio := List.forall_mem_cons.mpr ⟨nofun, h.audio⟩
  apart := List.pairwise_cons.mpr ⟨fun _ _ _ hm => absurd rfl hm, h.apart⟩

theorem cons_audio (h : Numbered video (audio + 1) n rs) :
    Numbered video audio n (⟨pid, 0xC0 + audio, .mpegAudio⟩ :: rs) where
  video := List.forall_mem_cons.mpr ⟨nofun, h.video⟩
  audio := List.forall_mem_cons.mpr ⟨fun _ => Nat.le_refl _, h.skip.audio⟩
  apart := List.pairwise_cons.mpr ⟨fun s hs hk _ => Nat.ne_of_lt (h.audio s hs hk.symm), h.apart⟩

theorem cons_video (h : Numbered (video + 1) audio n rs) :
    Numbered video audio (n + 1) (⟨pid, 0xe0 + video, .video⟩ :: rs) where
  video := by
    refine List.forall_mem_cons.mpr ⟨fun _ => ⟨Nat.le_refl _, by dsimp only; omega⟩, fun s hs hk => ?_⟩
    have := h.video s hs hk
    omega
  audio := List.forall_mem_cons.mpr ⟨nofun, h.audio⟩
  apart := List.pairwise_cons.mpr ⟨fun s hs hk _ => Nat.ne_of_lt (h.video s hs hk.symm).1, h.apart⟩

end Numbered

/-- The numbers given to MPEG audio and video, from some counts on. -/
theorem requests_numbers (es : List Es) (video audio : Nat) :
    Numbered video audio (es.countP (·.type = 2)) (requests video audio es) := by
  induction es generalizing video audio with
  | nil => exact .nil
  | cons es rest ih =>
    unfold requests
    by_cases h2 : es.type = 2
    · rw [if_pos h2, List.countP_cons_of_pos (by simp [h2])]
      exact (ih (video + 1) audio).cons_video
    · rw [if_neg h2, List.countP_cons_of_neg (by simp [h2])]
      split
      · split
        · exact (ih video (audio + 1)).cons_audio
        · exact (ih video (audio + 1)).skip
      · split
        · split
          · exact ih video audio
          · exact (ih video (audio + 1)).skip.cons_ac3
        · split
          · exact (ih video (audio + 1)).skip.cons_ac3
          · exact ih video audio

/-- The stream ids that a table asks for are distinct among MPEG audio and video. -/
theorem Pmt.numbers_apart {pmt : Pmt} (hn : pmt.NumbersApart) :
    pmt.requests.Pairwise fun r s => r.IsMpeg → s.IsMpeg → r.streamId ≠ s.streamId := by
  obtain ⟨hvideo, -, hpair⟩ := requests_numbers pmt.es 0 0
  have hcross {r s : Request} (hr : r ∈ pmt.requests) (hs : s ∈ pmt.requests) (hv : r.kind = .video)
      (ha : s.kind = .mpegAudio) : r.streamId ≠ s.streamId := by
    have h1 := hvideo r hr hv
    have h2 := hn s hs ha
    unfold Pmt.videos at h2
    omega
  refine List.Pairwise.imp_of_mem (fun {r s} hr hs hsame hrm hsm => ?_) hpair
  by_cases hk : r.kind = s.kind
  · exact hsame hk hrm
  · cases hrk : r.kind with
    | ac3 => exact absurd hrk hrm
    | video =>
      cases hsk : s.kind with
      | ac3 => exact absurd hsk hsm
      | video => exact absurd (hrk.trans hsk.symm) hk
      | mpegAudio => exact hcross hr hs hrk hsk
    | mpegAudio =>
      cases hsk : s.kind with
      | ac3 => exact absurd hsk hsm
      | video => exact (hcross hs hr hsk hrk).symm
      | mpegAudio => exact absurd (hrk.trans hsk.symm) hk

/-- What a table is owed after it has come: an ipack for every supported PID it lists, and stream ids of their
own for its MPEG audio and video. -/
structure Honoured (pmt : Pmt) (h : Pids) : Prop where
  sound : h.Sound
  listed : (pmt.requests.map (·.pid)).dedup.length ≤ 7 → ∀ r ∈ pmt.requests, h.ipackIndex r.pid ≠ noIpack
  numbers : ∀ r s, pmt.Lists r → pmt.Lists s → r.pid ≠ s.pid → r.IsMpeg → s.IsMpeg →
    h.streamId (h.ipackIndex r.pid) ≠ h.streamId (h.ipackIndex s.pid)

/-- The states of a handle, over tables and resets. -/
def Reachable : Pids → Prop :=
  Reach (fun h => ∃ h₀ : Pids, h = h₀.reset) fun h (pmt : Option Pmt) h' =>
    match pmt with
    | some pmt => h' = pmtCallback h pmt
    | none => h' = h.reset

theorem Reachable.sound {h : Pids} (hr : Reachable h) : h.Sound := by
  have hstart : ∀ h : Pids, (∃ h₀ : Pids, h = h₀.reset) → h.Sound := by
    rintro _ ⟨h₀, rfl⟩
    exact .reset h₀
  have hstep : ∀ (h : Pids) (pmt : Option Pmt) (h' : Pids), h.Sound → (match pmt with
      | some pmt => h' = pmtCallback h pmt
      | none => h' = h.reset) → h'.Sound := by
    intro h pmt h' hs he
    cases pmt with
    | some pmt =>
      obtain rfl : h' = pmtCallback h pmt := he
      exact hs.pmtCallback pmt
    | none =>
      obtain rfl : h' = h.reset := he
      exact .reset h
  exact hr.invariant hstart hstep

/-- One allocation leaves the other PIDs and the ipacks in use alone. -/
theorem allocateNextIpack_other (h : Pids) {pid p i : Nat} (streamid : Nat) (hp : p ≠ pid) (hi : i < h.numpids) :
    (allocateNextIpack h pid streamid).ipackIndex p = h.ipackIndex p ∧
      (allocateNextIpack h pid streamid).streamId i = h.streamId i := by
  unfold allocateNextIpack
  split
  · exact ⟨rfl, rfl⟩
  · exact ⟨Function.update_of_ne hp .., Function.update_of_ne (by omega) ..⟩

/-- Every PID that is listed has a last entry. -/
theorem exists_last {rs : List Request} {r : Request} (hr : r ∈ rs) : ∃ before s after,
    rs = before ++ s :: after ∧ s.pid = r.pid ∧ ∀ r' ∈ after, r'.pid ≠ s.pid := by
  induction rs generalizing r with
  | nil => exact absurd hr List.not_mem_nil
  | cons x rs ih =>
    by_cases hlater : ∃ s ∈ rs, s.pid = r.pid
    · obtain ⟨s, hs, he⟩ := hlater
      obtain ⟨before, t, after, rfl, ht, hafter⟩ := ih hs
      exact ⟨x :: before, t, after, rfl, ht.trans he, hafter⟩
    · obtain rfl : r = x := (List.mem_cons.mp hr).resolve_right fun hm => hlater ⟨r, hm, rfl⟩
      exact ⟨[], r, rs, rfl, rfl, fun s hs he => hlater ⟨s, hs, he⟩⟩

/-- Where an ipack is free for every supported stream that it lists, a table is honoured, whatever came before. -/
theorem table_honoured {h : Pids} (hr : Reachable h) (pmt : Pmt)
    (hroom : h.numpids + pmt.requests.length ≤ TS_MAXIPACKS) (hn : pmt.NumbersApart) :
    Honoured pmt (pmtCallback h pmt) := by
  obtain ⟨hnum, -, -, hlast⟩ := allocateAll_granted hroom
  have hlists {r : Request} (hl : pmt.Lists r) : (pmtCallback h pmt).ipackIndex r.pid < TS_MAXIPACKS ∧
      (pmtCallback h pmt).streamId ((pmtCallback h pmt).ipackIndex r.pid) = r.streamId := by
    obtain ⟨before, after, hsplit, hafter⟩ := hl
    obtain ⟨hindex, hid⟩ := hlast before r after hsplit hafter
    have hlen : before.length < pmt.requests.length := by
      rw [hsplit, List.length_append, List.length_cons]
      omega
    have hkept : (pmtCallback h pmt).ipackIndex r.pid = h.numpids + before.length ∧
        (pmtCallback h pmt).streamId (h.numpids + before.length) = r.streamId := by
      rw [pmtCallback_eq]
      split
      · exact ⟨hindex, hid⟩
      · rename_i hpcr
        have hne : r.pid ≠ pmt.pcrPid := by
          intro he
          refine hpcr (List.any_eq_true.mpr ⟨r, ?_, decide_eq_true he⟩)
          rw [hsplit]
          exact List.mem_append_right before List.mem_cons_self
        obtain ⟨h1, h2⟩ := allocateNextIpack_other (allocateAll h pmt.requests) (i := h.numpids + before.length) 0 hne
          (by omega)
        exact ⟨h1.trans hindex, h2.trans hid⟩
    rw [hkept.1]
    exact ⟨by omega, hkept.2⟩
  refine ⟨hr.sound.pmtCallback pmt, fun _ r hr => ?_, fun r s hlr hls hpid hrm hsm => ?_⟩
  · obtain ⟨before, s, after, hsplit, hs, hafter⟩ := exists_last hr
    have hlt := (hlists ⟨before, after, hsplit, hafter⟩).1
    rw [← hs]
    unfold TS_MAXIPACKS noIpack at *
    omega
  · rw [(hlists hlr).2, (hlists hls).2]
    have hmem {r : Request} (hl : pmt.Lists r) : r ∈ pmt.requests := by
      obtain ⟨before, after, hsplit, -⟩ := hl
      rw [hsplit]
      exact List.mem_append_right before List.mem_cons_self
    have hsymm : Std.Symm fun r s : Request => r.IsMpeg → s.IsMpeg → r.streamId ≠ s.streamId :=
      ⟨fun _ _ h hs hr => (h hr hs).symm⟩
    exact (Pmt.numbers_apart hn).forall (hmem hlr) (hmem hls) (fun he => hpid (congrArg _ he)) hrm hsm

/-- A video stream with its clock, and audio streams on the PIDs behind it. -/
def program (pid : Nat) (audio : List Nat) : Pmt where
  pcrPid := pid
  es := ⟨2, pid, []⟩ :: audio.mapIdx fun i type => ⟨type, pid + 1 + i, []⟩

theorem reachable_program (pid : Nat) (audio : List Nat) (h₀ : Pids) :
    Reachable (pmtCallback h₀.reset (program pid audio)) :=
  .next (some (program pid audio)) (.start ⟨h₀, rfl⟩) rfl

/-- A second program, while there are ipacks for it. -/
theorem table_honoured_second : Honoured (program 512 [3, 0x81])
    (pmtCallback (pmtCallback (Pids.reset ⟨0, fun _ => 0, fun _ => 0⟩) (program 256 [3, 4, 4])) (program 512 [3, 0x81])) :=
  table_honoured (reachable_program 256 [3, 4, 4] _) _ (by decide) (by decide)

/-- A program of four streams and then one of five: there is no ipack left for the last of them, though those of
the first program are in use no longer. -/
theorem second_program_cut_off :
    let h := pmtCallback (Pids.reset ⟨0, fun _ => 0, fun _ => 0⟩) (program 256 [3, 4, 4])
    (pmtCallback h (program 512 [3, 4, 4, 0x81])).ipackIndex 516 = noIpack ∧
      ¬ ∀ h pmt, Reachable h → Honoured pmt (pmtCallback h pmt) := by
  intro h
  have hnone : (pmtCallback h (program 512 [3, 4, 4, 0x81])).ipackIndex 516 = noIpack := by decide
  refine ⟨hnone, fun hall => ?_⟩
  have hhon := hall h (program 512 [3, 4, 4, 0x81]) (reachable_program 256 [3, 4, 4] _)
  exact hhon.listed (by decide) ⟨516, 0xBD, .ac3⟩ (by decide) hnone

end Mvpmc.TsDemux
