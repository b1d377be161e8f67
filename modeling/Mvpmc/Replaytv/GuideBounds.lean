import Mvpmc.Replaytv.Guide

/-! Which guide snapshots are parsed inside of the snapshot, with every record visited once. -/
namespace Mvpmc.Replaytv.Guide
open Mvpmc.Lib Mvpmc.Lib.InPlace Mvpmc.Lib.Circular

/-- A channel as the snapshot has it. -/
def channelAt (ver : GuideVer) (m : Nat → UInt8) (a : Nat) : Channel :=
  ⟨ofNetwork (slice m (a + ver.created) 4), m (a + ver.daysofweek)⟩

/-- All accesses stay inside, the categories go into their arrays, each channel is taken from its own record, and of every
record all fields are converted, none of them twice. -/
structure Sound (size : Nat) (m : Nat → UInt8) (g : Snapshot) (r : Run) : Prop where
  inside : ∀ a ∈ r.touches ++ r.converted, a.Inside size
  categories : ∀ x ∈ r.categories, x < GRP_DATA_NUM_CATEGORIES
  channels : r.channels =
    (List.range g.channelcount).map fun i => channelAt g.ver m (g.channeloffset + g.ver.channelSize * i)
  everyHeader : ∀ f ∈ guideFields ++ categoryFields g.categories, ⟨g.ver.place, f⟩ ∈ r.converted
  everyChannel : ∀ i < g.channelcount, ∀ f ∈ g.ver.channelFields,
    ⟨.dump, f.shift (g.channeloffset + g.ver.channelSize * i)⟩ ∈ r.converted
  everyShow : ∀ x < g.numShows, ∀ f ∈ showFields, ⟨.dump, f.shift (g.showoffset + g.ver.showSize * x)⟩ ∈ r.converted
  once : r.converted.Pairwise Access.Apart

section Shows
variable (order : ByteOrder) (size : Nat)

/-- Where the last string of a show begins. -/
def lastText (a : Nat) (m : Nat → UInt8) : Nat :=
  a + 148 + infoSize (showFlags order a m) + (textLengths a (convert order (showConverted order a m) m)).dropLast.sum

/-- A show lies in the snapshot and beside the fields converted before it, and there is a zero in the snapshot at its last
string or behind it. -/
structure ShowFits (others : List Span) (a : Nat) (m : Nat → UInt8) : Prop where
  room : a + REPLAYSHOW_SZ ≤ size
  apart : ∀ s ∈ others, ∀ t ∈ showConverted order a m, s.Apart t
  ended : ∃ q, lastText order a m ≤ q ∧ q < size ∧ convert order (showConverted order a m) m q = 0

/-- So do `n` shows from `a` on, each with the memory that the one in front of it leaves. -/
def ShowsFit (others : List Span) (showSize : Nat) : Nat → Nat → (Nat → UInt8) → Prop
  | 0, _, _ => True
  | n + 1, a, m =>
    ShowFits order size others a m ∧ ShowsFit others showSize n (a + showSize) (parseShow order size a m).memory

end Shows

/-- The fields of the header that are converted in the snapshot itself. -/
def Snapshot.headerConverted (g : Snapshot) : List Span :=
  match g.ver with
  | .v1 => []
  | .v2 => guideFields ++ categoryFields g.categories

/-- The fields of the first channel, if there is any. -/
def Snapshot.channelConverted (g : Snapshot) : List Span :=
  if 0 < g.channelcount then g.ver.channelFields.map (·.shift g.channeloffset) else []

/-- What the snapshot has to be like. -/
structure Fits (order : ByteOrder) (size : Nat) (g : Snapshot) : Prop where
  header : match g.ver with
    | .v1 => 808 ≤ size
    | .v2 => 72 ≤ size ∧ (0 < g.categories → 200 + 4 * g.categories ≤ size)
  categories : g.categories ≤ GRP_DATA_NUM_CATEGORIES
  names : ∀ x < g.categories, (g.name order x).stop ≤ g.ver.place.room size
  one : g.channelcount ≤ 1
  channel : 0 < g.channelcount → g.channeloffset + g.ver.channelEnd ≤ size
  apart : ∀ s ∈ g.headerConverted, ∀ t ∈ g.channelConverted, s.Apart t
  shows : ShowsFit order size (g.headerConverted ++ g.channelConverted) g.ver.showSize g.numShows g.showoffset
    (parseChannels order g.ver g.channeloffset g.channelcount g.dump).memory

section Tables

theorem showFields_apart (flags : UInt32) : (showFields ++ (infoFields flags).map (·.shift 148)).Pairwise Span.Apart := by
  unfold infoFields
  split
  · split
    · decide
    · decide
  · split
    · decide
    · decide

theorem showFields_stop (flags : UInt32) : ∀ s ∈ showFields ++ (infoFields flags).map (·.shift 148), s.stop ≤ REPLAYSHOW_SZ := by
  unfold infoFields
  split
  · split
    · decide
    · decide
  · split
    · decide
    · decide

theorem channelFields_apart (ver : GuideVer) : ver.channelFields.Pairwise Span.Apart := by
  cases ver <;> decide

theorem channelFields_stop (ver : GuideVer) : ∀ s ∈ ver.channelFields, s.stop ≤ ver.channelEnd := by
  cases ver <;> decide

theorem exists_channelFields_stop (ver : GuideVer) : ∃ s ∈ ver.channelFields, s.stop = ver.channelEnd := by
  cases ver <;> decide

theorem created_mem (ver : GuideVer) : ⟨ver.created, 4⟩ ∈ ver.channelFields := by
  cases ver <;> decide

theorem daysofweek_outside (ver : GuideVer) :
    ∀ s ∈ ver.channelFields, ver.daysofweek < s.start ∨ s.stop ≤ ver.daysofweek := by
  cases ver <;> decide

theorem daysofweek_lt (ver : GuideVer) : ver.daysofweek < ver.channelEnd := by
  cases ver <;> decide

theorem guideFields_stop : ∀ s ∈ guideFields, s.stop ≤ 72 := by decide

theorem headerFields_apart {n : Nat} (h : n ≤ GRP_DATA_NUM_CATEGORIES) :
    (guideFields ++ categoryFields n).Pairwise Span.Apart := by
  have hall : (guideFields ++ categoryFields GRP_DATA_NUM_CATEGORIES).Pairwise Span.Apart := by decide
  have hsub : List.Sublist (categoryFields n) (categoryFields GRP_DATA_NUM_CATEGORIES) := by
    obtain ⟨k, hk⟩ := Nat.exists_eq_add_of_le h
    rw [categoryFields, categoryFields, hk, List.range_add, List.flatMap_append]
    exact List.sublist_append_left _ _
  exact hall.sublist (hsub.append_left guideFields)

/-- The header ends with the arrays of its categories. -/
theorem headerFields_stop_iff {n size : Nat} : (∀ s ∈ guideFields ++ categoryFields n, s.stop ≤ size) ↔
    72 ≤ size ∧ (0 < n → 200 + 4 * n ≤ size) := by
  rw [List.forall_mem_append]
  constructor
  · rintro ⟨hguide, hcategory⟩
    refine ⟨hguide ⟨68, 4⟩ (by decide), fun hpos => ?_⟩
    have hmem : ⟨200 + 4 * (n - 1), 4⟩ ∈ categoryFields n :=
      List.mem_flatMap.mpr ⟨n - 1, List.mem_range.mpr (by omega), by simp⟩
    have hstop := hcategory _ hmem
    simp only [Span.stop] at hstop
    omega
  · rintro ⟨hguide, hcategory⟩
    refine ⟨fun s hs => (guideFields_stop s hs).trans hguide, fun s hs => ?_⟩
    obtain ⟨cc, hcc, hs⟩ := List.mem_flatMap.mp hs
    have hlt := List.mem_range.mp hcc
    have hroom := hcategory (by omega)
    rcases List.mem_cons.mp hs with rfl | hs
    · simp only [Span.stop]
      omega
    · rw [List.mem_singleton.mp hs]
      simp only [Span.stop]
      omega

end Tables

section Texts
variable {order : ByteOrder} {size : Nat} {m : Nat → UInt8}

theorem quote_eq_zero_iff (ch : UInt8) : quote ch = 0 ↔ ch = 0 := by
  rw [quote]
  split
  · next h => simp [h]
  · split
    · next h => rcases h with rfl | rfl <;> decide
    · rfl

theorem textEnd_eq_none {p : Nat} (h : textEnd size m p = none) (q : Nat) (hp : p ≤ q) (hq : q < size) : m q ≠ 0 := by
  have hnone := List.find?_eq_none.mp h (q - p) (List.mem_range.mpr (by omega))
  rw [Nat.add_sub_cancel' hp] at hnone
  simpa using hnone

theorem textEnd_eq_some {p n : Nat} (h : textEnd size m p = some n) : p + n < size ∧ m (p + n) = 0 := by
  have hlt := List.mem_range.mp (List.mem_of_find?_eq_some h)
  have hzero := List.find?_some h
  exact ⟨by omega, by simpa using hzero⟩

/-- The strings of a show are read inside of the snapshot if and only if there is a zero for the last one to end at. -/
theorem parseTexts_spec (size : Nat) (m : Nat → UInt8) (lens : List Nat) (p : Nat) :
    ((∀ s ∈ (parseTexts size lens p m).touches, s.stop ≤ size) ↔
        lens ≠ [] → ∃ q, p + lens.dropLast.sum ≤ q ∧ q < size ∧ m q = 0) ∧
      ((∀ s ∈ (parseTexts size lens p m).touches, s.stop ≤ size) → (parseTexts size lens p m).left = false) := by
  induction lens generalizing p m with
  | nil => simp [parseTexts]
  | cons len lens ih =>
    rw [parseTexts]
    cases htext : textEnd size m p with
    | none =>
      have hout : ¬ ∀ s ∈ [(⟨p, size - p + 1⟩ : Span)], s.stop ≤ size := by
        rw [List.forall_mem_singleton]
        simp only [Span.stop]
        omega
      refine ⟨iff_of_false hout fun h => ?_, fun h => absurd h hout⟩
      obtain ⟨q, hp, hq, hzero⟩ := h (List.cons_ne_nil _ _)
      exact textEnd_eq_none htext q (by omega) hq hzero
    | some n =>
      obtain ⟨hlt, hzero⟩ := textEnd_eq_some htext
      let m' : Nat → UInt8 := fun i => if p ≤ i ∧ i < p + n then quote (m i) else m i
      have hzeros (q : Nat) : m' q = 0 ↔ m q = 0 := by
        show (if p ≤ q ∧ q < p + n then quote (m q) else m q) = 0 ↔ _
        split
        · exact quote_eq_zero_iff _
        · rfl
      obtain ⟨hrest, hleft⟩ := ih m' (p + len)
      dsimp only
      rw [List.forall_mem_cons, and_iff_right (show (⟨p, n + 1⟩ : Span).stop ≤ size by simp only [Span.stop]; omega), hrest]
      refine ⟨?_, fun h => hleft (hrest.mpr h)⟩
      rw [forall_prop_of_true (List.cons_ne_nil len lens)]
      cases lens with
      | nil => exact iff_of_true (fun h => absurd rfl h) ⟨p + n, by simp, hlt, hzero⟩
      | cons len' lens =>
        rw [forall_prop_of_true (List.cons_ne_nil len' lens), List.dropLast_cons_cons, List.sum_cons, ← Nat.add_assoc]
        simp only [hzeros]

end Texts

section Loop
variable {order : ByteOrder} {size showSize : Nat} {others : List Span} {m : Nat → UInt8}

/-- The fields of a show that are converted, by their places in the record. -/
theorem showConverted_eq (a : Nat) (m : Nat → UInt8) : showConverted order a m =
    (showFields ++ (infoFields (showFlags order a m)).map (·.shift 148)).map (·.shift a) := by
  rw [showConverted, List.map_append, List.map_map]
  congr 1
  exact List.map_congr_left fun s _ => by simp only [Function.comp_apply, Span.shift, Nat.add_assoc]

theorem showConverted_apart (a : Nat) (m : Nat → UInt8) : (showConverted order a m).Pairwise Span.Apart := by
  rw [showConverted_eq, List.pairwise_map]
  exact (showFields_apart _).imp fun h => (Span.apart_shift_iff a _ _).mpr h

theorem showConverted_bounds {a : Nat} {s : Span} (h : s ∈ showConverted order a m) :
    a ≤ s.start ∧ s.stop ≤ a + REPLAYSHOW_SZ := by
  rw [showConverted_eq] at h
  obtain ⟨f, hf, rfl⟩ := List.mem_map.mp h
  have hstop := showFields_stop _ f hf
  simp only [Span.stop, Span.shift] at *
  omega

theorem parseShow_spec (order : ByteOrder) (size : Nat) (m : Nat → UInt8) (a : Nat) :
    ((∀ s ∈ (parseShow order size a m).touches, s.stop ≤ size) ↔
        ∃ q, lastText order a m ≤ q ∧ q < size ∧ convert order (showConverted order a m) m q = 0) ∧
      ((∀ s ∈ (parseShow order size a m).touches, s.stop ≤ size) → (parseShow order size a m).left = false) := by
  have hlens : textLengths a (convert order (showConverted order a m) m) ≠ [] := by simp [textLengths]
  have hspec := parseTexts_spec size (convert order (showConverted order a m) m)
    (textLengths a (convert order (showConverted order a m) m)) (a + 148 + infoSize (showFlags order a m))
  rwa [forall_prop_of_true hlens] at hspec

/-- The loop over the shows. -/
theorem parseShows_inside_iff (n a : Nat) :
    ((∀ s ∈ (parseShows order size showSize n a m).touches, s.stop ≤ size) ∧
        (∀ s ∈ (parseShows order size showSize n a m).converted, s.stop ≤ size) ∧
        ∀ s ∈ others, ∀ t ∈ (parseShows order size showSize n a m).converted, s.Apart t) ↔
      ShowsFit order size others showSize n a m := by
  induction n generalizing a m with
  | zero => simp [parseShows, ShowsFit]
  | succ n ih =>
    obtain ⟨hended, hleft⟩ := parseShow_spec order size m a
    have hrest := ih (a + showSize) (m := (parseShow order size a m).memory)
    have hroom : (⟨a, REPLAYSHOW_SZ⟩ : Span).stop ≤ size ↔ a + REPLAYSHOW_SZ ≤ size := Iff.rfl
    rw [parseShows, ShowsFit, ← hrest]
    dsimp only
    constructor
    · rintro ⟨htouches, hconverted, hapart⟩
      rw [List.forall_mem_append, List.forall_mem_cons] at htouches
      obtain ⟨⟨hrecord, htexts⟩, htouches⟩ := htouches
      rw [hleft htexts] at htouches hconverted hapart
      exact ⟨⟨hrecord, fun s hs t ht => hapart s hs t (List.mem_append_left _ ht), hended.mp htexts⟩, htouches,
        fun s hs => hconverted s (List.mem_append_right _ hs), fun s hs t ht => hapart s hs t (List.mem_append_right _ ht)⟩
    · rintro ⟨⟨hrecord, hshow, hzero⟩, htouches, hconverted, hapart⟩
      have htexts := hended.mpr hzero
      rw [hleft htexts, List.forall_mem_append, List.forall_mem_cons, List.forall_mem_append]
      refine ⟨⟨⟨hrecord, htexts⟩, htouches⟩, ⟨fun s hs => (showConverted_bounds hs).2.trans hrecord, hconverted⟩,
        fun s hs t ht => ?_⟩
      rcases List.mem_append.mp ht with ht | ht
      · exact hshow s hs t ht
      · exact hapart s hs t ht

/-- The shows lie one behind the other. -/
theorem parseShows_apart (order : ByteOrder) (size : Nat) (h : REPLAYSHOW_SZ ≤ showSize) (n a : Nat) (m : Nat → UInt8) :
    (parseShows order size showSize n a m).converted.Pairwise Span.Apart ∧
      ∀ s ∈ (parseShows order size showSize n a m).converted, a ≤ s.start := by
  induction n generalizing a m with
  | zero => exact ⟨.nil, fun s hs => by cases hs⟩
  | succ n ih =>
    obtain ⟨hrest, hbehind⟩ := ih (a + showSize) (parseShow order size a m).memory
    rw [parseShows]
    dsimp only
    split
    · rw [List.append_nil]
      exact ⟨showConverted_apart a m, fun s hs => (showConverted_bounds hs).1⟩
    · rw [List.pairwise_append, List.forall_mem_append]
      refine ⟨⟨showConverted_apart a m, hrest, fun s hs t ht => ?_⟩, fun s hs => (showConverted_bounds hs).1, fun s hs => ?_⟩
      · have hs := (showConverted_bounds hs).2
        have ht := hbehind t ht
        exact .inl (by omega)
      · exact Nat.le_of_add_right_le (hbehind s hs)

/-- None of them is left out. -/
theorem mem_parseShows {n a : Nat} (h : ShowsFit order size others showSize n a m) {x : Nat} (hx : x < n) {f : Span}
    (hf : f ∈ showFields) : f.shift (a + showSize * x) ∈ (parseShows order size showSize n a m).converted := by
  induction n generalizing a m x with
  | zero => cases hx
  | succ n ih =>
    obtain ⟨hshow, hrest⟩ := h
    obtain ⟨hended, hleft⟩ := parseShow_spec order size m a
    rw [parseShows, hleft (hended.mpr hshow.ended)]
    dsimp only
    cases x with
    | zero => exact List.mem_append_left _ (List.mem_append_left _ (List.mem_map_of_mem hf))
    | succ x =>
      have hplace : a + showSize * (x + 1) = a + showSize + showSize * x := by rw [Nat.mul_succ]; omega
      rw [hplace]
      exact List.mem_append_right _ (ih hrest (Nat.lt_of_succ_lt_succ hx))

end Loop

section Channel
variable {order : ByteOrder} {size : Nat} {stack m : Nat → UInt8} {g : Snapshot}

/-- A channel that is visited twice is converted twice. -/
theorem parseChannels_le_one {ver : GuideVer} {offset n : Nat} {m : Nat → UInt8}
    (h : (parseChannels order ver offset n m).converted.Pairwise Span.Apart) : n ≤ 1 := by
  match n with
  | 0 => exact Nat.zero_le 1
  | 1 => exact Nat.le_refl 1
  | n + 2 =>
    have hmem : (⟨ver.created, 4⟩ : Span).shift offset ∈ ver.channelFields.map (·.shift offset) :=
      List.mem_map_of_mem (created_mem ver)
    rw [parseChannels, parseChannels] at h
    have htwice := (List.pairwise_append.mp h).2.2 _ hmem _ (List.mem_append_left _ hmem)
    simp only [Span.Apart, Span.stop, Span.shift] at htwice
    omega

theorem parseChannels_converted (order : ByteOrder) (h : g.channelcount ≤ 1) (m : Nat → UInt8) :
    (parseChannels order g.ver g.channeloffset g.channelcount m).converted = g.channelConverted := by
  rw [Snapshot.channelConverted]
  rcases Nat.le_one_iff_eq_zero_or_eq_one.mp h with hc | hc
  · rw [hc]
    rfl
  · rw [hc]
    exact List.append_nil _

theorem dump_eq (h : snapshot order size stack m = some g) : g.dump = convert order g.headerConverted m := by
  cases hver : version m with
  | none =>
    rw [snapshot, hver] at h
    cases h
  | some ver =>
    rw [snapshot, hver] at h
    dsimp only at h
    rw [Option.ite_none_left_eq_some, Option.ite_none_left_eq_some] at h
    rw [← Option.some.inj h.2.2]
    cases ver with
    | v1 => exact (convert_nil m).symm
    | v2 => rfl

/-- The header of version 2 ends with the offsets of its categories. -/
theorem headerConverted_stop (h : g.categories ≤ GRP_DATA_NUM_CATEGORIES) : ∀ s ∈ g.headerConverted, s.stop ≤ 328 := by
  intro s hs
  rw [Snapshot.headerConverted] at hs
  split at hs
  · cases hs
  · refine headerFields_stop_iff.mpr ⟨by decide, fun _ => ?_⟩ s hs
    simp only [GRP_DATA_NUM_CATEGORIES] at h
    omega

/-- The one channel is taken from its record as the snapshot has it. -/
theorem channels_eq (h : snapshot order size stack m = some g) (hn : g.categories ≤ GRP_DATA_NUM_CATEGORIES)
    (hone : g.channelcount ≤ 1) (hapart : ∀ s ∈ g.headerConverted, ∀ t ∈ g.channelConverted, s.Apart t) :
    (parseChannels order g.ver g.channeloffset g.channelcount g.dump).channels =
      (List.range g.channelcount).map fun i => channelAt g.ver m (g.channeloffset + g.ver.channelSize * i) := by
  rcases Nat.le_one_iff_eq_zero_or_eq_one.mp hone with hc | hc
  · rw [hc]
    rfl
  let fields := g.ver.channelFields.map (·.shift g.channeloffset)
  have hfields : g.channelConverted = fields := by
    rw [Snapshot.channelConverted, if_pos (by omega)]
  have hapartFields : fields.Pairwise Span.Apart := by
    rw [List.pairwise_map]
    exact (channelFields_apart g.ver).imp fun h => (Span.apart_shift_iff _ _ _).mpr h
  have hmem : ⟨g.channeloffset + g.ver.created, 4⟩ ∈ fields := List.mem_map_of_mem (created_mem g.ver)
  have hid : order.load (slice (convert order fields g.dump) (g.channeloffset + g.ver.created) 4) =
      ofNetwork (slice m (g.channeloffset + g.ver.created) 4) := by
    have hraw : slice g.dump (g.channeloffset + g.ver.created) 4 = slice m (g.channeloffset + g.ver.created) 4 := by
      rw [dump_eq h]
      exact slice_convert_of_apart fun s hs => hapart s hs _ (hfields ▸ hmem)
    rw [← hraw]
    exact load_convert hapartFields hmem
  have hdays : convert order fields g.dump (g.channeloffset + g.ver.daysofweek) = m (g.channeloffset + g.ver.daysofweek) := by
    have hchannel : ∀ s ∈ fields, g.channeloffset + g.ver.daysofweek < s.start ∨ s.stop ≤ g.channeloffset + g.ver.daysofweek := by
      intro s hs
      obtain ⟨f, hf, rfl⟩ := List.mem_map.mp hs
      have := daysofweek_outside g.ver f hf
      simp only [Span.stop, Span.shift] at *
      omega
    have hheader : ∀ s ∈ g.headerConverted,
        g.channeloffset + g.ver.daysofweek < s.start ∨ s.stop ≤ g.channeloffset + g.ver.daysofweek := by
      intro s hs
      have hstop := headerConverted_stop hn s hs
      cases hver : g.ver with
      | v1 =>
        rw [Snapshot.headerConverted, hver] at hs
        cases hs
      | v2 =>
        simp only [GuideVer.daysofweek]
        omega
    rw [convert_outside hchannel, dump_eq h, convert_outside hheader]
  rw [hc, parseChannels, parseChannels]
  change [(⟨_, _⟩ : Channel)] = [_]
  rw [hid, hdays]
  rfl

end Channel

section Accesses
variable {size : Nat} {g : Snapshot} {spans : List Span}

theorem inside_map_dump_iff : (∀ a ∈ spans.map (Access.mk .dump), a.Inside size) ↔ ∀ s ∈ spans, s.stop ≤ size :=
  List.forall_mem_map

theorem pairwise_map_mk_iff (place : Place) :
    (spans.map (Access.mk place)).Pairwise Access.Apart ↔ spans.Pairwise Span.Apart := by
  rw [List.pairwise_map]
  constructor
  · exact fun h => h.imp fun hab => hab rfl
  · intro h
    refine h.imp fun {s t} hab => ?_
    exact fun _ => hab

/-- What is converted of the header and of the records of the snapshot. -/
theorem header_apart_iff : (∀ a ∈ (guideFields ++ categoryFields g.categories).map (Access.mk g.ver.place),
    ∀ b ∈ spans.map (Access.mk .dump), a.Apart b) ↔ ∀ s ∈ g.headerConverted, ∀ t ∈ spans, s.Apart t := by
  rw [List.forall_mem_map, Snapshot.headerConverted]
  cases hver : g.ver with
  | v1 =>
    refine iff_of_true (fun s _ b hb => ?_) fun s hs => by cases hs
    obtain ⟨t, -, rfl⟩ := List.mem_map.mp hb
    intro hplace
    cases hplace
  | v2 =>
    refine forall₂_congr fun s _ => ?_
    rw [List.forall_mem_map]
    exact forall₂_congr fun t _ => ⟨fun h => h rfl, fun h _ => h⟩

/-- The header is read and converted inside. -/
theorem header_inside_iff (hn : g.categories ≤ GRP_DATA_NUM_CATEGORIES) :
    ((∀ s ∈ headerTouches g.ver, s.stop ≤ size) ∧
        ∀ a ∈ (guideFields ++ categoryFields g.categories).map (Access.mk g.ver.place), a.Inside size) ↔
      match g.ver with
      | .v1 => 808 ≤ size
      | .v2 => 72 ≤ size ∧ (0 < g.categories → 200 + 4 * g.categories ≤ size) := by
  rw [List.forall_mem_map]
  cases hver : g.ver with
  | v1 =>
    have hroom : ∀ s ∈ guideFields ++ categoryFields g.categories, s.stop ≤ 840 := by
      refine headerFields_stop_iff.mpr ⟨by decide, fun _ => ?_⟩
      simp only [GRP_DATA_NUM_CATEGORIES] at hn
      omega
    have hlocal : ∀ f ∈ guideFields ++ categoryFields g.categories, (Access.mk GuideVer.v1.place f).Inside size := hroom
    rw [and_iff_left hlocal]
    simp only [headerTouches, List.forall_mem_cons, List.not_mem_nil, false_imp_iff, implies_true, Span.stop]
    constructor
    · rintro ⟨-, -, -, -, h, -⟩
      exact h
    · intro h
      exact ⟨by omega, by omega, by omega, by omega, h, trivial⟩
  | v2 =>
    have hraw : (∀ s ∈ headerTouches .v2, s.stop ≤ size) ↔ 4 ≤ size := by
      rw [headerTouches, List.forall_mem_singleton]
      rfl
    rw [hraw, show (∀ f ∈ guideFields ++ categoryFields g.categories, (Access.mk GuideVer.v2.place f).Inside size) ↔ _ from
      headerFields_stop_iff]
    omega

theorem Snapshot.channelConverted_apart (g : Snapshot) : g.channelConverted.Pairwise Span.Apart := by
  rw [Snapshot.channelConverted]
  split
  · rw [List.pairwise_map]
    exact (channelFields_apart g.ver).imp fun h => (Span.apart_shift_iff _ _ _).mpr h
  · exact .nil

theorem mem_channelConverted (h : 0 < g.channelcount) {f : Span} (hf : f ∈ g.ver.channelFields) :
    f.shift g.channeloffset ∈ g.channelConverted := by
  rw [Snapshot.channelConverted, if_pos h]
  exact List.mem_map_of_mem hf

/-- The days of a channel that is converted inside are looked up inside. -/
theorem channels_touch_inside (order : ByteOrder) (hone : g.channelcount ≤ 1)
    (hend : 0 < g.channelcount → g.channeloffset + g.ver.channelEnd ≤ size) (m : Nat → UInt8) :
    ∀ s ∈ (parseChannels order g.ver g.channeloffset g.channelcount m).touches, s.stop ≤ size := by
  rcases Nat.le_one_iff_eq_zero_or_eq_one.mp hone with hc | hc
  · rw [hc]
    exact fun s hs => by cases hs
  · rw [hc, parseChannels, parseChannels]
    dsimp only
    rw [List.forall_mem_singleton]
    have hend := hend (by omega)
    have hlt := daysofweek_lt g.ver
    simp only [Span.stop]
    omega

/-- The channel is read and converted inside. -/
theorem channel_inside_iff : (∀ s ∈ g.channelConverted, s.stop ≤ size) ↔
    (0 < g.channelcount → g.channeloffset + g.ver.channelEnd ≤ size) := by
  rw [Snapshot.channelConverted]
  split
  · next hpos =>
    rw [forall_prop_of_true hpos, List.forall_mem_map]
    constructor
    · intro h
      obtain ⟨f, hf, hstop⟩ := exists_channelFields_stop g.ver
      have := h f hf
      simp only [Span.stop, Span.shift] at *
      omega
    · intro h f hf
      have := channelFields_stop g.ver f hf
      simp only [Span.stop, Span.shift] at *
      omega
  · next hnone => exact iff_of_true (fun s hs => by cases hs) fun hpos => absurd hpos hnone

end Accesses

section Main
variable {order : ByteOrder} {size : Nat} {stack m : Nat → UInt8} {g : Snapshot}

theorem fits_of_sound (hs : Sound size m g (g.run order size)) : Fits order size g := by
  have hn : g.categories ≤ GRP_DATA_NUM_CATEGORIES := by
    by_contra hmany
    exact Nat.lt_irrefl _ (hs.categories GRP_DATA_NUM_CATEGORIES (List.mem_range.mpr (Nat.lt_of_not_le hmany)))
  obtain ⟨-, hdump, hcross⟩ := List.pairwise_append.mp hs.once
  rw [header_apart_iff] at hcross
  rw [pairwise_map_mk_iff] at hdump
  obtain ⟨hchannel, -, hbeside⟩ := List.pairwise_append.mp hdump
  have hone := parseChannels_le_one hchannel
  rw [parseChannels_converted order hone] at hcross hbeside
  have hin := hs.inside
  rw [Snapshot.run] at hin
  dsimp only at hin
  rw [parseChannels_converted order hone] at hin
  simp only [List.forall_mem_append, inside_map_dump_iff] at hin
  obtain ⟨⟨⟨hraw, hnames⟩, -, htouches⟩, hheader, hroom, hshows⟩ := hin
  have hothers : ∀ s ∈ g.headerConverted ++ g.channelConverted, ∀ t ∈ (parseShows order size g.ver.showSize g.numShows
      g.showoffset (parseChannels order g.ver g.channeloffset g.channelcount g.dump).memory).converted, s.Apart t := by
    intro s hs t ht
    rcases List.mem_append.mp hs with hs | hs
    · exact hcross s hs t (List.mem_append_right _ ht)
    · exact hbeside s hs t ht
  exact {
    header := (header_inside_iff hn).mp ⟨hraw, hheader⟩
    categories := hn
    names := fun x hx => hnames _ (List.mem_map_of_mem (List.mem_map_of_mem (List.mem_range.mpr hx)))
    one := hone
    channel := channel_inside_iff.mp hroom
    apart := fun s hs t ht => hcross s hs t (List.mem_append_left _ ht)
    shows := (parseShows_inside_iff _ _).mp ⟨htouches, hshows, hothers⟩ }

theorem sound_of_fits (h : snapshot order size stack m = some g) (hf : Fits order size g) :
    Sound size m g (g.run order size) := by
  have hn := hf.categories
  have hone := hf.one
  have hconverted := parseChannels_converted order hone g.dump
  obtain ⟨htouches, hshows, hothers⟩ := (parseShows_inside_iff _ _).mpr hf.shows
  obtain ⟨hraw, hheader⟩ := (header_inside_iff hn).mpr hf.header
  have hroom := channel_inside_iff.mpr hf.channel
  have hsize : REPLAYSHOW_SZ ≤ g.ver.showSize := by cases g.ver <;> decide
  have hapart := parseShows_apart order size hsize g.numShows g.showoffset
    (parseChannels order g.ver g.channeloffset g.channelcount g.dump).memory
  have hdays := channels_touch_inside order hone hf.channel g.dump
  refine ⟨?_, ?_, channels_eq h hn hone hf.apart, ?_, ?_, ?_, ?_⟩
  · rw [Snapshot.run]
    dsimp only
    rw [hconverted]
    simp only [List.forall_mem_append, inside_map_dump_iff]
    refine ⟨⟨⟨hraw, fun a ha => ?_⟩, hdays, htouches⟩, hheader, hroom, hshows⟩
    obtain ⟨s, hs, rfl⟩ := List.mem_map.mp ha
    obtain ⟨x, hx, rfl⟩ := List.mem_map.mp hs
    exact hf.names x (List.mem_range.mp hx)
  · exact fun x hx => (List.mem_range.mp hx).trans_le hn
  · exact fun f hmem => List.mem_append_left _ (List.mem_map_of_mem hmem)
  · intro i hi f hmem
    have hzero : i = 0 := by omega
    have hfield := mem_channelConverted (by omega) hmem
    rw [hzero, Nat.mul_zero, Nat.add_zero]
    exact List.mem_append_right _ (List.mem_map_of_mem (List.mem_append_left _ (hconverted ▸ hfield)))
  · intro x hx f hmem
    exact List.mem_append_right _ (List.mem_map_of_mem (List.mem_append_right _ (mem_parseShows hf.shows hx hmem)))
  · rw [Snapshot.run]
    dsimp only
    have hrecords := List.pairwise_append.mpr
      ⟨g.channelConverted_apart, hapart.1, fun s hs t ht => hothers s (List.mem_append_right _ hs) t ht⟩
    rw [hconverted, List.pairwise_append, pairwise_map_mk_iff, pairwise_map_mk_iff, header_apart_iff]
    refine ⟨headerFields_apart hn, hrecords, fun s hs t ht => ?_⟩
    rcases List.mem_append.mp ht with ht | ht
    · exact hf.apart s hs t ht
    · exact hothers s (List.mem_append_left _ hs) t ht

/-- A snapshot that is not refused is parsed inside of it, and every record once, if and only if all that its header
announces lies in it, it has at most one channel, no two records share a field, and the texts of the shows end in it. -/
theorem sound_iff_fits (order : ByteOrder) (size : Nat) (stack m : Nat → UInt8) :
    (∀ g r, snapshot order size stack m = some g → parseGuideSnapshot order size stack m = some r → Sound size m g r) ↔
      ∀ g, snapshot order size stack m = some g → Fits order size g := by
  have hrun (g : Snapshot) (hg : snapshot order size stack m = some g) :
      parseGuideSnapshot order size stack m = some (g.run order size) := by
    rw [parseGuideSnapshot, hg]
    rfl
  constructor
  · exact fun h g hg => fits_of_sound (h g _ hg (hrun g hg))
  · intro h g r hg hr
    rw [hrun g hg] at hr
    exact Option.some.inj hr ▸ sound_of_fits hg (h g hg)

/-- A snapshot of version 1 with two channels and no shows. -/
def twoChannels : Nat → UInt8 := fun i => [0, 3, 0, 1, 0, 0, 0, 32, 0, 0, 0, 2, 0, 0, 0, 2].getD i 0

/-- The first channel is converted twice, and the second one not at all. -/
theorem twoChannels_not_sound : ¬ ∀ g r, snapshot .little 2056 (fun _ => 0) twoChannels = some g →
    parseGuideSnapshot .little 2056 (fun _ => 0) twoChannels = some r → Sound 2056 twoChannels g r := by
  intro h
  have hcount : (snapshot .little 2056 (fun _ => 0) twoChannels).map Snapshot.channelcount = some 2 := by decide
  obtain ⟨g, hg, htwo⟩ := Option.map_eq_some_iff.mp hcount
  have hsound := h g (g.run .little 2056) hg (by rw [parseGuideSnapshot, hg]; rfl)
  have hone := (fits_of_sound hsound).one
  omega

/-- The snapshot that `build_v2_bogus_snapshot` makes, in memory. -/
def bogusSnapshot : Nat → UInt8 := fun i => buildV2BogusSnapshot.getD i 0

/-- It is parsed without fault. -/
theorem bogusSnapshot_sound (order : ByteOrder) {r : Run} (hg : snapshot order 1552 (fun _ => 0) bogusSnapshot = some g)
    (hr : parseGuideSnapshot order 1552 (fun _ => 0) bogusSnapshot = some r) : Sound 1552 bogusSnapshot g r := by
  have hfields : (snapshot order 1552 (fun _ => 0) bogusSnapshot).map
      (fun g => (g.ver, g.categories, g.channelcount, g.channeloffset, g.numShows)) = some (.v2, 0, 1, 840, 0) := by
    cases order <;> decide
  rw [hg, Option.map_some, Option.some.injEq, Prod.mk.injEq, Prod.mk.injEq, Prod.mk.injEq, Prod.mk.injEq] at hfields
  obtain ⟨hver, hcategories, hcount, hoffset, hshows⟩ := hfields
  have hheader : g.headerConverted = guideFields := by
    rw [Snapshot.headerConverted, hver, hcategories]
    rfl
  have hchannel : g.channelConverted = GuideVer.v2.channelFields.map (·.shift 840) := by
    rw [Snapshot.channelConverted, hver, hcount, hoffset]
    rfl
  have hfits : Fits order 1552 g := {
    header := by rw [hver, hcategories]; decide
    categories := by rw [hcategories]; decide
    names := fun x hx => by rw [hcategories] at hx; cases hx
    one := hcount.le
    channel := fun _ => by rw [hver, hoffset]; decide
    apart := by rw [hheader, hchannel]; decide
    shows := by rw [hshows]; trivial }
  rw [parseGuideSnapshot, hg] at hr
  exact Option.some.inj hr ▸ sound_of_fits hg hfits

end Main
end Mvpmc.Replaytv.Guide
