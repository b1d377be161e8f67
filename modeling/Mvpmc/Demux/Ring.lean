import Mvpmc.Demux.StreamAdd

/-! The rings as windows of circular memory: what is in a ring, and what each ring
operation does to it. -/
namespace Mvpmc.Demux
open Mvpmc.Lib.Circular

namespace Stream

/-- The number of bytes a drain could return. -/
def avail (s : Stream) : Nat := (s.head + s.size - s.tail - 1) % s.size

/-- The bytes in the ring, oldest first. -/
def contents (s : Stream) : List UInt8 := window s.buf s.size (s.tail + 1) s.avail

/-- The index discipline of a ring: an empty ring has `head = tail + 1`, and
`head = tail` does not occur. -/
structure Ok (s : Stream) : Prop where
  size_lt : s.size < 2147483648
  head_lt : s.head < s.size
  tail_lt : s.tail < s.size
  head_ne : s.head ≠ s.tail

@[simp] theorem contents_length (s : Stream) : s.contents.length = s.avail := by
  simp [contents]

theorem avail_of_lt {s : Stream} (ht : s.tail < s.head) (hh : s.head < s.size) :
    s.avail = s.head - s.tail - 1 := by
  rw [avail, show s.head + s.size - s.tail - 1 = (s.head - s.tail - 1) + s.size by omega, Nat.add_mod_right,
    Nat.mod_eq_of_lt (by omega)]

theorem avail_of_gt {s : Stream} (ht : s.head < s.tail) (hh : s.tail < s.size) :
    s.avail = s.head + s.size - s.tail - 1 := by
  rw [avail, Nat.mod_eq_of_lt (by omega)]

namespace Ok
variable {s : Stream}

theorem avail_cases (h : s.Ok) :
    (s.tail < s.head ∧ s.avail = s.head - s.tail - 1) ∨
    (s.head < s.tail ∧ s.avail = s.head + s.size - s.tail - 1) := by
  have := h.head_lt
  have := h.tail_lt
  rcases Nat.lt_or_gt_of_ne h.head_ne with hlt | hgt
  · exact .inr ⟨hlt, avail_of_gt hlt h.tail_lt⟩
  · exact .inl ⟨hgt, avail_of_lt hgt h.head_lt⟩

theorem head_eq (h : s.Ok) : s.head = (s.tail + 1 + s.avail) % s.size := by
  have := h.head_lt
  have := h.tail_lt
  rcases h.avail_cases with ⟨hlt, he⟩ | ⟨hlt, he⟩
  · rw [he, Nat.mod_eq_of_lt (by omega)]
    omega
  · rw [he, show s.tail + 1 + (s.head + s.size - s.tail - 1) = s.head + s.size by omega,
      Nat.add_mod_right, Nat.mod_eq_of_lt h.head_lt]

theorem avail_lt (h : s.Ok) : s.avail + 1 < s.size := by
  have := h.head_lt
  have := h.tail_lt
  rcases h.avail_cases with ⟨hlt, he⟩ | ⟨hlt, he⟩ <;> omega

/-- The two spans are the two sides of the wrap of the window. -/
theorem spans_eq (h : s.Ok) : ∃ a b : Nat, s.spans = ((a : Int), (b : Int)) ∧ a + b = s.avail ∧
    (b = 0 ∨ a = s.size - (s.tail + 1)) ∧ s.tail + 1 + a ≤ s.size ∧ b ≤ s.head := by
  have := h.head_lt
  have := h.tail_lt
  rcases h.avail_cases with ⟨hlt, he⟩ | ⟨hlt, he⟩
  · refine ⟨s.head - s.tail - 1, 0, ?_, by omega, .inl rfl, by omega, by omega⟩
    rw [spans, if_pos (by omega)]
    exact Prod.ext (by push_cast; omega) rfl
  · refine ⟨s.size - s.tail - 1, s.head, ?_, by omega, .inr (by omega), by omega, le_refl _⟩
    rw [spans, if_neg (by omega)]
    exact Prod.ext (by push_cast; omega) rfl

end Ok

/-- A prefix of the two spans reads a prefix of the ring. -/
theorem slices_eq_take {s : Stream} (h : s.Ok) {a b : Nat}
    (hs : b = 0 ∨ a = s.size - (s.tail + 1)) (ht : s.tail + 1 + a ≤ s.size) (hb : a + b ≤ s.avail) :
    slice s.buf (s.tail + 1) a ++ slice s.buf 0 b = s.contents.take (a + b) := by
  have := h.avail_lt
  rw [contents, window_take _ _ _ _ _ hb]
  rcases hs with rfl | rfl
  · simp [window_eq_slice _ _ _ _ ht]
  · rw [window_eq_slices _ _ _ _ (by omega) (by omega)]

/-- `clip` keeps the shape of the spans and cuts their sum to `max`. -/
theorem clip_spans {s : Stream} (h : s.Ok) {max : Int} (hm : 0 ≤ max) :
    ∃ a b : Nat, clip max s.spans = ((a : Int), (b : Int)) ∧ a + b = min max.toNat s.avail ∧
      (b = 0 ∨ a = s.size - (s.tail + 1)) ∧ s.tail + 1 + a ≤ s.size := by
  obtain ⟨a, b, he, hsum, hs, ht, _⟩ := h.spans_eq
  obtain ⟨m, rfl⟩ := Int.eq_ofNat_of_zero_le hm
  rw [he]
  unfold clip
  simp only [Int.toNat_natCast]
  split
  · split
    · exact ⟨m, 0, rfl, by omega, .inl rfl, by omega⟩
    · refine ⟨a, m - a, Prod.ext rfl (by push_cast; omega), by omega, ?_, ht⟩
      omega
  · exact ⟨a, b, rfl, by omega, hs, ht⟩

/-- `stream_peek` returns the oldest bytes and counts them. -/
theorem peek_eq {s : Stream} (h : s.Ok) (max : Int) :
    (s.peek max).2 = (((s.contents.take max.toNat).length : Int), s.contents.take max.toNat) := by
  unfold peek
  by_cases hm : max ≤ 0
  · simp [hm, Int.toNat_of_nonpos hm]
  · obtain ⟨a, b, he, hsum, -, -, -⟩ := h.spans_eq
    rw [if_neg hm]
    by_cases h0 : s.spans.1 + s.spans.2 = 0
    · rw [if_pos h0]
      have ha : s.avail = 0 := by rw [he] at h0; simp only at h0; omega
      have hc : s.contents = [] := List.length_eq_zero_iff.mp (by simpa using ha)
      simp [hc]
    · rw [if_neg h0]
      obtain ⟨a', b', he', hsum', hs', ht'⟩ := clip_spans h (show (0 : Int) ≤ max by omega)
      simp only [he', Int.toNat_natCast]
      rw [slices_eq_take h hs' ht' (by omega), hsum']
      have hlen : (s.contents.take max.toNat).length = min max.toNat s.avail := by simp
      refine Prod.ext ?_ ?_
      · simp only [hlen]
        push_cast [← hsum']
        rfl
      · simp only
        rw [← List.take_take, List.take_of_length_le (l := s.contents) (by simp)]

theorem peek_ring (s : Stream) (max : Int) :
    (s.peek max).1.buf = s.buf ∧ (s.peek max).1.head = s.head ∧ (s.peek max).1.size = s.size ∧
      (s.peek max).1.parserCallback = s.parserCallback := by
  unfold peek countEmpty
  split
  · simp
  · split <;> simp

theorem u32_of_lt {n : Nat} (h : n < 4294967296) : u32 (n : Int) = n := by
  unfold u32
  omega

/-- Moving the tail over `n` stored bytes drops them. -/
theorem contents_of_tail {s : Stream} (s' : Stream) (h : s.Ok) {n : Nat} (hn : n ≤ s.avail)
    (hb : s'.buf = s.buf) (hh : s'.head = s.head) (hz : s'.size = s.size)
    (ht : s'.tail = u32 ((s.tail : Int) + n) % s.size) :
    s'.Ok ∧ s'.contents = s.contents.drop n ∧ s'.avail = s.avail - n := by
  have h1 := h.avail_lt
  have h2 := h.tail_lt
  have h3 := h.size_lt
  have h4 := h.head_lt
  have ht' : s'.tail = (s.tail + n) % s.size := by
    rw [ht, ← Nat.cast_add, u32_of_lt (by omega)]
  have hav : s'.Ok ∧ s'.avail = s.avail - n := by
    have hlt : (s.tail + n) % s.size < s.size := Nat.mod_lt _ (by omega)
    have hcase := mod_cases (s.tail + n) s.size (by omega)
    rw [← ht'] at hcase
    rcases h.avail_cases with ⟨hlt, he⟩ | ⟨hlt, he⟩ <;> rcases hcase with ⟨hw, hc⟩ | ⟨hw, hc⟩
    · have hok : s'.Ok := ⟨by omega, by omega, by omega, by omega⟩
      refine ⟨hok, ?_⟩
      rw [avail_of_lt (by omega) hok.head_lt]
      omega
    · omega
    · have hok : s'.Ok := ⟨by omega, by omega, by omega, by omega⟩
      refine ⟨hok, ?_⟩
      rw [avail_of_gt (by omega) hok.tail_lt]
      omega
    · have hok : s'.Ok := ⟨by omega, by omega, by omega, by omega⟩
      refine ⟨hok, ?_⟩
      rw [avail_of_lt (by omega) hok.head_lt]
      omega
  refine ⟨hav.1, ?_, hav.2⟩
  have hmod : (s'.tail + 1) % s.size = (s.tail + 1 + n) % s.size := by
    rw [ht', Nat.mod_add_mod]
    congr 1
    omega
  rw [contents, contents, hav.2, hb, hz, window_drop _ _ _ _ _ hn, ← window_mod, hmod, window_mod]

/-- `stream_drain` removes exactly the bytes it returns. -/
theorem drain_eq {s : Stream} (h : s.Ok) (max : Int) :
    (s.drain max).1.Ok ∧ (s.drain max).1.contents = s.contents.drop max.toNat ∧
      (s.drain max).2 = (((s.contents.take max.toNat).length : Int), s.contents.take max.toNat) := by
  obtain ⟨hb, hh, hz, -⟩ := s.peek_ring max
  have hp := peek_eq h max
  have hlen : (s.contents.take max.toNat).length = min max.toNat s.avail := by simp
  obtain ⟨hok, hc, -⟩ := contents_of_tail (s.drain max).1 h (n := min max.toNat s.avail)
    (by omega) hb hh hz (by simp [drain, hp])
  refine ⟨hok, ?_, hp⟩
  rw [hc]
  rcases Nat.le_total max.toNat s.avail with hle | hle
  · rw [Nat.min_eq_left hle]
  · rw [Nat.min_eq_right hle, List.drop_of_length_le (by simp), List.drop_of_length_le (by simpa using hle)]

theorem drained_eq {s : Stream} (h : s.Ok) {n : Nat} (hn : n ≤ s.avail) :
    (s.drained n).Ok ∧ (s.drained n).contents = s.contents.drop n := by
  obtain ⟨hok, hc, -⟩ := contents_of_tail (s.drained n) h hn rfl rfl rfl rfl
  exact ⟨hok, hc⟩

private theorem take_split (xs : List UInt8) (a b k : Nat) (hk : k ≤ b) :
    (xs.take (a + b)).take (a + k) = xs.take (a + k) := by
  rw [List.take_take, Nat.min_eq_left (by omega)]

/-- `stream_drain_fd` removes exactly the bytes the descriptor accepted: a prefix
of the ring within the limit, whatever the two writes do. -/
theorem drainFd_eq {s : Stream} (h : s.Ok) (max : Int) (first second : Option Nat) :
    ∃ n ≤ s.avail, (0 ≤ max → n ≤ max.toNat) ∧ (s.drainFd max first second).1.Ok ∧
      (s.drainFd max first second).1.contents = s.contents.drop n ∧
      (s.drainFd max first second).2 = ((n : Int), s.contents.take n) := by
  obtain ⟨a, b, he, hsum, hs, ht⟩ : ∃ a b : Nat,
      (if max ≥ 0 then clip max s.spans else s.spans) = ((a : Int), (b : Int)) ∧
      a + b = (if max ≥ 0 then min max.toNat s.avail else s.avail) ∧
      (b = 0 ∨ a = s.size - (s.tail + 1)) ∧ s.tail + 1 + a ≤ s.size := by
    split
    · exact clip_spans h ‹_›
    · obtain ⟨a, b, h1, h2, h3, h4, -⟩ := h.spans_eq
      exact ⟨a, b, h1, h2, h3, h4⟩
  have hle : a + b ≤ s.avail := by rw [hsum]; split <;> omega
  have hmax : 0 ≤ max → a + b ≤ max.toNat := fun hm => by rw [hsum, if_pos hm]; omega
  have hboth := slices_eq_take h hs ht hle
  have h1 : slice s.buf (s.tail + 1) a = s.contents.take a := by
    simpa using slices_eq_take h (a := a) (b := 0) (.inl rfl) ht (by omega)
  -- every way out accepts a prefix of the ring
  have fin (sent : List UInt8) (n : Nat) (hn : n ≤ a + b) (hsent : sent = s.contents.take n) :
      ∃ n ≤ s.avail, (0 ≤ max → n ≤ max.toNat) ∧ (s.drained sent.length).Ok ∧
        (s.drained sent.length).contents = s.contents.drop n ∧
        (((sent.length : Int), sent) : Int × List UInt8) = ((n : Int), s.contents.take n) := by
    have hlen : sent.length = n := by rw [hsent]; simp; omega
    obtain ⟨hok, hc⟩ := drained_eq h (n := n) (by omega)
    exact ⟨n, by omega, fun hm => hn.trans (hmax hm), by rwa [hlen], by rwa [hlen], by rw [hlen, hsent]⟩
  have second_write (sent : List UInt8) (hsent : sent = s.contents.take a) :
      ∃ n ≤ a + b, sent ++ (write second (slice s.buf 0 b)).getD [] = s.contents.take n := by
    cases second with
    | none => exact ⟨a, by omega, by simp [write, hsent]⟩
    | some k =>
      refine ⟨a + min k b, by omega, ?_⟩
      have hk : (slice s.buf 0 b).take k = (slice s.buf 0 b).take (min k b) := by
        rw [← List.take_take, List.take_of_length_le (l := slice s.buf 0 b) (i := b) (by simp)]
      have hla : (slice s.buf (s.tail + 1) a).length = a := by simp
      rw [hsent, ← h1, write, Option.map_some, Option.getD_some, hk, ← take_split _ a b _ (by omega),
        ← hboth]
      conv_rhs => rw [List.take_append, hla, List.take_of_length_le (by simp)]
      rw [Nat.add_sub_cancel_left]
  unfold drainFd
  simp only [he, Int.toNat_natCast]
  by_cases ha : a = 0
  · subst ha
    simp only [Nat.cast_zero, ne_eq, not_true_eq_false, if_false]
    split
    · obtain ⟨n, hn, hw⟩ := second_write [] (by simp)
      exact fin _ n hn hw
    · exact fin [] 0 (by omega) (by simp)
  · rw [if_pos (by exact_mod_cast ha)]
    cases first with
    | none =>
      simp only [write, Option.map_none]
      exact ⟨0, by omega, by omega, h, by simp, by simp⟩
    | some k =>
      simp only [write, Option.map_some]
      have hk : (slice s.buf (s.tail + 1) a).take k = s.contents.take (min k a) := by
        rw [h1, List.take_take]
      split
      · exact fin _ (min k a) (by omega) hk
      · rename_i hne
        have hka : min k a = a := by
          rw [hk] at hne
          simp only [List.length_take, contents_length, ne_eq, not_not] at hne
          omega
        rw [hka] at hk
        split
        · obtain ⟨n, hn, hw⟩ := second_write _ hk
          exact fin _ n hn hw
        · exact fin _ a (by omega) hk

theorem empty_eq {s : Stream} (h : s.Ok) : s.empty.Ok ∧ s.empty.contents = [] := by
  have := h.avail_lt
  have := h.size_lt
  have hok : s.empty.Ok := ⟨h.size_lt, by simp [empty]; omega, by simp [empty]; omega, by simp [empty]; omega⟩
  refine ⟨hok, ?_⟩
  rw [contents, avail_of_gt (s := s.empty) (by simp [empty]; omega) hok.tail_lt]
  simp only [empty]
  rw [show 0 + s.size - (s.size - 1) - 1 = 0 by omega, window_zero]

/-- The reserve test: with `len + 6 < size` a block fits exactly when it leaves six
bytes free besides the one between `head` and `tail`. -/
theorem isFull_iff {s : Stream} (h : s.Ok) {len : Nat} (hl : len + 6 < s.size) :
    isFull s.size s.head s.tail len = true ↔ ¬ s.avail + len + 7 ≤ s.size := by
  have h1 := h.head_lt
  have h2 := h.tail_lt
  have hstop := mod_cases (s.head + len + 6) s.size (by omega)
  unfold isFull
  dsimp only
  rcases h.avail_cases with ⟨hlt, he⟩ | ⟨hlt, he⟩
  · rw [if_pos hlt, he]
    simp only [Bool.or_eq_true, Bool.and_eq_true, decide_eq_true_eq]
    rcases hstop with ⟨hw, hs⟩ | ⟨hw, hs⟩ <;> rw [hs] <;> omega
  · rw [if_neg (by omega), he]
    simp only [Bool.or_eq_true, decide_eq_true_eq]
    rcases hstop with ⟨hw, hs⟩ | ⟨hw, hs⟩ <;> rw [hs] <;> omega

/-- The copy into the ring wraps at its end. -/
theorem copyIn_eq (s : Stream) {head : Nat} {data : List UInt8} (hh : head < s.size)
    (hl : data.length ≤ s.size) (hd : data ≠ []) : s.copyIn head data = store s.buf s.size head data := by
  have hpos := List.length_pos_iff.mpr hd
  unfold copyIn store
  dsimp only
  rcases Nat.lt_or_ge (head + data.length) s.size with hw | hw
  · rw [Nat.mod_eq_of_lt hw, if_pos (by omega), if_pos (by omega)]
    rw [List.take_of_length_le (l := data) (i := s.size - head) (by omega),
      List.drop_of_length_le (l := data) (i := s.size - head) (by omega)]
    simp
  · obtain ⟨hlt, -⟩ | ⟨-, he⟩ := mod_cases (head + data.length) s.size (by omega)
    · omega
    rw [he, if_neg (by omega), if_neg (by omega)]
    congr 1
    exact List.take_of_length_le (by simp only [List.length_drop]; omega)

/-- A block that is not refused ends up behind the bytes already stored. -/
theorem advance_eq {s : Stream} (h : s.Ok) {data : List UInt8} (hd : data ≠ [])
    (hl : s.avail + data.length + 7 ≤ s.size) :
    (s.advance false s.head data).Ok ∧
      (s.advance false s.head data).contents = s.contents ++ data := by
  have h1 := h.head_lt
  have h2 := h.tail_lt
  have hpos := List.length_pos_iff.mpr hd
  have hcopy := s.copyIn_eq h1 (by omega) hd
  have hhead : (s.advance false s.head data).head = (s.head + data.length) % s.size := rfl
  have hcase := mod_cases (s.head + data.length) s.size (by omega)
  have hav : (s.advance false s.head data).Ok ∧
      (s.advance false s.head data).avail = s.avail + data.length := by
    have hok : (s.advance false s.head data).Ok := by
      refine ⟨h.size_lt, ?_, h2, ?_⟩
      · rw [hhead]
        exact Nat.mod_lt _ (by omega)
      · rw [hhead]
        change (s.head + data.length) % s.size ≠ s.tail
        rcases h.avail_cases with ⟨hlt, he⟩ | ⟨hlt, he⟩ <;> rcases hcase with ⟨hw, hs⟩ | ⟨hw, hs⟩ <;> omega
    refine ⟨hok, ?_⟩
    have hne := hok.head_ne
    rw [hhead] at hne
    change (s.head + data.length) % s.size ≠ s.tail at hne
    rcases hok.avail_cases with ⟨hlt', he'⟩ | ⟨hlt', he'⟩ <;> rw [he'] <;> rw [hhead] at hlt' ⊢ <;>
      change _ < _ at hlt' <;> simp only [advance, Bool.false_eq_true, if_false] at hlt' ⊢ <;>
      rcases h.avail_cases with ⟨hlt, he⟩ | ⟨hlt, he⟩ <;> rcases hcase with ⟨hw, hs⟩ | ⟨hw, hs⟩ <;> omega
  refine ⟨hav.1, ?_⟩
  rw [contents, contents, hav.2]
  change window (s.copyIn s.head data) s.size (s.tail + 1) _ = _
  rw [hcopy]
  conv_lhs => rw [h.head_eq]
  exact window_store _ _ _ _ _ (by omega) (by omega)

/-- `stream_add` on a ring without a parser, forced past a seek. -/
def append (s : Stream) (seeking : Bool) (data : List UInt8) : Stream × Nat :=
  if data.length = 0 then (s, 0)
  else if isFull s.size s.head s.tail data.length then (s.countFull, 0)
  else ((s.advance false s.head data).filled seeking data.length, data.length)

end Stream

theorem streamAdd_audio (h : Handle) (data : List UInt8) (hc : h.audio.parserCallback = false) :
    streamAdd h .audio data true =
      ({ h with audio := (h.audio.append h.seeking data).1 }, (h.audio.append h.seeking data).2) := by
  unfold streamAdd Stream.append
  simp only [Handle.stream, Bool.not_true, Bool.and_false, Stream.limit, Stream.hide, Stream.writeHead,
    Handle.setStream, hc, Bool.false_eq_true, false_and, and_false, if_false]
  split
  · rfl
  · split
    · rfl
    · cases h.seeking <;> rfl

namespace Stream

/-- All or none: the block is appended when the reserve allows it, and otherwise
the ring stays as it is. -/
theorem append_eq {s : Stream} (h : s.Ok) (seeking : Bool) (data : List UInt8)
    (hl : data.length + 6 < s.size) :
    (s.append seeking data).1.Ok ∧ (s.append seeking data).1.size = s.size ∧
    ((data = [] ∨ s.avail + data.length + 7 ≤ s.size) ∧
        (s.append seeking data).1.contents = s.contents ++ data ∧ (s.append seeking data).2 = data.length ∨
      (data ≠ [] ∧ ¬ s.avail + data.length + 7 ≤ s.size) ∧
        (s.append seeking data).1.contents = s.contents ∧ (s.append seeking data).2 = 0) := by
  unfold append
  by_cases hd : data = []
  · subst hd
    simp [h]
  · rw [if_neg (by simpa using hd)]
    by_cases hf : isFull s.size s.head s.tail data.length = true
    · rw [if_pos hf]
      exact ⟨⟨h.size_lt, h.head_lt, h.tail_lt, h.head_ne⟩, rfl, .inr ⟨⟨hd, (isFull_iff h hl).mp hf⟩, rfl, rfl⟩⟩
    · rw [if_neg hf]
      have hroom : s.avail + data.length + 7 ≤ s.size := by
        by_contra hno
        exact hf ((isFull_iff h hl).mpr hno)
      obtain ⟨hok, hc⟩ := advance_eq h hd hroom
      cases seeking
      · exact ⟨⟨hok.size_lt, hok.head_lt, hok.tail_lt, hok.head_ne⟩, rfl, .inl ⟨.inr hroom, hc, rfl⟩⟩
      · exact ⟨⟨hok.size_lt, hok.head_lt, hok.tail_lt, hok.head_ne⟩, rfl, .inl ⟨.inr hroom, hc, rfl⟩⟩

end Stream
end Mvpmc.Demux
