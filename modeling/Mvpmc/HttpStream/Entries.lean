import Mvpmc.HttpStream.Follow

/-! The lines of a response keep to the entries. -/
namespace Mvpmc.HttpStream
open Mvpmc.Lib
open Mvpmc.Cmyth (cstring)
open Mvpmc.Playlist (ascii)

/-- Between two lines: before a playlist `curEntry` is the entry in use, afterwards it is the number of entries read, at
most `n`, or -1. -/
structure Reading (n : Int) (s : Main) : Prop where
  counter : s.counter ≤ 4
  type : s.contentType ≠ .c200
  state : s.stateGet ≠ .init
  song : s.stateGet ≠ .header → s.contentType ≠ .mp3
  plain : s.playlistType = .none → 1 ≤ s.curEntry ∧ s.curEntry ≤ s.counter
  listed : s.playlistType ≠ .none → s.contentType ≠ .tryHost ∧ s.contentType ≠ .nextUrl ∧
    (s.curEntry = -1 ∨ 0 ≤ s.curEntry ∧ s.curEntry ≤ n ∧ s.stateGet ≠ .header)

/-- A type that a response gives. -/
def Given (type : ContentType) : Prop := type ≠ .c200 ∧ type ≠ .tryHost ∧ type ≠ .nextUrl

instance : DecidablePred Given := fun _ => inferInstanceAs (Decidable (_ ∧ _ ∧ _))

/-- One line read: the table stays in order, and the function goes on reading or decides. -/
structure Goes (env : Env) (n : Int) (s s' : Main) : Prop where
  known : Known env s'
  reading : Reading n s'
  phase : s'.phase = s.phase ∨ s'.phase = .decide

section
variable {env : Env} {n : Int} {s : Main}

theorem Goes.refl (hk : Known env s) (hr : Reading n s) : Goes env n s s := ⟨hk, hr, .inl rfl⟩

theorem Reading.touch (h : Reading n s) (i : Int) : Reading n (s.touch i) :=
  ⟨h.counter, h.type, h.state, h.song, h.plain, h.listed⟩

theorem Reading.put (h : Reading n s) (i : Int) (source : Source) (text : List UInt8) : Reading n (s.put i source text) :=
  ⟨h.counter, h.type, h.state, h.song, h.plain, h.listed⟩

theorem Reading.startAgain (h : Reading n s) {p : PlaylistType} {type : ContentType} (hp : p ≠ .none)
    (ht : Given type ∧ type ≠ .mp3) : Reading n (s.startAgain p type) where
  counter := h.counter
  type := ht.1.1
  state := h.state
  song _ := ht.2
  plain hn := absurd hn hp
  listed _ := ⟨ht.1.2.1, ht.1.2.2, .inl rfl⟩

theorem Reading.setType (h : Reading n s) (hs : s.stateGet = .header) {type : ContentType} (ht : Given type)
    {state : HttpState} (hst : state = .header ∨ state ≠ .init ∧ type ≠ .mp3) :
    Reading n { s with contentType := type, stateGet := state } where
  counter := h.counter
  type := ht.1
  state := by rcases hst with rfl | hst; exacts [nofun, hst.1]
  song hn := (hst.resolve_left hn).2
  plain hn := h.plain hn
  listed hn := by
    rcases (h.listed hn).2.2 with hc | ⟨-, -, hc⟩
    · exact ⟨ht.2.1, ht.2.2, .inl hc⟩
    · exact absurd hs hc

theorem Reading.setType_header (h : Reading n s) (hs : s.stateGet = .header) {type : ContentType} (ht : Given type) :
    Reading n { s with contentType := type } := by
  have hset := h.setType hs ht (.inl rfl)
  rwa [← hs] at hset

/-- An error or an unknown type may come up at any time. -/
theorem Reading.setError (h : Reading n s) {type : ContentType} (ht : Given type ∧ type ≠ .mp3) :
    Reading n { s with contentType := type } where
  counter := h.counter
  type := ht.1.1
  state := h.state
  song _ := ht.2
  plain hn := h.plain hn
  listed hn := ⟨ht.1.2.1, ht.1.2.2, (h.listed hn).2.2⟩

theorem Reading.setState (h : Reading n s) (state : HttpState) (hi : state ≠ .init) (hh : state ≠ .header)
    (hm : s.contentType ≠ .mp3) : Reading n { s with stateGet := state } where
  counter := h.counter
  type := h.type
  state := hi
  song _ := hm
  plain hn := h.plain hn
  listed hn := ⟨(h.listed hn).1, (h.listed hn).2.1, (h.listed hn).2.2.imp_right fun ⟨h0, h4, _⟩ => ⟨h0, h4, hh⟩⟩

end

section Header
variable {env : Env} {s : Main}

theorem goes_audioType (hk : Known env s) (hr : Reading 4 s) (hs : s.stateGet = .header) (line : List UInt8) :
    Goes env 4 s (s.audioType line) := by
  rw [Main.audioType]
  cases contentPlaylist.findIdx? (contains line) with
  | some i =>
    refine ⟨⟨hk.sound, hk.zero, hk.good⟩, hr.startAgain ?_ (by decide), .inl rfl⟩
    split
    · nofun
    · split <;> nofun
  | none =>
    dsimp only
    split
    · exact .refl hk hr
    · split
      · exact ⟨⟨hk.sound, hk.zero, hk.good⟩, hr.setType_header hs (by decide), .inl rfl⟩
      · exact ⟨⟨hk.sound, hk.zero, hk.good⟩, hr.setType hs (by decide) (.inr (by decide)), .inl rfl⟩
      · exact ⟨⟨hk.sound, hk.zero, hk.good⟩, hr.setType_header hs (by decide), .inl rfl⟩
      · exact ⟨⟨hk.sound, hk.zero, hk.good⟩, hr.setType_header hs (by decide), .inl rfl⟩

theorem goes_otherType (hk : Known env s) (hr : Reading 4 s) (hs : s.stateGet = .header) : Goes env 4 s s.otherType := by
  rw [Main.otherType]
  split
  · exact .refl hk hr
  · exact ⟨⟨hk.sound, hk.zero, hk.good⟩, hr.setType_header hs (by decide), .inl rfl⟩

/-- In front of a playlist the entry in use is looked at. -/
theorem goes_mmsType (hk : Known env s) (hr : Reading 4 s) (hs : s.stateGet = .header) (hc : s.curEntry ≠ -1) :
    Goes env 4 s (s.mmsType env) := by
  have hi : 0 ≤ s.curEntry - 1 ∧ s.curEntry - 1 < MAX_PLAYLIST := by
    have hcounter := hr.counter
    by_cases hp : s.playlistType = .none
    · have hplain := hr.plain hp
      rw [MAX_PLAYLIST]
      omega
    · exact absurd hs (((hr.listed hp).2.2.resolve_left hc).2.2)
  have htouch := hk.touch hi
  rw [Main.mmsType]
  split
  · have hput := (htouch.touch hi).put (ascii "mms" ++ (s.urlAt env (s.curEntry - 1)).drop 4) (i := 0) (by decide) (.inr rfl)
    have hread := ((hr.touch (s.curEntry - 1)).touch (s.curEntry - 1)).put 0 .response
      (ascii "mms" ++ (s.urlAt env (s.curEntry - 1)).drop 4)
    have hset : Given .redirect := by decide
    exact ⟨⟨hput.sound, hput.zero, hput.good⟩, hread.setType hs hset (.inr ⟨nofun, nofun⟩), .inl rfl⟩
  · exact ⟨htouch, hr.touch _, .inl rfl⟩

theorem given_of_kinds {line : List UInt8} {type : ContentType} (h : kindOf line = some (.plain type)) : Given type := by
  obtain ⟨k, hk, hkind⟩ := Option.map_eq_some_iff.mp h
  have hall : ∀ k ∈ kinds, ∀ type ∈ [ContentType.c200, .tryHost, .nextUrl], k.2 ≠ .plain type := by decide
  have hne := hall k (List.mem_of_find?_eq_some hk)
  refine ⟨?_, ?_, ?_⟩ <;>
  · rintro rfl
    exact hne _ (by decide) hkind

theorem goes_plainType (hk : Known env s) (hr : Reading 4 s) (hs : s.stateGet = .header) {line : List UInt8}
    (hm : s.curEntry = -1 → kindOf line ≠ some .mms) : Goes env 4 s (s.plainType env line) := by
  rw [Main.plainType]
  split
  case h_1 type h => exact ⟨⟨hk.sound, hk.zero, hk.good⟩, hr.setType_header hs (given_of_kinds h), .inl rfl⟩
  case h_2 => exact ⟨⟨hk.sound, hk.zero, hk.good⟩, hr.setType hs (by decide) (.inr ⟨nofun, nofun⟩), .inl rfl⟩
  case h_3 => exact ⟨⟨hk.sound, hk.zero, hk.good⟩, hr.startAgain nofun (by decide), .inl rfl⟩
  case h_4 h => exact goes_mmsType hk hr hs fun hc => hm hc h
  case h_5 =>
    split
    · split
      · exact ⟨⟨hk.sound, hk.zero, hk.good⟩, hr.setType_header hs (by decide), .inl rfl⟩
      · exact ⟨⟨hk.sound, hk.zero, hk.good⟩, hr.startAgain nofun (by decide), .inl rfl⟩
    · exact goes_otherType hk hr hs
  case h_6 => exact goes_otherType hk hr hs

theorem goes_setCookie (hk : Known env s) (hr : Reading 4 s) (hs : s.stateGet = .header) (line : List UInt8) :
    Goes env 4 s (s.setCookie env line) := by
  rw [Main.setCookie]
  split
  · split
    · exact .refl hk hr
    · have hset : Reading 4 { s with contentType := .redirect, stateGet := .retry } :=
        hr.setType hs (by decide) (.inr ⟨nofun, nofun⟩)
      exact ⟨⟨hk.sound, hk.zero, hk.good⟩, ⟨hset.counter, hset.type, hset.state, hset.song, hset.plain, hset.listed⟩, .inr rfl⟩
  · exact ⟨⟨hk.sound, hk.zero, hk.good⟩, ⟨hr.counter, hr.type, hr.state, hr.song, hr.plain, hr.listed⟩, .inl rfl⟩

theorem goes_location (hk : Known env s) (hr : Reading 4 s) (hs : s.stateGet = .header) (line : List UInt8) :
    Goes env 4 s (s.location line) := by
  rw [Main.location]
  split
  case h_1 ptr _ =>
    have hput := hk.put ptr (i := 0) (by decide) (.inr rfl)
    have hset : Reading 4 { s.put 0 .response ptr with contentType := .redirect, stateGet := .retry } :=
      (hr.put 0 .response ptr).setType hs (by decide) (.inr ⟨nofun, nofun⟩)
    exact ⟨⟨hput.sound, hput.zero, hput.good⟩, hset, .inl rfl⟩
  case h_2 =>
    have hset := hr.setError (by decide : Given .error ∧ ContentType.error ≠ .mp3)
    exact ⟨⟨hk.sound, hk.zero, hk.good⟩, ⟨hset.counter, hset.type, hset.state, hset.song, hset.plain, hset.listed⟩, .inr rfl⟩

theorem goes_header (hk : Known env s) (hr : Reading 4 s) (hs : s.stateGet = .header) {line : List UInt8}
    (hm : s.curEntry = -1 → ¬ isMms line) : Goes env 4 s (s.header env line) := by
  rw [Main.header]
  split
  · exact .refl hk hr
  split
  case isTrue htype =>
    split
    case isTrue => exact goes_audioType hk hr hs line
    case isFalse haudio =>
      exact goes_plainType hk hr hs fun hc hkind => hm hc ⟨htype, by simpa using haudio, hkind⟩
  split
  · exact .refl hk hr
  split
  · exact goes_setCookie hk hr hs line
  split
  · exact ⟨⟨hk.sound, hk.zero, hk.good⟩, ⟨hr.counter, hr.type, hr.state, hr.song, hr.plain, hr.listed⟩, .inl rfl⟩
  split
  · exact .refl hk hr
  split
  · exact goes_location hk hr hs line
  · exact .refl hk hr

end Header

section Content
variable {env : Env} {s : Main}

theorem Reading.mono {n m : Int} (h : Reading n s) (hnm : n ≤ m) : Reading m s where
  counter := h.counter
  type := h.type
  state := h.state
  song := h.song
  plain := h.plain
  listed hp := ⟨(h.listed hp).1, (h.listed hp).2.1, (h.listed hp).2.2.imp_right fun ⟨h0, hn, hs⟩ => ⟨h0, hn.trans hnm, hs⟩⟩

/-- A playlist is being read behind the headers. -/
structure Listing (s : Main) : Prop where
  reading : Reading 4 s
  type : s.playlistType ≠ .none
  state : s.stateGet ≠ .header

theorem Listing.firstEntry (h : Listing s) (k : Int) :
    Listing (s.firstEntry k) ∧ 0 ≤ (s.firstEntry k).curEntry ∧ (s.firstEntry k).curEntry ≤ 4 := by
  have hr := h.reading
  have hlisted := hr.listed h.type
  have hle : (0 : Int) ≤ 4 := by decide
  rw [Main.firstEntry]
  split
  · refine ⟨⟨⟨hr.counter, hr.type, hr.state, hr.song, fun hn => absurd hn h.type, fun _ => ?_⟩, h.type, h.state⟩,
      le_refl _, hle⟩
    exact ⟨hlisted.1, hlisted.2.1, .inr ⟨le_refl _, hle, h.state⟩⟩
  · next hc =>
    rcases hlisted.2.2 with hneg | ⟨h0, h4, -⟩
    · exact absurd ⟨by rw [hneg]; decide, hneg⟩ hc
    · exact ⟨h, h0, h4⟩

theorem Known.firstEntry (hk : Known env s) (k : Int) : Known env (s.firstEntry k) := by
  rw [Main.firstEntry]
  split
  · exact ⟨hk.sound, hk.zero, hk.good⟩
  · exact hk

theorem Known.nextEntry (hk : Known env s) (h0 : 0 ≤ s.curEntry) (h4 : s.curEntry ≤ 4) (text : List UInt8) :
    Known env (s.nextEntry text) := by
  have hput := hk.put text (i := s.curEntry) ⟨h0, by rw [MAX_PLAYLIST]; omega⟩ (.inr rfl)
  exact ⟨hput.sound, hput.zero, hput.good⟩

theorem Listing.nextEntry (h : Listing s) (h0 : 0 ≤ s.curEntry) (h4 : s.curEntry ≤ 4) (text : List UInt8) :
    Reading 5 (s.nextEntry text) where
  counter := h.reading.counter
  type := h.reading.type
  state := h.reading.state
  song := h.reading.song
  plain hn := absurd hn h.type
  listed _ := by
    have hc : (s.nextEntry text).curEntry = s.curEntry + 1 := rfl
    refine ⟨(h.reading.listed h.type).1, (h.reading.listed h.type).2.1, .inr ⟨?_, ?_, h.state⟩⟩ <;> omega

/-- A new entry of any playlist. -/
theorem entry_goes (hk : Known env s) (h : Listing s) (k : Int) (text : List UInt8) :
    Known env ((s.firstEntry k).nextEntry text) ∧ Reading 5 ((s.firstEntry k).nextEntry text) ∧
      ((s.firstEntry k).nextEntry text).phase = s.phase ∧
      ((s.firstEntry k).nextEntry text).contentType ≠ .mp3 := by
  obtain ⟨hl, h0, h4⟩ := h.firstEntry k
  refine ⟨(hk.firstEntry k).nextEntry h0 h4 text, hl.nextEntry h0 h4 text, ?_, hl.reading.song hl.state⟩
  show (s.firstEntry k).phase = s.phase
  rw [Main.firstEntry]
  split <;> rfl

theorem goes_addFile (hk : Known env s) (h : Listing s) (text : List UInt8) : Goes env 5 s (s.addFile text) := by
  obtain ⟨hknown, hread, hphase, htype⟩ := entry_goes hk h 1 text
  rw [Main.addFile]
  split
  · exact ⟨⟨hknown.sound, hknown.zero, hknown.good⟩, hread.setState .retry nofun nofun htype, .inl hphase⟩
  · exact .refl hk (h.reading.mono (by decide))

theorem goes_addTrack (hk : Known env s) (h : Listing s) (text : List UInt8) : Goes env 5 s (s.addTrack text) := by
  obtain ⟨hknown, hread, hphase, htype⟩ := entry_goes hk h 0 text
  have hset := hread.setState .retry nofun nofun htype
  exact ⟨⟨hknown.sound, hknown.zero, hknown.good⟩,
    ⟨hset.counter, hset.type, hset.state, hset.song, hset.plain, hset.listed⟩, .inl hphase⟩

theorem goes_podcastEntry (hk : Known env s) (h : Listing s) (text : List UInt8) : Goes env 5 s (s.podcastEntry text) := by
  obtain ⟨hknown, hread, hphase, htype⟩ := entry_goes hk h 0 text
  rw [Main.podcastEntry]
  split
  · have hset := hread.setState (if ((s.firstEntry 0).nextEntry text).stateGet = .retry then .retry else .retryLater)
      (by split <;> nofun) (by split <;> nofun) htype
    exact ⟨⟨hknown.sound, hknown.zero, hknown.good⟩,
      ⟨hset.counter, hset.type, hset.state, hset.song, hset.plain, hset.listed⟩, .inl hphase⟩
  · exact .refl hk (h.reading.mono (by decide))

/-- What is changed in the buffer of the line matters to nothing else. -/
theorem Listing.setLineData (h : Listing s) (buffer : List UInt8) : Listing { s with lineData := buffer } :=
  ⟨⟨h.reading.counter, h.reading.type, h.reading.state, h.reading.song, h.reading.plain, h.reading.listed⟩, h.type, h.state⟩

/-- The text is stored if it is a url. -/
theorem goes_ifFile {s' : Main} (hk : Known env s') (h : Listing s') (hp : s'.phase = s.phase) (c : Prop) [Decidable c]
    (text : List UInt8) : Goes env 5 s (if c then s'.addFile text else s') := by
  split
  · have hadd := goes_addFile hk h text
    exact ⟨hadd.known, hadd.reading, by rw [← hp]; exact hadd.phase⟩
  · exact ⟨hk, h.reading.mono (by decide), .inl hp⟩

theorem goes_shoutLine (hk : Known env s) (h : Listing s) (line : List UInt8) : Goes env 5 s (s.shoutLine env line) := by
  have hrefl : Goes env 5 s s := .refl hk (h.reading.mono (by decide))
  rw [Main.shoutLine]
  split
  · exact goes_ifFile hk h rfl _ _
  split
  · dsimp only
    split
    · have hset := hrefl.reading.setError (by decide : Given .error ∧ ContentType.error ≠ .mp3)
      exact ⟨⟨hk.sound, hk.zero, hk.good⟩, ⟨hset.counter, hset.type, hset.state, hset.song, hset.plain, hset.listed⟩, .inl rfl⟩
    · have hr := h.reading
      refine ⟨⟨hk.sound, hk.zero, hk.good⟩, ⟨hr.counter, hr.type, hr.state, hr.song, fun hn => absurd hn h.type, fun _ => ?_⟩,
        .inl rfl⟩
      exact ⟨(hr.listed h.type).1, (hr.listed h.type).2.1, .inr ⟨le_refl (0 : Int), (by decide : (0 : Int) ≤ 5), h.state⟩⟩
  · exact hrefl

theorem goes_trackLine (hk : Known env s) (h : Listing s) (protocol line : List UInt8) :
    Goes env 5 s (s.trackLine protocol line) := by
  rw [Main.trackLine]
  split
  · exact goes_addTrack hk h line
  · exact .refl hk (h.reading.mono (by decide))

theorem goes_asxReferenceLine (hk : Known env s) (h : Listing s) (line : List UInt8) :
    Goes env 5 s (s.asxReferenceLine line) := by
  rw [Main.asxReferenceLine]
  split
  · exact goes_ifFile hk h rfl _ _
  · exact .refl hk (h.reading.mono (by decide))

theorem goes_asxLine (hk : Known env s) (h : Listing s) (line : List UInt8) : Goes env 5 s (s.asxLine line) := by
  have hr := h.reading.mono (by decide : (4 : Int) ≤ 5)
  have hrefl : Goes env 5 s s := .refl hk hr
  rw [Main.asxLine]
  split
  · refine ⟨⟨hk.sound, hk.zero, hk.good⟩, ⟨hr.counter, hr.type, hr.state, hr.song, nofun, fun _ => hr.listed h.type⟩, .inl rfl⟩
  split
  · exact hrefl
  split
  · exact hrefl
  · exact hrefl
  · refine goes_ifFile ?_ ?_ ?_ _ _
    · split
      · exact ⟨hk.sound, hk.zero, hk.good⟩
      · exact hk
    · split
      · exact h.setLineData _
      · exact h
    · split <;> rfl

theorem goes_podcastItem (hk : Known env s) (h : Listing s) (line : List UInt8) : Goes env 5 s (s.podcastItem line) := by
  have hr := h.reading.mono (by decide : (4 : Int) ≤ 5)
  have hset (i : Nat) : Goes env 5 s { s with lineData := s.lineData.set i 0 } :=
    ⟨⟨hk.sound, hk.zero, hk.good⟩, ⟨hr.counter, hr.type, hr.state, hr.song, hr.plain, hr.listed⟩, .inl rfl⟩
  rw [Main.podcastItem]
  split
  · split
    · next ptr _ _ _ _ _ =>
      have hbuffer := h.setLineData (s.lineData.set (ptr + 4) 0)
      have hk' : Known env { s with lineData := s.lineData.set (ptr + 4) 0 } := ⟨hk.sound, hk.zero, hk.good⟩
      have hentry := goes_podcastEntry hk' hbuffer
      exact ⟨(hentry _).known, (hentry _).reading, (hentry _).phase⟩
    · exact hset _
  · split
    · split
      · exact hset _
      · exact .refl hk hr
    · exact .refl hk hr

theorem goes_podcastLine (hk : Known env s) (h : Listing s) (line : List UInt8) : Goes env 5 s (s.podcastLine line) := by
  rw [Main.podcastLine]
  split
  · have hr := h.reading.setState .retry nofun nofun (h.reading.song h.state)
    have hitem := goes_podcastItem (s := { s with stateGet := .retry }) ⟨hk.sound, hk.zero, hk.good⟩ ⟨hr, h.type, nofun⟩ line
    exact ⟨hitem.known, hitem.reading, hitem.phase⟩
  · exact goes_podcastItem hk h line

theorem goes_plainLine (hk : Known env s) (hr : Reading 4 s) (line : List UInt8) : Goes env 5 s (s.plainLine line) := by
  have hr := hr.mono (by decide : (4 : Int) ≤ 5)
  have again (p : PlaylistType) (hp : p ≠ .none) :
      Goes env 5 s { s.startAgain p .playlist with numberOfEntries := 1 } := by
    have hagain : Reading 5 (s.startAgain p .playlist) := hr.startAgain hp (by decide)
    exact ⟨⟨hk.sound, hk.zero, hk.good⟩,
      ⟨hagain.counter, hagain.type, hagain.state, hagain.song, hagain.plain, hagain.listed⟩, .inl rfl⟩
  rw [Main.plainLine]
  split
  · exact again .shout nofun
  split
  · exact ⟨⟨hk.sound, hk.zero, hk.good⟩, hr.setError (by decide), .inl rfl⟩
  split
  · exact again .asx nofun
  · exact .refl hk hr

theorem goes_playlistLine (hk : Known env s) (hr : Reading 4 s) (hs : s.stateGet ≠ .header) (line : List UInt8) :
    Goes env 5 s (s.playlistLine env line) := by
  rw [Main.playlistLine]
  by_cases hp : s.playlistType = .none
  · rw [hp]
    exact goes_plainLine hk hr line
  · have h : Listing s := ⟨hr, hp, hs⟩
    split
    · next hn => exact absurd hn hp
    · exact goes_shoutLine hk h line
    · exact goes_trackLine hk h _ line
    · exact goes_trackLine hk h _ line
    · exact goes_podcastLine hk h line
    · exact goes_asxLine hk h line
    · exact goes_asxReferenceLine hk h line

/-- Where five entries have been read the function decides. -/
def Below (s : Main) : Prop := s.phase = .decide ∨ s.curEntry ≠ 5

theorem goes_content (hk : Known env s) (hr : Reading 4 s) (hs : s.stateGet ≠ .header) (line : List UInt8) :
    Goes env 5 s (s.content env line) ∧ Below (s.content env line) := by
  have hline := goes_playlistLine hk hr hs line
  rw [Main.content]
  split
  case isTrue =>
    have hread := hline.reading
    exact ⟨⟨⟨hline.known.sound, hline.known.zero, hline.known.good⟩,
      ⟨hread.counter, hread.type, hread.state, hread.song, hread.plain, hread.listed⟩, .inr rfl⟩, .inl rfl⟩
  case isFalse hne => exact ⟨hline, .inr fun h5 => hne (.inr h5)⟩

theorem below_of_reading (hr : Reading 4 s) : s.curEntry ≠ 5 := by
  have hcounter := hr.counter
  by_cases hp : s.playlistType = .none
  · have hplain := hr.plain hp
    omega
  · have hlisted := (hr.listed hp).2.2
    omega

theorem Goes.below {s' : Main} (h : Goes env 4 s s') : Goes env 5 s s' ∧ Below s' :=
  ⟨⟨h.known, h.reading.mono (by decide), h.phase⟩, .inr (below_of_reading h.reading)⟩

theorem goes_emptyLine (hk : Known env s) (hr : Reading 4 s) : Goes env 4 s s.emptyLine := by
  rw [Main.emptyLine]
  split
  · exact ⟨⟨hk.sound, hk.zero, hk.good⟩, ⟨hr.counter, hr.type, hr.state, hr.song, hr.plain, hr.listed⟩, .inr rfl⟩
  next hstream =>
  split
  · next h200 => exact absurd h200 hr.type
  split
  · exact .refl hk hr
  · have hsong : s.contentType ≠ .mp3 := fun hmp3 => hstream (.inl (by rw [hmp3]; decide))
    exact ⟨⟨hk.sound, hk.zero, hk.good⟩, hr.setState .content nofun nofun hsong, .inl rfl⟩

/-- One turn of the loop. -/
theorem goes_nextLine (hk : Known env s) (hr : Reading 4 s) (hp : s.phase = .read) (hm : RegularLine s) :
    Goes env 5 s (s.nextLine env) ∧ Below (s.nextLine env) := by
  let s' : Main := { s with lineData := cutAt (fun b => b = 13 || b = 10) s.lineData }
  have hk' : Known env s' := ⟨hk.sound, hk.zero, hk.good⟩
  have hr' : Reading 4 s' := ⟨hr.counter, hr.type, hr.state, hr.song, hr.plain, hr.listed⟩
  have hgoes : Goes env 5 s' (s.nextLine env) ∧ Below (s.nextLine env) := by
    show Goes env 5 s' (if cstring s'.lineData = [] then s'.emptyLine else s'.fullLine env (cstring s'.lineData)) ∧
      Below (if cstring s'.lineData = [] then s'.emptyLine else s'.fullLine env (cstring s'.lineData))
    split
    · exact (goes_emptyLine hk' hr').below
    · rw [Main.fullLine, if_neg hr'.type]
      split
      case isTrue hs => exact (goes_header hk' hr' hs (hm hp hs)).below
      case isFalse hs => exact goes_content hk' hr' hs _
  exact ⟨⟨hgoes.1.known, hgoes.1.reading, hgoes.1.phase⟩, hgoes.2⟩

end Content
end Mvpmc.HttpStream
