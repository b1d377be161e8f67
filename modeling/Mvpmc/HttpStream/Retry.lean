import Mvpmc.HttpStream.Entries

/-! Every connection is made to a url that has been stored. -/
namespace Mvpmc.HttpStream
open Mvpmc.Lib
open Mvpmc.Cmyth (cstring)
open Mvpmc.Playlist (ascii)

/-- While a connection is made there is an entry in use. -/
structure Dialing (env : Env) (s : Main) : Prop where
  known : Known env s
  counter : s.counter ≤ 4
  type : s.contentType ≠ .c200
  pos : 1 ≤ s.curEntry
  le : s.curEntry ≤ s.counter
  entry : (s.url (s.curEntry - 1)).isSome = true

/-- In front of the first line of a response. -/
structure Fresh (env : Env) (s : Main) : Prop where
  known : Known env s
  counter : s.counter ≤ 4
  type : s.contentType ≠ .c200
  state : s.stateGet = .init
  status : s.statusGet = 0
  plain : s.playlistType = .none
  pos : 1 ≤ s.curEntry
  le : s.curEntry ≤ s.counter

/-- Behind a response. -/
structure Deciding (env : Env) (s : Main) : Prop where
  known : Known env s
  counter : s.counter ≤ 4
  type : s.contentType ≠ .c200
  next : s.contentType = .tryHost ∨ s.contentType = .nextUrl → 1 ≤ s.curEntry ∧ s.curEntry ≤ s.counter
  song : s.contentType = .mp3 → s.curEntry = -1 ∨ 1 ≤ s.curEntry ∧ s.curEntry ≤ s.counter

/-- In front of a connection. -/
structure Waiting (env : Env) (s : Main) : Prop where
  known : Known env s
  counter : s.counter ≤ 4
  type : s.contentType ≠ .c200
  pos : 1 ≤ s.curEntry
  le : s.curEntry ≤ s.counter + 1
  entry : (s.url (s.curEntry - 1)).isSome = true

/-- What holds whenever the function waits. -/
def Inv (env : Env) (s : Main) : Prop :=
  match s.phase with
  | .connect => Waiting env s
  | .first => Fresh env s
  | .read => Known env s ∧ Reading 4 s
  | .decide => Deciding env s
  | .done => Sound followed env s.trace

section
variable {env : Env} {d : Dial} {s : Main}

theorem Inv.sound (h : Inv env s) : Sound followed env s.trace := by
  rw [Inv] at h
  split at h
  · exact h.known.sound
  · exact h.known.sound
  · exact h.1.sound
  · exact h.known.sound
  · exact h

theorem inv_of_done (hp : s.phase = .done) (h : Sound followed env s.trace) : Inv env s := by
  rw [Inv, hp]
  exact h

theorem Dialing.index (h : Dialing env s) : 0 ≤ s.curEntry - 1 ∧ s.curEntry - 1 < MAX_PLAYLIST := by
  have hpos := h.pos
  have hle := h.le
  have hcounter := h.counter
  rw [MAX_PLAYLIST]
  omega

/-- The text of the entry is written again. -/
theorem Dialing.put (h : Dialing env s) {source : Source} {text : List UInt8} (hs : source ∈ followed)
    (hvlc : source = .vlc → cut text = vlcUrl env)
    (hlive : source = .live365 →
      ∃ url cookie, contains url (ascii ".live365.") = true ∧ cut text = cut (url ++ [63] ++ cookie)) :
    Dialing env (s.put (s.curEntry - 1) source text) where
  known := known_put h.known.sound (.inr h.known.zero) (fun j t _ => h.known.good j t) h.index hs hvlc hlive
  counter := h.counter
  type := h.type
  pos := h.pos
  le := h.le
  entry := put_isSome _ _ source text h.entry

/-- The file that a helper makes stays in the table only as long as the VLC server has not taken it. -/
structure Helped (env : Env) (s : Main) : Prop where
  sound : Sound followed env s.trace
  zero : s.curEntry - 1 = 0 ∨ (s.url 0).isSome = true
  good : ∀ j text, j ≠ s.curEntry - 1 → s.url j = some text → Stored followed env text s.trace
  counter : s.counter ≤ 4
  pos : 1 ≤ s.curEntry
  le : s.curEntry ≤ s.counter

theorem Helped.index (h : Helped env s) : 0 ≤ s.curEntry - 1 ∧ s.curEntry - 1 < MAX_PLAYLIST := by
  have hpos := h.pos
  have hle := h.le
  have hcounter := h.counter
  rw [MAX_PLAYLIST]
  omega

theorem Dialing.helped (h : Dialing env s) (text : List UInt8) :
    Helped env ((s.touch (s.curEntry - 1)).put (s.curEntry - 1) .helper text) where
  sound := ⟨⟨nofun, nofun⟩, h.index, h.index, h.known.sound⟩
  zero := .inr (put_isSome _ _ _ _ h.known.zero)
  good j t hne hj := by
    have hj : s.url j = some t := (put_url_of_ne hne .helper text).symm.trans hj
    exact (h.known.good j t hj).mono fun e he => List.mem_cons_of_mem _ (List.mem_cons_of_mem _ (List.mem_cons_of_mem _ he))
  counter := h.counter
  pos := h.pos
  le := h.le

/-- The VLC server takes the stream over, or nothing is left to do. -/
theorem Helped.vlc (h : Helped env s) (hp : s.phase = .connect) {type : ContentType} (ht : type ≠ .c200) :
    let s' : Main := if d.vlc < 0 then { s with phase := .done }
      else { s.put (s.curEntry - 1) .vlc (ascii "http://" ++ env.vlcServer ++ ascii ":5212") with contentType := type }
    s'.phase = .done ∧ Sound followed env s'.trace ∨ s'.phase = .connect ∧ Dialing env s' := by
  dsimp only
  split
  · exact .inl ⟨rfl, h.sound⟩
  · have hput : Known env (s.put (s.curEntry - 1) .vlc (ascii "http://" ++ env.vlcServer ++ ascii ":5212")) :=
      known_put h.sound h.zero h.good h.index (by decide) (fun _ => rfl) nofun
    have hentry := put_url_self (s := s) (s.curEntry - 1) .vlc (ascii "http://" ++ env.vlcServer ++ ascii ":5212")
    exact .inr ⟨hp, ⟨⟨hput.sound, hput.zero, hput.good⟩, h.counter, ht, h.pos, h.le, Option.isSome_of_eq_some hentry⟩⟩

theorem dialing_useHelpers (h : Dialing env s) (hp : s.phase = .connect) :
    (s.useHelpers env d).phase = .done ∧ Sound followed env (s.useHelpers env d).trace ∨
      (s.useHelpers env d).phase = .connect ∧ Dialing env (s.useHelpers env d) := by
  have htouch := h.known.touch h.index
  have htype (t : Int) : (if s.contentType = .divx ∨ 101 < t then ContentType.divx else .mp3) ≠ .c200 := by
    split <;> nofun
  rw [Main.useHelpers]
  split
  · split
    · exact .inl ⟨rfl, htouch.sound⟩
    by_cases hh : d.helper = 1
    · simp only [if_pos hh]
      exact (h.helped _).vlc hp (htype _)
    · simp only [if_neg hh]
      have hhelped : Helped env (s.touch (s.curEntry - 1)) :=
        ⟨htouch.sound, .inr htouch.zero, fun j t _ => htouch.good j t, h.counter, h.pos, h.le⟩
      exact hhelped.vlc hp (htype _)
  · exact .inr ⟨hp, ⟨htouch, h.counter, h.type, h.pos, h.le, h.entry⟩⟩

theorem dialing_useCookie (h : Dialing env s) : Dialing env (s.useCookie env) := by
  have h0 : Dialing env { s with live365Login := 0 } :=
    ⟨⟨h.known.sound, h.known.zero, h.known.good⟩, h.counter, h.type, h.pos, h.le, h.entry⟩
  rw [Main.useCookie]
  split
  case isTrue hlive =>
    split
    · split
      · exact ⟨⟨h.known.sound, h.known.zero, h.known.good⟩, h.counter, h.type, h.pos, h.le, h.entry⟩
      · exact h0
    · exact h0.put (by decide) nofun fun _ => ⟨_, _, hlive.1, rfl⟩
  case isFalse => exact h0

/-- Only the parts of the address are changed. -/
theorem scanUrl_eq (s : Main) (url : List UInt8) :
    ∃ name port page, scanUrl s url = { s with scname := name, scport := port, scpage := page } := by
  have hport : ∃ name port page,
      scanHostPort { s with scpage := [] } (url.drop 7) = { s with scname := name, scport := port, scpage := page } := by
    rw [scanHostPort]
    dsimp only
    split
    · exact ⟨_, _, _, rfl⟩
    split <;> exact ⟨_, _, _, rfl⟩
  obtain ⟨name, port, page, hport⟩ := hport
  rw [scanUrl, hport]
  split
  · split <;> exact ⟨_, _, _, rfl⟩
  · split <;> exact ⟨_, _, _, rfl⟩

theorem dialing_scanHost (h : Dialing env s) : Dialing env (s.scanHost env) := by
  rw [Main.scanHost]
  split
  · obtain ⟨name, port, page, heq⟩ := scanUrl_eq s (s.urlAt env (s.curEntry - 1))
    rw [heq]
    exact ⟨⟨h.known.sound, h.known.zero, h.known.good⟩, h.counter, h.type, h.pos, h.le, h.entry⟩
  · exact ⟨⟨h.known.sound, h.known.zero, h.known.good⟩, h.counter, h.type, h.pos, h.le, h.entry⟩

/-- The url that is connected to stands in the table. -/
theorem dialing_ask (h : Dialing env s) : Dialing env (s.ask env) := by
  refine ⟨⟨?_, h.known.zero, fun j t hj => (h.known.good j t hj).mono (List.subset_cons_self _ _)⟩, h.counter, h.type, h.pos,
    h.le, h.entry⟩
  rw [Main.ask]
  split
  · exact ⟨h.known.good _ _ (urlAt_of_isSome h.entry), h.known.sound⟩
  · exact ⟨by decide, h.known.sound⟩

theorem inv_request (h : Dialing env s) : Inv env (s.request d) := by
  have hknown := h.known
  rw [Main.request]
  split
  · split
    · exact (⟨⟨hknown.sound, hknown.zero, hknown.good⟩, h.counter, h.type, rfl, rfl, rfl, h.pos, h.le⟩ : Fresh env
        { s with stateGet := .init, statusGet := 0, playlistType := .none, phase := .first })
    · exact hknown.sound
  split
  · exact (⟨⟨hknown.sound, hknown.zero, hknown.good⟩, h.counter, nofun, fun _ => ⟨h.pos, h.le⟩, nofun⟩ : Deciding env
      { s with stateGet := .retry, contentType := .nextUrl, phase := .decide })
  · exact (⟨⟨hknown.sound, hknown.zero, hknown.good⟩, h.counter, nofun, fun _ => ⟨h.pos, h.le⟩, nofun⟩ : Deciding env
      { s with contentType := .error, phase := .decide })

theorem inv_resolve (h : Dialing env s) : Inv env (s.resolve env d) := by
  rw [Main.resolve]
  split
  · exact h.known.sound
  split
  · refine inv_request (dialing_ask ?_)
    split
    · next hName _ _ _ =>
      have hput := h.known.put (ascii "http://" ++ hName ++ [58] ++ s.scport ++ s.scpage) (i := 1) (by decide) (.inl rfl)
      exact ⟨⟨hput.sound, hput.zero, hput.good⟩, h.counter, h.type, h.pos, h.le, put_isSome 1 _ .hostName _ h.entry⟩
    · exact h
  split
  · exact h.known.sound
  · exact inv_request (dialing_ask h)

theorem inv_dial (h : Waiting env s) (hp : s.phase = .connect) : Inv env (s.dial env d) := by
  rw [Main.dial]
  split
  · exact h.known.sound
  next hgo =>
  rw [not_or, not_not] at hgo
  have hcounter : s.counter + 1 < 5 := hgo.1
  have hle : s.curEntry ≤ ((s.counter + 1 : Nat) : Int) := by
    have := h.le
    omega
  have hd : Dialing env { s with counter := s.counter + 1 } :=
    ⟨⟨h.known.sound, h.known.zero, h.known.good⟩, Nat.le_of_lt_succ hcounter, h.type, h.pos, hle, h.entry⟩
  rcases dialing_useHelpers (d := d) hd hp with ⟨hdone, hsound⟩ | ⟨hconnect, hd⟩
  · simp only [if_pos hdone]
    exact inv_of_done hdone hsound
  · have hne : (({ s with counter := s.counter + 1 } : Main).useHelpers env d).phase ≠ .done := by
      rw [hconnect]
      nofun
    simp only [if_neg hne]
    exact inv_resolve (dialing_scanHost (dialing_useCookie hd))

/-- Only the first line of a response names a status, so a bare `200` is not accepted. -/
theorem inv_acceptStatus (h : Fresh env s) (line : List UInt8) (status : Int) (h200 : line = ascii "200" → status = 0) :
    Inv env ({ s with statusGet := status }.acceptStatus line) := by
  have hknown := h.known
  rw [Main.acceptStatus]
  split
  · refine (⟨⟨hknown.sound, hknown.zero, hknown.good⟩, h.counter, ?_, fun _ => ⟨h.pos, h.le⟩, ?_⟩ : Deciding env
      { s with statusGet := status, contentType := _, phase := .decide })
    · split <;> nofun
    · intro hmp3
      split at hmp3 <;> cases hmp3
  next hstatus =>
  have hline : line ≠ ascii "200" := by
    intro h
    simp only [h200 h] at hstatus
    exact hstatus (by decide)
  have htype : s.acceptedType line ≠ .c200 := by
    rw [Main.acceptedType, if_neg hline]
    split
    · nofun
    split
    · nofun
    · exact h.type
  have hread : Reading 4 { s with
      statusGet := status, contentType := s.acceptedType line, stateGet := .header, phase := .read } :=
    ⟨h.counter, htype, nofun, fun hn => absurd rfl hn, fun _ => ⟨h.pos, h.le⟩, fun hn => absurd h.plain hn⟩
  exact ⟨⟨hknown.sound, hknown.zero, hknown.good⟩, hread⟩

theorem inv_firstLine (h : Fresh env s) : Inv env (s.firstLine env) := by
  have hknown := h.known
  rw [Main.firstLine]
  split
  · exact (⟨⟨hknown.sound, hknown.zero, hknown.good⟩, h.counter, nofun, nofun, nofun⟩ : Deciding env
      { s with lineData := cutLastCr s.lineData, contentType := .unknown, phase := .decide })
  · have hbuffer : Fresh env { s with lineData := cutLastCr s.lineData } :=
      ⟨⟨hknown.sound, hknown.zero, hknown.good⟩, h.counter, h.type, h.state, h.status, h.plain, h.pos, h.le⟩
    refine inv_acceptStatus hbuffer _ _ fun h200 => ?_
    rw [h200]
    exact h.status

/-- Only a regular decision goes on to an entry. -/
theorem inv_afterResponse (h : Deciding env s) (hp : s.phase = .decide) (hr : Regular s .decide) :
    Inv env s.afterResponse := by
  obtain ⟨hsong, hnext⟩ := hr hp
  have hknown := h.known
  have hzero : Waiting env { s.touch 0 with curEntry := 1, phase := .connect } := by
    have htouch := hknown.touch (i := 0) (by decide)
    exact ⟨⟨htouch.sound, htouch.zero, htouch.good⟩, h.counter, h.type, le_refl _, by simp [Main.touch], h.known.zero⟩
  have hentry (ht : s.contentType = .tryHost ∨ s.contentType = .nextUrl) (hlt : s.curEntry < s.numberOfEntries) :
      Waiting env { s.touch s.curEntry with curEntry := s.curEntry + 1, phase := .connect } := by
    obtain ⟨hpos, hle⟩ := h.next ht
    have hcounter := h.counter
    have htouch : Known env (s.touch s.curEntry) := hknown.touch ⟨by omega, by rw [MAX_PLAYLIST]; omega⟩
    have hsome : (s.url (s.curEntry + 1 - 1)).isSome = true := by
      rw [Int.add_sub_cancel]
      exact hnext ht hlt
    exact ⟨⟨htouch.sound, htouch.zero, htouch.good⟩, hcounter, h.type, Int.le_add_of_nonneg_left (by omega),
      Int.add_le_add_right hle 1, hsome⟩
  rw [Main.afterResponse]
  split
  case h_1 htype =>
    have hc := (h.song htype).resolve_left (hsong htype)
    have hcounter := h.counter
    have hi : 0 ≤ s.curEntry - 1 ∧ s.curEntry - 1 < MAX_PLAYLIST := by
      rw [MAX_PLAYLIST]
      omega
    exact (hknown.touch hi).sound
  case h_10 | h_11 | h_12 | h_13 | h_14 =>
    split
    · exact hzero
    · exact hknown.sound
  case h_17 htype =>
    split
    case isTrue hlt => exact hentry (.inl htype) hlt
    case isFalse => exact hknown.sound
  case h_18 htype =>
    split
    case isTrue hlt => exact hentry (.inr htype) hlt
    case isFalse => exact hknown.sound
  all_goals exact hknown.sound

theorem deciding_of_reading (hk : Known env s) (hr : Reading 5 s) : Deciding env s where
  known := hk
  counter := hr.counter
  type := hr.type
  next ht := by
    by_cases hp : s.playlistType = .none
    · exact hr.plain hp
    · exact absurd ht (not_or.mpr ⟨(hr.listed hp).1, (hr.listed hp).2.1⟩)
  song ht := by
    by_cases hp : s.playlistType = .none
    · exact .inr (hr.plain hp)
    · refine .inl ((hr.listed hp).2.2.resolve_right fun hlisted => ?_)
      exact hr.song hlisted.2.2 ht

theorem inv_of_goes {s' : Main} (hp : s.phase = .read) (h : Goes env 5 s s') (hb : Below s') : Inv env s' := by
  rcases h.phase with hphase | hphase
  · have hread : s'.phase = .read := hphase.trans hp
    have hne : s'.curEntry ≠ 5 := hb.resolve_left (by rw [hread]; nofun)
    have hr := h.reading
    rw [Inv, hread]
    refine ⟨h.known, hr.counter, hr.type, hr.state, hr.song, hr.plain, fun hn => ?_⟩
    obtain ⟨h1, h2, hlisted⟩ := hr.listed hn
    exact ⟨h1, h2, hlisted.imp_right fun ⟨h0, h5, hs⟩ => ⟨h0, by omega, hs⟩⟩
  · rw [Inv, hphase]
    exact deciding_of_reading h.known h.reading

theorem inv_step (h : Inv env s) {i : Input} (hr : Regular s i) : Inv env (step env s i) := by
  have hinv := h
  rw [Inv] at h
  rw [step.eq_def]
  cases i with
  | dial d =>
    dsimp only
    split
    case isTrue hp =>
      rw [hp] at h
      exact inv_dial h hp
    case isFalse => exact hinv
  | line text =>
    dsimp only
    split
    case h_1 hp =>
      rw [hp] at h
      have hk := h.known
      exact inv_firstLine ⟨⟨hk.sound, hk.zero, hk.good⟩, h.counter, h.type, h.state, h.status, h.plain, h.pos, h.le⟩
    case h_2 hp =>
      rw [hp] at h
      obtain ⟨hk, hread⟩ := h
      have hgoes := goes_nextLine (s := s.receive text) ⟨hk.sound, hk.zero, hk.good⟩
        ⟨hread.counter, hread.type, hread.state, hread.song, hread.plain, hread.listed⟩ hp hr
      exact inv_of_goes (s := s.receive text) hp hgoes.1 hgoes.2
    case h_3 => exact hinv
  | eof failed =>
    dsimp only
    split
    case h_1 hp =>
      rw [hp] at h
      have hk := h.known
      exact (⟨⟨hk.sound, hk.zero, hk.good⟩, h.counter, h.type, fun _ => ⟨h.pos, h.le⟩, fun _ => .inr ⟨h.pos, h.le⟩⟩ :
        Deciding env { s with phase := .decide })
    case h_2 hp =>
      rw [hp] at h
      obtain ⟨hk, hread⟩ := h
      cases failed with
      | true =>
        have hd := deciding_of_reading hk (hread.mono (by decide))
        have hk' : Known env { s with phase := .decide } := ⟨hk.sound, hk.zero, hk.good⟩
        exact (⟨hk', hd.counter, hd.type, hd.next, hd.song⟩ : Deciding env { s with phase := .decide })
      | false =>
        have hgoes := (goes_nextLine hk hread hp (hr rfl)).1
        have hd := deciding_of_reading hgoes.known hgoes.reading
        have hk' : Known env { s.nextLine env with phase := .decide } := ⟨hd.known.sound, hd.known.zero, hd.known.good⟩
        exact (⟨hk', hd.counter, hd.type, hd.next, hd.song⟩ : Deciding env { s.nextLine env with phase := .decide })
    case h_3 => exact hinv
  | decide =>
    dsimp only
    split
    case isTrue hp =>
      rw [hp] at h
      exact inv_afterResponse h hp hr
    case isFalse => exact hinv

theorem inv_start (env : Env) : Inv env (start env) := by
  rw [start]
  split
  · trivial
  · have hgood (i : Int) (t : List UInt8) (hi : Function.update (fun _ => none) 0 (some (cut env.current)) i = some t) :
        Stored followed env t [.index 0] := by
      by_cases h0 : i = 0
      · rw [h0, Function.update_self, Option.some.injEq] at hi
        exact .inl hi.symm
      · rw [Function.update_of_ne h0] at hi
        cases hi
    have htype : (if shoutcastDownload.isPrefixOf env.current then ContentType.getShoutcast else .unknown) ≠ .c200 := by
      split <;> nofun
    have hsound : Sound followed env [.index 0] := ⟨by decide, trivial⟩
    exact (⟨⟨hsound, rfl, hgood⟩, Nat.zero_le 4, htype, le_refl _, le_refl _, rfl⟩ : Waiting env
      { url := Function.update (fun _ => none) 0 (some (cut env.current))
        contentType := if shoutcastDownload.isPrefixOf env.current then .getShoutcast else .unknown
        trace := [.index 0] })

end

/-- A host for the runs below. -/
def exampleEnv (current : List UInt8) : Env where
  bits := 32
  current := current
  vlcServer := ascii "v"
  live365 := none
  junk _ := ascii "http://junk/"
  password := []

def answered (connected : Bool) : Input := .dial ⟨[], 0, 0, some (ascii "v"), connected, true⟩

end Mvpmc.HttpStream
