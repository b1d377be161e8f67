import Mvpmc.HttpStream.Response
import Mvpmc.Lib.Reach

/-! Which entries are used, and where they come from (`http_main`, `http_stream.c`). -/
namespace Mvpmc.HttpStream
open Mvpmc.Lib
open Mvpmc.Cmyth (cstring)
open Mvpmc.Playlist (ascii)

/-- What is done behind the lines of a response. -/
def Main.afterResponse (s : Main) : Main :=
  match s.contentType with
  | .mp3 => { s.touch (s.curEntry - 1) with httpRetcode := .fileDone, phase := .done }
  | .ogg => { s with httpRetcode := .audioFileOgg, phase := .done }
  | .flac => { s with httpRetcode := .audioFileFlac, phase := .done }
  | .mpg => { s with httpRetcode := .videoFileMpg, phase := .done }
  | .jpeg => { s with httpRetcode := .imageFileJpeg, phase := .done }
  | .png => { s with httpRetcode := .imageFilePng, phase := .done }
  | .gif => { s with httpRetcode := .imageFileGif, phase := .done }
  | .weatherRssHost => { s with httpRetcode := .rssFileWeather, phase := .done }
  | .getShoutcast => { s with httpRetcode := .fileDone, phase := .done }
  | .playlist | .podcast | .redirect | .aac | .divx =>
    if s.stateGet = .retry then { s.touch 0 with curEntry := 1, phase := .connect }
    else { s with httpRetcode := .fileDone, phase := .done }
  | .unknown | .unsupported => { s with httpRetcode := .fileUnknown, phase := .done }
  | .tryHost | .nextUrl =>
    if s.curEntry < s.numberOfEntries then { s.touch s.curEntry with curEntry := s.curEntry + 1, phase := .connect }
    else { s with httpRetcode := .fileDone, phase := .done }
  | .error | .c200 => { s with httpRetcode := .fileError, phase := .done }

/-- What the function waits for. `eof` is the end of a response, where `failed` tells that `errno` is set. -/
inductive Input where
  | dial (d : Dial)
  | line (text : List UInt8)
  | eof (failed : Bool)
  | decide

def Main.receive (s : Main) (text : List UInt8) : Main := { s with lineData := fill s.lineData text }

/-- What is left of the function's run when something happens. Without an error the last line is looked at once more. -/
def step (env : Env) (s : Main) : Input → Main
  | .dial d => if s.phase = .connect then s.dial env d else s
  | .line text =>
    match s.phase with
    | .first => (s.receive text).firstLine env
    | .read => (s.receive text).nextLine env
    | _ => s
  | .eof failed =>
    match s.phase with
    | .first => { s with phase := .decide }
    | .read => { if failed then s else s.nextLine env with phase := .decide }
    | _ => s
  | .decide => if s.phase = .decide then s.afterResponse else s

def run (env : Env) (inputs : List Input) : Main := inputs.foldl (step env) (start env)

/-- The url of the streams that the VLC server converts. -/
def vlcUrl (env : Env) : List UInt8 := cut (ascii "http://" ++ env.vlcServer ++ ascii ":5212")

/-- The requested url, or a text that was stored for one of the reasons in `sources`. -/
def Stored (sources : List Source) (env : Env) (text : List UInt8) (earlier : List Event) : Prop :=
  text = cut env.current ∨ ∃ source ∈ sources, .store source text ∈ earlier

/-- Every index lies in the table, and every url that is connected to was stored before. -/
def Sound (sources : List Source) (env : Env) : List Event → Prop
  | [] => True
  | .index i :: earlier => (0 ≤ i ∧ i < MAX_PLAYLIST) ∧ Sound sources env earlier
  | .store source text :: earlier =>
    ((source = .vlc → text = vlcUrl env) ∧
      (source = .live365 → ∃ url cookie, contains url (ascii ".live365.") = true ∧ text = cut (url ++ [63] ++ cookie))) ∧
        Sound sources env earlier
  | .connect text :: earlier => Stored sources env text earlier ∧ Sound sources env earlier
  | .login :: earlier => .live365 ∈ sources ∧ Sound sources env earlier

def followed : List Source := [.hostName, .response, .vlc, .live365]

/-- The line asks for another protocol. -/
def isMms (line : List UInt8) : Prop :=
  startsWith line (ascii "Content-Type") = true ∧ contains line (ascii "audio/") = false ∧ kindOf line = some .mms

/-- While a playlist is announced but not read, no header looks at the entry in use. -/
def RegularLine (s : Main) : Prop :=
  s.phase = .read → s.stateGet = .header → s.curEntry = -1 →
    ¬ isMms (cstring (cutAt (fun b => b = 13 || b = 10) s.lineData))

/-- A step that keeps to the entries: no header of another protocol and no song comes in place of a playlist that has
been announced, and where the next entry is tried there is one. -/
def Regular (s : Main) : Input → Prop
  | .dial _ => True
  | .line text => RegularLine (s.receive text)
  | .eof failed => failed = false → RegularLine s
  | .decide =>
    s.phase = .decide → (s.contentType = .mp3 → s.curEntry ≠ -1) ∧
      (s.contentType = .tryHost ∨ s.contentType = .nextUrl → s.curEntry < s.numberOfEntries → (s.url s.curEntry).isSome)

section Known
variable {env : Env} {s : Main}

/-- All that stands in the table may be connected to. -/
structure Known (env : Env) (s : Main) : Prop where
  sound : Sound followed env s.trace
  zero : (s.url 0).isSome = true
  good : ∀ i text, s.url i = some text → Stored followed env text s.trace

theorem Stored.mono {text : List UInt8} {earlier later : List Event} (h : Stored followed env text earlier)
    (hsub : earlier ⊆ later) : Stored followed env text later :=
  h.imp_right fun ⟨source, hs, hmem⟩ => ⟨source, hs, hsub hmem⟩

theorem Known.touch (h : Known env s) {i : Int} (hi : 0 ≤ i ∧ i < MAX_PLAYLIST) : Known env (s.touch i) where
  sound := ⟨hi, h.sound⟩
  zero := h.zero
  good j text hj := (h.good j text hj).mono (List.subset_cons_self _ _)

theorem put_url_of_ne {i j : Int} (h : j ≠ i) (source : Source) (text : List UInt8) :
    (s.put i source text).url j = s.url j :=
  Function.update_of_ne h _ _

theorem put_url_self (i : Int) (source : Source) (text : List UInt8) : (s.put i source text).url i = some (cut text) :=
  Function.update_self _ _ _

/-- Writing an entry, where only the others have to be in order. -/
theorem known_put {i : Int} {source : Source} {text : List UInt8} (hsound : Sound followed env s.trace)
    (hzero : i = 0 ∨ (s.url 0).isSome = true) (hgood : ∀ j t, j ≠ i → s.url j = some t → Stored followed env t s.trace)
    (hi : 0 ≤ i ∧ i < MAX_PLAYLIST) (hs : source ∈ followed) (hvlc : source = .vlc → cut text = vlcUrl env)
    (hlive : source = .live365 →
      ∃ url cookie, contains url (ascii ".live365.") = true ∧ cut text = cut (url ++ [63] ++ cookie)) :
    Known env (s.put i source text) where
  sound := ⟨⟨hvlc, hlive⟩, hi, hsound⟩
  zero := by
    by_cases h0 : (0 : Int) = i
    · rw [h0, put_url_self]
      rfl
    · rw [put_url_of_ne h0]
      exact hzero.resolve_left (Ne.symm h0)
  good j t hj := by
    by_cases hji : j = i
    · subst hji
      rw [put_url_self, Option.some.injEq] at hj
      subst hj
      exact .inr ⟨source, hs, List.mem_cons_self⟩
    · rw [put_url_of_ne hji] at hj
      exact (hgood j t hji hj).mono fun e he => List.mem_cons_of_mem _ (List.mem_cons_of_mem _ he)

theorem Known.put (h : Known env s) {i : Int} {source : Source} (text : List UInt8) (hi : 0 ≤ i ∧ i < MAX_PLAYLIST)
    (hs : source = .hostName ∨ source = .response) : Known env (s.put i source text) :=
  known_put h.sound (.inr h.zero) (fun j t _ => h.good j t) hi (by rcases hs with rfl | rfl <;> decide)
    (fun he => by rcases hs with rfl | rfl <;> cases he) (fun he => by rcases hs with rfl | rfl <;> cases he)

theorem urlAt_of_isSome {i : Int} (h : (s.url i).isSome = true) : s.url i = some (s.urlAt env i) := by
  obtain ⟨text, ht⟩ := Option.isSome_iff_exists.mp h
  rw [Main.urlAt, ht]
  rfl

theorem put_isSome (i j : Int) (source : Source) (text : List UInt8) (h : (s.url j).isSome = true) :
    ((s.put i source text).url j).isSome = true := by
  by_cases hji : j = i
  · rw [hji, put_url_self]
    rfl
  · rwa [put_url_of_ne hji]

end Known
end Mvpmc.HttpStream
