import Mvpmc.HttpStream.Connect

/-! The lines of a response: status, headers and playlists (`http_main`, `http_stream.c`). -/
namespace Mvpmc.HttpStream
open Mvpmc.Cmyth (cstring isSpace isDigit)
open Mvpmc.Playlist (ascii isStreaming strchr strpos strstr toLower)
open Mvpmc.Web (atoi)

/-- `strncasecmp` with a whole word. -/
def startsWith (s word : List UInt8) : Bool := (word.map toLower).isPrefixOf (s.map toLower)

def contains (s word : List UInt8) : Bool := (strstr s word).isSome

/-- `stristr` -/
def stristr (s word : List UInt8) : Option Nat := s.tails.findIdx? (startsWith · word)

/-- `sscanf` with `%d`. -/
def sscanfInt (bits : Nat) (s : List UInt8) : Option Int :=
  let digits := match s.dropWhile isSpace with
    | 0x2D :: rest | 0x2B :: rest => rest
    | rest => rest
  if (digits.head?.map isDigit).getD false then some (atoi bits s) else none

/-- A line that `fgets` puts into the buffer. -/
def fill (buffer line : List UInt8) : List UInt8 := line ++ 0 :: buffer.drop (line.length + 1)

/-- A zero in the place of the first character that satisfies `p`. -/
def cutAt (p : UInt8 → Bool) (buffer : List UInt8) : List UInt8 :=
  match (cstring buffer).findIdx? p with
  | some i => buffer.set i 0
  | none => buffer

/-- `strrchr (line_data,'\r')` -/
def cutLastCr (buffer : List UInt8) : List UInt8 :=
  match (cstring buffer).reverse.findIdx? (· = 13) with
  | some i => buffer.set ((cstring buffer).length - 1 - i) 0
  | none => buffer

/-- What a content type that is not `audio/` means; the types are looked for in this order. -/
inductive Kind where
  | plain (type : ContentType) | divx | asx | mms | xml
  deriving DecidableEq

def kinds : List (List (List UInt8) × Kind) := [
  ([ascii "application/ogg"], .plain .ogg),
  ([ascii "video/mpeg"], .plain .mpg),
  ([ascii "video/mp2t"], .plain .mpg),
  ([ascii "image/jpeg"], .plain .jpeg),
  ([ascii "image/jpg"], .plain .jpeg),
  ([ascii "image/gif"], .plain .gif),
  ([ascii "image/png"], .plain .png),
  ([ascii "video/divx"], .divx),
  ([ascii "video/x-ms-asf", ascii "application/asx"], .asx),
  ([ascii "application/vnd.ms.wms-hdr.asfv1", ascii "application/x-mms-framed"], .mms),
  ([ascii "text/xml", ascii "application/xml"], .xml)]

def kindOf (line : List UInt8) : Option Kind := (kinds.find? fun k => k.1.any (contains line)).map (·.2)

def contentPlaylist : List (List UInt8) := [
  ascii "audio/scpls", ascii "audio/x-scpls", ascii "audio/x-pn-realaudio", ascii "audio/mpegurl", ascii "audio/mpeg-url",
  ascii "audio/x-mpegurl", ascii "audio/x-mpeg-url", ascii "audio/m3u", ascii "audio/x-m3u"]

def contentAudio : List (List UInt8) := [
  ascii "audio/aacp", ascii "audio/flac", ascii "audio/mpeg", ascii "audio/x-mpeg", ascii "audio/mpg"]

def weatherRssHost : List UInt8 := ascii "xml.weather.yahoo.com"

namespace Main
variable (env : Env)

/-- A playlist is going to follow. -/
def startAgain (s : Main) (playlistType : PlaylistType) (contentType : ContentType) : Main :=
  { s with playlistType := playlistType, contentType := contentType, curEntry := -1 }

/-- The status behind the first space of a line. -/
def statusOf (statusGet : Int) (line : List UInt8) : Int :=
  match line.dropWhile (· ≠ 32) with
  | [] => statusGet
  | status => (sscanfInt env.bits status).getD statusGet

/-- The type that a good status gives. -/
def acceptedType (s : Main) (line : List UInt8) : ContentType :=
  if line = ascii "ICY 200 OK" then .mp3
  else if line = ascii "200" then .c200
  else if s.contentType = .playlist then .unknown
  else s.contentType

/-- What the status means. -/
def acceptStatus (s : Main) (line : List UInt8) : Main :=
  if s.statusGet ≠ 200 ∧ s.statusGet ≠ 301 ∧ s.statusGet ≠ 302 ∧ s.statusGet ≠ 307 then
    { s with
      contentType :=
        if s.contentType ≠ .tryHost ∧ 1 < s.numberOfEntries ∧ s.curEntry < s.numberOfEntries then .tryHost else .error
      phase := .decide }
  else { s with contentType := s.acceptedType line, stateGet := .header, phase := .read }

/-- The first line. -/
def firstLine (s : Main) : Main :=
  let buffer := cutLastCr s.lineData
  let line := cstring buffer
  if line = [] then { s with lineData := buffer, contentType := .unknown, phase := .decide }
  else { s with lineData := buffer, statusGet := statusOf env s.statusGet line }.acceptStatus line

/-- A `Content-Type` header with `audio/`. -/
def audioType (s : Main) (line : List UInt8) : Main :=
  match contentPlaylist.findIdx? (contains line) with
  | some i => s.startAgain (if i ≤ 1 then .shout else if i = 2 then .ra else .m3u) .playlist
  | none =>
    if s.contentType = .playlist then s
    else
      match contentAudio.findIdx? (contains line) with
      | none => { s with contentType := .unsupported }
      | some 0 => { s with stateGet := .retry, contentType := .aac }
      | some 1 => { s with contentType := .flac }
      | some _ => { s with contentType := .mp3 }

/-- The stream is asked for again with another protocol. -/
def mmsType (s : Main) : Main :=
  let url := s.urlAt env (s.curEntry - 1)
  let s := s.touch (s.curEntry - 1)
  if (ascii "http://").isPrefixOf url then
    { (s.touch (s.curEntry - 1)).put 0 .response (ascii "mms" ++ url.drop 4) with contentType := .redirect, stateGet := .retry }
  else s

/-- A type that is not known. -/
def otherType (s : Main) : Main := if s.contentType = .getShoutcast then s else { s with contentType := .unsupported }

/-- Any other `Content-Type` header. -/
def plainType (s : Main) (line : List UInt8) : Main :=
  match kindOf line with
  | some (.plain type) => { s with contentType := type }
  | some .divx => { s with contentType := .divx, stateGet := .retry }
  | some .asx => s.startAgain .asx .playlist
  | some .mms => s.mmsType env
  | some .xml =>
    if s.playlistType = .none then
      if contains env.current weatherRssHost then { s with contentType := .weatherRssHost } else s.startAgain .podcast .podcast
    else s.otherType
  | none => s.otherType

/-- A `Set-Cookie` header. -/
def setCookie (s : Main) (line : List UInt8) : Main :=
  if s.live365Login = 1 then
    match strstr line (ascii "sessionid=") with
    | none => s
    | some ptr =>
      let user := ptr.takeWhile (· ≠ 37)
      let password := (ptr.drop user.length).takeWhile (· ≠ 59)
      { s with
        contentType := .redirect
        cookie := cut (user ++ [58] ++ if password.length < 3 then env.password else password.drop 3)
        stateGet := .retry
        live365Login := 2
        phase := .decide }
  else
    let spaces := ((line.drop 11).takeWhile (· = 32)).length
    let ptr := line.drop (11 + spaces)
    { s with
      lineData := match strchr ptr 59 with
        | some i => s.lineData.set (11 + spaces + i) 0
        | none => s.lineData
      cookie := cut (ascii "Cookie: " ++ ptr.takeWhile (· ≠ 59) ++ [13, 10]) }

/-- A header that moves the stream to another place. -/
def location (s : Main) (line : List UInt8) : Main :=
  match (strstr line (ascii "http://")).filter (·.length < MAX_URL_LEN) with
  | some ptr => { s.put 0 .response ptr with stateGet := .retry, contentType := .redirect }
  | none => { s with contentType := .error, phase := .decide }

/-- A header line. -/
def header (s : Main) (line : List UInt8) : Main :=
  if startsWith line (ascii "Content-Length:") then s
  else if startsWith line (ascii "Content-Type") then
    if contains line (ascii "audio/") then s.audioType line else s.plainType env line
  else if startsWith line (ascii "icy-metaint:") then s
  else if startsWith line (ascii "Set-Cookie:") then s.setCookie env line
  else if startsWith line (ascii "icy-name:") ∨ startsWith line (ascii "x-audiocast-name:") then
    { s with lineData := s.lineData.set 70 0 }
  else if startsWith line (ascii "icy-br:") ∨ startsWith line (ascii "x-audiocast-bitrate:") then s
  else if (s.statusGet = 301 ∨ s.statusGet = 302 ∨ s.statusGet = 307) ∧ startsWith line (ascii "Location:") then
    s.location line
  else s

/-- The first entry of a playlist that does not tell its number of entries. -/
def firstEntry (s : Main) (numberOfEntries : Int) : Main :=
  if s.curEntry ≤ MAX_PLAYLIST ∧ s.curEntry = -1 then { s with curEntry := 0, numberOfEntries := numberOfEntries } else s

def nextEntry (s : Main) (text : List UInt8) : Main := { s.put s.curEntry .response text with curEntry := s.curEntry + 1 }

/-- An entry of a playlist whose entries are not counted. -/
def addFile (s : Main) (text : List UInt8) : Main :=
  if s.curEntry ≤ MAX_PLAYLIST then { (s.firstEntry 1).nextEntry text with stateGet := .retry } else s

/-- An entry of a playlist whose entries are counted. -/
def addTrack (s : Main) (text : List UInt8) : Main :=
  let s := (s.firstEntry 0).nextEntry text
  { s with numberOfEntries := s.numberOfEntries + 1, stateGet := .retry }

def shoutLine (s : Main) (line : List UInt8) : Main :=
  if (ascii "File").isPrefixOf line ∧ s.lineData[5]? = some 61 then
    let text := cstring (s.lineData.drop 6)
    if 0 ≤ isStreaming (s.lineData.take 6) text ∧ text.length < MAX_URL_LEN then s.addFile text else s
  else if startsWith line (ascii "NumberOfEntries=") ∧ s.curEntry = -1 then
    let n := atoi env.bits (line.drop 16)
    if n = 0 then { s with numberOfEntries := n, contentType := .error } else { s with numberOfEntries := n, curEntry := 0 }
  else s

/-- A line of a playlist that has nothing but urls of one kind. -/
def trackLine (protocol : List UInt8) (s : Main) (line : List UInt8) : Main :=
  if protocol.isPrefixOf line ∧ line.length < MAX_URL_LEN then s.addTrack line else s

def podcastEntry (s : Main) (text : List UInt8) : Main :=
  if s.curEntry ≤ 0 then
    let s := (s.firstEntry 0).nextEntry text
    { s with
      numberOfEntries := s.numberOfEntries + 1
      stateGet := if s.stateGet = .retry then .retry else .retryLater }
  else s

/-- A line of a podcast with an episode or a title. -/
def podcastItem (s : Main) (line : List UInt8) : Main :=
  match strpos line (ascii ".mp3"), strpos line (ascii "http://"), contains line (ascii "enclosure url") with
  | some ptr, some ptr1, true =>
    let s : Main := { s with lineData := s.lineData.set (ptr + 4) 0 }
    if ptr1 < ptr + 4 then s.podcastEntry (cstring (s.lineData.drop ptr1)) else s
  | _, _, _ =>
    match strpos line (ascii "<title>"), strpos line (ascii "</title>") with
    | some ptr, some ptr1 => if ptr < ptr1 then { s with lineData := s.lineData.set ptr1 0 } else s
    | _, _ => s

def podcastLine (s : Main) (line : List UInt8) : Main :=
  (if contains line (ascii "</rss>") then { s with stateGet := .retry } else s).podcastItem line

def asxLine (s : Main) (line : List UInt8) : Main :=
  if contains line (ascii "[Reference]") then { s with playlistType := .asxReference }
  else
    match stristr line (ascii "<REF HREF") with
    | none => s
    | some p =>
      match (line.drop (p + 9)).dropWhile (· ≠ 34) with
      | [] | [_] => s
      | _ :: ptr =>
        let text := ptr.takeWhile (· ≠ 34)
        let start := line.length - ptr.length
        let s := if 34 ∈ ptr then { s with lineData := s.lineData.set (start + text.length) 0 } else s
        if 0 ≤ isStreaming (line.take start) text then s.addFile text else s

def asxReferenceLine (s : Main) (line : List UInt8) : Main :=
  if (ascii "Ref").isPrefixOf line ∧ s.lineData[4]? = some 61 then
    let text := cstring (s.lineData.drop 5)
    if 0 ≤ isStreaming (s.lineData.take 5) text ∧ text.length < MAX_URL_LEN then s.addFile text else s
  else s

/-- A line of text that is not part of a playlist yet. -/
def plainLine (s : Main) (line : List UInt8) : Main :=
  if contains line (ascii "[playlist]") then { s.startAgain .shout .playlist with numberOfEntries := 1 }
  else if (ascii "Too many requests.").isPrefixOf line then { s with contentType := .error }
  else if startsWith line (ascii "<ASX VERSION") then { s.startAgain .asx .playlist with numberOfEntries := 1 }
  else s

/-- The `switch` on the kind of the playlist. -/
def playlistLine (s : Main) (line : List UInt8) : Main :=
  match s.playlistType with
  | .none => s.plainLine line
  | .shout => s.shoutLine env line
  | .m3u => s.trackLine (ascii "http://") line
  | .ra => s.trackLine (ascii "rtsp://") line
  | .podcast => s.podcastLine line
  | .asx => s.asxLine line
  | .asxReference => s.asxReferenceLine line

/-- A line behind the headers. -/
def content (s : Main) (line : List UInt8) : Main :=
  let s := s.playlistLine env line
  if s.contentType = .error ∨ s.curEntry = MAX_PLAYLIST then { s with phase := .decide } else s

/-- The types whose data follow the headers. -/
def isStream (type : ContentType) : Bool :=
  type ∈ [.unsupported, .mp3, .ogg, .flac, .mpg, .gif, .png, .weatherRssHost, .jpeg, .getShoutcast, .aac]

/-- An empty line. -/
def emptyLine (s : Main) : Main :=
  if isStream s.contentType ∨ s.stateGet = .retry then { s with phase := .decide }
  else if s.contentType = .c200 then { s with stateGet := .init, phase := .first }
  else if s.stateGet = .retryLater then s
  else { s with stateGet := .content }

/-- A line that is not empty. -/
def fullLine (s : Main) (line : List UInt8) : Main :=
  let s := if s.contentType = .c200 then { s with contentType := .unknown } else s
  if s.stateGet = .header then s.header env line else s.content env line

/-- The loop behind its second `fgets`. -/
def nextLine (s : Main) : Main :=
  let s := { s with lineData := cutAt (fun b => b = 13 || b = 10) s.lineData }
  let line := cstring s.lineData
  if line = [] then s.emptyLine else s.fullLine env line

end Main
end Mvpmc.HttpStream
