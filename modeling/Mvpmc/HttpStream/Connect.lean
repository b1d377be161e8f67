import Mvpmc.Web.Request

/-! Following a stream to its url (`http_main`, `http_stream.c`): the state of the function and the part that makes a
connection. What the sockets, the resolver and the two helpers do is an input. The texts that are shown or logged, and the
writes behind the ends of `user` and `password`, are left out. -/
namespace Mvpmc.HttpStream
open Mvpmc.Cmyth (cstring isSpace isDigit)
open Mvpmc.Playlist (ascii isStreaming strstr)

def MAX_URL_LEN : Nat := 275
def MAX_PLAYLIST : Int := 5
def LINE_SIZE : Nat := 1024

inductive ContentType where
  | mp3 | playlist | ogg | mpg | podcast | unknown | redirect | c200 | unsupported | error | tryHost | nextUrl
  | getShoutcast | aac | divx | flac | jpeg | png | gif | weatherRssHost
  deriving DecidableEq

inductive PlaylistType where
  | shout | m3u | podcast | asx | asxReference | none | ra
  deriving DecidableEq

inductive HttpState where
  | init | header | content | retry | retryLater | unknown
  deriving DecidableEq

inductive HttpContent where
  | fileError | fileDone | fileUnknown | audioFileOgg | videoFileMpg | audioFileFlac | imageFileJpeg | imageFileGif
  | imageFilePng | rssFileWeather
  deriving DecidableEq

/-- Why an entry is written. -/
inductive Source where
  | hostName | response | helper | vlc | live365
  deriving DecidableEq

/-- What is done with `url`: an index that is used, a text that is stored, a text whose host is connected to. `login`
is a connection to the login page of a radio station instead. -/
inductive Event where
  | index (i : Int)
  | store (source : Source) (text : List UInt8)
  | connect (text : List UInt8)
  | login
  deriving DecidableEq

/-- Where the function waits. `first` is in front of the first line of a response. -/
inductive Phase where
  | connect | first | read | decide | done
  deriving DecidableEq

/-- What the function finds in its surroundings: `bits` is the size of a `long`, `junk` what stands in the memory of
entries that have not been written, and `password` behind the end of a short password. -/
structure Env where
  bits : Nat
  current : List UInt8
  vlcServer : List UInt8
  live365 : Option (List UInt8)
  junk : Int → List UInt8
  password : List UInt8

/-- The local variables of `http_main`; the trace has the last event first. -/
structure Main where
  url : Int → Option (List UInt8) := fun _ => none
  counter : Nat := 0
  numberOfEntries : Int := 1
  curEntry : Int := 1
  contentType : ContentType := .unknown
  stateGet : HttpState := .unknown
  playlistType : PlaylistType := .none
  statusGet : Int := 0
  live365Login : Nat := 0
  cookie : List UInt8 := []
  scname : List UInt8 := []
  scport : List UInt8 := []
  scpage : List UInt8 := []
  lineData : List UInt8 := List.replicate LINE_SIZE 0
  httpRetcode : HttpContent := .fileError
  phase : Phase := .connect
  trace : List Event := []

/-- What `snprintf` keeps of a text. -/
def cut (text : List UInt8) : List UInt8 := text.take (MAX_URL_LEN - 1)

namespace Main

/-- The text of an entry. -/
def urlAt (env : Env) (s : Main) (i : Int) : List UInt8 := (s.url i).getD (env.junk i)

def touch (s : Main) (i : Int) : Main := { s with trace := .index i :: s.trace }

/-- Writing an entry. -/
def put (s : Main) (i : Int) (source : Source) (text : List UInt8) : Main :=
  { s with
    url := Function.update s.url i (some (cut text))
    trace := .store source (cut text) :: .index i :: s.trace }

end Main

def shoutcastDownload : List UInt8 := ascii "http://www.shoutcast.com/sbin/newxml.phtml?"

/-- The function up to its loop. -/
def start (env : Env) : Main :=
  if MAX_URL_LEN < env.current.length then { phase := .done }
  else
    { url := Function.update (fun _ => none) 0 (some (cut env.current))
      contentType := if shoutcastDownload.isPrefixOf env.current then .getShoutcast else .unknown
      trace := [.index 0] }

/-- What happens while a connection is made: the results of `mplayer_helper_connect` and `vlc_connect`, the name of the
host if it is found, whether `connect` and `send` succeed. `front` is the memory in front of the entry. -/
structure Dial where
  front : List UInt8
  helper : Int
  vlc : Int
  hostName : Option (List UInt8)
  connected : Bool
  sent : Bool

/-- `%s` leaves the page alone where there is none. -/
def pageOf (rest : List UInt8) : List UInt8 := (rest.dropWhile isSpace).takeWhile fun b => !isSpace b

/-- `sscanf` with `"http://%[^/]%s"`, where the url goes on with `url`. -/
def scanName (s : Main) (url : List UInt8) : Main :=
  let name := url.takeWhile (· ≠ 47)
  { s with scname := name, scport := ascii "80", scpage := pageOf (url.drop name.length) }

/-- `sscanf` with `"http://%[^:/]:%[^//]%s"`, and with the other format if it finds a name only. -/
def scanHostPort (s : Main) (url : List UInt8) : Main :=
  let name := url.takeWhile fun b => b ≠ 58 && b ≠ 47
  let rest := url.drop name.length
  let port := (rest.drop 1).takeWhile (· ≠ 47)
  if name = [] then s
  else if rest.head? = some 58 ∧ port ≠ [] then
    { s with scname := name, scport := port, scpage := pageOf (rest.drop (1 + port.length)) }
  else scanName s url

/-- The address of a url. -/
def scanUrl (s : Main) (url : List UInt8) : Main :=
  let s : Main := { s with scpage := [] }
  let s := if (ascii "http://").isPrefixOf url then scanHostPort s (url.drop 7) else s
  if s.scpage = [] then { s with scpage := [47] } else s

/-- `GET_LIVE365` in front of the `%s` and behind it. -/
def getLive365 : List UInt8 × List UInt8 :=
  (ascii "GET /cgi-bin/api_login.cgi?action=login&org=live365&remember=Y&member_name=",
    ascii (" HTTP/1.0\r\nUser-Agent: Mozilla/5.0 (Windows; U; Windows NT 5.1; en-US; rv:1.8) Gecko/20051111 Firefox/1.5 \r\n" ++
      "Host: www.live365.com\r\nAccept: */*\r\nConnection: Keep-Alive\r\n\r\n"))

/-- The login does not fit into the buffer. -/
def loginTooLong (member : List UInt8) : Bool := MAX_URL_LEN - 1 ≤ (getLive365.1 ++ member ++ getLive365.2).length

namespace Main
variable (env : Env) (d : Dial)

/-- The two helpers for streams that are not plain audio; nothing is left to do where one of them fails. -/
def useHelpers (s : Main) : Main :=
  let i := s.curEntry - 1
  let streamType := isStreaming d.front (s.urlAt env i)
  let s := s.touch i
  if 0 < streamType ∨ s.contentType = .aac ∨ s.contentType = .divx then
    if d.helper < 0 then { s with phase := .done }
    else
      let s := if d.helper = 1 then s.put i .helper (ascii "/tmp/mvpmcdump.wav") else s
      if d.vlc < 0 then { s with phase := .done }
      else
        let s := s.put i .vlc (ascii "http://" ++ env.vlcServer ++ ascii ":5212")
        { s with contentType := if s.contentType = .divx ∨ 101 < streamType then .divx else .mp3 }
  else s

/-- A station that wants a login gets its cookie, or the login page is asked for it. -/
def useCookie (s : Main) : Main :=
  let s := { s with live365Login := 0 }
  let url := s.urlAt env (s.curEntry - 1)
  if (strstr url (ascii ".live365.")).isSome ∧ strstr url (ascii "sessionid=") = none then
    if s.cookie = [] then if env.live365.isSome then { s with live365Login := 1 } else s
    else s.put (s.curEntry - 1) .live365 (url ++ [63] ++ s.cookie)
  else s

/-- The host of the entry. -/
def scanHost (s : Main) : Main :=
  if s.live365Login = 0 then scanUrl s (s.urlAt env (s.curEntry - 1))
  else { s with scname := ascii "www.live365.com", scport := ascii "80" }

/-- The host is asked for a connection. -/
def ask (s : Main) : Main :=
  { s with trace := (if s.live365Login = 0 then .connect (s.urlAt env (s.curEntry - 1)) else .login) :: s.trace }

/-- The request is sent, and the answer waited for. -/
def request (s : Main) : Main :=
  if d.connected then
    if d.sent then { s with stateGet := .init, statusGet := 0, playlistType := .none, phase := .first }
    else { s with phase := .done }
  else if s.curEntry < s.numberOfEntries then { s with stateGet := .retry, contentType := .nextUrl, phase := .decide }
  else { s with contentType := .error, phase := .decide }

/-- The name that the resolver gives is another way to the host. -/
def resolve (s : Main) : Main :=
  match d.hostName with
  | none => { s with phase := .done }
  | some hName =>
    if s.live365Login = 0 then
      let s :=
        if s.numberOfEntries = 1 ∧ hName ≠ s.scname then
          { s.put 1 .hostName (ascii "http://" ++ hName ++ [58] ++ s.scport ++ s.scpage) with numberOfEntries := 2 }
        else s
      (s.ask env).request d
    else if loginTooLong (env.live365.getD []) then { s with phase := .done }
    else (s.ask env).request d

/-- The loop of `http_main` up to the lines of the response. -/
def dial (s : Main) : Main :=
  let s := { s with counter := s.counter + 1 }
  if ¬ s.counter < 5 ∨ s.curEntry ≤ 0 then { s with phase := .done }
  else
    let s := s.useHelpers env d
    if s.phase = .done then s else ((s.useCookie env).scanHost env).resolve env d

end Main
end Mvpmc.HttpStream
