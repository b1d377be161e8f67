import Mvpmc.Lib.InPlace
import Mathlib.Algebra.BigOperators.Group.List.Basic

/-! The parser of guide snapshots (`parse_guide_snapshot`, `guideparser.c`), with the bytes that it reads and the fields
that it converts. Memory does not run out, nothing is logged, and pointers do not wrap around. -/
namespace Mvpmc.Replaytv.Guide
open Mvpmc.Lib Mvpmc.Lib.InPlace Mvpmc.Lib.Circular

def GRP_DATA_NUM_CATEGORIES : Nat := 32
def V1_CHAN_REC_SIZE : Nat := 624
def REPLAYSHOW_SZ : Nat := 444
def REPLAYSHOW_V2_PADDING : Nat := 68

section Fields

/-- `convertReplayShowEndian`: `checkpointed`, `channel_id`, `downloadid`, `GOP_count`, `GOP_highest`, `GOP_last`,
`guaranteed`, `guideid`, `indexsize`, `inputsource`, `instance`, `intact`, `ivsstatus`, `mpegsize`, `playbackflags`,
`quality`, `show_id`, `seconds`, `timessent`, `upgradeflag`, `unused`. -/
def replayShowFields : List Span := [⟨408, 4⟩, ⟨0, 4⟩, ⟨384, 4⟩, ⟨396, 4⟩, ⟨400, 4⟩, ⟨404, 4⟩, ⟨16, 4⟩, ⟨380, 4⟩, ⟨428, 8⟩,
  ⟨8, 4⟩, ⟨420, 4⟩, ⟨412, 4⟩, ⟨376, 4⟩, ⟨436, 8⟩, ⟨20, 4⟩, ⟨12, 4⟩, ⟨4, 4⟩, ⟨392, 4⟩, ⟨388, 4⟩, ⟨416, 4⟩, ⟨424, 2⟩]

/-- `convertProgramInfoEndian`: `autorecord`, `eventtime`, `flags`, `isvalid`, `minutes`, `recLen`, `structuresize`,
`tuning`, `tmsID`. -/
def programInfoFields : List Span :=
  [⟨4, 4⟩, ⟨20, 4⟩, ⟨16, 4⟩, ⟨8, 4⟩, ⟨28, 2⟩, ⟨34, 2⟩, ⟨0, 4⟩, ⟨12, 4⟩, ⟨24, 4⟩]

/-- `convertChannelInfoEndian`: `channel`, `channelindex`, `isvalid`, `structuresize`, `tmsID`, `usetuner`. -/
def channelInfoFields : List Span := [⟨16, 2⟩, ⟨76, 4⟩, ⟨8, 4⟩, ⟨0, 4⟩, ⟨12, 4⟩, ⟨4, 4⟩]

/-- `convertThemeInfoEndian`: `flags`, `suzuki_id`, `thememinutes`. -/
def themeInfoFields : List Span := [⟨0, 4⟩, ⟨4, 4⟩, ⟨8, 4⟩]

/-- `convertMovieInfoEndian`: `mpaa`, `runtime`, `stars`, `year`. -/
def movieInfoFields : List Span := [⟨0, 2⟩, ⟨6, 2⟩, ⟨2, 2⟩, ⟨4, 2⟩]

/-- `convertPartsInfoEndian`: `maxparts`, `partnumber`. -/
def partsInfoFields : List Span := [⟨2, 2⟩, ⟨0, 2⟩]

/-- `convertV2ReplayChannelEndian`: `created`, `timereserved`, `allocatedspace`, `category`, `channeltype`, `keep`,
`stored`, `quality`. -/
def v2ReplayChannelFields : List Span :=
  [⟨572, 4⟩, ⟨600, 8⟩, ⟨688, 8⟩, ⟨576, 4⟩, ⟨580, 4⟩, ⟨592, 4⟩, ⟨588, 4⟩, ⟨584, 4⟩]

/-- `convertV1ReplayChannelEndian`, with the fields in the same order. -/
def v1ReplayChannelFields : List Span :=
  [⟨32, 4⟩, ⟨64, 8⟩, ⟨8, 8⟩, ⟨28, 4⟩, ⟨0, 4⟩, ⟨16, 4⟩, ⟨20, 4⟩, ⟨4, 4⟩]

/-- `convertReplayGuideEndian` in front of its loop: `categories` and `structuresize` of the group data, then `snapshotsize`,
`channeloffset`, `flags`, `groupdataoffset`, `osversion`, `snapshotversion`, `channelcount`, `channelcountcheck`,
`showoffset`, `bytesfree`, `structuresize`, and the unknown fields. -/
def guideFields : List Span := [⟨68, 4⟩, ⟨64, 4⟩, ⟨40, 4⟩, ⟨32, 4⟩, ⟨52, 4⟩, ⟨28, 4⟩, ⟨0, 2⟩, ⟨2, 2⟩, ⟨16, 4⟩, ⟨20, 4⟩,
  ⟨36, 4⟩, ⟨44, 8⟩, ⟨4, 4⟩, ⟨8, 4⟩, ⟨12, 4⟩, ⟨24, 4⟩, ⟨56, 4⟩, ⟨60, 4⟩]

/-- Its loop: `category[cc]` and `categoryoffset[cc]`. -/
def categoryFields (categories : Nat) : List Span :=
  (List.range categories).flatMap fun cc => [⟨72 + 4 * cc, 4⟩, ⟨200 + 4 * cc, 4⟩]

/-- The fields of a show that are always converted. -/
def showFields : List Span := replayShowFields ++ programInfoFields.map (·.shift 104) ++ channelInfoFields.map (·.shift 24)

end Fields

/-- `rtv_guide_ver_t` -/
inductive GuideVer where
  | v1
  | v2
  deriving DecidableEq

namespace GuideVer

/-- From one show to the next. -/
def showSize : GuideVer → Nat
  | v1 => REPLAYSHOW_SZ
  | v2 => REPLAYSHOW_SZ + REPLAYSHOW_V2_PADDING

/-- From one channel to the next. -/
def channelSize : GuideVer → Nat
  | v1 => V1_CHAN_REC_SIZE
  | v2 => 712

/-- The fields of a channel in the order in which they are converted. -/
def channelFields : GuideVer → List Span
  | v1 => v1ReplayChannelFields ++ replayShowFields.map (·.shift 120) ++ themeInfoFields.map (·.shift 564)
  | v2 => v2ReplayChannelFields ++ replayShowFields ++ themeInfoFields.map (·.shift 512)

/-- The last byte of a channel that is converted is in front of this one. -/
def channelEnd : GuideVer → Nat
  | v1 => 576
  | v2 => 696

def created : GuideVer → Nat
  | v1 => 32
  | v2 => 572

def daysofweek : GuideVer → Nat
  | v1 => 24
  | v2 => 596

end GuideVer

/-- The snapshot, and the header that is made of one of version 1. -/
inductive Place where
  | dump
  | v2hdr
  deriving DecidableEq

def Place.room (size : Nat) : Place → Nat
  | dump => size
  | v2hdr => 840

structure Access where
  place : Place
  span : Span

namespace Access

def Inside (size : Nat) (a : Access) : Prop := a.span.stop ≤ a.place.room size

def Apart (a b : Access) : Prop := a.place = b.place → a.span.Apart b.span

end Access

/-- Where the header stands that is converted. -/
def GuideVer.place : GuideVer → Place
  | v1 => .v2hdr
  | v2 => .dump

section Header
variable (order : ByteOrder) (size : Nat) (stack m : Nat → UInt8)

/-- The version, from `osversion` and `snapshotversion` before they are converted. -/
def version : Option GuideVer :=
  if slice m 0 4 = [0, 0, 0, 2] then some .v2 else if slice m 0 4 = [0, 3, 0, 1] then some .v1 else none

/-- The snapshot header of `convert_v1_to_v2_snapshot_header`, with the size; in network order like the snapshot. -/
def snapshotHeader : List UInt8 :=
  let chancount := ofNetwork (slice m 8 4)
  [0, 0, 0, 2] ++ toNetwork 64 ++ List.replicate 8 0 ++ slice m 8 4 ++ slice m 12 4 ++ List.replicate 4 0 ++
    toNetwork 64 ++ toNetwork 808 ++ toNetwork (808 + UInt32.ofNat V1_CHAN_REC_SIZE * chancount) ++
    toNetwork (UInt32.ofNat size) ++ List.replicate 8 0 ++ slice m 28 4 ++ List.replicate 8 0

/-- `v2hdr`, with the group data of the snapshot in it, and what stands behind it. -/
def v2hdr : Nat → UInt8 := fun i =>
  if i < 64 then (snapshotHeader size m).getD i 0 else if i < 840 then m (32 + (i - 64)) else stack i

/-- What is read of the snapshot before that. -/
def headerTouches : GuideVer → List Span
  | .v1 => [⟨0, 4⟩, ⟨8, 4⟩, ⟨12, 4⟩, ⟨28, 4⟩, ⟨32, 776⟩]
  | .v2 => [⟨0, 4⟩]

/-- What `parse_guide_snapshot` goes on with, when it has found no fault in the header. -/
structure Snapshot where
  ver : GuideVer
  /-- `guidehdr` after `convertReplayGuideEndian` -/
  header : Nat → UInt8
  /-- `guideDump` then -/
  dump : Nat → UInt8
  categories : Nat
  channelcount : Nat
  channeloffset : Nat
  showoffset : Nat
  numShows : Nat

/-- The header, converted and checked. -/
def snapshot : Option Snapshot :=
  match version m with
  | none => none
  | some ver =>
    let raw := match ver with
      | .v1 => v2hdr size stack m
      | .v2 => m
    let categories := (order.load (slice (convert order guideFields raw) 68 4)).toNat
    let header := convert order (guideFields ++ categoryFields categories) raw
    let word (a : Nat) : UInt32 := order.load (slice header a 4)
    let memAllocShows := word 40 - word 36
    if word 16 ≠ word 20 then none
    else if memAllocShows.toNat % ver.showSize ≠ 0 then none
    else
      some
        { ver := ver
          header := header
          dump := match ver with
            | .v1 => m
            | .v2 => header
          categories := categories
          channelcount := (word 16).toNat
          channeloffset := (word 32).toNat
          showoffset := (word 36).toNat
          numShows := memAllocShows.toNat / ver.showSize }

/-- What `strncpy` reads of the name of a category. -/
def Snapshot.name (g : Snapshot) (order : ByteOrder) (x : Nat) : Span :=
  let start := 328 + (order.load (slice g.header (200 + 4 * x) 4)).toNat
  ⟨start, min 19 (((slice g.header start 19).takeWhile (· ≠ 0)).length + 1)⟩

end Header

section Channels
variable (order : ByteOrder) (ver : GuideVer) (offset : Nat)

/-- Of an exported channel what is taken from its record. -/
structure Channel where
  channel_id : UInt32
  daysofweek : UInt8
  deriving DecidableEq

structure Channels where
  memory : Nat → UInt8
  converted : List Span := []
  touches : List Span := []
  channels : List Channel := []

/-- The loop over the channels. The record is the same in every turn. -/
def parseChannels : Nat → (Nat → UInt8) → Channels
  | 0, m => { memory := m }
  | n + 1, m =>
    let fields := ver.channelFields.map (·.shift offset)
    let m := convert order fields m
    let rest := parseChannels n m
    { memory := rest.memory
      converted := fields ++ rest.converted
      touches := ⟨offset + ver.daysofweek, 1⟩ :: rest.touches
      channels := ⟨order.load (slice m (offset + ver.created) 4), m (offset + ver.daysofweek)⟩ :: rest.channels }

end Channels

section Shows
variable (order : ByteOrder) (size : Nat)

/-- Where the string ends that begins at an address, if it ends in the snapshot. -/
def textEnd (m : Nat → UInt8) (p : Nat) : Option Nat := (List.range (size - p)).find? fun i => m (p + i) = 0

/-- The marks that `convertCodepage` replaces. -/
def quote (ch : UInt8) : UInt8 := if ch = 146 then 39 else if ch = 147 ∨ ch = 148 then 34 else ch

/-- A pass over the strings of a show; it ends where a string leaves the snapshot. -/
structure Texts where
  memory : Nat → UInt8
  touches : List Span := []
  left : Bool := false

/-- `convertCodepage` and `strncpy` on the strings that begin at `p`, with their lengths. -/
def parseTexts : List Nat → Nat → (Nat → UInt8) → Texts
  | [], _, m => { memory := m }
  | len :: lens, p, m =>
    match textEnd size m p with
    | none => { memory := m, touches := [⟨p, size - p + 1⟩], left := true }
    | some n =>
      let rest := parseTexts lens (p + len) fun i => if p ≤ i ∧ i < p + n then quote (m i) else m i
      { rest with touches := ⟨p, n + 1⟩ :: rest.touches }

/-- The structures in front of the description. -/
def infoFields (flags : UInt32) : List Span :=
  if flags &&& 0x20 ≠ 0 then
    movieInfoFields ++ if flags &&& 0x40 ≠ 0 then partsInfoFields.map (·.shift 8) else []
  else if flags &&& 0x40 ≠ 0 then partsInfoFields else []

/-- How many bytes they take. -/
def infoSize (flags : UInt32) : Nat := (if flags &&& 0x20 ≠ 0 then 8 else 0) + if flags &&& 0x40 ≠ 0 then 4 else 0

/-- `programInfo.flags` of the show at `a`, once it is converted. -/
def showFlags (a : Nat) (m : Nat → UInt8) : UInt32 :=
  order.load (slice (convert order (showFields.map (·.shift a)) m) (a + 120) 4)

/-- The fields of the show that are converted. -/
def showConverted (a : Nat) (m : Nat → UInt8) : List Span :=
  showFields.map (·.shift a) ++ (infoFields (showFlags order a m)).map (·.shift (a + 148))

/-- From `titleLen` to `directorLen`. -/
def textLengths (a : Nat) (m : Nat → UInt8) : List Nat := (List.range 8).map fun k => (m (a + 140 + k)).toNat

/-- `parse_show` -/
def parseShow (a : Nat) (m : Nat → UInt8) : Texts :=
  let start := a + 148 + infoSize (showFlags order a m)
  let m := convert order (showConverted order a m) m
  parseTexts size (textLengths a m) start m

/-- The loop over the shows. -/
structure Shows where
  converted : List Span := []
  touches : List Span := []

def parseShows (showSize : Nat) : Nat → Nat → (Nat → UInt8) → Shows
  | 0, _, _ => {}
  | n + 1, a, m =>
    let texts := parseShow order size a m
    let rest := if texts.left then {} else parseShows showSize n (a + showSize) texts.memory
    { converted := showConverted order a m ++ rest.converted
      touches := ⟨a, REPLAYSHOW_SZ⟩ :: texts.touches ++ rest.touches }

end Shows

/-- What the parser has done with a snapshot. -/
structure Run where
  touches : List Access
  converted : List Access
  /-- The indices used on the arrays of categories. -/
  categories : List Nat
  channels : List Channel

/-- The parser behind the checks of the header. -/
def Snapshot.run (g : Snapshot) (order : ByteOrder) (size : Nat) : Run :=
  let channels := parseChannels order g.ver g.channeloffset g.channelcount g.dump
  let shows := parseShows order size g.ver.showSize g.numShows g.showoffset channels.memory
  { touches := (headerTouches g.ver).map (Access.mk .dump) ++
      ((List.range g.categories).map (g.name order)).map (Access.mk g.ver.place) ++
      (channels.touches ++ shows.touches).map (Access.mk .dump)
    converted := (guideFields ++ categoryFields g.categories).map (Access.mk g.ver.place) ++
      (channels.converted ++ shows.converted).map (Access.mk .dump)
    categories := List.range g.categories
    channels := channels.channels }

/-- `parse_guide_snapshot` on a snapshot of `size` bytes; nothing where it fails. -/
def parseGuideSnapshot (order : ByteOrder) (size : Nat) (stack m : Nat → UInt8) : Option Run :=
  (snapshot order size stack m).map fun g => g.run order size

/-- `build_v2_bogus_snapshot`: a header, group data without categories, and one channel. -/
def buildV2BogusSnapshot : List UInt8 :=
  [0, 0, 0, 2] ++ ([64, 2, 5, 1, 1, 0, 64, 840, 1552, 1552, 0, 0, 0, 0, 0] : List UInt32).flatMap toNetwork ++
    toNetwork 776 ++ List.replicate 772 0 ++
    List.replicate 572 0 ++ ([0x00012345, 0, 1] : List UInt32).flatMap toNetwork ++ List.replicate 24 0 ++
    ("MVPMC_Bogus_5K_Channel".toList.map fun c => UInt8.ofNat c.toNat) ++ List.replicate 82 0

end Mvpmc.Replaytv.Guide
