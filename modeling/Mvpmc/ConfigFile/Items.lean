import Mathlib.Data.List.TakeDrop
import Mathlib.Data.BitVec

/-! The settings and the items that a config file stores them in (`config.h`). -/
namespace Mvpmc.ConfigFile

def pathMax : Nat := 4096
def mythtvRgMax : Nat := 32
def configMagic : Nat := 0x434f4e46
def configVersion : Nat := 1
def configMaxSize : Nat := 1024 * 128
def configMaxCompressedSize : Nat := 1024 * 32

/-- The members of `config_t` that are stored as they are. -/
inductive Member where
  | screensaverTimeout | avMode | avAudioOutput | avVideoOutput | avTvAspect | osdBitrate
  | osdClock | osdDemuxInfo | osdProgram | osdProgress | osdTimecode | brightness
  | mythtvTcpControl | mythtvTcpProgram | volume | viewport | theme | mythtvIp | mclientIp
  | playbackOsd | playbackPause | mythtvSort | mythtvPrograms | displayType | mythtvFilter | vlcIp
  | vlcVopts | vlcAopts | vlcVb | vlcAb | weatherLocation | mythtvCommskip
  | mythtvDisableAllCommskip | mythtvAutoCommskip | mythtvUseFriendlyDate
  | mythtvUseDurationMinutes | mythtvSeek | mythtvDisableCommskipOsd | mythtvDisableBookmarkOsd
  | mythtvCheckTunerType
  deriving DecidableEq, Repr

/-- `sizeof`; an `int` and an enumeration take four bytes, a short number two. -/
def Member.size : Member → Nat
  | .viewport => 2 * 4
  | .theme => pathMax
  | .mythtvIp => 64
  | .mclientIp => 64
  | .vlcIp => 64
  | .vlcVopts => 6
  | .vlcAopts => 6
  | .weatherLocation => 20
  | _ => 4

/-- The names that `CONFIG_` and `CONFIG_ITEM_` share. -/
inductive ItemName where
  | screensaver | mode | audioOutput | videoOutput | tvAspect | osdBitrate | osdClock
  | osdDemuxInfo | osdProgram | osdProgress | osdTimecode | brightness | mythtvControl
  | mythtvProgram | volume | viewport | theme | mythtvIp | mclientIp | playbackOsd | playbackPause
  | mythtvSort | mythtvPrograms | displayType | mythtvFilter | vlcIp | vlcVopts | vlcAopts | vlcVb
  | vlcAb | weatherLocation | mythtvCommskip | mythtvDisableAllCommskip | mythtvAutocommskip
  | friendlyDate | durationMinutes | mythtvSeek | mythtvDisableCommskipOsd
  | mythtvDisableBookmarkOsd | mythtvCheckTunerType
  deriving DecidableEq, Repr

namespace ItemName

/-- The tags `CONFIG_ITEM_`. -/
def item : ItemName → Nat
  | .screensaver => 0x0001
  | .mode => 0x0002
  | .audioOutput => 0x0003
  | .videoOutput => 0x0004
  | .tvAspect => 0x0005
  | .osdBitrate => 0x0006
  | .osdClock => 0x0007
  | .osdDemuxInfo => 0x0008
  | .osdProgram => 0x000a
  | .osdProgress => 0x0009
  | .osdTimecode => 0x000b
  | .brightness => 0x000c
  | .mythtvControl => 0x000d
  | .mythtvProgram => 0x000e
  | .volume => 0x000f
  | .viewport => 0x0010
  | .theme => 0x0011
  | .mythtvIp => 0x0012
  | .mclientIp => 0x0013
  | .playbackOsd => 0x0014
  | .playbackPause => 0x0015
  | .mythtvSort => 0x0016
  | .mythtvPrograms => 0x0017
  | .displayType => 0x0020
  | .mythtvFilter => 0x0021
  | .vlcIp => 0x0022
  | .vlcVopts => 0x0023
  | .vlcAopts => 0x0024
  | .vlcVb => 0x0025
  | .vlcAb => 0x0026
  | .weatherLocation => 0x0027
  | .mythtvCommskip => 0x0030
  | .mythtvDisableAllCommskip => 0x0033
  | .mythtvAutocommskip => 0x0031
  | .friendlyDate => 0x0028
  | .durationMinutes => 0x0029
  | .mythtvSeek => 0x0032
  | .mythtvDisableCommskipOsd => 0x0034
  | .mythtvDisableBookmarkOsd => 0x0035
  | .mythtvCheckTunerType => 0x0036

/-- The bits `CONFIG_` of the bitmask. -/
def bit : ItemName → BitVec 64
  | .screensaver => 0x1
  | .mode => 0x2
  | .audioOutput => 0x4
  | .videoOutput => 0x8
  | .tvAspect => 0x10
  | .osdBitrate => 0x20
  | .osdClock => 0x40
  | .osdDemuxInfo => 0x80
  | .osdProgram => 0x200
  | .osdProgress => 0x100
  | .osdTimecode => 0x400
  | .brightness => 0x800
  | .mythtvControl => 0x1000
  | .mythtvProgram => 0x2000
  | .volume => 0x4000
  | .viewport => 0x8000
  | .theme => 0x10000
  | .mythtvIp => 0x20000
  | .mclientIp => 0x40000
  | .playbackOsd => 0x80000
  | .playbackPause => 0x100000
  | .mythtvSort => 0x200000
  | .mythtvPrograms => 0x400000
  | .displayType => 0x2000000
  | .mythtvFilter => 0x4000000
  | .vlcIp => 0x8000000
  | .vlcVopts => 0x10000000
  | .vlcAopts => 0x20000000
  | .vlcVb => 0x40000000
  | .vlcAb => 0x80000000
  | .weatherLocation => 0x100000000
  | .mythtvCommskip => 0x200000000
  | .mythtvDisableAllCommskip => 0x4000000000
  | .mythtvAutocommskip => 0x1000000000
  | .friendlyDate => 0x400000000
  | .durationMinutes => 0x800000000
  | .mythtvSeek => 0x2000000000
  | .mythtvDisableCommskipOsd => 0x8000000000
  | .mythtvDisableBookmarkOsd => 0x10000000000
  | .mythtvCheckTunerType => 0x20000000000

end ItemName

def configItemMythtvRgHide : Nat := 0x0018
def configItemMythtvRgShow : Nat := 0x0019
def configMythtvRecgroup : BitVec 64 := 0x800000

/-- `ITEM_FIXED` and `ITEM_STRING`. -/
inductive Kind where
  | fixed | string
  deriving DecidableEq, Repr

/-- A case of the two `switch` statements made by one of the macros. -/
structure Case where
  name : ItemName
  kind : Kind
  member : Member
  deriving DecidableEq, Repr

/-- The cases of `add_item`. -/
def addCases : List Case := [
  ⟨.screensaver, .fixed, .screensaverTimeout⟩, ⟨.mode, .fixed, .avMode⟩,
  ⟨.audioOutput, .fixed, .avAudioOutput⟩, ⟨.videoOutput, .fixed, .avVideoOutput⟩,
  ⟨.tvAspect, .fixed, .avTvAspect⟩, ⟨.osdBitrate, .fixed, .osdBitrate⟩, ⟨.osdClock, .fixed, .osdClock⟩,
  ⟨.osdDemuxInfo, .fixed, .osdDemuxInfo⟩, ⟨.osdProgram, .fixed, .osdProgram⟩,
  ⟨.osdProgress, .fixed, .osdProgress⟩, ⟨.osdTimecode, .fixed, .osdTimecode⟩,
  ⟨.brightness, .fixed, .brightness⟩, ⟨.mythtvControl, .fixed, .mythtvTcpControl⟩,
  ⟨.mythtvProgram, .fixed, .mythtvTcpProgram⟩, ⟨.volume, .fixed, .volume⟩, ⟨.viewport, .fixed, .viewport⟩,
  ⟨.theme, .string, .theme⟩, ⟨.mythtvIp, .string, .mythtvIp⟩, ⟨.mclientIp, .string, .mclientIp⟩,
  ⟨.playbackOsd, .fixed, .playbackOsd⟩, ⟨.playbackPause, .fixed, .playbackPause⟩,
  ⟨.mythtvSort, .fixed, .mythtvSort⟩, ⟨.mythtvPrograms, .fixed, .mythtvPrograms⟩,
  ⟨.displayType, .fixed, .displayType⟩, ⟨.mythtvFilter, .fixed, .mythtvFilter⟩, ⟨.vlcIp, .string, .vlcIp⟩,
  ⟨.vlcVopts, .string, .vlcVopts⟩, ⟨.vlcAopts, .string, .vlcAopts⟩, ⟨.vlcVb, .fixed, .vlcVb⟩,
  ⟨.vlcAb, .fixed, .vlcAb⟩, ⟨.weatherLocation, .string, .weatherLocation⟩,
  ⟨.mythtvCommskip, .fixed, .mythtvCommskip⟩, ⟨.mythtvDisableAllCommskip, .fixed, .mythtvDisableAllCommskip⟩,
  ⟨.mythtvAutocommskip, .fixed, .mythtvAutoCommskip⟩, ⟨.friendlyDate, .fixed, .mythtvUseFriendlyDate⟩,
  ⟨.durationMinutes, .fixed, .mythtvUseDurationMinutes⟩, ⟨.mythtvSeek, .fixed, .mythtvSeek⟩,
  ⟨.mythtvDisableCommskipOsd, .fixed, .mythtvDisableCommskipOsd⟩,
  ⟨.mythtvDisableBookmarkOsd, .fixed, .mythtvDisableBookmarkOsd⟩,
  ⟨.mythtvCheckTunerType, .fixed, .mythtvCheckTunerType⟩]

/-- The cases of `get_item`. -/
def getCases : List Case := [
  ⟨.screensaver, .fixed, .screensaverTimeout⟩, ⟨.mode, .fixed, .avMode⟩,
  ⟨.audioOutput, .fixed, .avAudioOutput⟩, ⟨.videoOutput, .fixed, .avVideoOutput⟩,
  ⟨.tvAspect, .fixed, .avTvAspect⟩, ⟨.osdBitrate, .fixed, .osdBitrate⟩, ⟨.osdClock, .fixed, .osdClock⟩,
  ⟨.osdDemuxInfo, .fixed, .osdDemuxInfo⟩, ⟨.osdProgram, .fixed, .osdProgram⟩,
  ⟨.osdProgress, .fixed, .osdProgress⟩, ⟨.osdTimecode, .fixed, .osdTimecode⟩,
  ⟨.brightness, .fixed, .brightness⟩, ⟨.mythtvControl, .fixed, .mythtvTcpControl⟩,
  ⟨.mythtvProgram, .fixed, .mythtvTcpProgram⟩, ⟨.volume, .fixed, .volume⟩, ⟨.viewport, .fixed, .viewport⟩,
  ⟨.theme, .string, .theme⟩, ⟨.mythtvIp, .string, .mythtvIp⟩, ⟨.mclientIp, .string, .mclientIp⟩,
  ⟨.playbackOsd, .fixed, .playbackOsd⟩, ⟨.playbackPause, .fixed, .playbackPause⟩,
  ⟨.mythtvSort, .fixed, .mythtvSort⟩, ⟨.mythtvPrograms, .fixed, .mythtvPrograms⟩,
  ⟨.displayType, .fixed, .displayType⟩, ⟨.mythtvFilter, .fixed, .mythtvFilter⟩, ⟨.vlcIp, .string, .vlcIp⟩,
  ⟨.vlcVopts, .string, .vlcVopts⟩, ⟨.vlcAopts, .string, .vlcAopts⟩, ⟨.vlcVb, .fixed, .vlcVb⟩,
  ⟨.vlcAb, .fixed, .vlcAb⟩, ⟨.weatherLocation, .string, .weatherLocation⟩,
  ⟨.mythtvCommskip, .fixed, .mythtvCommskip⟩, ⟨.mythtvDisableAllCommskip, .fixed, .mythtvDisableAllCommskip⟩,
  ⟨.mythtvAutocommskip, .fixed, .mythtvAutoCommskip⟩, ⟨.mythtvSeek, .fixed, .mythtvSeek⟩,
  ⟨.friendlyDate, .fixed, .mythtvUseFriendlyDate⟩, ⟨.durationMinutes, .fixed, .mythtvUseDurationMinutes⟩,
  ⟨.mythtvDisableCommskipOsd, .fixed, .mythtvDisableCommskipOsd⟩,
  ⟨.mythtvDisableBookmarkOsd, .fixed, .mythtvDisableBookmarkOsd⟩,
  ⟨.mythtvCheckTunerType, .fixed, .mythtvCheckTunerType⟩]

/-- The calls of `add_item` in `save_config_file`. -/
def savedItems : List Nat := [
  ItemName.screensaver.item, ItemName.mode.item, ItemName.audioOutput.item, ItemName.videoOutput.item,
  ItemName.tvAspect.item, ItemName.osdBitrate.item, ItemName.osdClock.item, ItemName.osdDemuxInfo.item,
  ItemName.osdProgress.item, ItemName.osdProgram.item, ItemName.osdTimecode.item, ItemName.brightness.item,
  ItemName.mythtvControl.item, ItemName.mythtvProgram.item, ItemName.volume.item, ItemName.viewport.item,
  ItemName.theme.item, ItemName.mythtvIp.item, ItemName.mclientIp.item, ItemName.playbackOsd.item,
  ItemName.playbackPause.item, ItemName.mythtvSort.item, ItemName.mythtvPrograms.item,
  configItemMythtvRgHide, configItemMythtvRgShow, ItemName.displayType.item, ItemName.mythtvFilter.item,
  ItemName.vlcIp.item, ItemName.vlcVopts.item, ItemName.vlcAopts.item, ItemName.vlcVb.item,
  ItemName.vlcAb.item, ItemName.weatherLocation.item, ItemName.mythtvDisableCommskipOsd.item,
  ItemName.mythtvDisableBookmarkOsd.item, ItemName.mythtvCommskip.item,
  ItemName.mythtvDisableAllCommskip.item, ItemName.mythtvAutocommskip.item, ItemName.friendlyDate.item,
  ItemName.durationMinutes.item, ItemName.mythtvSeek.item, ItemName.mythtvCheckTunerType.item]

/-- `config_mythtv_rg_t`. -/
structure RecGroup where
  label : List UInt8
  hide : Int
  label_length : label.length = 64
  deriving DecidableEq, Repr

/-- `config_t`: its bitmask, the bytes of the stored members and the record groups. -/
structure Config where
  bitmask : BitVec 64
  bytes : Member → List UInt8
  recgroup : List RecGroup
  bytes_length : ∀ m, (bytes m).length = m.size
  recgroup_length : recgroup.length = mythtvRgMax

/-- After `memset`. -/
def Config.zero : Config where
  bitmask := 0
  bytes m := List.replicate m.size 0
  recgroup := List.replicate mythtvRgMax ⟨List.replicate 64 0, 0, by simp⟩
  bytes_length m := by simp
  recgroup_length := by simp

/-- `memcpy` over a whole member, and its bit. -/
def Config.store (config : Config) (name : ItemName) (m : Member) (bytes : List UInt8) (h : bytes.length = m.size) :
    Config where
  bitmask := config.bitmask ||| name.bit
  bytes := Function.update config.bytes m bytes
  recgroup := config.recgroup
  bytes_length m' := by
    by_cases hm : m' = m
    · rw [hm, Function.update_self, h]
    · rw [Function.update_of_ne hm, config.bytes_length]
  recgroup_length := config.recgroup_length

end Mvpmc.ConfigFile
