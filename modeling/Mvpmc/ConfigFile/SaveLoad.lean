import Mvpmc.ConfigFile.Items
import Mathlib.Tactic

/-! Writing the settings into a list of items and reading them back (`config.c`). What the compression
library does is a parameter. -/
namespace Mvpmc.ConfigFile

/-- The string that starts at a pointer. -/
def cString (ptr : List UInt8) : List UInt8 := ptr.takeWhile (· ≠ 0)

def strlen (ptr : List UInt8) : Nat := (cString ptr).length

/-- The three kinds of systems that `CONFIG_FLAGS_PLATFORM` tells apart. -/
inductive Platform where
  | hostLittleEndian | hostBigEndian | mvp
  deriving DecidableEq, Repr

namespace Platform

def flags : Platform → Nat
  | hostLittleEndian => 1
  | hostBigEndian => 8
  | mvp => 2

/-- A `uint16_t` in memory; the MVP has a PowerPC. -/
def put16 (p : Platform) (n : Nat) : List UInt8 :=
  match p with
  | hostLittleEndian => [UInt8.ofNat n, UInt8.ofNat (n / 256)]
  | hostBigEndian => [UInt8.ofNat (n / 256), UInt8.ofNat n]
  | mvp => [UInt8.ofNat (n / 256), UInt8.ofNat n]

def get16 (p : Platform) (mem : List UInt8) : Nat :=
  let a := (mem.getD 0 0).toNat
  let b := (mem.getD 1 0).toNat
  match p with
  | hostLittleEndian => a + 256 * b
  | hostBigEndian => 256 * a + b
  | mvp => 256 * a + b

end Platform

/-- `config_list_t`; `buf` is the memory behind the header, of which `buflen` bytes are in use. -/
structure ConfigList where
  magic : Nat := 0
  crc : Nat := 0
  version : Nat := 0
  buflen : Nat := 0
  flags : Nat := 0
  buf : List UInt8

def sizeofConfigList : Nat := 32

/-- The items in the list. -/
def ConfigList.items (list : ConfigList) : List UInt8 := list.buf.take list.buflen

/-- `config_item_t`. -/
def itemBytes (p : Platform) (type : Nat) (data : List UInt8) : List UInt8 := p.put16 type ++ p.put16 data.length ++ data

/-- The end of `add_item`. -/
def ConfigList.addBytes (p : Platform) (list : ConfigList) (type : Nat) (data : List UInt8) : ConfigList :=
  if data.length = 0 then list
  else
    let item := itemBytes p type data
    { list with
      buf := list.items ++ item ++ list.buf.drop (list.buflen + item.length)
      buflen := list.buflen + item.length }

/-- The loop of `add_item` over the record groups; `buf` has been filled up to `len`. -/
def packGroups (hidden : Bool) : List RecGroup → List UInt8 → List UInt8
  | [], buf => buf
  | g :: groups, buf =>
    if g.label.headD 0 ≠ 0 ∧ decide (g.hide ≠ 0) = hidden then
      if buf.length + strlen g.label ≥ 4096 then buf else packGroups hidden groups (buf ++ cString g.label ++ [0])
    else packGroups hidden groups buf

def addItem (p : Platform) (config : Config) (list : ConfigList) (type : Nat) : Option ConfigList :=
  match addCases.find? (·.name.item = type) with
  | some c =>
    if config.bitmask &&& c.name.bit = 0 then some list
    else match c.kind with
      | .fixed => some (list.addBytes p type (config.bytes c.member))
      | .string => some (list.addBytes p type (cString (config.bytes c.member)))
  | none =>
    if type = configItemMythtvRgHide then
      if config.bitmask &&& configMythtvRecgroup = 0 then some list
      else some (list.addBytes p type (packGroups true config.recgroup []))
    else if type = configItemMythtvRgShow then
      if config.bitmask &&& configMythtvRecgroup = 0 then some list
      else some (list.addBytes p type (packGroups false config.recgroup []))
    else none

/-- `save_config_file` up to the writing of the file; `buf` is the memory from `malloc`. -/
def saveConfigList (p : Platform) (crc32 : ConfigList → Nat) (config : Config) (buf : List UInt8) : Option ConfigList := do
  let list ← savedItems.foldlM (addItem p config) { magic := configMagic, buflen := 0, flags := p.flags, buf := buf }
  let list := { list with crc := 0, version := configVersion }
  pure { list with crc := crc32 list }

/-- `strncpy` of the string at `ptr` into an empty label. -/
def RecGroup.fill (g : RecGroup) (ptr : List UInt8) (hide : Int) (h : strlen ptr < 64) : RecGroup where
  label := cString ptr ++ g.label.drop (strlen ptr)
  hide := hide
  label_length := by
    have hg := g.label_length
    simp only [List.length_append, List.length_drop, hg]
    unfold strlen at h ⊢
    omega

/-- The loop of `get_item` over the record groups from the one at `i` on, for `len` bytes at `ptr`. -/
def readGroups (hidden : Bool) (len : Nat) (ptr : List UInt8) : List RecGroup → List RecGroup
  | [] => []
  | g :: groups =>
    if len = 0 then g :: groups
    else if g.label.headD 0 ≠ 0 then g :: readGroups hidden len ptr groups
    else
      let len' := len - (strlen ptr + 1)
      let ptr' := ptr.drop (strlen ptr + 1)
      if h : strlen ptr < 64 then
        g.fill ptr (if hidden then 1 else g.hide) h :: readGroups hidden len' ptr' groups
      else readGroups hidden len' ptr' (g :: groups)
  termination_by groups => len + groups.length

theorem length_readGroups (hidden : Bool) (len : Nat) (ptr : List UInt8) (groups : List RecGroup) :
    (readGroups hidden len ptr groups).length = groups.length := by
  fun_induction readGroups hidden len ptr groups with
  | case1 => rfl
  | case2 => rfl
  | case3 _ _ _ _ _ _ ih => rw [List.length_cons, List.length_cons, ih]
  | case4 _ _ _ _ _ _ _ _ _ ih => rw [List.length_cons, List.length_cons, ih]
  | case5 _ _ _ _ _ _ _ _ _ ih => exact ih

/-- The `switch` of `get_item`; `memcpy` takes as many bytes as the member has. -/
def getCase (override : Bool) (config : Config) (type buflen : Nat) (buf : List UInt8) : Option Config :=
  match getCases.find? (·.name.item = type) with
  | some c =>
    let copied := buf.takeD c.member.size 0
    match c.kind with
    | .fixed =>
      if c.member.size ≠ buflen then none
      else if config.bitmask &&& c.name.bit = 0 ∨ override then some (config.store c.name c.member copied (by simp [copied]))
      else some config
    | .string =>
      if c.member.size ≤ buflen then none
      else if config.bitmask &&& c.name.bit = 0 ∨ override then
        some (config.store c.name c.member (copied.set buflen 0) (by simp [copied]))
      else some config
  | none =>
    if type = configItemMythtvRgHide ∨ type = configItemMythtvRgShow then
      some { config with
        bitmask := config.bitmask ||| configMythtvRecgroup
        recgroup := readGroups (type = configItemMythtvRgHide) buflen buf config.recgroup
        recgroup_length := by rw [length_readGroups, config.recgroup_length] }
    else none

/-- `get_item` on the memory at an item. -/
def getItem (p : Platform) (override : Bool) (config : Config) (item : List UInt8) : Option Config :=
  getCase override config (p.get16 item) (p.get16 (item.drop 2)) (item.drop 4)

/-- The loop of `parse_config` from an offset on. -/
def parseFrom (p : Platform) (list : ConfigList) (override : Bool) (offset : Nat) (config : Config) : Option Config :=
  if offset < list.buflen then
    let item := list.buf.drop offset
    (getItem p override config item).bind (parseFrom p list override (offset + 4 + p.get16 (item.drop 2)))
  else some config
  termination_by list.buflen - offset

def parseConfig (p : Platform) (list : ConfigList) (override : Bool) (config : Config) : Option Config :=
  parseFrom p list override 0 config

/-- The flush modes of the library. -/
inductive Flush where
  | noFlush | finish

/-- What its calls return, as far as it is told apart. -/
inductive Ret where
  | ok | streamEnd | error
  deriving DecidableEq

/-- `z_stream`: the library's own state, the input and the room that are left, and the output. -/
structure ZStream (σ : Type) where
  state : σ
  nextIn : List UInt8
  availOut : Nat
  nextOut : List UInt8 := []

/-- The compression library. -/
structure Zlib where
  State : Type
  deflateInit : Option State
  deflate : ZStream State → Flush → ZStream State × Ret
  deflateEnd : ZStream State → Ret
  inflateInit : Option State
  inflate : ZStream State → Flush → ZStream State × Ret
  inflateEnd : ZStream State → Ret

namespace Zlib
variable (z : Zlib)

def doCompress (buf : List UInt8) (clen : Nat) : Option (List UInt8) := do
  let state ← z.deflateInit
  let (s, ret) := z.deflate { state := state, nextIn := buf, availOut := clen } .noFlush
  if ret ≠ .ok then none
  else
    let (s, ret) := z.deflate s .finish
    if ret ≠ .streamEnd then none
    else if z.deflateEnd s ≠ .ok then none
    else some s.nextOut

def doUncompress (cbuf : List UInt8) (len : Nat) : Option (List UInt8) := do
  let state ← z.inflateInit
  let (s, ret) := z.inflate { state := state, nextIn := cbuf, availOut := len } .noFlush
  if ret ≠ .streamEnd then none
  else if z.inflateEnd s ≠ .ok then none
  else some s.nextOut

def configCompress (list out : ConfigList) : Option ConfigList := do
  let code ← z.doCompress list.items configMaxCompressedSize
  pure { magic := list.magic, crc := list.crc, version := list.version, buflen := code.length
         flags := 4 ||| list.flags, buf := code ++ out.buf.drop code.length }

def configUncompress (list out : ConfigList) : Option ConfigList := do
  let data ← z.doUncompress list.items (configMaxSize + sizeofConfigList)
  pure { magic := list.magic, crc := list.crc, version := list.version, buflen := data.length
         flags := list.flags &&& (2 ^ 32 - 1 - 4), buf := data ++ out.buf.drop data.length }

end Zlib
end Mvpmc.ConfigFile
