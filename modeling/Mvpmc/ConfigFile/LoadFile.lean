import Mvpmc.ConfigFile.Precedence

/-! Loading a config file (`load_config_file`, `config.c`): what is checked before the items are read. -/
namespace Mvpmc.ConfigFile

/-- A `uint32_t` in memory. -/
def Platform.get32 (p : Platform) (mem : List UInt8) : Nat :=
  match p with
  | .hostLittleEndian => p.get16 mem + 65536 * p.get16 (mem.drop 2)
  | .hostBigEndian => 65536 * p.get16 mem + p.get16 (mem.drop 2)
  | .mvp => 65536 * p.get16 mem + p.get16 (mem.drop 2)

/-- The memory of the list once the file has been read into it: the header was cleared before, and `junk` is what
`malloc` left behind it. -/
def readInto (content junk : List UInt8) : List UInt8 := content ++ (List.replicate sizeofConfigList 0 ++ junk).drop content.length

/-- The list in memory. -/
def listOf (p : Platform) (mem : List UInt8) : ConfigList where
  magic := p.get32 mem
  crc := p.get32 (mem.drop 4)
  version := p.get32 (mem.drop 8)
  buflen := p.get32 (mem.drop 12)
  flags := p.get32 (mem.drop 16)
  buf := mem.drop sizeofConfigList

/-- The unused words of the header. -/
def unusedOf (mem : List UInt8) : List UInt8 := (mem.drop 20).takeD 12 0

section
variable (p : Platform) (z : Zlib) (crc32 : ConfigList → List UInt8 → Nat)

/-- The checks of the header, with the size of the file. -/
def headerOk (size : Nat) (list : ConfigList) : Bool :=
  list.magic = configMagic ∧ list.version = configVersion ∧ (list.buflen : Int) = size - sizeofConfigList ∧
    list.flags &&& p.flags ≠ 0

/-- The list that the items are read from, with the unused words of its header: the one in the file, or the one that it
is uncompressed to. -/
def plainList (list : ConfigList) (unused : List UInt8) : Option (ConfigList × List UInt8) :=
  if list.flags &&& 4 ≠ 0 then
    (z.configUncompress list { buf := List.replicate configMaxSize 0 }).map (·, List.replicate 12 0)
  else some (list, unused)

/-- `load_config_file` up to the call of `parse_config`; `content` is `none` if there is no file, no memory, or `read` does not
give all of it. -/
def checkedList (content : Option (List UInt8)) (junk : List UInt8) : Option ConfigList := do
  let content ← content
  let mem := readInto content junk
  let list := listOf p mem
  if headerOk p content.length list then
    let (ptr, unused) ← plainList z list (unusedOf mem)
    if ptr.crc = crc32 { ptr with crc := 0 } unused then pure { ptr with crc := ptr.crc } else none
  else none

/-- `load_config_file`: what it returns, and the settings then. -/
def loadConfigFile (content : Option (List UInt8)) (junk : List UInt8) (override : Bool) (config : Config) : Int × Config :=
  match checkedList p z crc32 content junk with
  | none => (-1, config)
  | some ptr => loadItems p ptr override config

end
end Mvpmc.ConfigFile
