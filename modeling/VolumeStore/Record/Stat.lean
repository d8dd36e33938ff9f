import VolumeStore.Record.Timestamp
import VolumeStore.Text.Blank
import VolumeStore.Wire.Error

/-!
# Stat records

What a volume tells about one of its entries. The written form is a line of eleven `key=value`
words in a fixed order; the mode is octal, all other numbers are decimal.
-/

namespace VolumeStore

structure StatRecord where
  ino : UInt64
  size : UInt64
  blocks : UInt64
  blockSize : UInt32
  mode : UInt32
  links : UInt32
  owner : UInt32
  group : UInt32
  atime : Timestamp
  mtime : Timestamp
  ctime : Timestamp
deriving DecidableEq, Repr

inductive EntryKind where
  | directory
  | file
  | link
  | socket
deriving DecidableEq, Repr

namespace EntryKind

def mask : UInt32 := 0o170000

def bits : EntryKind → UInt32
  | directory => 0o040000
  | file => 0o100000
  | link => 0o120000
  | socket => 0o140000

end EntryKind

namespace StatRecord

def transferBlock : UInt32 := 4096

def blocksFor (size : UInt64) : UInt64 :=
  UInt64.ofNat ((size.toNat + 511) / 512)

def hasKind (s : StatRecord) (kind : EntryKind) : Bool :=
  s.mode &&& EntryKind.mask == kind.bits

def isDir (s : StatRecord) : Bool := s.hasKind .directory

def isFile (s : StatRecord) : Bool := s.hasKind .file

def isLink (s : StatRecord) : Bool := s.hasKind .link

def permissions (s : StatRecord) : UInt32 :=
  s.mode &&& 0o777

/-- The time of the last change on the host's clock, if the clock reaches it. -/
def modified? (s : StatRecord) : Option Timestamp :=
  s.mtime.onClock?

/-! ## The written form -/

def keys : List String :=
  ["ino", "size", "blocks", "blksize", "mode", "nlink", "uid", "gid", "atime", "mtime", "ctime"]

def values (s : StatRecord) : List String :=
  [Text.decimal s.ino.toNat, Text.decimal s.size.toNat, Text.decimal s.blocks.toNat,
    Text.decimal s.blockSize.toNat, Text.octal s.mode.toNat, Text.decimal s.links.toNat,
    Text.decimal s.owner.toNat, Text.decimal s.group.toNat, s.atime.render, s.mtime.render,
    s.ctime.render]

def render (s : StatRecord) : String :=
  String.intercalate " " (List.zipWith (fun key value => key ++ "=" ++ value) keys s.values)

def ofValues? : List (List Char) → Option StatRecord
  | [ino, size, blocks, blockSize, mode, links, owner, group, atime, mtime, ctime] => do
    return {
      ino := ← Text.readUInt64? ino
      size := ← Text.readUInt64? size
      blocks := ← Text.readUInt64? blocks
      blockSize := ← Text.readUInt32? blockSize
      mode := ← Text.readOctalUInt32? mode
      links := ← Text.readUInt32? links
      owner := ← Text.readUInt32? owner
      group := ← Text.readUInt32? group
      atime := ← Timestamp.parse? atime
      mtime := ← Timestamp.parse? mtime
      ctime := ← Timestamp.parse? ctime }
  | _ => none

/-- Reads a record. Any blanks may stand between the words, and around them. -/
def parse? (cs : List Char) : Option StatRecord :=
  match (Text.words cs).mapM (Text.cut? '=') with
  | some fields =>
    if fields.map (·.1) = keys.map (·.toList) then ofValues? (fields.map (·.2)) else none
  | none => none

def parse (text : String) : Except WireError StatRecord :=
  match parse? text.toList with
  | some record => .ok record
  | none => .error (.invalidStat text)

end StatRecord

end VolumeStore
