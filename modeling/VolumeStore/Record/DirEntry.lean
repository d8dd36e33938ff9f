import VolumeStore.Text.Fields
import VolumeStore.Wire.Error

/-!
# Directory entries

One line of a listing: a name, its kind, size and time of last change, with bars between them. A
name may hold bars itself, so a line is read from its end.
-/

namespace VolumeStore

structure DirEntry where
  name : String
  isDir : Bool
  size : UInt64
  mtime : UInt64
deriving DecidableEq, Repr

namespace DirEntry

def kindLetter (isDir : Bool) : Char :=
  if isDir then 'd' else 'f'

def render (e : DirEntry) : String :=
  e.name ++ "|" ++ String.singleton (kindLetter e.isDir) ++ "|" ++ Text.decimal e.size.toNat ++
    "|" ++ Text.decimal e.mtime.toNat

def readKind? : List Char → Option Bool
  | ['d'] => some true
  | ['f'] => some false
  | _ => none

/-- Reads the line of an entry, field by field from its end. -/
def parse? (cs : List Char) : Option DirEntry := do
  let (cs, mtime) ← Text.cutLast? '|' cs
  let mtime ← Text.readUInt64? mtime
  let (cs, size) ← Text.cutLast? '|' cs
  let size ← Text.readUInt64? size
  let (name, kind) ← Text.cutLast? '|' cs
  let isDir ← readKind? kind
  if name.isEmpty then none else some ⟨String.ofList name, isDir, size, mtime⟩

def parse (line : String) : Except WireError DirEntry :=
  match parse? line.toList with
  | some entry => .ok entry
  | none => .error (.malformedReply line)

end DirEntry

end VolumeStore
