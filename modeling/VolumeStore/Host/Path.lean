import VolumeStore.Text.Utf8

/-!
# Paths of the host

A path of the host is a row of bytes. Its slashes separate names; a path that starts with one is
absolute, any other is looked up from the working directory. Empty names and the name `.` stay where
they are, the name `..` leads up.
-/

namespace VolumeStore.Host

abbrev Name := List UInt8

def slash : UInt8 := 0x2f

def selfName : Name := [0x2e]

def parentName : Name := [0x2e, 0x2e]

structure Path where
  bytes : List UInt8
deriving DecidableEq, Repr, Inhabited

namespace Path

def ofString (s : String) : Path :=
  ⟨Text.encode s⟩

def display (p : Path) : String :=
  Text.decodeLossy p.bytes

def isAbsolute (p : Path) : Bool :=
  p.bytes.head? == some slash

def split (bytes : List UInt8) : List Name :=
  bytes.splitOn slash

/-- The names of a path that lead somewhere: neither empty nor the directory itself. -/
def components (p : Path) : List Name :=
  (split p.bytes).filter fun name => name ≠ [] ∧ name ≠ selfName

/-- A path continued by another one: after a slash, unless the first is empty or ends in one. An
absolute second path stands for itself. -/
def join (p q : Path) : Path :=
  if q.isAbsolute then q
  else if p.bytes = [] ∨ p.bytes.getLast? = some slash then ⟨p.bytes ++ q.bytes⟩
  else ⟨p.bytes ++ slash :: q.bytes⟩

def dropSlashes (bytes : List UInt8) : List UInt8 :=
  bytes.dropWhile (· == slash)

/-- The path below `root` that a path inside it stands for; the root itself for a path without
names. -/
def below (root : Path) (inside : String) : Path :=
  match dropSlashes (Text.encode inside) with
  | [] => root
  | relative => root.join ⟨relative⟩

end Path

end VolumeStore.Host
