import VolumeStore.Host.Handle
import VolumeStore.Record.OpenFlags
import VolumeStore.Session.Error
import VolumeStore.Volume.Confine

/-!
# Sessions

What a store remembers of one client between two requests: the volume that is mounted, the first
half of a rename, and the open files by their descriptors. Descriptors count up from one and are
never used twice in a session.
-/

namespace VolumeStore

structure OpenFile where
  handle : Host.Handle
  path : String
  flags : OpenFlags
deriving DecidableEq, Repr, Inhabited

/-- The address of a client, of version 4: four bytes and the number of its endpoint. -/
structure Peer where
  address : UInt8 × UInt8 × UInt8 × UInt8 := (127, 0, 0, 1)
  tcpPort : UInt16
deriving DecidableEq, Repr, Inhabited

def Peer.render (p : Peer) : String :=
  let (a, b, c, d) := p.address
  String.intercalate "." ([a, b, c, d].map fun n => Text.decimal n.toNat) ++ ":" ++
    Text.decimal p.tcpPort.toNat

structure Mount where
  name : String
  volume : Volume
deriving DecidableEq, Repr, Inhabited

structure Session where
  peer : Option Peer := none
  mounted : Option Mount := none
  /-- The source of a rename that waits for its target. -/
  renameSource : Option String := none
  files : List (UInt64 × OpenFile) := []
  nextFd : UInt64 := 1
deriving DecidableEq, Repr, Inhabited

namespace Session

def ofPeer (peer : Peer) : Session :=
  { peer := some peer }

def isMounted (s : Session) : Bool :=
  s.mounted.isSome

def volumeName? (s : Session) : Option String :=
  s.mounted.map (·.name)

def volume (s : Session) : Except SessionError Volume :=
  match s.mounted with
  | some mount => .ok mount.volume
  | none => .error .notMounted

def unmount (s : Session) : Session :=
  { s with mounted := none, renameSource := none, files := [] }

/-- The session with another volume; what belonged to the one before is dropped. -/
def mount (s : Session) (mount : Mount) : Session :=
  { s.unmount with mounted := some mount }

/-! ## Renames in two requests -/

def setRenameSource (s : Session) (path : String) : Session :=
  { s with renameSource := some path }

def clearRenameSource (s : Session) : Session :=
  { s with renameSource := none }

/-! ## Open files -/

def openCount (s : Session) : Nat :=
  s.files.length

def addFile (s : Session) (file : OpenFile) : UInt64 × Session :=
  (s.nextFd, { s with nextFd := s.nextFd + 1, files := (s.nextFd, file) :: s.files })

def file (s : Session) (fd : UInt64) : Except VolumeError OpenFile :=
  match s.files.lookup fd with
  | some file => .ok file
  | none => .error (.badDescriptor fd)

def dropFile (s : Session) (fd : UInt64) : Session :=
  { s with files := s.files.filter (·.1 ≠ fd) }

def setHandle (s : Session) (fd : UInt64) (handle : Host.Handle) : Session :=
  { s with files := s.files.map fun entry =>
      if entry.1 = fd then (entry.1, { entry.2 with handle := handle }) else entry }

end Session

end VolumeStore
