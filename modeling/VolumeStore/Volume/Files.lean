import VolumeStore.Host.Entries
import VolumeStore.Host.Handle
import VolumeStore.Record.OpenFlags
import VolumeStore.Volume.Confine

/-!
# Files of a volume

Making, appending to, opening, describing, deleting and renaming. An operation that changes the
volume gives the tree that it leaves behind, also when it is refused on the way: a file whose size
cannot be set, for one, has been made before that shows.
-/

namespace VolumeStore.Volume

def creationError (p : VolumePath) (failure : Host.Failure) : VolumeError :=
  if failure.kind = .alreadyExists then .fileAlreadyExists p.render else .host failure

def createFile (v : Volume) (t : Host.Tree) (path : String) (size : UInt64) :
    Except VolumeError String × Host.Tree :=
  match v.confine t path with
  | .error error => (.error error, t)
  | .ok p =>
    match v.requireParent t p with
    | .error error => (.error error, t)
    | .ok () =>
      match t.createFile (v.hostPath p) with
      | .error failure => (.error (creationError p failure), t)
      | .ok (handle, t) =>
        if size = 0 then (.ok p.render, t)
        else
          match handle.setSize t size.toNat with
          -- The name is taken by now, and stays so.
          | .error failure => (.error (.host failure), t)
          | .ok t => (.ok p.render, t)

def appendFile (v : Volume) (t : Host.Tree) (path : String) (data : List UInt8) :
    Except VolumeError Nat × Host.Tree :=
  match v.confine t path with
  | .error error => (.error error, t)
  | .ok p =>
    match v.requireParent t p with
    | .error error => (.error error, t)
    | .ok () =>
      if t.isDirectory (v.hostPath p) then (.error (.isADirectory p.render), t)
      else
        match t.openFile (v.hostPath p) { append := true } true with
        | .error failure => (.error (.host failure), t)
        | .ok (handle, t) =>
          match handle.write t data with
          -- A file made for the data stays, with what has been written of it.
          | (.error failure, _, t) => (.error (.host failure), t)
          | (.ok (), handle, t) => (.ok (t.content handle.file).size, t)

def stat (v : Volume) (t : Host.Tree) (path : String) : Except VolumeError StatRecord := do
  let p ← v.confine t path
  match t.entry (v.hostPath p) with
  | .ok (loc, node) => return t.describe loc node
  | .error failure =>
    if failure.kind = .notFound ∨ failure.kind = .notADirectory then
      .error (.fileNotFound p.render)
    else .error (.host failure)

def deleteFile (v : Volume) (t : Host.Tree) (path : String) :
    Except VolumeError String × Host.Tree :=
  match v.confine t path with
  | .error error => (.error error, t)
  | .ok p =>
    -- The entry itself: a link, not what it leads to.
    match t.entry (v.hostPath p) with
    | .ok (_, .directory) => (.error (.isADirectory p.render), t)
    | .ok _ =>
      match t.unlink (v.hostPath p) with
      | .ok t => (.ok p.render, t)
      | .error failure => (.error (.host failure), t)
    | .error failure =>
      (.error (if VolumeError.isAbsence failure then .fileNotFound p.render else .host failure), t)

/-! ## Renaming -/

def isBelow (p q : VolumePath) : Bool :=
  q.segments.isPrefixOf p.segments && p ≠ q

def renameError (target : VolumePath) (failure : Host.Failure) : VolumeError :=
  match failure.kind with
  | .directoryNotEmpty => .directoryNotEmpty target.render
  | .isADirectory => .isADirectory target.render
  | .notADirectory => .notADirectory target.render
  | _ => .host failure

/-- Gives an entry another path; a file there, or an empty directory in favour of a directory, is
replaced. Gives the canonical new path. -/
def rename (v : Volume) (t : Host.Tree) (source target : String) :
    Except VolumeError String × Host.Tree :=
  -- Both paths are judged before anything is looked at.
  match v.confine t source, v.confine t target with
  | .error error, _ => (.error error, t)
  | .ok _, .error error => (.error error, t)
  | .ok p, .ok q =>
    if p = VolumePath.top ∨ q = VolumePath.top then (.error (.busy VolumePath.top.render), t)
    else if !t.exists? (v.hostPath p) then (.error (.fileNotFound p.render), t)
    else if isBelow q p then (.error (.invalidPath (.intoItself p.render)), t)
    else
      match v.requireParent t q with
      | .error error => (.error error, t)
      | .ok () =>
        match t.rename (v.hostPath p) (v.hostPath q) with
        | .ok t => (.ok q.render, t)
        | .error failure => (.error (renameError q failure), t)

/-! ## Opening -/

/-- The access that flags ask for; appending takes the place of writing. -/
def accessOf (flags : OpenFlags) : Host.Access :=
  { read := flags.read, write := flags.write && !flags.append, append := flags.append }

/-- A file has to be there when it is opened, or a directory above it when it may be made. -/
def requireOpenable (v : Volume) (t : Host.Tree) (p : VolumePath) (create : Bool) :
    Except VolumeError Unit :=
  if t.isDirectory (v.hostPath p) then .error (.isADirectory p.render)
  else if create then v.requireParent t p
  else if t.exists? (v.hostPath p) then .ok ()
  else .error (.fileNotFound p.render)

def openFile (v : Volume) (t : Host.Tree) (path : String) (flags : OpenFlags) :
    Except VolumeError (Host.Handle × String) × Host.Tree :=
  match v.confine t path with
  | .error error => (.error error, t)
  | .ok p =>
    match v.requireOpenable t p flags.create with
    | .error error => (.error error, t)
    | .ok () =>
      match t.openFile (v.hostPath p) (accessOf flags) flags.create with
      | .error failure => (.error (.host failure), t)
      | .ok (handle, t) =>
        if flags.truncate then
          -- Emptying is a step of its own, which the access of the open file has to allow.
          match handle.setSize t 0 with
          | .error failure => (.error (.host failure), t)
          | .ok t => (.ok (handle, p.render), t)
        else (.ok (handle, p.render), t)

/-- Writes data to an open file: at an offset, or where the file stands when it is to append. -/
def writeAt (t : Host.Tree) (handle : Host.Handle) (offset : UInt64) (data : List UInt8)
    (append : Bool) : Except VolumeError Unit × Host.Handle × Host.Tree :=
  let (result, handle, t) :=
    if append then handle.write t data else handle.writeAt t offset.toNat data
  (onHost result, handle, t)

def readAt (t : Host.Tree) (handle : Host.Handle) (offset : UInt64) (len : Nat) :
    Host.Handle × Except VolumeError (List UInt8) :=
  let (handle, result) := handle.readAt t offset.toNat len
  (handle, onHost result)

end VolumeStore.Volume
