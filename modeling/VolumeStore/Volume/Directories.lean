import VolumeStore.Host.Directories
import VolumeStore.Host.Entries
import VolumeStore.Record.DirEntry
import VolumeStore.Volume.Confine

/-!
# Directories of a volume

Making, removing and listing directories. An operation that changes the volume gives the tree that
it leaves behind, also when it is refused on the way.
-/

namespace VolumeStore.Volume

/-! ## Making -/

/-- The first stage at which something other than a directory is in the way, or cannot be looked up.
The search ends where nothing stands any more. -/
def obstacle? (v : Volume) (t : Host.Tree) : List VolumePath → Option VolumeError
  | [] => none
  | stage :: stages =>
    match t.target (v.hostPath stage) with
    | .ok (_, .directory) => obstacle? v t stages
    | .ok _ => some (.notADirectory stage.render)
    | .error failure => if VolumeError.isAbsence failure then none else some (.host failure)

def makeDirectories (v : Volume) (t : Host.Tree) (path : String) :
    Except VolumeError String × Host.Tree :=
  match v.confine t path with
  | .error error => (.error error, t)
  | .ok p =>
    match v.obstacle? t p.stages with
    | some error => (.error error, t)
    | none =>
      match t.makeDirectories (v.hostPath p) with
      | (.ok (), t) => (.ok p.render, t)
      | (.error failure, t) => (.error (.host failure), t)

/-! ## Removing -/

def removalError (p : VolumePath) (failure : Host.Failure) : VolumeError :=
  if failure.kind = .directoryNotEmpty then .directoryNotEmpty p.render else .host failure

/-- Removes a directory, with all that it holds if `recursive`, else only when it holds nothing. The
top of the volume stays. Gives the canonical path. -/
def removeDirectory (v : Volume) (t : Host.Tree) (path : String) (recursive : Bool) :
    Except VolumeError String × Host.Tree :=
  match v.confine t path with
  | .error error => (.error error, t)
  | .ok p =>
    if p = VolumePath.top then (.error (.busy p.render), t)
    else
      match t.entry (v.hostPath p) with
      | .ok (_, .directory) =>
        if recursive then
          match t.removeAll (v.hostPath p) with
          | (.ok (), t) => (.ok p.render, t)
          | (.error failure, t) => (.error (removalError p failure), t)
        else
          match t.removeEmpty (v.hostPath p) with
          | .ok t => (.ok p.render, t)
          | .error failure => (.error (removalError p failure), t)
      | .ok _ => (.error (.notADirectory p.render), t)
      | .error failure =>
        (.error (if VolumeError.isAbsence failure then .directoryNotFound p.render
          else .host failure), t)

/-! ## Listing -/

/-- The entry of a listing for a name in the directory at `loc`. Links are listed as themselves; a
directory has no size here. -/
def listingEntry (t : Host.Tree) (loc : Host.Location) (name : Host.Name) (node : Host.Node) :
    DirEntry :=
  let record := t.describe (loc ++ [name]) node
  { name := Text.decodeLossy name
    isDir := node = .directory
    size := if node = .directory then 0 else record.size
    mtime := record.mtime.secs }

def listDirectory (v : Volume) (t : Host.Tree) (path : String) :
    Except VolumeError (List DirEntry) := do
  let p ← v.confine t path
  match t.target (v.hostPath p) with
  | .ok (loc, .directory) =>
    let entries := (t.children loc).map fun (name, node) => listingEntry t loc name node
    return entries.mergeSort fun a b => decide (a.name ≤ b.name)
  | .ok _ => .error (.notADirectory p.render)
  | .error _ => .error (.directoryNotFound p.render)

end VolumeStore.Volume
