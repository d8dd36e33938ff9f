import VolumeStore.Host.Entries
import VolumeStore.Host.Handle

/-!
# Actions on the host's tree

Changes that come from outside the file store: writing and reading whole files, making links and
sockets, and removing whatever stands under a name.
-/

namespace VolumeStore.Host.Tree

def putFile (t : Tree) (p : Path) (data : List UInt8) : Except Failure Tree := do
  let (handle, t) ← t.openFile p { write := true } true
  return t.setContent handle.file (.ofList data)

def fileBytes (t : Tree) (p : Path) : Except Failure (List UInt8) :=
  match t.target p with
  | .ok (_, .file id) => .ok (t.content id).toList
  | .ok (_, .directory) => .error .isDirectory
  | .ok _ => .error .noDevice
  | .error failure => .error failure

def makeEntry (t : Tree) (p : Path) (node : Node) : Except Failure Tree :=
  match t.find false p with
  | .ok (.vacant directory name) => .ok (t.insert (directory ++ [name]) node)
  | .ok (.node _ _) => .error .alreadyExists
  | .error failure => .error failure

/-- Removes an entry of any kind, a directory with all that it holds. Gives the tree that is left,
also after a failure. -/
def removeAny (t : Tree) (p : Path) : Except Failure Unit × Tree :=
  match t.entry p with
  | .ok (_, .directory) => t.removeAll p
  | .ok (loc, _) => (.ok (), t.remove loc)
  | .error failure => (.error failure, t)

end VolumeStore.Host.Tree
