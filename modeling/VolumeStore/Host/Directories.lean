import VolumeStore.Host.Resolve

/-!
# Making directories

Making the directory at the end of a path together with every missing directory above it. The
directories are made one after the other, so each call gives the tree it leaves behind, also when it
fails.
-/

namespace VolumeStore.Host.Tree

def makeDirectory (t : Tree) (start : Location) (names : List Name) : Except Failure Tree :=
  match walkLinks t false maxLinks start names with
  | .ok (.vacant directory name) => .ok (t.insert (directory ++ [name]) .directory)
  | .ok (.node _ _) => .error .alreadyExists
  | .error failure => .error failure

def isDirectoryAt (t : Tree) (start : Location) (names : List Name) : Bool :=
  match walkLinks t true maxLinks start names with
  | .ok (.node _ .directory) => true
  | _ => false

/-- Makes the directory that the names lead to unless it is there, and the ones above it as far as
they are missing. The names are given from the last one up. -/
def makeUpwards (t : Tree) (start : Location) : List Name → Except Failure Unit × Tree
  | [] => (.ok (), t)
  | name :: above =>
    let names := (name :: above).reverse
    match t.makeDirectory start names with
    | .ok t' => (.ok (), t')
    | .error failure =>
      if failure.kind = .notFound then
        -- The directory above is missing: once it is made, this one is tried again.
        match t.makeUpwards start above with
        | (.ok (), t') =>
          match t'.makeDirectory start names with
          | .ok t'' => (.ok (), t'')
          | .error failure =>
            (if t'.isDirectoryAt start names then .ok () else .error failure, t')
        | (.error failure, t') => (.error failure, t')
      -- Whatever the failure, a directory that is there is all that was asked for.
      else (if t.isDirectoryAt start names then .ok () else .error failure, t)

/-- Makes the directory at the end of a path and the ones above it. An empty path names no
directory, so nothing is to be made. -/
def makeDirectories (t : Tree) (p : Path) : Except Failure Unit × Tree :=
  if p.bytes = [] then (.ok (), t)
  else
    match pathFailure? p with
    | some failure => (.error failure, t)
    | none => t.makeUpwards (if p.isAbsolute then [] else t.home) p.components.reverse

end VolumeStore.Host.Tree
