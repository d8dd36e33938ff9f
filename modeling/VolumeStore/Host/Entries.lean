import VolumeStore.Host.Resolve

/-!
# Removing and renaming entries

What the host does when an entry is removed or gets another name. Links are never followed at the
end of a path here: a link is removed or renamed itself.
-/

namespace VolumeStore.Host.Tree

def clear (t : Tree) (loc : Location) : Tree :=
  t.keep fun key => ¬ (loc <+: key ∧ key ≠ loc)

def unlink (t : Tree) (p : Path) : Except Failure Tree :=
  match t.entry p with
  | .ok (_, .directory) => .error .isDirectory
  | .ok (loc, _) => .ok (t.remove loc)
  | .error failure => .error failure

def removeEmpty (t : Tree) (p : Path) : Except Failure Tree :=
  match t.entry p with
  | .ok (loc, .directory) => if t.isVacant loc then .ok (t.remove loc) else .error .notEmpty
  | .ok _ => .error .notDirectory
  | .error failure => .error failure

/-- Removes a directory with everything below it, links without what they lead to. The directory is
emptied first and its own name is removed last; when the way to that name led through what was just
removed, the name is out of reach and stays. Gives the tree that is left, also after a failure. -/
def removeAll (t : Tree) (p : Path) : Except Failure Unit × Tree :=
  match t.entry p with
  | .ok (loc, .directory) =>
    -- The path is looked up again, in the tree that is left.
    match (t.clear loc).removeEmpty p with
    | .ok t' => (.ok (), t')
    | .error failure =>
      (if failure.kind = .notFound then .ok () else .error failure, t.clear loc)
  | .ok (loc, .link _) => (.ok (), t.remove loc)
  | .ok _ => (.error .notDirectory, t)
  | .error failure => (.error failure, t)

/-- Whether an entry may take the place of another one, and the failure if not: a directory may only
replace an empty directory, and anything else no directory. -/
def replaceFailure? (t : Tree) (source : Node) (loc : Location) (existing : Node) :
    Option Failure :=
  match source, existing with
  | .directory, .directory => if t.isVacant loc then none else some .notEmpty
  | .directory, _ => some .notDirectory
  | _, .directory => some .isDirectory
  | _, _ => none

/-- Gives the entry at `source` the name `target`. A name that stands for the entry already is left
as it is; an entry cannot move below itself, nor take the place of a directory above it. -/
def rename (t : Tree) (source target : Path) : Except Failure Tree :=
  match t.find false source, t.find false target with
  | .error failure, _ => .error failure
  | .ok (.vacant _ _), .ok _ => .error .noEntry
  | _, .error failure => .error failure
  | .ok (.node loc _), .ok (.vacant directory name) =>
    -- An entry below itself would be cut off from the top.
    if loc <+: directory then .error .invalidArgument
    else .ok (t.move loc (directory ++ [name]))
  | .ok (.node loc node), .ok (.node loc' existing) =>
    if loc = loc' then .ok t
    else if loc <+: loc' then .error .invalidArgument
    -- The target holds at least the way to the source.
    else if loc' <+: loc then .error .notEmpty
    else
      match t.replaceFailure? node loc' existing with
      | some failure => .error failure
      | none => .ok (t.move loc loc')

end VolumeStore.Host.Tree
