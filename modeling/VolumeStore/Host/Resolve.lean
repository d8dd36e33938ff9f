import VolumeStore.Host.Tree

/-!
# Looking up paths

How the host finds what a path names. Names are followed one by one from the top or from the working
directory; a symbolic link on the way is replaced by the names of its target, and one at the end
only when the caller asks for it. Forty links are followed in one look-up, not more.
-/

namespace VolumeStore.Host

def maxPathBytes : Nat := 4096

def maxEntryBytes : Nat := 255

def maxLinks : Nat := 40

/-- What a look-up finds: a node, or a name that is free in an existing directory. -/
inductive Found where
  | node (loc : Location) (node : Node)
  | vacant (directory : Location) (name : Name)
deriving DecidableEq, Repr

namespace Tree

/-- Follows names from the directory at `loc`. `onLink` goes on behind a link, from the directory in
which its target is looked up and with the names of the target in front. -/
def walk (t : Tree) (followLast : Bool) (onLink : Location → List Name → Except Failure Found)
    (loc : Location) : List Name → Except Failure Found
  | [] => .ok (.node loc .directory)
  | name :: rest =>
    if name = [] ∨ name = selfName then walk t followLast onLink loc rest
    -- The location holds no links, so the directory above is one name shorter.
    else if name = parentName then walk t followLast onLink loc.dropLast rest
    else if maxEntryBytes < name.length then .error .nameTooLong
    else
      match t.node? (loc ++ [name]) with
      | none => if rest = [] then .ok (.vacant loc name) else .error .noEntry
      | some .directory => walk t followLast onLink (loc ++ [name]) rest
      | some (.link target) =>
        -- A link in front of other names is followed in any case.
        if rest = [] ∧ followLast = false then .ok (.node (loc ++ [name]) (.link target))
        else
          onLink (if (Path.mk target).isAbsolute then [] else loc) (Path.split target ++ rest)
      | some node =>
        if rest = [] then .ok (.node (loc ++ [name]) node) else .error .notDirectory

def walkLinks (t : Tree) (followLast : Bool) :
    (links : Nat) → Location → List Name → Except Failure Found
  | 0 => walk t followLast fun _ _ => .error .tooManyLinks
  | links + 1 => walk t followLast (walkLinks t followLast links)

def pathFailure? (p : Path) : Option Failure :=
  if 0 ∈ p.bytes then some .nulInPath
  else if p.bytes = [] then some .noEntry
  else if maxPathBytes ≤ p.bytes.length then some .nameTooLong
  else none

/-- What a path leads to. A link at its end is followed if the caller says so, or if a slash or
another name stands behind it. -/
def find (t : Tree) (followLast : Bool) (p : Path) : Except Failure Found :=
  match pathFailure? p with
  | some failure => .error failure
  | none =>
    walkLinks t followLast maxLinks (if p.isAbsolute then [] else t.home) (Path.split p.bytes)

def findEntry (t : Tree) (followLast : Bool) (p : Path) : Except Failure (Location × Node) :=
  match t.find followLast p with
  | .ok (.node loc node) => .ok (loc, node)
  | .ok (.vacant _ _) => .error .noEntry
  | .error failure => .error failure

def entry (t : Tree) (p : Path) : Except Failure (Location × Node) :=
  t.findEntry false p

/-- The entry behind all links. Its location holds no links and no `..`. -/
def target (t : Tree) (p : Path) : Except Failure (Location × Node) :=
  t.findEntry true p

/-! ## Spelling out where a path leads

The host can also spell out the location behind all links, one name after the other. Every place
that it passes on the way has to be short enough for a path of its own, however short the path that
was asked for. -/

def pathLength (loc : Location) : Nat :=
  loc.foldr (fun name n => name.length + 1 + n) 0

/-- What stands in front of these names has to be a directory, although no entry of it is named. -/
def asksDirectory : List Name → Bool
  | [] => false
  | name :: rest =>
    name = parentName || (name = [] || name = selfName) && (rest = [] || asksDirectory rest)

/-- A place in front of other names can be spelled; one more slash asks for a directory. -/
def isSpellable (loc : Location) (rest : List Name) : Bool :=
  pathLength loc + (if asksDirectory rest then 1 else 0) < maxPathBytes

def walkSpells (t : Tree) (onLink : Location → List Name → Bool) (loc : Location) :
    List Name → Bool
  | [] => true
  | name :: rest =>
    if name = [] ∨ name = selfName then walkSpells t onLink loc rest
    else if name = parentName then walkSpells t onLink loc.dropLast rest
    else
      match t.node? (loc ++ [name]) with
      | some .directory =>
        isSpellable (loc ++ [name]) rest && walkSpells t onLink (loc ++ [name]) rest
      -- Reading a link asks for no directory.
      | some (.link target) =>
        isSpellable (loc ++ [name]) [] &&
          onLink (if (Path.mk target).isAbsolute then [] else loc) (Path.split target ++ rest)
      | _ => isSpellable (loc ++ [name]) rest

def spells (t : Tree) : (links : Nat) → Location → List Name → Bool
  | 0 => walkSpells t fun _ _ => true
  | links + 1 => walkSpells t (spells t links)

def canSpell (t : Tree) (p : Path) : Bool :=
  t.spells maxLinks (if p.isAbsolute then [] else t.home) (Path.split p.bytes)

/-- The entry behind all links of a path, if the way to it can be spelled. -/
def canonical (t : Tree) (p : Path) : Except Failure (Location × Node) :=
  if t.canSpell p then t.target p else .error .nameTooLong

def exists? (t : Tree) (p : Path) : Bool :=
  (t.target p).isOk

def isDirectory (t : Tree) (p : Path) : Bool :=
  match t.target p with
  | .ok (_, .directory) => true
  | _ => false

end Tree

end VolumeStore.Host
