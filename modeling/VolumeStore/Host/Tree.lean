import VolumeStore.Host.Content
import VolumeStore.Host.Failure
import VolumeStore.Host.Path
import VolumeStore.Record.Stat

/-!
# The host's file tree

A finite tree of directories, files, symbolic links and sockets, kept as a map from locations to
nodes. The one view of a tree is `node?`: what stands at a location. A file's node names its
content, so an open file keeps its bytes when its name is taken away or moved.

The tree belongs to a host on which the store may do everything: no call fails for want of a right,
nor is one tried again for that. The times and the numbers of the entries are the host's own affair.
They may be anything, and anything else after each change of the tree; reading changes nothing.
-/

namespace VolumeStore.Host

abbrev Location := List Name

abbrev FileId := Nat

inductive Node where
  | directory
  | file (id : FileId)
  | link (target : List UInt8)
  | socket
deriving DecidableEq, Repr

structure Owner where
  user : UInt32 := 0
  group : UInt32 := 0
deriving DecidableEq, Repr, Inhabited

/-- What the host's clock and its numbering make of an entry. Times are signed numbers of seconds
and nanoseconds. -/
structure Stamp where
  ino : UInt64 := 0
  atime : Int × Int := (0, 0)
  mtime : Int × Int := (0, 0)
  ctime : Int × Int := (0, 0)
deriving DecidableEq, Repr, Inhabited

/-- The host's file tree. The top is always a directory. -/
structure Tree where
  nodes : List (Location × Node) := []
  contents : List Content := []
  home : Location := []
  user : Owner := {}
  owners : Location → Owner := fun _ => {}
  changes : Nat := 0
  /-- The stamps of the entries after a number of changes. -/
  stamps : Nat → Location → Stamp := fun _ _ => {}
deriving Inhabited

def Node.kind : Node → EntryKind
  | .directory => .directory
  | .file _ => .file
  | .link _ => .link
  | .socket => .socket

namespace Tree

def node? (t : Tree) (loc : Location) : Option Node :=
  if loc = [] then some .directory else t.nodes.lookup loc

def content (t : Tree) (id : FileId) : Content :=
  t.contents.getD id {}

def children (t : Tree) (loc : Location) : List (Name × Node) :=
  t.nodes.filterMap fun (key, node) =>
    match key.getLast? with
    | some name => if key.dropLast = loc then some (name, node) else none
    | none => none

def isVacant (t : Tree) (loc : Location) : Bool :=
  (t.children loc).isEmpty

/-! ## Changes -/

def insert (t : Tree) (loc : Location) (node : Node) : Tree :=
  { t with
    nodes := (loc, node) :: t.nodes.filter (·.1 ≠ loc)
    owners := fun loc' => if loc' = loc then t.user else t.owners loc'
    changes := t.changes + 1 }

def keep (t : Tree) (p : Location → Bool) : Tree :=
  { t with nodes := t.nodes.filter (p ·.1), changes := t.changes + 1 }

def remove (t : Tree) (loc : Location) : Tree :=
  t.keep fun key => ¬ loc <+: key

def move (t : Tree) (source target : Location) : Tree :=
  { t with
    nodes := (t.nodes.filter fun entry => source <+: entry.1 ∨ ¬ target <+: entry.1).map
      fun entry =>
        if source <+: entry.1 then (target ++ entry.1.drop source.length, entry.2) else entry
    owners := fun loc =>
      if target <+: loc then t.owners (source ++ loc.drop target.length) else t.owners loc
    changes := t.changes + 1 }

/-- The tree with directories at `loc` extended by one, two, and so on to all of `names`. -/
def insertDirectories (t : Tree) (loc : Location) : List Name → Tree
  | [] => t
  | name :: names => (t.insert (loc ++ [name]) .directory).insertDirectories (loc ++ [name]) names

def ofHome (home : Location) : Tree :=
  { ({} : Tree).insertDirectories [] home with home := home }

def insertFile (t : Tree) (loc : Location) : FileId × Tree :=
  (t.contents.length,
    { t.insert loc (.file t.contents.length) with contents := t.contents ++ [{}] })

def setContent (t : Tree) (id : FileId) (c : Content) : Tree :=
  { t with contents := t.contents.set id c, changes := t.changes + 1 }

/-! ## What the host reports -/

def permissionsOf : Node → UInt32
  | .directory => 0o755
  | .file _ => 0o644
  | .link _ => 0o777
  | .socket => 0o755

/-- The size that the host reports of an entry; a directory counts for nothing. -/
def sizeOf (t : Tree) : Node → Nat
  | .directory => 0
  | .file id => (t.content id).size
  | .link target => target.length
  | .socket => 0

/-- The number of names of an entry: a directory has one above, one inside, and one in each
directory that it holds. -/
def linksOf (t : Tree) (loc : Location) : Node → Nat
  | .directory => 2 + ((t.children loc).filter (·.2 = .directory)).length
  | _ => 1

def describe (t : Tree) (loc : Location) (node : Node) : StatRecord :=
  let stamp := t.stamps t.changes loc
  let size := UInt64.ofNat (t.sizeOf node)
  { ino := stamp.ino
    size := size
    blocks := StatRecord.blocksFor size
    blockSize := StatRecord.transferBlock
    mode := node.kind.bits ||| permissionsOf node
    links := UInt32.ofNat (t.linksOf loc node)
    owner := (t.owners loc).user
    group := (t.owners loc).group
    atime := Timestamp.ofClock stamp.atime.1 stamp.atime.2
    mtime := Timestamp.ofClock stamp.mtime.1 stamp.mtime.2
    ctime := Timestamp.ofClock stamp.ctime.1 stamp.ctime.2 }

/-! ## The view after a change -/

theorem lookup_filter {α β : Type} [BEq α] [LawfulBEq α] {p : α → Bool} (entries : List (α × β))
    (key : α) :
    (entries.filter fun entry => p entry.1).lookup key =
      if p key then entries.lookup key else none := by
  induction entries with
  | nil => simp
  | cons entry entries ih =>
    obtain ⟨key', value⟩ := entry
    by_cases h : key = key'
    · subst h
      by_cases hp : p key = true
      · simp [hp]
      · rw [List.filter_cons_of_neg (by simpa using hp), ih]
        simp [hp]
    · by_cases hp : p key' = true <;> simp [hp, List.lookup_cons, beq_false_of_ne h, ih]

@[simp] theorem node?_nil (t : Tree) : t.node? [] = some .directory := by
  simp [node?]

theorem node?_insert (t : Tree) {loc : Location} (h : loc ≠ []) (node : Node) (loc' : Location) :
    (t.insert loc node).node? loc' = if loc' = loc then some node else t.node? loc' := by
  by_cases hl : loc' = loc
  · subst hl
    simp [node?, insert, h]
  · simp only [node?, insert, List.lookup_cons, beq_false_of_ne hl, hl, if_false]
    split
    · rfl
    · rw [lookup_filter (p := fun key => decide (key ≠ loc)) t.nodes loc']
      simp [hl]

theorem node?_keep (t : Tree) {p : Location → Bool} (h : p [] = true) (loc : Location) :
    (t.keep p).node? loc = if p loc then t.node? loc else none := by
  by_cases hl : loc = []
  · rw [hl, node?_nil, node?_nil, if_pos h]
  · simp only [node?, keep, hl, if_false]
    exact lookup_filter t.nodes loc

theorem node?_remove (t : Tree) {loc : Location} (h : loc ≠ []) (loc' : Location) :
    (t.remove loc).node? loc' = if loc <+: loc' then none else t.node? loc' := by
  rw [remove, node?_keep t (by simpa using h)]
  by_cases hp : loc <+: loc' <;> simp [hp]

@[simp] theorem content_insert (t : Tree) (loc : Location) (node : Node) (id : FileId) :
    (t.insert loc node).content id = t.content id := rfl

@[simp] theorem content_keep (t : Tree) (p : Location → Bool) (id : FileId) :
    (t.keep p).content id = t.content id := rfl

@[simp] theorem content_remove (t : Tree) (loc : Location) (id : FileId) :
    (t.remove loc).content id = t.content id := rfl

@[simp] theorem content_move (t : Tree) (source target : Location) (id : FileId) :
    (t.move source target).content id = t.content id := rfl

theorem content_setContent (t : Tree) {id : FileId} (h : id < t.contents.length) (c : Content)
    (id' : FileId) :
    (t.setContent id c).content id' = if id' = id then c else t.content id' := by
  simp only [content, setContent, List.getD_eq_getElem?_getD, List.getElem?_set]
  by_cases hi : id' = id
  · subst hi
    simp [h]
  · simp [hi, Ne.symm hi]

end Tree

end VolumeStore.Host
