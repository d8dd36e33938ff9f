import VolumeStore.Host.Path
import VolumeStore.Text.Blank
import VolumeStore.Text.Fields
import VolumeStore.Volume.Error

/-!
# Paths inside a volume

A path names an entry of a volume by the segments that lead to it. In its written form it is
absolute; empty segments and the segment `.` may be sprinkled in and say nothing, the segment `..`
is refused. `render` is the canonical written form, and `parse` reads every written form.
-/

namespace VolumeStore

structure VolumePath where
  segments : List String := []
deriving DecidableEq, Repr, Inhabited

namespace VolumePath

/-- Characters that no path may hold: they would end a line or a text. -/
def isControl (c : Char) : Bool :=
  c == '\x00' || c == '\r' || c == '\n'

def isTrivialSegment (segment : List Char) : Bool :=
  segment.isEmpty || segment == ['.']

def segmentError? (path : String) (segment : List Char) : Option VolumeError :=
  if segment = ['.', '.'] then some (.pathTraversal path)
  else if maxNameBytes < Text.byteLength segment then some (.invalidPath .longSegment)
  else none

def meaningfulSegments (path : String) : List (List Char) :=
  (path.toList.splitOn '/').filter (!isTrivialSegment ·)

/-- Reads a written path. Of several faults the first in this order is reported: a blank path, a
control character, the first unusable segment, a missing slash at the start, too many segments. -/
def parse (path : String) : Except VolumeError VolumePath :=
  let segments := meaningfulSegments path
  if Text.isAllBlank path.toList then .error (.invalidPath .blank)
  else if path.toList.any isControl then .error (.invalidPath .controlCharacter)
  else
    match segments.findSome? (segmentError? path) with
    | some error => .error error
    | none =>
      if path.toList.head? ≠ some '/' then .error (.invalidPath (.relative path))
      else if maxDepth < segments.length then .error (.invalidPath .tooDeep)
      else .ok ⟨segments.map String.ofList⟩

def render (p : VolumePath) : String :=
  String.ofList ('/' :: List.intercalate ['/'] (p.segments.map (·.toList)))

def top : VolumePath := {}

def parent? (p : VolumePath) : Option (VolumePath × String) :=
  p.segments.getLast?.map fun name => (⟨p.segments.dropLast⟩, name)

def onHost (p : VolumePath) (root : Host.Path) : Host.Path :=
  root.below p.render

/-- The paths that lead to an entry, each one segment longer than the one before it, down to the
entry itself and without the top. -/
def stages (p : VolumePath) : List VolumePath :=
  (List.range p.segments.length).map fun n => ⟨p.segments.take (n + 1)⟩

/-! ## Written paths -/

def normalize (path : String) : Except VolumeError String :=
  (parse path).map render

def isValid (path : String) : Bool :=
  (normalize path).isOk

def isValidOption (path : Option String) : Bool :=
  path.any isValid

/-- The written paths of the directory above and the name in it, for a path in canonical form. -/
def splitParent? (path : String) : Option (String × String) :=
  if path = "/" then none
  else
    (Text.cutLast? '/' path.toList).map fun (parent, name) =>
      (if parent.isEmpty then "/" else String.ofList parent, String.ofList name)

end VolumePath

/-! ## Names of volumes -/

/-- A name that a volume can have: one usable segment without blanks. -/
def isVolumeName (name : String) : Bool :=
  let cs := name.toList
  !Text.isAllBlank cs && Text.byteLength cs ≤ maxNameBytes && name ≠ "." && name ≠ ".." &&
    !cs.any (fun c => c == '/' || VolumePath.isControl c) && !cs.any Text.isBlank

end VolumeStore
