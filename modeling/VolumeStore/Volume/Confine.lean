import VolumeStore.Host.Resolve
import VolumeStore.Volume.Path

/-!
# Confinement of paths

A volume is a directory of the host. Before anything is done with a path of the volume, its lowest
existing stage is followed through all links: it has to stand inside the volume's directory. Stages
that do not exist lead nowhere, so they cannot lead out.
-/

namespace VolumeStore

structure Volume where
  root : Host.Path
deriving DecidableEq, Repr, Inhabited

namespace VolumeError

def isAbsence (failure : Host.Failure) : Bool :=
  failure.kind = .notFound

end VolumeError

namespace Volume

def hostPath (v : Volume) (p : VolumePath) : Host.Path :=
  p.onHost v.root

def home (v : Volume) (t : Host.Tree) : Except VolumeError Host.Location :=
  match t.canonical v.root with
  | .ok (loc, _) => .ok loc
  | .error _ => .error (.invalidPath .rootInvalid)

/-- The stages of a path from the path itself up to the top of the volume. -/
def upwards (p : VolumePath) : List VolumePath :=
  p.stages.reverse ++ [VolumePath.top]

def lowestStage? (v : Volume) (t : Host.Tree) (p : VolumePath) : Option VolumePath :=
  (upwards p).find? fun stage => (t.entry (v.hostPath stage)).isOk

/-- Why a path is refused although it is well written: its lowest existing stage leads out of the
directory at `home`, or to nothing at all, or cannot be followed. -/
def escape? (v : Volume) (t : Host.Tree) (home : Host.Location) (p : VolumePath) :
    Option VolumeError :=
  match v.lowestStage? t p with
  | none => none
  | some stage =>
    match t.canonical (v.hostPath stage) with
    | .ok (loc, _) => if home <+: loc then none else some (.pathTraversal p.render)
    | .error failure =>
      -- A link to nothing: what will stand there one day may lie outside.
      if VolumeError.isAbsence failure then some (.pathTraversal p.render)
      else some (.permissionDenied p.render)

def confine (v : Volume) (t : Host.Tree) (path : String) : Except VolumeError VolumePath :=
  match VolumePath.parse path with
  | .error error => .error error
  | .ok p =>
    match v.home t with
    | .error error => .error error
    | .ok home =>
      match v.escape? t home p with
      | some error => .error error
      | none => .ok p

def onHost {α : Type} (result : Except Host.Failure α) : Except VolumeError α :=
  result.mapError .host

def requireParent (v : Volume) (t : Host.Tree) (p : VolumePath) : Except VolumeError Unit :=
  match p.parent? with
  | none => .error (.isADirectory p.render)
  | some (parent, _) =>
    match t.target (v.hostPath parent) with
    | .ok (_, .directory) => .ok ()
    | .ok _ => .error (.notADirectory parent.render)
    | .error failure =>
      if VolumeError.isAbsence failure then .error (.directoryNotFound parent.render)
      else .error (.host failure)

end Volume

end VolumeStore
