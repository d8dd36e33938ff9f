import VolumeStore.Host.Failure

/-!
# Why a volume refuses an operation

The causes for which an operation on a volume is refused, and their wording. Paths in them are
paths inside the volume, never paths of the host.
-/

namespace VolumeStore

def maxNameBytes : Nat := 255

def maxDepth : Nat := 32

inductive PathFault where
  | blank
  | controlCharacter
  | longSegment
  | relative (path : String)
  | tooDeep
  | rootInvalid
  | intoItself (source : String)
  | described (text : String)
deriving DecidableEq, Repr

namespace PathFault

def message : PathFault → String
  | blank => "Empty path"
  | controlCharacter => "Path contains control characters"
  | longSegment => "Segment longer than " ++ Text.decimal maxNameBytes ++ " bytes"
  | relative path => "Path must be absolute: " ++ path
  | tooDeep => "Path deeper than " ++ Text.decimal maxDepth ++ " levels"
  | rootInvalid => "Volume root invalid"
  | intoItself source => "Cannot move " ++ source ++ " into itself"
  | described text => text

end PathFault

inductive VolumeError where
  | fileNotFound (path : String)
  | directoryNotFound (path : String)
  | permissionDenied (path : String)
  | invalidPath (fault : PathFault)
  | fileAlreadyExists (path : String)
  | notADirectory (path : String)
  | isADirectory (path : String)
  | directoryNotEmpty (path : String)
  | pathTraversal (path : String)
  | badDescriptor (fd : UInt64)
  | busy (path : String)
  | host (failure : Host.Failure)
deriving DecidableEq, Repr

namespace VolumeError

def message : VolumeError → String
  | fileNotFound path => "File not found: " ++ path
  | directoryNotFound path => "Directory not found: " ++ path
  | permissionDenied path => "Permission denied: " ++ path
  | invalidPath fault => "Invalid path: " ++ fault.message
  | fileAlreadyExists path => "File already exists: " ++ path
  | notADirectory path => "Not a directory: " ++ path
  | isADirectory path => "Is a directory: " ++ path
  | directoryNotEmpty path => "Directory not empty: " ++ path
  | pathTraversal path => "Path traversal attempt: " ++ path
  | badDescriptor fd => "Bad file descriptor: " ++ Text.decimal fd.toNat
  | busy path => "Resource busy: " ++ path
  | host failure => "IO error: " ++ failure.message

end VolumeError

end VolumeStore
