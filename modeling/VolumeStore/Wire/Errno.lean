/-!
# Error tokens

The ten tokens that open the text of a negative reply and tell a client what went wrong without
reading the message. Main statement: reading a token accepts exactly what writing one produces.
-/

namespace VolumeStore

inductive Errno where
  | noEntry
  | alreadyExists
  | notDirectory
  | isDirectory
  | notEmpty
  | invalid
  | badDescriptor
  | access
  | busy
  | failed
deriving DecidableEq, Repr

namespace Errno

def all : List Errno :=
  [noEntry, alreadyExists, notDirectory, isDirectory, notEmpty, invalid, badDescriptor, access,
    busy, failed]

def token : Errno → String
  | noEntry => "ENOENT"
  | alreadyExists => "EEXIST"
  | notDirectory => "ENOTDIR"
  | isDirectory => "EISDIR"
  | notEmpty => "ENOTEMPTY"
  | invalid => "EINVAL"
  | badDescriptor => "EBADF"
  | access => "EACCES"
  | busy => "EBUSY"
  | failed => "EIO"

def ofToken? (s : String) : Option Errno :=
  all.find? (·.token == s)

theorem mem_all (e : Errno) : e ∈ all := by
  cases e <;> decide

theorem ofToken?_eq_some_iff {s : String} {e : Errno} : ofToken? s = some e ↔ s = e.token := by
  constructor
  · intro h
    have h' := List.find?_some (show all.find? (fun d => d.token == s) = some e from h)
    exact (beq_iff_eq.1 h').symm
  · rintro rfl
    cases e <;> decide

end Errno

end VolumeStore
