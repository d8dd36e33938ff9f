/-!
# Verbs

The seventeen verbs that open a request line. Verbs are written in capitals and read in any case.
-/

namespace VolumeStore

inductive Verb where
  | mount
  | quit
  | noop
  | makeDirectory
  | create
  | append
  | stat
  | removeDirectory
  | delete
  | renameFrom
  | renameTo
  | list
  | openFile
  | write
  | read
  | flush
  | close
deriving DecidableEq, Repr

namespace Verb

def all : List Verb :=
  [mount, quit, noop, makeDirectory, create, append, stat, removeDirectory, delete, renameFrom,
    renameTo, list, openFile, write, read, flush, close]

def token : Verb → String
  | mount => "MOUNT"
  | quit => "QUIT"
  | noop => "NOOP"
  | makeDirectory => "MKD"
  | create => "CRT"
  | append => "APPE"
  | stat => "STAT"
  | removeDirectory => "RMD"
  | delete => "DELE"
  | renameFrom => "RNFR"
  | renameTo => "RNTO"
  | list => "LIST"
  | openFile => "OPEN"
  | write => "WRITE"
  | read => "READ"
  | flush => "FLUSH"
  | close => "CLOSE"

def upperCase (cs : List Char) : List Char :=
  cs.map Char.toUpper

def parse? (cs : List Char) : Option Verb :=
  all.find? fun verb => verb.token.toList == upperCase cs

theorem mem_all (v : Verb) : v ∈ all := by
  cases v <;> decide

theorem parse?_token (v : Verb) : parse? v.token.toList = some v := by
  cases v <;> decide

/-- No spelling holds a space, so a verb ends at the first one. -/
theorem space_notMem_token (v : Verb) : ' ' ∉ v.token.toList := by
  cases v <;> decide

end Verb

end VolumeStore
