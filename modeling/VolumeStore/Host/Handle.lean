import VolumeStore.Host.Resolve

/-!
# Open files

An open file reads and writes the content it was opened on, whatever becomes of its name. It has a
position, which every read and write moves; writes of a file opened for appending go to its end.
-/

namespace VolumeStore.Host

/-- Sizes and positions in a file stay below this. -/
def sizeLimit : Nat := 1 <<< 63

def readChunk : Nat := 8192

/-- The host takes no more bytes than these in one call. -/
def maxTransfer : Nat := 0x7ffff000

def Failure.fileTooLarge : Failure := .numbered 27

/-- The host took nothing of what was to be written. -/
def Failure.writeZero : Failure := .described .other "failed to write whole buffer"

structure Access where
  read : Bool := false
  write : Bool := false
  append : Bool := false
deriving DecidableEq, Repr, Inhabited

def Access.isWritable (a : Access) : Bool :=
  a.write || a.append

structure Handle where
  file : FileId
  access : Access
  position : Nat := 0
deriving DecidableEq, Repr, Inhabited

namespace Tree

/-- Opens the file that a path leads to. With `create`, a file is made where the last name is free;
this asks for write access. -/
def openFile (t : Tree) (p : Path) (access : Access) (create : Bool) :
    Except Failure (Handle × Tree) :=
  -- Without any access nothing can be opened, and without writing nothing made.
  if !access.read && !access.isWritable then .error .invalidArgument
  else if create && !access.isWritable then .error .invalidArgument
  else
    match t.find true p with
    | .error failure => .error failure
    | .ok (.vacant directory name) =>
      if create then
        let (id, t) := t.insertFile (directory ++ [name])
        .ok ({ file := id, access := access }, t)
      else .error .noEntry
    | .ok (.node _ (.file id)) => .ok ({ file := id, access := access }, t)
    | .ok (.node _ .socket) => .error .noDevice
    | .ok (.node _ _) => .error .isDirectory

def createFile (t : Tree) (p : Path) : Except Failure (Handle × Tree) :=
  match t.find false p with
  | .error failure => .error failure
  | .ok (.vacant directory name) =>
    let (id, t) := t.insertFile (directory ++ [name])
    .ok ({ file := id, access := { write := true } }, t)
  | .ok (.node _ _) => .error .alreadyExists

end Tree

namespace Handle

def setSize (h : Handle) (t : Tree) (size : Nat) : Except Failure Tree :=
  if sizeLimit ≤ size then .error .sizeTooLarge
  else if !h.access.isWritable then .error .invalidArgument
  else .ok (t.setContent h.file ((t.content h.file).resize size))

def seek (h : Handle) (offset : Nat) : Except Failure Handle :=
  if sizeLimit ≤ offset then .error .invalidArgument else .ok { h with position := offset }

def writePosition (h : Handle) (t : Tree) : Nat :=
  if h.access.append then (t.content h.file).size else h.position

/-- How many of a number of bytes go into the file at once: what the host takes in one call, and
what the file has room for. -/
def taken (h : Handle) (t : Tree) (len : Nat) : Nat :=
  min len (min maxTransfer (sizeLimit - 1 - h.writePosition t))

def writeSome (h : Handle) (t : Tree) (data : List UInt8) : Except Failure Nat × Handle × Tree :=
  if !h.access.isWritable then (.error .badDescriptor, h, t)
  -- The position is looked at even if the data goes to the end of the file.
  else if sizeLimit ≤ h.position + data.length then (.error .invalidArgument, h, t)
  else if sizeLimit ≤ h.writePosition t + 1 then (.error .fileTooLarge, h, t)
  else
    (.ok (h.taken t data.length),
      { h with position := h.writePosition t + h.taken t data.length },
      t.setContent h.file ((t.content h.file).overlay (h.writePosition t)
        (data.take (h.taken t data.length))))

/-- Writes all of some data, in as many calls as it takes. What has been written stays when the rest
fails. Writing nothing always succeeds. -/
def write (h : Handle) (t : Tree) (data : List UInt8) : Except Failure Unit × Handle × Tree :=
  if data = [] then (.ok (), h, t)
  else
    match h.writeSome t data with
    | (.error failure, h, t) => (.error failure, h, t)
    | (.ok 0, h, t) => (.error .writeZero, h, t)
    | (.ok (count + 1), h, t) => h.write t (data.drop (count + 1))
termination_by data.length
decreasing_by
  rename_i hne
  have := List.length_pos_iff.2 hne
  simp only [List.length_drop]
  omega

/-- Reads bytes at the position, as far as the file has them, and moves the position behind them.
Reading nothing always succeeds. -/
def read (h : Handle) (t : Tree) (len : Nat) : Except Failure (Handle × List UInt8) :=
  if len = 0 then .ok (h, [])
  else if !h.access.read then .error .badDescriptor
  else if sizeLimit ≤ h.position + min len readChunk then .error .invalidArgument
  else
    let data := (t.content h.file).slice h.position len
    .ok ({ h with position := h.position + data.length }, data)

def writeAt (h : Handle) (t : Tree) (offset : Nat) (data : List UInt8) :
    Except Failure Unit × Handle × Tree :=
  match h.seek offset with
  | .error failure => (.error failure, h, t)
  | .ok h => h.write t data

/-- Reads the bytes of a range. The position stays at its start when that fails. -/
def readAt (h : Handle) (t : Tree) (offset len : Nat) : Handle × Except Failure (List UInt8) :=
  match h.seek offset with
  | .error failure => (h, .error failure)
  | .ok h =>
    match h.read t len with
    | .ok (h, data) => (h, .ok data)
    | .error failure => (h, .error failure)

end Handle

end VolumeStore.Host
