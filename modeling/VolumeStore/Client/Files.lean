import VolumeStore.Client.Exchange
import VolumeStore.Record.DirEntry
import VolumeStore.Record.Stat
import VolumeStore.Volume.Path

/-!
# Files through a client

The calls of a client on paths and on open files. Paths are brought into canonical form before
anything is sent, so an unusable path never reaches the store; data that is longer than one payload
is split over several requests.
-/

namespace VolumeStore

structure ClientFile where
  fd : UInt64
  path : String
  flags : OpenFlags
deriving DecidableEq, Repr

def chunks (size : Nat) (data : List UInt8) : List (List UInt8) :=
  if data = [] ∨ size = 0 then [] else data.take size :: chunks size (data.drop size)
termination_by data.length
decreasing_by
  rename_i h
  simp only [not_or] at h
  have := List.length_pos_iff.2 h.1
  simp only [List.length_drop]
  omega

namespace Client

variable {σ : Type}

def withPath {α : Type} (path : String) (next : String → Call σ α) : Call σ α := fun o =>
  match VolumePath.normalize path with
  | .ok path => next path o
  | .error error => (.error (.invalidPath error), o)

def andThen {α β : Type} (call : Call σ α) (next : α → Except ClientError β) : Call σ β := fun o =>
  match call o with
  | (.ok value, o) => (next value, o)
  | (.error error, o) => (.error error, o)

def order (n : Network σ) (command : Command) : Call σ Unit :=
  andThen (exchange n { command := command }) fun _ => .ok ()

/-! ## Calls on paths -/

def makeDirectories (n : Network σ) (path : String) : Call σ Unit :=
  withPath path fun path => order n (.makeDirectory path)

def createFile (n : Network σ) (path : String) (size : UInt64) : Call σ Unit :=
  withPath path fun path => order n (.create size path)

def removeDirectory (n : Network σ) (path : String) (recursive : Bool) : Call σ Unit :=
  withPath path fun path => order n (.removeDirectory recursive path)

def deleteFile (n : Network σ) (path : String) : Call σ Unit :=
  withPath path fun path => order n (.delete path)

def rename (n : Network σ) (source target : String) : Call σ Unit :=
  withPath source fun source => withPath target fun target =>
    andThen (batch n [{ command := .renameFrom source }, { command := .renameTo target }])
      fun _ => .ok ()

/-- The requests that append data to a file; there is one even for no data. -/
def appendRequests (limit : Nat) (path : String) (data : List UInt8) : List ClientRequest :=
  if data = [] then [{ command := .append 0 path }]
  else
    (chunks limit data).map fun chunk =>
      { command := .append (UInt64.ofNat chunk.length) path, payload := chunk }

def appendFile (n : Network σ) (path : String) (data : List UInt8) : Call σ Unit :=
  withPath path fun path o =>
    andThen (batch n (appendRequests o.client.settings.maxPayload.toNat path data))
      (fun _ => .ok ()) o

def onWire {α : Type} (result : Except WireError α) : Except ClientError α :=
  result.mapError .wire

def statOf (r : Response) : Except ClientError StatRecord :=
  if r.reply.code = ReplyCode.fileStatus then onWire (StatRecord.parse r.reply.text)
  else .error (.wire (.malformedReply r.reply.text))

def stat (n : Network σ) (path : String) : Call σ StatRecord :=
  withPath path fun path => andThen (exchange n { command := .stat path }) statOf

def entriesOf (r : Response) : Except ClientError (List DirEntry) :=
  onWire (r.lines.mapM DirEntry.parse)

def listDirectory (n : Network σ) (path : String) : Call σ (List DirEntry) :=
  withPath path fun path => andThen (exchange n { command := .list path }) entriesOf

/-- Opens a file. Flags that cannot be used are refused before anything is sent. -/
def openFile (n : Network σ) (path : String) (flags : OpenFlags) : Call σ ClientFile :=
  withPath path fun path o =>
    match flags.fault? with
    | some fault => (.error (.wire (.syntaxError fault)), o)
    | none =>
      andThen (exchange n { command := .openFile flags path })
        (fun r => r.firstNumber.map fun fd => { fd := fd, path := path, flags := flags }) o

/-! ## Calls on open files -/

def writeRequests (fd offset : UInt64) : List (List UInt8) → List ClientRequest
  | [] => []
  | chunk :: rest =>
    let len := UInt64.ofNat chunk.length
    { command := .write fd offset len, payload := chunk } :: writeRequests fd (offset + len) rest

/-- Writes data at an offset. Gives the number of bytes that the store says it wrote. -/
def writeFile (n : Network σ) (file : ClientFile) (offset : UInt64) (data : List UInt8) :
    Call σ Nat := fun o =>
  let pieces := chunks (max 1 o.client.settings.maxPayload.toNat) data
  andThen (batch n (writeRequests file.fd offset pieces))
    (fun responses =>
      (responses.mapM Response.firstNumber).map fun counts => (counts.foldl (· + ·) 0).toNat) o

/-- Reads with at most `requests` requests. A response with fewer bytes than were asked for is the
last one. -/
def readChunks (n : Network σ) (file : ClientFile) (limit : Nat) :
    (requests : Nat) → (offset : UInt64) → (len : Nat) → Call σ (List UInt8)
  | 0, _, _, o => (.ok [], o)
  | requests + 1, offset, len, o =>
    if len = 0 then (.ok [], o)
    else
      let want := min len limit
      match exchange n { command := .read file.fd offset (UInt64.ofNat want) } o with
      | (.error error, o) => (.error error, o)
      | (.ok response, o) =>
        let data := response.data
        -- The file ends here.
        if data.length < want then (.ok data, o)
        else
          match readChunks n file limit requests (offset + UInt64.ofNat data.length)
              (len - data.length) o with
          | (.error error, o) => (.error error, o)
          | (.ok rest, o) => (.ok (data ++ rest), o)

def readFrom (n : Network σ) (file : ClientFile) (offset len : UInt64) : Call σ (List UInt8) :=
  fun o => readChunks n file o.client.settings.maxPayload.toNat len.toNat offset len.toNat o

def flushFile (n : Network σ) (file : ClientFile) : Call σ Unit :=
  order n (.flush file.fd)

def closeFile (n : Network σ) (file : ClientFile) : Call σ Unit :=
  order n (.close file.fd)

def ping (n : Network σ) : Call σ Unit :=
  order n .noop

end Client

end VolumeStore
