import VolumeStore.Session.Outcome
import VolumeStore.Session.State
import VolumeStore.Settings.Store
import VolumeStore.Volume.Directories
import VolumeStore.Volume.Files
import VolumeStore.Wire.Command

/-!
# Executing commands

What a command does to a session and to the host's files, and what it is answered. Before a volume
is mounted, only mounting, quitting and the empty command are carried out; afterwards all are.
-/

namespace VolumeStore

structure Execution where
  outcome : Outcome
  session : Session
  tree : Host.Tree

namespace Session

def refuse (s : Session) (t : Host.Tree) (error : StoreError) : Execution :=
  ⟨.failed error, s, t⟩

def answer (s : Session) (t : Host.Tree) (code : UInt16) (text : String) : Execution :=
  ⟨.ok code text, s, t⟩

/-! ## Mounting -/

def mountVolume (settings : StoreSettings) (s : Session) (t : Host.Tree) (name : String) :
    Execution :=
  if !isVolumeName name || !settings.hasVolume name then
    s.refuse t (.session (.unknownVolume name))
  else
    let root := settings.volumePath name
    if !t.isDirectory root then s.refuse t (.volume (.directoryNotFound root.display))
    else (s.mount ⟨name, ⟨root⟩⟩).answer t ReplyCode.mounted ("Volume " ++ name ++ " mounted")

def quit (s : Session) (t : Host.Tree) : Execution :=
  ⟨.closing ⟨ReplyCode.goodbye, "Goodbye"⟩, s.unmount, t⟩

def executeUnmounted (settings : StoreSettings) (s : Session) (t : Host.Tree) (command : Command) :
    Execution :=
  match command with
  | .mount name => s.mountVolume settings t name
  | .quit => s.quit t
  | .noop => s.answer t ReplyCode.done "OK"
  | _ => s.refuse t (.session .notMounted)

/-! ## Commands on paths -/

def withVolume (s : Session) (t : Host.Tree) (next : Volume → Execution) : Execution :=
  match s.volume with
  | .ok volume => next volume
  | .error error => s.refuse t (.session error)

def change {α : Type} (s : Session) (t : Host.Tree) (code : UInt16) (text : α → String)
    (operation : Volume → Except VolumeError α × Host.Tree) : Execution :=
  s.withVolume t fun volume =>
    match operation volume with
    | (.ok value, t) => s.answer t code (text value)
    | (.error error, t) => s.refuse t (.volume error)

def appendedText (count size : Nat) : String :=
  Text.decimal count ++ " bytes appended, size " ++ Text.decimal size

def statEntry (s : Session) (t : Host.Tree) (path : String) : Execution :=
  s.withVolume t fun volume =>
    match volume.stat t path with
    | .ok record => s.answer t ReplyCode.fileStatus record.render
    | .error error => s.refuse t (.volume error)

def listDirectory (s : Session) (t : Host.Tree) (path : String) : Execution :=
  s.withVolume t fun volume =>
    match volume.listDirectory t path with
    | .ok entries =>
      let reply : Reply := ⟨ReplyCode.listing, Text.decimal entries.length⟩
      ⟨.done reply (.lines (entries.map (·.render))), s, t⟩
    | .error error => s.refuse t (.volume error)

def renameFrom (s : Session) (t : Host.Tree) (path : String) : Execution :=
  s.withVolume t fun volume =>
    match volume.confine t path with
    | .ok p =>
      if t.exists? (volume.hostPath p) then
        (s.setRenameSource p.render).answer t ReplyCode.pending "Ready for destination"
      else s.refuse t (.volume (.fileNotFound p.render))
    | .error error => s.refuse t (.volume error)

/-- Completes a rename. The source is used up, whatever comes of it. -/
def renameTo (s : Session) (t : Host.Tree) (path : String) : Execution :=
  match s.renameSource with
  | none => s.refuse t (.session (.invalidState .renameWithoutSource))
  | some source =>
    s.clearRenameSource.change t ReplyCode.actionDone ("Renamed to " ++ ·) fun volume =>
      volume.rename t source path

def openPath (s : Session) (t : Host.Tree) (path : String) (flags : OpenFlags) : Execution :=
  s.withVolume t fun volume =>
    match volume.openFile t path flags with
    | (.ok (handle, path), t) =>
      let (fd, s) := s.addFile { handle := handle, path := path, flags := flags }
      s.answer t ReplyCode.done (Text.decimal fd.toNat)
    | (.error error, t) => s.refuse t (.volume error)

/-! ## Commands on descriptors -/

def withFile (s : Session) (t : Host.Tree) (fd : UInt64) (next : OpenFile → Execution) :
    Execution :=
  match s.file fd with
  | .ok file => next file
  | .error error => s.refuse t (.volume error)

def write (s : Session) (t : Host.Tree) (fd offset : UInt64) (payload : List UInt8) : Execution :=
  s.withFile t fd fun file =>
    if !file.flags.isWritable then s.refuse t (.volume (.permissionDenied file.path))
    else
      match Volume.writeAt t file.handle offset payload file.flags.append with
      | (.ok (), handle, t) =>
        (s.setHandle fd handle).answer t ReplyCode.actionDone (Text.decimal payload.length)
      | (.error error, handle, t) => (s.setHandle fd handle).refuse t (.volume error)

def read (settings : StoreSettings) (s : Session) (t : Host.Tree) (fd offset len : UInt64) :
    Execution :=
  -- The length is judged first, whatever the descriptor.
  if settings.maxPayload < len then
    s.refuse t (.wire (.payloadTooLarge len.toNat settings.maxPayload.toNat))
  else
    s.withFile t fd fun file =>
      if !file.flags.read then s.refuse t (.volume (.permissionDenied file.path))
      else
        match Volume.readAt t file.handle offset len.toNat with
        | (handle, .ok data) =>
          ⟨.done ⟨ReplyCode.openingTransfer, Text.decimal data.length⟩ (.bytes data),
            s.setHandle fd handle, t⟩
        | (handle, .error error) => (s.setHandle fd handle).refuse t (.volume error)

def flush (s : Session) (t : Host.Tree) (fd : UInt64) : Execution :=
  s.withFile t fd fun _ => s.answer t ReplyCode.actionDone "Flushed"

def close (s : Session) (t : Host.Tree) (fd : UInt64) : Execution :=
  s.withFile t fd fun _ => (s.dropFile fd).answer t ReplyCode.actionDone "Closed"

/-! ## All commands -/

/-- Half of a rename lasts until the next command. -/
def expireRename (s : Session) : Command → Session
  | .renameTo _ => s
  | _ => s.clearRenameSource

/-- Carries out a command of a session with a volume. The payload is what followed the line of the
command, whatever length the line announced. -/
def executeMounted (settings : StoreSettings) (s : Session) (t : Host.Tree) (command : Command)
    (payload : List UInt8) : Execution :=
  let s := s.expireRename command
  match command with
  | .mount name => s.mountVolume settings t name
  | .quit => s.quit t
  | .noop => s.answer t ReplyCode.done "OK"
  | .makeDirectory path =>
    s.change t ReplyCode.created (fun p => "\"" ++ p ++ "\" created") fun volume =>
      volume.makeDirectories t path
  | .create size path =>
    s.change t ReplyCode.actionDone (fun _ => "File created") fun volume =>
      volume.createFile t path size
  -- The bytes that came count, not the length that was announced for them.
  | .append _ path =>
    s.change t ReplyCode.actionDone (appendedText payload.length) fun volume =>
      volume.appendFile t path payload
  | .stat path => s.statEntry t path
  | .removeDirectory recursive path =>
    s.change t ReplyCode.actionDone (fun _ => "Directory removed") fun volume =>
      volume.removeDirectory t path recursive
  | .delete path =>
    s.change t ReplyCode.actionDone (fun _ => "File removed") fun volume =>
      volume.deleteFile t path
  | .renameFrom path => s.renameFrom t path
  | .renameTo path => s.renameTo t path
  | .list path => s.listDirectory t path
  | .openFile flags path => s.openPath t path flags
  | .write fd offset _ => s.write t fd offset payload
  | .read fd offset len => s.read settings t fd offset len
  | .flush fd => s.flush t fd
  | .close fd => s.close t fd

def execute (settings : StoreSettings) (s : Session) (t : Host.Tree) (command : Command)
    (payload : List UInt8) : Execution :=
  if s.isMounted then s.executeMounted settings t command payload
  else s.executeUnmounted settings t command

end Session

end VolumeStore
