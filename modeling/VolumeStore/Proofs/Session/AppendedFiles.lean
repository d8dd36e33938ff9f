import VolumeStore.Proofs.Session.Isolation
import VolumeStore.Proofs.Session.Transfers
import VolumeStore.Proofs.Volume.FileContents

/-!
# Files that are only appended to

As long as nothing is written into a file at an offset and nothing empties it, its bytes stay in
front of all that comes: whatever a session carries out, the file holds its old bytes and behind
them the payloads of the writes and appends to it that succeeded, in their order. A payload that is
too large for the file is refused, but the host may have taken a beginning of it by then. Offsets,
reads and the number of descriptors play no part in it. A descriptor without the right to read or to
write gives neither.
-/

namespace VolumeStore

open Host (FileId)
open Host.Tree (StoredAfter)

namespace Session

/-- A session comes from a new one to this state, on these files, by commands of its own. In between
others may have changed the files. -/
inductive Reached (settings : StoreSettings) : Session → Host.Tree → Prop where
  | started (peer : Peer) {t : Host.Tree} (hstored : t.Stored) :
    Reached settings (Session.ofPeer peer) t
  | carriedOn {s : Session} {t : Host.Tree} (h : Reached settings s t) (command : Command)
    (payload : List UInt8) :
    Reached settings (s.execute settings t command payload).session
      (s.execute settings t command payload).tree
  | changed {s : Session} {t t' : Host.Tree} (h : Reached settings s t)
    (hafter : StoredAfter t t') : Reached settings s t'

def fileBehind? (s : Session) (fd : UInt64) : Option FileId :=
  match s.file fd with
  | .ok file => some file.handle.file
  | .error _ => none

def fileAt? (s : Session) (t : Host.Tree) (path : String) : Option FileId :=
  match s.volume with
  | .ok volume => volume.fileAt? t path
  | .error _ => none

def destination? (s : Session) (t : Host.Tree) : Command → Option FileId
  | .write fd _ _ => s.fileBehind? fd
  | .append _ path => s.fileAt? t path
  | _ => none

/-- The command does not write to the file at an offset, and does not empty it. A descriptor with
the flags for both appends. -/
def Spares (s : Session) (t : Host.Tree) (id : FileId) : Command → Prop
  | .write fd _ _ => ∀ file, s.file fd = .ok file → file.handle.file = id →
    file.flags.write = true → file.flags.append = true
  | .openFile flags path => flags.truncate = true → s.fileAt? t path ≠ some id
  | _ => True

/-- What an instruction adds to a file: its payload, if this is the file that it writes to and it is
not refused. -/
def added (settings : StoreSettings) (s : Session) (t : Host.Tree) (id : FileId)
    (instruction : Instruction) : List UInt8 :=
  match (s.execute settings t instruction.command instruction.payload).outcome with
  | .failed _ => []
  | _ => if s.destination? t instruction.command = some id then instruction.payload else []

/-- What a file may get from an instruction. Of a payload that is refused this is a beginning, and
only if the file has no room for the whole. -/
inductive Adds (settings : StoreSettings) (s : Session) (t : Host.Tree) (id : FileId)
    (instruction : Instruction) : List UInt8 → Prop
  | whole : Adds settings s t id instruction (s.added settings t id instruction)
  | part {piece : List UInt8} {error : StoreError}
    (hrefused : (s.execute settings t instruction.command instruction.payload).outcome =
      .failed error)
    (hhere : s.destination? t instruction.command = some id)
    (hbegins : piece <+: instruction.payload)
    (hlimit : Host.sizeLimit ≤ (t.content id).size + instruction.payload.length) :
    Adds settings s t id instruction piece

def AllSpare (settings : StoreSettings) (id : FileId) :
    Session → Host.Tree → List Instruction → Prop
  | _, _, [] => True
  | s, t, instruction :: rest =>
    let e := s.execute settings t instruction.command instruction.payload
    s.Spares t id instruction.command ∧ AllSpare settings id e.session e.tree rest

variable {settings : StoreSettings} {s : Session} {t t' : Host.Tree} {id : FileId}
  {command : Command} {payload : List UInt8} {fd offset len : UInt64} {file : OpenFile}

/-! ## States that a session comes to -/

theorem Reached.inOrder (h : Reached settings s t) : t.Stored ∧ s.InOrder t := by
  induction h with
  | started peer hstored => exact ⟨hstored, inOrder_of_files rfl⟩
  | carriedOn _ command payload ih =>
    have hleaves := leavesInOrder_execute settings ih.1 ih.2 command payload
    exact ⟨hleaves.after.stored, hleaves.files⟩
  | changed _ hafter ih => exact ⟨hafter.stored, ih.2.mono hafter⟩

theorem content_of_operates (hid : id < t.contents.length) {v : Volume} {source : Option String}
    {fault : Option VolumeError} (h : v.Operates t source payload command fault t')
    (happend : ∀ len path, command ≠ .append len path)
    (hopen : ∀ flags path, command = .openFile flags path → flags.truncate = true →
      v.fileAt? t path ≠ some id) : t'.content id = t.content id := by
  cases h with
  | makeDirectories path => exact (v.namesFewer_makeDirectories t path).keepsContents id hid
  | createFile path size => exact v.keepsContents_createFile t path size id hid
  | appendFile len path => exact absurd rfl (happend len path)
  | removeDirectory path recursive =>
    exact (v.namesFewer_removeDirectory t path recursive).keepsContents id hid
  | deleteFile path => exact (v.namesFewer_deleteFile t path).keepsContents id hid
  | rename _ path => exact (v.namesFewer_rename t _ path).keepsContents id hid
  | openFile path flags => exact Volume.content_openFile hid (hopen flags path rfl)

theorem Effect.content {source : Option String} {e : Execution}
    (he : s.Effect settings source t payload command e) (hid : id < t.contents.length)
    (h : s.Spares t id command) (hwrite : ∀ fd offset len, command ≠ .write fd offset len)
    (happend : ∀ len path, command ≠ .append len path) : e.tree.content id = t.content id := by
  have hkept : ∀ {v : Volume} {fault t'}, s.volume = .ok v →
      v.Operates t source payload command fault t' → t'.content id = t.content id := by
    intro v fault t' hvolume hoperates
    refine content_of_operates hid hoperates happend fun flags path hcommand htruncate => ?_
    subst hcommand
    have hne := h htruncate
    unfold fileAt? at hne
    rwa [hvolume] at hne
  cases he with
  | refused | answered | mounted | left | began | listed | read | stopped | closed => rfl
  | operated hvolume hoperates => exact hkept hvolume hoperates
  | declined hvolume hoperates => exact hkept hvolume hoperates
  | @opened v flags path _ _ _ hvolume hopen =>
    have hopened := hkept hvolume (.openFile path flags)
    rwa [hopen] at hopened
  | wrote | cut => exact absurd rfl (hwrite _ _ _)

theorem Reached.run (h : Reached settings s t) (run : List Instruction) :
    Reached settings (s.run settings t run).session (s.run settings t run).tree := by
  induction run generalizing s t with
  | nil => exact h
  | cons instruction rest ih => exact ih (h.carriedOn instruction.command instruction.payload)

theorem AllSpare.of_append {front back : List Instruction}
    (h : AllSpare settings id s t (front ++ back)) :
    AllSpare settings id (s.run settings t front).session (s.run settings t front).tree back := by
  induction front generalizing s t with
  | nil => exact h
  | cons instruction front ih => exact ih h.2

end Session

end VolumeStore
