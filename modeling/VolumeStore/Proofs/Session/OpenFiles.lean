import VolumeStore.Proofs.Session.Atomicity
import VolumeStore.Proofs.Session.Descriptors
import VolumeStore.Proofs.Volume.StoredFiles

/-!
# Open files of a session

An open file has the access that its flags ask for, and its content is stored. Whatever a session
carries out, on whatever volumes, it leaves the host's files stored and its open files in order.
-/

namespace VolumeStore

open Host.Tree (StoredAfter)

/-- The open file has the access that its flags ask for, and its content is there. -/
structure OpenFile.InOrder (t : Host.Tree) (file : OpenFile) : Prop where
  access : file.handle.access = Volume.accessOf file.flags
  stored : file.handle.file < t.contents.length

theorem OpenFile.InOrder.mono {t t' : Host.Tree} {file : OpenFile} (h : file.InOrder t)
    (hafter : StoredAfter t t') : file.InOrder t' :=
  ⟨h.access, Nat.lt_of_lt_of_le h.stored hafter.kept⟩

namespace Session

def InOrder (s : Session) (t : Host.Tree) : Prop :=
  ∀ fd file, s.file fd = .ok file → file.InOrder t

/-- What a command of a session leaves: stored files on the host, and open files in order. -/
structure LeavesInOrder (t : Host.Tree) (e : Execution) : Prop where
  after : StoredAfter t e.tree
  files : e.session.InOrder e.tree

variable {settings : StoreSettings} {s : Session} {t t' : Host.Tree} {fd : UInt64}

theorem file_addFile (s : Session) (file : OpenFile) (fd : UInt64) :
    (s.addFile file).2.file fd = if fd = s.nextFd then .ok file else s.file fd := by
  unfold Session.file addFile
  by_cases hfd : fd = s.nextFd
  · simp [hfd]
  · simp [List.lookup_cons, hfd, beq_false_of_ne hfd]

theorem lookup_dropFile_of_ne (s : Session) {other : UInt64} (h : other ≠ fd) :
    (s.dropFile fd).files.lookup other = s.files.lookup other := by
  unfold dropFile
  rw [Host.Tree.lookup_filter (p := fun key => decide (key ≠ fd))]
  simp [h]

theorem file_of_dropFile {file : OpenFile} {other : UInt64}
    (h : (s.dropFile fd).file other = .ok file) : s.file other = .ok file := by
  by_cases hother : other = fd
  · subst hother
    rw [file_of_not_inUse (not_inUse_dropFile s other)] at h
    cases h
  · unfold Session.file at h ⊢
    rwa [lookup_dropFile_of_ne s hother] at h

theorem InOrder.mono (h : s.InOrder t) (hafter : StoredAfter t t') : s.InOrder t' :=
  fun fd file hfile => (h fd file hfile).mono hafter

theorem inOrder_of_files (h : s.files = []) : s.InOrder t := by
  intro fd file hfile
  unfold Session.file at hfile
  rw [h] at hfile
  cases hfile

theorem InOrder.addFile (h : s.InOrder t) {file : OpenFile} (hfile : file.InOrder t) :
    (s.addFile file).2.InOrder t := by
  intro fd file' hfile'
  rw [file_addFile] at hfile'
  split at hfile'
  · cases hfile'
    exact hfile
  · exact h fd file' hfile'

theorem InOrder.dropFile (h : s.InOrder t) (fd : UInt64) : (s.dropFile fd).InOrder t :=
  fun other file hfile => h other file (file_of_dropFile hfile)

theorem InOrder.setHandle (h : s.InOrder t) {file : OpenFile} (hfile : s.file fd = .ok file)
    {handle : Host.Handle} {n : Nat} (hhandle : handle = { file.handle with position := n }) :
    (s.setHandle fd handle).InOrder t := by
  intro other file' hfile'
  rw [file_setHandle] at hfile'
  by_cases hfd : other = fd
  · subst hfd
    rw [hfile] at hfile'
    cases hfile'
    have horder := h other file hfile
    simp only [if_true, hhandle]
    exact ⟨horder.access, horder.stored⟩
  · simp only [if_neg hfd] at hfile'
    cases hother : s.file other with
    | error error =>
      rw [hother] at hfile'
      cases hfile'
    | ok old =>
      rw [hother] at hfile'
      cases hfile'
      exact h other old hother

/-! ## Effects -/

theorem InOrder.leaves (h : s.InOrder t) (hafter : StoredAfter t t') (outcome : Outcome) :
    LeavesInOrder t ⟨outcome, s, t'⟩ :=
  ⟨hafter, h.mono hafter⟩

theorem InOrder.leaves_of_writeAt (h : s.InOrder t) (hstored : t.Stored) {file : OpenFile}
    (hfile : s.file fd = .ok file) {offset : UInt64} {payload : List UInt8} {append : Bool}
    {handle : Host.Handle} {result : Except VolumeError Unit}
    (hwrite : Volume.writeAt t file.handle offset payload append = (result, handle, t'))
    (outcome : Outcome) : LeavesInOrder t ⟨outcome, s.setHandle fd handle, t'⟩ := by
  have hafter := Volume.storedAfter_writeAt hstored file.handle offset payload append
  rw [hwrite] at hafter
  obtain ⟨n, hposition⟩ := Volume.moved_of_writeAt hwrite
  exact (h.setHandle hfile hposition).leaves hafter outcome

theorem storedAfter_of_operates (hstored : t.Stored) {v : Volume} {source : Option String}
    {payload : List UInt8} {command : Command} {fault : Option VolumeError}
    (h : v.Operates t source payload command fault t') : StoredAfter t t' := by
  cases h with
  | makeDirectories path => exact hstored.of_namesFewer (v.namesFewer_makeDirectories t path)
  | createFile path size => exact v.storedAfter_createFile hstored path size
  | appendFile len path => exact v.storedAfter_appendFile hstored path payload
  | removeDirectory path recursive =>
    exact hstored.of_namesFewer (v.namesFewer_removeDirectory t path recursive)
  | deleteFile path => exact hstored.of_namesFewer (v.namesFewer_deleteFile t path)
  | rename _ path => exact hstored.of_namesFewer (v.namesFewer_rename t _ path)
  | openFile path flags => exact (v.storedAfter_openFile hstored path flags).1

theorem Effect.leavesInOrder {source : Option String} {payload : List UInt8} {command : Command}
    {e : Execution} (he : s.Effect settings source t payload command e) (hstored : t.Stored)
    (h : s.InOrder t) : LeavesInOrder t e := by
  cases he with
  -- By what the effect does: a volume may gain files, and a handle may move or be dropped.
  | refused | answered | listed => exact h.leaves hstored.refl _
  | began => exact ⟨hstored.refl, h⟩
  | mounted | left => exact ⟨hstored.refl, inOrder_of_files rfl⟩
  | operated _ hoperates => exact h.leaves (storedAfter_of_operates hstored hoperates) _
  | declined _ hoperates => exact h.leaves (storedAfter_of_operates hstored hoperates) _
  | @opened v flags path path' handle t' _ hopen =>
    obtain ⟨hafter, hopened⟩ := Volume.storedAfter_openFile hstored v path flags
    rw [hopen] at hafter hopened
    obtain ⟨haccess, hfile⟩ := hopened handle path' rfl
    exact ⟨hafter, (h.mono hafter).addFile ⟨haccess, hfile⟩⟩
  | wrote hfile _ hwrite => exact h.leaves_of_writeAt hstored hfile hwrite _
  | cut hfile _ hwrite => exact h.leaves_of_writeAt hstored hfile hwrite _
  | read hfile _ hread =>
    obtain ⟨n, hposition⟩ := Volume.moved_of_readAt hread
    exact (h.setHandle hfile hposition).leaves hstored.refl _
  | stopped hfile _ hread =>
    obtain ⟨n, hposition⟩ := Volume.moved_of_readAt hread
    exact (h.setHandle hfile hposition).leaves hstored.refl _
  | @closed fd => exact ⟨hstored.refl, h.dropFile fd⟩

/-! ## All commands -/

theorem leavesInOrder_executeMounted (settings : StoreSettings) (hstored : t.Stored)
    (h : s.InOrder t) (command : Command) (payload : List UInt8) :
    LeavesInOrder t (s.executeMounted settings t command payload) :=
  (effect_executeMounted settings s t command payload).leavesInOrder hstored h

theorem leavesInOrder_executeUnmounted (settings : StoreSettings) (hstored : t.Stored)
    (h : s.InOrder t) (command : Command) :
    LeavesInOrder t (s.executeUnmounted settings t command) :=
  (effect_executeUnmounted settings s none t command []).leavesInOrder hstored h

theorem leavesInOrder_execute (settings : StoreSettings) (hstored : t.Stored) (h : s.InOrder t)
    (command : Command) (payload : List UInt8) :
    LeavesInOrder t (s.execute settings t command payload) :=
  (effect_execute settings s t command payload).elim (·.leavesInOrder hstored h)
    (·.leavesInOrder hstored h)

end Session

end VolumeStore
