import VolumeStore.Proofs.Session.Steps
import VolumeStore.Proofs.Volume.Refusals

/-!
# Failed commands

A command that fails leaves the host's files and the session as they were, but for half of a rename,
which is used up. The one exception is making a file of a size that the host refuses.
-/

namespace VolumeStore

def OpenFile.rewound (file : OpenFile) : OpenFile :=
  { file with handle := { file.handle with position := 0 } }

namespace Volume

variable {v : Volume} {t t' : Host.Tree}

theorem LeavesTree.eq_of_fault {α : Type} {result : Except VolumeError α × Host.Tree}
    (h : LeavesTree t result) {error : VolumeError} (hfault : fault? result.1 = some error) :
    result.2 = t := by
  obtain ⟨answer, t'⟩ := result
  cases answer with
  | ok value => cases hfault
  | error error' => exact h error' rfl

theorem Operates.eq_of_fault {source : Option String} {payload : List UInt8} {command : Command}
    {fault : Option VolumeError} (h : v.Operates t source payload command fault t')
    (hwf : t.Connected) (hcommand : ∀ size path, command ≠ .create size path)
    (hfits : ∀ len path, command = .append len path →
      v.sizeAt t path + payload.length < Host.sizeLimit) {error : VolumeError}
    (hfault : fault = some error) : t' = t := by
  cases h with
  | makeDirectories path => exact (leavesTree_makeDirectories hwf v path).eq_of_fault hfault
  | createFile path size => exact absurd rfl (hcommand size path)
  | appendFile len path => exact (leavesTree_appendFile (hfits len path rfl)).eq_of_fault hfault
  | removeDirectory path recursive =>
    exact (v.leavesTree_removeDirectory t path recursive).eq_of_fault hfault
  | deleteFile path => exact (v.leavesTree_deleteFile t path).eq_of_fault hfault
  | rename _ path => exact (v.leavesTree_rename t _ path).eq_of_fault hfault
  | openFile path flags => exact (v.leavesTree_openFile t path flags).eq_of_fault hfault

end Volume

namespace Session

def table (s : Session) : List (UInt64 × String × OpenFlags) :=
  s.files.map fun (fd, file) => (fd, file.path, file.flags)

/-- The second session differs from the first one at most in the positions of open files and in that
it has no half of a rename. -/
structure Keeps (s s' : Session) : Prop where
  peer : s'.peer = s.peer
  mounted : s'.mounted = s.mounted
  table : s'.table = s.table
  files : ∀ fd, (s'.file fd).map OpenFile.rewound = (s.file fd).map OpenFile.rewound
  nextFd : s'.nextFd = s.nextFd
  renameSource : s'.renameSource = s.renameSource ∨ s'.renameSource = none

def EndsBelowLimit (s : Session) (t : Host.Tree) (payload : List UInt8) : Command → Prop
  | .append _ path => ∀ v, s.volume = .ok v →
    v.sizeAt t path + payload.length < Host.sizeLimit
  | .write fd offset _ => ∀ file, s.file fd = .ok file →
    Volume.writeStart t file.handle offset file.flags.append + payload.length < Host.sizeLimit
  | _ => True

def KeepsWhenFailed (s : Session) (t : Host.Tree) (e : Execution) : Prop :=
  ∀ error, e.outcome = .failed error → e.tree = t ∧ s.Keeps e.session

variable {settings : StoreSettings} {s s' s'' : Session} {t t' : Host.Tree}

theorem file_setHandle (s : Session) (fd : UInt64) (handle : Host.Handle) (fd' : UInt64) :
    (s.setHandle fd handle).file fd' =
      (s.file fd').map fun file => if fd' = fd then { file with handle := handle } else file := by
  have hmap : (s.setHandle fd handle).files = s.files.map fun entry =>
      (entry.1, if entry.1 = fd then { entry.2 with handle := handle } else entry.2) := by
    refine List.map_congr_left fun entry _ => ?_
    by_cases hfd : entry.1 = fd <;> simp [hfd]
  have hlookup : (s.setHandle fd handle).files.lookup fd' = (s.files.lookup fd').map fun file =>
      if fd' = fd then { file with handle := handle } else file := by
    rw [hmap]
    exact Host.lookup_map_snd (fun key (file : OpenFile) =>
      if key = fd then { file with handle := handle } else file) s.files fd'
  unfold file
  rw [hlookup]
  cases s.files.lookup fd' <;> rfl

namespace Keeps

theorem refl (s : Session) : s.Keeps s :=
  ⟨rfl, rfl, rfl, fun _ => rfl, rfl, .inl rfl⟩

theorem trans (h : s.Keeps s') (h' : s'.Keeps s'') : s.Keeps s'' where
  peer := h'.peer.trans h.peer
  mounted := h'.mounted.trans h.mounted
  table := h'.table.trans h.table
  files fd := (h'.files fd).trans (h.files fd)
  nextFd := h'.nextFd.trans h.nextFd
  renameSource := by
    obtain hsame | hnone := h'.renameSource
    · rw [hsame]
      exact h.renameSource
    · exact .inr hnone

theorem clearRenameSource (s : Session) : s.Keeps s.clearRenameSource :=
  ⟨rfl, rfl, rfl, fun _ => rfl, rfl, .inr rfl⟩

theorem setHandle {fd : UInt64} {file : OpenFile} (hfile : s.file fd = .ok file) {n : Nat}
    {handle : Host.Handle} (hhandle : handle = { file.handle with position := n }) :
    s.Keeps (s.setHandle fd handle) where
  peer := rfl
  mounted := rfl
  table := by
    unfold Session.table Session.setHandle
    rw [List.map_map]
    refine List.map_congr_left fun entry _ => ?_
    by_cases hfd : entry.1 = fd <;> simp [hfd]
  files fd' := by
    rw [file_setHandle]
    by_cases hfd : fd' = fd
    · subst hfd
      simp only [if_true, hfile, hhandle]
      rfl
    · simp only [if_neg hfd]
      cases s.file fd' <;> rfl
  nextFd := rfl
  renameSource := .inl rfl

end Keeps

/-! ## Failures -/

variable {source : Option String} {payload : List UInt8} {command : Command} {e : Execution}

theorem Effect.keeps_of_failed (h : s.Effect settings source t payload command e)
    {error : StoreError} (hfailed : e.outcome = .failed error) : s.Keeps e.session := by
  cases h with
  | refused | declined => exact .refl s
  | cut hfile _ hwrite =>
    obtain ⟨n, hhandle⟩ := Volume.moved_of_writeAt hwrite
    exact .setHandle hfile hhandle
  | stopped hfile _ hread =>
    obtain ⟨n, hhandle⟩ := Volume.moved_of_readAt hread
    exact .setHandle hfile hhandle
  | answered | mounted | left | began | listed | operated | opened | wrote | read | closed =>
    cases hfailed

theorem Effect.tree_of_failed (h : s.Effect settings source t payload command e)
    (hwf : t.Connected) (hcommand : ∀ size path, command ≠ .create size path)
    (hfits : s.EndsBelowLimit t payload command) {error : StoreError}
    (hfailed : e.outcome = .failed error) : e.tree = t := by
  cases h with
  | refused | stopped => rfl
  | declined hvolume hoperates =>
    refine hoperates.eq_of_fault hwf hcommand (fun len path hcommand => ?_) rfl
    subst hcommand
    exact hfits _ hvolume
  | cut hfile _ hwrite => exact Volume.tree_of_writeAt_error (hfits _ hfile) hwrite
  | answered | mounted | left | began | listed | operated | opened | wrote | read | closed =>
    cases hfailed

theorem keepsWhenFailed_executeMounted (settings : StoreSettings) (hwf : t.Connected)
    (hcommand : ∀ size path, command ≠ .create size path)
    (hfits : s.EndsBelowLimit t payload command) :
    s.KeepsWhenFailed t (s.executeMounted settings t command payload) := by
  intro error hfailed
  have heffect := effect_executeMounted settings s t command payload
  have hfits' : s.clearRenameSource.EndsBelowLimit t payload command := by
    cases command <;> exact hfits
  -- Half of a rename may be gone before the command itself fails.
  exact ⟨heffect.tree_of_failed hwf hcommand hfits' hfailed,
    (Keeps.clearRenameSource s).trans (heffect.keeps_of_failed hfailed)⟩

theorem keepsWhenFailed_executeUnmounted (settings : StoreSettings) (s : Session) (t : Host.Tree)
    (command : Command) : s.KeepsWhenFailed t (s.executeUnmounted settings t command) := by
  intro error hfailed
  exact ⟨tree_executeUnmounted settings s t command,
    (effect_executeUnmounted settings s none t command []).keeps_of_failed hfailed⟩

/-- A command other than the one that makes a file of a size fails as a whole: with or without a
volume, and whatever the state, the files and the session are what they were, as long as no file is
to grow beyond the limit. -/
theorem unchanged_of_failed (settings : StoreSettings) (s : Session) (t : Host.Tree)
    (hwf : t.Connected) (command : Command) (hcommand : ∀ size path, command ≠ .create size path)
    (payload : List UInt8) (hfits : s.EndsBelowLimit t payload command) (error : StoreError) :
    ((s.executeMounted settings t command payload).outcome = .failed error →
      (s.executeMounted settings t command payload).tree = t ∧
        s.Keeps (s.executeMounted settings t command payload).session) ∧
    ((s.executeUnmounted settings t command).outcome = .failed error →
      (s.executeUnmounted settings t command).tree = t ∧
        s.Keeps (s.executeUnmounted settings t command).session) :=
  ⟨keepsWhenFailed_executeMounted settings hwf hcommand hfits error,
    keepsWhenFailed_executeUnmounted settings s t command error⟩

def emptyVolume : Host.Tree where
  nodes := [([Text.encode "vol"], .directory)]

def onEmptyVolume : Session where
  mounted := some ⟨"vol", ⟨.ofString "vol"⟩⟩

def filledVolume : Host.Tree where
  nodes :=
    [([Text.encode "vol"], .directory),
     ([Text.encode "vol", Text.encode "d"], .directory),
     ([Text.encode "vol", Text.encode "d", Text.encode "f"], .file 0),
     ([Text.encode "vol", Text.encode "g"], .file 1)]
  contents := [⟨[.bytes [1, 2, 3]]⟩, ⟨[.bytes [4]]⟩]

def halfRenamed : Session :=
  { onEmptyVolume with
    renameSource := some "/d"
    files :=
      [(2, ⟨⟨1, { append := true }, 1⟩, "/g", .appending⟩),
       (1, ⟨⟨0, { read := true }, 2⟩, "/d/f", .readOnly⟩)]
    nextFd := 3 }

theorem unchanged_of_failed_rename :
    filledVolume.Connected ∧ halfRenamed.EndsBelowLimit filledVolume [] (.renameTo "/g") ∧
      (halfRenamed.executeMounted {} filledVolume (.renameTo "/g") []).outcome =
        .failed (.volume (.notADirectory "/g")) ∧
      (halfRenamed.executeMounted {} filledVolume (.renameTo "/g") []).tree = filledVolume ∧
      halfRenamed.Keeps
        (halfRenamed.executeMounted {} filledVolume (.renameTo "/g") []).session := by
  have hconnected : filledVolume.Connected :=
    (Host.Tree.wellFormed_of_nodes (by decide +kernel) (by decide +kernel)).toConnected
  have hfailed : (halfRenamed.executeMounted {} filledVolume (.renameTo "/g") []).outcome =
      .failed (.volume (.notADirectory "/g")) := by decide +kernel
  exact ⟨hconnected, trivial, hfailed, (unchanged_of_failed {} halfRenamed filledVolume hconnected
    (.renameTo "/g") nofun [] trivial _).1 hfailed⟩

end Session

end VolumeStore
