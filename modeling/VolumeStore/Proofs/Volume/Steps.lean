import VolumeStore.Proofs.Host.FileChanges
import VolumeStore.Proofs.Volume.Confined
import VolumeStore.Volume.Directories
import VolumeStore.Volume.Files

/-!
# The steps that operations come to

Every operation of a volume leaves the tree as it is or makes one of a few changes, at the place to
which the look-up of its path leads.
-/

namespace VolumeStore.Volume

open Host (Location Name)
open Host.Tree (target_eq_ok_iff)

/-- What is left by an operation that makes a file, or writes to one. -/
inductive Writes (v : Volume) (t : Host.Tree) (path : String) : Host.Tree → Prop where
  | kept : Writes v t path t
  | written {p loc id} {t' : Host.Tree} (hc : v.confine t path = .ok p)
      (hfind : t.find true (v.hostPath p) = .ok (.node loc (.file id)))
      (hfilled : t.Refilled id t') : Writes v t path t'
  | made {p follow dir name} {t' : Host.Tree} (hc : v.confine t path = .ok p)
      (hfind : t.find follow (v.hostPath p) = .ok (.vacant dir name))
      (hfilled : (t.insertFile (dir ++ [name])).2.Refilled t.contents.length t') :
      Writes v t path t'

/-- What is left by the removal of a directory. It is emptied before its own name is removed. -/
inductive Removes (v : Volume) (t : Host.Tree) (path : String) : Host.Tree → Prop where
  | kept : Removes v t path t
  | vacant {p loc} (hc : v.confine t path = .ok p) (hne : p.names ≠ [])
      (hentry : t.entry (v.hostPath p) = .ok (loc, .directory)) (hvacant : t.isVacant loc = true) :
      Removes v t path (t.remove loc)
  | emptied {p loc} (hc : v.confine t path = .ok p) (hne : p.names ≠ [])
      (hentry : t.entry (v.hostPath p) = .ok (loc, .directory)) :
      Removes v t path (t.clear loc)
  | removed {p loc} (hc : v.confine t path = .ok p) (hne : p.names ≠ [])
      (hentry : t.entry (v.hostPath p) = .ok (loc, .directory))
      (hentry' : (t.clear loc).entry (v.hostPath p) = .ok (loc, .directory)) :
      Removes v t path ((t.clear loc).remove loc)

def fileAt? (v : Volume) (t : Host.Tree) (path : String) : Option Host.FileId :=
  match v.confine t path with
  | .error _ => none
  | .ok p =>
    match t.target (v.hostPath p) with
    | .ok (_, .file id) => some id
    | _ => none

variable {v : Volume} {t t' : Host.Tree} {p q : VolumePath} {path : String} {handle : Host.Handle}

/-! ## Making and writing -/

theorem makeDirectories_cases (v : Volume) (t : Host.Tree) (path : String) :
    (v.makeDirectories t path).2 = t ∨
      ∃ p, v.confine t path = .ok p ∧
        (v.makeDirectories t path).2 = (t.makeDirectories (v.hostPath p)).2 := by
  unfold Volume.makeDirectories
  split
  · exact .inl rfl
  next p hc =>
    split
    · exact .inl rfl
    · refine .inr ⟨p, hc, ?_⟩
      split
      next heq => rw [heq]
      next heq => rw [heq]

theorem createFile_writes (v : Volume) (t : Host.Tree) (path : String) (size : UInt64) :
    Writes v t path (v.createFile t path size).2 := by
  unfold Volume.createFile
  split
  · exact .kept
  next p hc =>
    split
    · exact .kept
    · split
      · exact .kept
      next handle t₁ hcreate =>
        obtain ⟨dir, name, hfind, rfl, rfl⟩ := Host.Tree.createFile_eq_ok hcreate
        split
        · exact .made hc hfind .kept
        · split
          · -- The size was refused, and the file stays.
            exact .made hc hfind .kept
          next t₂ hsize =>
            rw [Host.Handle.setSize_eq_ok hsize]
            exact .made hc hfind (.of_setContent _ _ _)

theorem writes_of_openFile (hc : v.confine t path = .ok p) {access : Host.Access} {create : Bool}
    (hopen : t.openFile (v.hostPath p) access create = .ok (handle, t')) :
    ∀ t'', t'.Refilled handle.file t'' → Writes v t path t'' := by
  obtain ⟨dir, name, hfind, -, rfl, rfl⟩ | ⟨loc, id, hfind, rfl, rfl⟩ :=
    Host.Tree.openFile_eq_ok hopen
  · exact fun _ hfilled => .made hc hfind hfilled
  · exact fun _ hfilled => .written hc hfind hfilled

theorem fileAt?_eq_some_iff {id : Host.FileId} (hc : v.confine t path = .ok p) :
    v.fileAt? t path = some id ↔ ∃ loc, t.target (v.hostPath p) = .ok (loc, .file id) := by
  unfold fileAt?
  rw [hc]
  dsimp only
  split
  next loc id' htarget => simp [htarget]
  next hother => simpa using fun loc htarget => hother loc id htarget

theorem opened_of_openFile (hc : v.confine t path = .ok p)
    {access : Host.Access} {create : Bool}
    (hopen : t.openFile (v.hostPath p) access create = .ok (handle, t')) :
    (∀ id, t'.content id = t.content id) ∧
      (v.fileAt? t path = some handle.file ∨
        v.fileAt? t path = none ∧ handle.file = t.contents.length) := by
  obtain ⟨dir, name, hfind, -, rfl, rfl⟩ | ⟨loc, id, hfind, rfl, rfl⟩ :=
    Host.Tree.openFile_eq_ok hopen
  · refine ⟨fun id => Host.Tree.content_insertFile t _ id, .inr ⟨?_, rfl⟩⟩
    rw [Option.eq_none_iff_forall_ne_some]
    intro id hid
    obtain ⟨loc, htarget⟩ := (fileAt?_eq_some_iff hc).1 hid
    rw [target_eq_ok_iff, hfind] at htarget
    cases htarget
  · exact ⟨fun _ => rfl, .inl ((fileAt?_eq_some_iff hc).2 ⟨loc, target_eq_ok_iff.2 hfind⟩)⟩

theorem appendFile_writes (v : Volume) (t : Host.Tree) (path : String) (data : List UInt8) :
    Writes v t path (v.appendFile t path data).2 := by
  unfold Volume.appendFile
  split
  · exact .kept
  next p hc =>
    split
    · exact .kept
    · split
      · exact .kept
      · split
        · exact .kept
        next handle t₁ hopen =>
          -- What a write that fails has written stays, as the file does.
          have hwritten :=
            writes_of_openFile hc hopen _ (Host.Handle.write_cases handle t₁ data).2
          split
          next heq => rwa [heq] at hwritten
          next heq => rwa [heq] at hwritten

theorem openFile_writes (v : Volume) (t : Host.Tree) (path : String) (flags : OpenFlags) :
    Writes v t path (v.openFile t path flags).2 := by
  unfold Volume.openFile
  split
  · exact .kept
  next p hc =>
    split
    · exact .kept
    · split
      · exact .kept
      next handle t₁ hopen =>
        have hopened := writes_of_openFile hc hopen
        split
        · split
          · exact hopened _ .kept
          next t₂ hsize =>
            rw [Host.Handle.setSize_eq_ok hsize]
            exact hopened _ (.of_setContent _ _ _)
        · exact hopened _ .kept

/-! ## Removing -/

theorem removeAll_removes (hc : v.confine t path = .ok p) (hne : p.names ≠ []) {loc : Location}
    (hentry : t.entry (v.hostPath p) = .ok (loc, .directory)) :
    Removes v t path (t.removeAll (v.hostPath p)).2 := by
  unfold Host.Tree.removeAll
  rw [hentry]
  simp only
  split
  next t' hremove =>
    obtain ⟨loc', hentry', -, rfl⟩ := Host.Tree.removeEmpty_eq_ok hremove
    -- The emptied directory is found again where it was, if it is found.
    obtain hsame | hgone := Host.Tree.findEntry_clear hentry loc
    · have hloc := hentry'
      rw [Host.Tree.entry, hsame] at hloc
      cases hloc
      exact .removed hc hne hentry hentry'
    · rw [Host.Tree.entry, hgone] at hentry'
      cases hentry'
  · exact .emptied hc hne hentry

theorem removeDirectory_removes (v : Volume) (t : Host.Tree) (path : String) (recursive : Bool) :
    Removes v t path (v.removeDirectory t path recursive).2 := by
  -- Refusals keep the tree; what is left are the two calls of the host that remove entries.
  unfold Volume.removeDirectory
  split
  · exact .kept
  next p hc =>
    split
    · exact .kept
    next htop =>
      have hne := VolumePath.names_ne_nil htop
      split
      next loc hentry =>
        split
        · have hremoves := removeAll_removes hc hne hentry
          split
          next heq => rwa [heq] at hremoves
          next heq => rwa [heq] at hremoves
        · split
          next t' hremove =>
            obtain ⟨loc', hentry', hvacant, rfl⟩ := Host.Tree.removeEmpty_eq_ok hremove
            exact .vacant hc hne hentry' hvacant
          · exact .kept
      · exact .kept
      · exact .kept

theorem deleteFile_cases (v : Volume) (t : Host.Tree) (path : String) :
    (v.deleteFile t path).2 = t ∨
      ∃ p loc node, v.confine t path = .ok p ∧ t.entry (v.hostPath p) = .ok (loc, node) ∧
        node ≠ .directory ∧ (v.deleteFile t path).2 = t.remove loc := by
  unfold Volume.deleteFile
  split
  · exact .inl rfl
  next p hc =>
    split
    · exact .inl rfl
    · split
      next t' hunlink =>
        obtain ⟨loc, node, hentry, hnode, rfl⟩ := Host.Tree.unlink_eq_ok hunlink
        exact .inr ⟨p, loc, node, hc, hentry, hnode, rfl⟩
      · exact .inl rfl
    · exact .inl rfl

theorem deleteFile_of_entry {loc : Location} {node : Host.Node} (hc : v.confine t path = .ok p)
    (hentry : t.entry (v.hostPath p) = .ok (loc, node)) (hnode : node ≠ .directory) :
    (v.deleteFile t path).2 = t.remove loc := by
  have hunlink : t.unlink (v.hostPath p) = .ok (t.remove loc) := by
    unfold Host.Tree.unlink
    rw [hentry]
    cases node <;> simp_all
  unfold Volume.deleteFile
  rw [hc]
  simp only [hentry, hunlink]
  cases node <;> simp_all

/-! ## Renaming -/

theorem rename_eq_ok {source target : String} {result : String}
    (h : (v.rename t source target).1 = .ok result) :
    ∃ p q, v.confine t source = .ok p ∧ v.confine t target = .ok q ∧ p ≠ VolumePath.top ∧
      q ≠ VolumePath.top ∧ result = q.render ∧
      t.rename (v.hostPath p) (v.hostPath q) = .ok (v.rename t source target).2 := by
  unfold Volume.rename at h ⊢
  -- A check that fails is a refusal, so a rename that succeeds has passed them all.
  split at h
  · cases h
  · cases h
  next p q hc hc' =>
    split at h
    · cases h
    next htop =>
      rw [not_or] at htop
      split at h
      · cases h
      next hexists =>
        split at h
        · cases h
        next hbelow =>
          split at h
          · cases h
          next hparent =>
            split at h
            next t' hrename =>
              cases h
              refine ⟨p, q, hc, hc', htop.1, htop.2, rfl, ?_⟩
              simp only [htop, or_self, if_false, hexists, hbelow, hrename]
              simp
            · cases h

theorem rename_eq_error {source target : String} {error : VolumeError}
    (h : (v.rename t source target).1 = .error error) : (v.rename t source target).2 = t := by
  generalize hresult : v.rename t source target = result at h ⊢
  obtain ⟨answer, t'⟩ := result
  obtain rfl : answer = .error error := h
  unfold Volume.rename at hresult
  -- Only the last step of all changes the tree, and then there is no error.
  split at hresult
  · cases hresult; rfl
  · cases hresult; rfl
  split at hresult
  · cases hresult; rfl
  split at hresult
  · cases hresult; rfl
  split at hresult
  · cases hresult; rfl
  split at hresult
  · cases hresult; rfl
  split at hresult
  · cases hresult
  · cases hresult; rfl

end VolumeStore.Volume
