import VolumeStore.Proofs.Host.FileBytes
import VolumeStore.Proofs.Volume.Effects

/-!
# Operations and stored files

Every operation of a volume keeps the files of the host stored, and every file that is opened is
one of them. What is read from an open file or written to it is read or written at its position,
to which the offset moves it first.
-/

namespace VolumeStore.Volume

open Host.Tree (NamesFewer StoredAfter)

variable {v : Volume} {t t' : Host.Tree} {handle : Host.Handle} {offset : UInt64}
  {data : List UInt8} {append : Bool}

/-! ## Directories and names -/

theorem namesFewer_makeDirectories (v : Volume) (t : Host.Tree) (path : String) :
    NamesFewer t (v.makeDirectories t path).2 := by
  obtain hsame | ⟨p, -, hmake⟩ := makeDirectories_cases v t path
  · rw [hsame]
    exact .refl t
  · rw [hmake]
    exact Host.Tree.namesFewer_makeDirectories t _

theorem namesFewer_removeDirectory (v : Volume) (t : Host.Tree) (path : String)
    (recursive : Bool) : NamesFewer t (v.removeDirectory t path recursive).2 := by
  have hr := removeDirectory_removes v t path recursive
  generalize (v.removeDirectory t path recursive).2 = t' at hr ⊢
  cases hr with
  | kept => exact .refl t
  | vacant => exact Host.Tree.namesFewer_remove t _
  | emptied => exact Host.Tree.namesFewer_clear t _
  | @removed p loc =>
    exact (Host.Tree.namesFewer_clear t loc).trans (Host.Tree.namesFewer_remove _ loc)

theorem namesFewer_deleteFile (v : Volume) (t : Host.Tree) (path : String) :
    NamesFewer t (v.deleteFile t path).2 := by
  obtain hsame | ⟨p, loc, node, -, -, -, hremove⟩ := deleteFile_cases v t path
  · rw [hsame]
    exact .refl t
  · rw [hremove]
    exact Host.Tree.namesFewer_remove t loc

theorem namesFewer_rename (v : Volume) (t : Host.Tree) (source target : String) :
    NamesFewer t (v.rename t source target).2 := by
  cases hresult : (v.rename t source target).1 with
  | error error =>
    rw [rename_eq_error hresult]
    exact .refl t
  | ok result =>
    obtain ⟨p, q, -, -, -, -, -, hrename⟩ := rename_eq_ok hresult
    exact Host.Tree.namesFewer_of_rename hrename

/-! ## Files -/

theorem storedAfter_createFile (h : t.Stored) (v : Volume) (path : String) (size : UInt64) :
    StoredAfter t (v.createFile t path size).2 := by
  unfold Volume.createFile
  split
  · exact h.refl
  · split
    · exact h.refl
    · split
      · exact h.refl
      next handle t₁ hcreate =>
        have hmade := h.createFile hcreate
        split
        · exact hmade
        · split
          · exact hmade
          next t₂ hsize => exact hmade.trans (hmade.stored.setSize hsize)

theorem storedAfter_appendFile (h : t.Stored) (v : Volume) (path : String) (data : List UInt8) :
    StoredAfter t (v.appendFile t path data).2 := by
  unfold Volume.appendFile
  split
  · exact h.refl
  · split
    · exact h.refl
    · split
      · exact h.refl
      · split
        · exact h.refl
        next handle t₁ hopen =>
          have hopened := (h.openFile hopen).1
          have hwritten := hopened.trans (hopened.stored.write handle data)
          split
          next heq => rwa [heq] at hwritten
          next heq => rwa [heq] at hwritten

theorem storedAfter_openFile (h : t.Stored) (v : Volume) (path : String) (flags : OpenFlags) :
    StoredAfter t (v.openFile t path flags).2 ∧
      ∀ handle path', (v.openFile t path flags).1 = .ok (handle, path') →
        handle.access = accessOf flags ∧
          handle.file < (v.openFile t path flags).2.contents.length := by
  unfold Volume.openFile
  split
  · exact ⟨h.refl, nofun⟩
  · split
    · exact ⟨h.refl, nofun⟩
    · split
      · exact ⟨h.refl, nofun⟩
      next handle t₁ hopen =>
        obtain ⟨hopened, haccess, hfile⟩ := h.openFile hopen
        -- Truncating sets the size of the file that was just opened.
        split
        · split
          · exact ⟨hopened, nofun⟩
          next t₂ hsize =>
            have hset := hopened.stored.setSize hsize
            refine ⟨hopened.trans hset, fun handle' path' hok => ?_⟩
            cases hok
            exact ⟨haccess, Nat.lt_of_lt_of_le hfile hset.kept⟩
        · refine ⟨hopened, fun handle' path' hok => ?_⟩
          cases hok
          exact ⟨haccess, hfile⟩

/-! ## Open files -/

theorem onHost_eq_ok {α : Type} {result : Except Host.Failure α} {value : α}
    (h : onHost result = .ok value) : result = .ok value := by
  cases result with
  | ok _ =>
    cases h
    rfl
  | error _ => cases h

theorem writeAt_eq_ok {handle' : Host.Handle}
    (h : writeAt t handle offset data append = (.ok (), handle', t')) :
    ∃ n, ({ handle with position := n } : Host.Handle).write t data = (.ok (), handle', t') ∧
      (append = false → n = offset.toNat ∧ n < Host.sizeLimit) := by
  obtain ⟨n, result, hn, hwrite, hresult⟩ | ⟨-, -, error, herror⟩ :=
    writeAt_eq t handle offset data append
  · rw [h] at hwrite hresult
    rw [onHost_eq_ok hresult.symm] at hwrite
    exact ⟨n, hwrite, hn⟩
  · rw [herror] at h
    cases h

theorem readAt_eq_ok {len : Nat} (h : (readAt t handle offset len).2 = .ok data) :
    offset.toNat < Host.sizeLimit ∧
      data = ((t.content handle.file).toList.drop offset.toNat).take len := by
  have hread : (handle.readAt t offset.toNat len).2 = .ok data := onHost_eq_ok h
  unfold Host.Handle.readAt at hread
  split at hread
  · cases hread
  next hseek =>
    obtain ⟨hlt, rfl⟩ := Host.Handle.seek_eq_ok hseek
    split at hread
    next hslice =>
      cases hread
      exact ⟨hlt, Host.Handle.eq_slice_of_read hslice⟩
    · cases hread

theorem readAt_of_lt {len : Nat} (hread : handle.access.read = true)
    (hend : offset.toNat + len < Host.sizeLimit) :
    ∃ handle', readAt t handle offset len =
      (handle', .ok (((t.content handle.file).toList.drop offset.toNat).take len)) := by
  obtain ⟨handle', hslice⟩ :=
    @Host.Handle.read_of_lt { handle with position := offset.toNat } t len hread hend
  have hseek : handle.seek offset.toNat = .ok { handle with position := offset.toNat } :=
    Host.Handle.seek_of_lt (Nat.lt_of_le_of_lt (Nat.le_add_right _ _) hend)
  refine ⟨handle', ?_⟩
  unfold readAt Host.Handle.readAt
  rw [hseek]
  dsimp only
  rw [hslice]
  rfl

theorem storedAfter_writeAt (h : t.Stored) (handle : Host.Handle) (offset : UInt64)
    (data : List UInt8) (append : Bool) :
    StoredAfter t (writeAt t handle offset data append).2.2 := by
  obtain ⟨n, result, -, hwrite, -⟩ | ⟨-, -, error, herror⟩ :=
    writeAt_eq t handle offset data append
  · have hafter := h.write { handle with position := n } data
    rwa [hwrite] at hafter
  · rw [herror]
    exact h.refl

end VolumeStore.Volume
