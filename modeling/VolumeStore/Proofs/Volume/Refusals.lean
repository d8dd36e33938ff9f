import VolumeStore.Proofs.Host.FileBytes
import VolumeStore.Proofs.Volume.Steps

/-!
# Refused operations

An operation of a volume that is refused leaves the tree as it was, also where it was refused after
a first step: directories are made all or none, an emptied directory can be removed, and a new file
takes the data it was made for.
-/

namespace VolumeStore

open Host (Location Name)

namespace Host.Tree

variable {t : Tree} {p : Path} {loc : Location}

theorem isVacant_clear (t : Tree) (loc : Location) : (t.clear loc).isVacant loc = true := by
  rw [isVacant, List.isEmpty_iff, children, List.filterMap_eq_nil_iff]
  rintro ⟨key, node⟩ hmem
  have hkept := (List.mem_filter.1 hmem).2
  rw [decide_eq_true_eq] at hkept
  cases hlast : key.getLast? with
  | none => simp only [hlast]
  | some name =>
    simp only [hlast]
    rw [if_neg]
    rintro rfl
    have hkey := List.dropLast_append_getLast? name hlast
    exact hkept ⟨⟨[name], hkey⟩, fun he => by simpa using congrArg List.length (hkey.trans he)⟩

theorem removeAll_of_found (hentry : t.entry p = .ok (loc, .directory))
    (hfound : (t.clear loc).entry p = .ok (loc, .directory)) :
    t.removeAll p = (.ok (), (t.clear loc).remove loc) := by
  have hremove : (t.clear loc).removeEmpty p = .ok ((t.clear loc).remove loc) := by
    rw [removeEmpty, hfound]
    exact if_pos (isVacant_clear t loc)
  rw [removeAll, hentry]
  dsimp only
  rw [hremove]

theorem removeAll_of_lost (hentry : t.entry p = .ok (loc, .directory))
    (hlost : (t.clear loc).entry p = .error .noEntry) : t.removeAll p = (.ok (), t.clear loc) := by
  have hremove : (t.clear loc).removeEmpty p = .error .noEntry := by
    rw [removeEmpty, hlost]
  rw [removeAll, hentry]
  dsimp only
  rw [hremove]
  dsimp only
  rw [if_pos (by decide)]

theorem removeAll_of_error {failure : Failure} (h : (t.removeAll p).1 = .error failure) :
    (t.removeAll p).2 = t := by
  cases hentry : t.entry p with
  | error failure =>
    rw [removeAll, hentry]
  | ok found =>
    obtain ⟨loc, node⟩ := found
    cases node with
    | directory =>
      -- Either way the last step succeeds or its failure counts as success, so there was none.
      obtain hfound | hlost := findEntry_clear hentry loc
      · rw [removeAll_of_found hentry hfound] at h
        cases h
      · rw [removeAll_of_lost hentry hlost] at h
        cases h
    | link target =>
      rw [removeAll, hentry] at h
      cases h
    | file id => rw [removeAll, hentry]
    | socket => rw [removeAll, hentry]

theorem setSize_zero (handle : Handle) (t : Tree) (h : handle.access.isWritable = true) :
    ∃ t', handle.setSize t 0 = .ok t' := by
  rw [Handle.setSize, if_neg (by decide), if_neg (by simp [h])]
  exact ⟨_, rfl⟩

end Host.Tree

namespace Volume

open Host.Tree (pathFailure?)

def LeavesTree {α : Type} (t : Host.Tree) (result : Except VolumeError α × Host.Tree) : Prop :=
  ∀ error, result.1 = .error error → result.2 = t

theorem LeavesTree.error {α : Type} (t : Host.Tree) (error : VolumeError) :
    LeavesTree (α := α) t (.error error, t) :=
  fun _ _ => rfl

theorem LeavesTree.ok {α : Type} {t t' : Host.Tree} (value : α) :
    LeavesTree t (.ok value, t') :=
  fun _ h => nomatch h

/-- The size of the file that a path of the volume leads to; a file that is yet to be made has
none. -/
def sizeAt (v : Volume) (t : Host.Tree) (path : String) : Nat :=
  match v.fileAt? t path with
  | some id => (t.content id).size
  | none => 0

variable {v : Volume} {t : Host.Tree} {path : String}

theorem leavesTree_makeDirectories (hwf : t.Connected) (v : Volume) (path : String) :
    LeavesTree t (v.makeDirectories t path) := by
  unfold makeDirectories
  split
  · exact .error t _
  next p hc =>
    split
    · exact .error t _
    · obtain ⟨hp, home, node, k, hr⟩ := exists_rooted_of_confine hc
      have hext := hr.extends_makeDirectories hwf hp
      split
      · exact .ok _
      next failure t' heq =>
        rw [heq] at hext
        cases hext
        exact .error _ _

theorem leavesTree_removeDirectory (v : Volume) (t : Host.Tree) (path : String)
    (recursive : Bool) : LeavesTree t (v.removeDirectory t path recursive) := by
  unfold removeDirectory
  split
  · exact .error t _
  next p hc =>
    split
    · exact .error t _
    · split
      · split
        · split
          · exact .ok _
          next failure t' heq =>
            have hleft := Host.Tree.removeAll_of_error (t := t) (p := v.hostPath p)
              (congrArg Prod.fst heq)
            rw [heq] at hleft
            exact fun _ _ => hleft
        · split
          · exact .ok _
          · exact .error t _
      · exact .error t _
      · exact .error t _

theorem size_of_openFile {p : VolumePath} {access : Host.Access} {create : Bool}
    {handle : Host.Handle} {t' : Host.Tree} (hc : v.confine t path = .ok p)
    (hopen : t.openFile (v.hostPath p) access create = .ok (handle, t')) :
    (t'.content handle.file).size = v.sizeAt t path := by
  obtain ⟨hkept, hthere | ⟨hnone, hnew⟩⟩ := opened_of_openFile hc hopen
  · rw [hkept, sizeAt, hthere]
  · rw [hkept, sizeAt, hnone, hnew, Host.Tree.content_of_length_le t (Nat.le_refl _)]
    rfl

theorem leavesTree_appendFile {data : List UInt8}
    (hfits : v.sizeAt t path + data.length < Host.sizeLimit) :
    LeavesTree t (v.appendFile t path data) := by
  unfold appendFile
  split
  · exact .error t _
  next p hc =>
    split
    · exact .error t _
    · split
      · exact .error t _
      · split
        · exact .error t _
        next handle t₁ hopen =>
          -- The file takes the data, so it is not made in vain.
          have hsize := size_of_openFile hc hopen
          have hhandle : handle.access = { append := true } ∧ handle.position = 0 := by
            obtain ⟨dir, name, -, -, rfl, -⟩ | ⟨loc, id, -, rfl, -⟩ :=
              Host.Tree.openFile_eq_ok hopen <;> exact ⟨rfl, rfl⟩
          have hwritable : handle.access.isWritable = true := by
            rw [hhandle.1]
            rfl
          have hstart : handle.writePosition t₁ = v.sizeAt t path := by
            rw [Host.Handle.writePosition, hhandle.1, if_pos rfl, hsize]
          have hwrite : (handle.write t₁ data).1 = .ok () :=
            Host.Handle.write_of_fits hwritable (by omega) (by rwa [hstart])
          split
          next heq =>
            rw [heq] at hwrite
            cases hwrite
          · exact .ok _

def writeStart (t : Host.Tree) (handle : Host.Handle) (offset : UInt64) (append : Bool) : Nat :=
  if append then handle.writePosition t
  else ({ handle with position := offset.toNat } : Host.Handle).writePosition t

theorem tree_of_writeAt_error {t' : Host.Tree} {handle handle' : Host.Handle} {offset : UInt64}
    {data : List UInt8} {append : Bool} {error : VolumeError}
    (hfits : writeStart t handle offset append + data.length < Host.sizeLimit)
    (h : writeAt t handle offset data append = (.error error, handle', t')) : t' = t := by
  -- A write that fails below the limit has written nothing, wherever it starts.
  have hwrite : ∀ start : Host.Handle, start.writePosition t + data.length < Host.sizeLimit →
      (onHost (start.write t data).1, (start.write t data).2) = (.error error, handle', t') →
        t' = t := by
    intro start hroom heq
    generalize hresult : start.write t data = result at heq
    obtain ⟨answer, handle₁, t₁⟩ := result
    cases answer with
    | ok _ => cases heq
    | error failure =>
      cases heq
      exact Host.Handle.tree_of_write_error hroom hresult
  cases append with
  | true => exact hwrite handle hfits h
  | false =>
    cases hseek : handle.seek offset.toNat with
    | error failure =>
      simp only [writeAt, Host.Handle.writeAt, hseek] at h
      cases h
      rfl
    | ok start =>
      simp only [writeAt, Host.Handle.writeAt, hseek] at h
      obtain ⟨-, rfl⟩ := Host.Handle.seek_eq_ok hseek
      exact hwrite _ hfits h

theorem leavesTree_deleteFile (v : Volume) (t : Host.Tree) (path : String) :
    LeavesTree t (v.deleteFile t path) := by
  unfold deleteFile
  split
  · exact .error t _
  · split
    · exact .error t _
    · split
      · exact .ok _
      · exact .error t _
    · exact .error t _

theorem leavesTree_rename (v : Volume) (t : Host.Tree) (source target : String) :
    LeavesTree t (v.rename t source target) := by
  unfold rename
  repeat' split
  all_goals first
    | exact .error t _
    | exact .ok _

theorem leavesTree_openFile (v : Volume) (t : Host.Tree) (path : String) (flags : OpenFlags) :
    LeavesTree t (v.openFile t path flags) := by
  unfold openFile
  split
  · exact .error t _
  · split
    · exact .error t _
    · split
      · exact .error t _
      next handle t₁ hopen =>
        split
        · obtain ⟨dir, name, -, hwritable, rfl, rfl⟩ | ⟨loc, id, -, -, rfl⟩ :=
            Host.Tree.openFile_eq_ok hopen
          · -- A new file can be emptied, since it was opened for writing.
            obtain ⟨t', hsize⟩ := Host.Tree.setSize_zero
              { file := t.contents.length, access := accessOf flags }
              (t.insertFile (dir ++ [name])).2 hwritable
            rw [hsize]
            exact .ok _
          · split
            · exact .error t₁ _
            · exact .ok _
        · exact .ok _

end Volume

end VolumeStore
