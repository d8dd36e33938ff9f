import VolumeStore.Host.Actions
import VolumeStore.Proofs.Host.FileBytes
import VolumeStore.Proofs.Host.StoredFiles

/-!
# After an action from outside

What is put somewhere is found there afterwards, by the same path: the bytes of a file, through all
links, and an entry as it is. The actions keep what the store relies on, that every file has its
content and stays below the limit.
-/

namespace VolumeStore.Host.Tree

variable {t t' : Tree} {p : Path} {node : Node} {data : List UInt8}

/-! ## Files -/

/-- A file that is opened to be written stands at the end of its path. -/
theorem find_of_openFile {handle : Handle} {access : Access}
    (h : t.openFile p access true = .ok (handle, t')) :
    ∃ loc, t'.find true p = .ok (.node loc (.file handle.file)) := by
  obtain ⟨dir, name, hfind, -, rfl, rfl⟩ | ⟨loc, id, hfind, rfl, rfl⟩ := openFile_eq_ok h
  · have hne : dir ++ [name] ≠ [] := by simp
    have hnode : (t.insertFile (dir ++ [name])).2.node? (dir ++ [name]) =
        some (.file t.contents.length) := by
      rw [node?_insertFile t hne, if_pos rfl]
    refine ⟨dir ++ [name], find_fill hfind rfl ?_ hnode fun _ hlink => by cases hlink⟩
    exact fun _ _ => node?_insert_of_some t hne (node?_of_vacant hfind)
  · exact ⟨loc, hfind⟩

theorem fileBytes_of_putFile (hstored : t.Stored) (h : t.putFile p data = .ok t') :
    t'.fileBytes p = .ok data := by
  unfold putFile at h
  cases hopen : t.openFile p { write := true } true with
  | error failure =>
    rw [hopen] at h
    cases h
  | ok opened =>
    obtain ⟨handle, t₁⟩ := opened
    rw [hopen] at h
    cases h
    obtain ⟨loc, hfind⟩ := find_of_openFile hopen
    obtain ⟨-, -, hid⟩ := hstored.openFile hopen
    -- No look-up reads a content, so the path still leads to this file.
    have hfind' : (t₁.setContent handle.file (.ofList data)).find true p =
        .ok (.node loc (.file handle.file)) := find_grow hfind rfl fun _ _ hnode => hnode
    unfold fileBytes
    rw [target_eq_ok_iff.2 hfind']
    simp only [(rewritten_setContent hid (.ofList data)).bytes, Content.toList_ofList]

theorem Stored.putFile (hstored : t.Stored) (hsize : data.length < sizeLimit)
    (h : t.putFile p data = .ok t') : StoredAfter t t' := by
  unfold Tree.putFile at h
  cases hopen : t.openFile p { write := true } true with
  | error failure =>
    rw [hopen] at h
    cases h
  | ok opened =>
    obtain ⟨handle, t₁⟩ := opened
    rw [hopen] at h
    cases h
    have hopened := (hstored.openFile hopen).1
    refine hopened.trans (hopened.stored.setContent _ ?_)
    rwa [← Content.length_toList, Content.toList_ofList]

/-! ## Other entries -/

theorem entry_of_makeEntry (h : t.makeEntry p node = .ok t') :
    ∃ loc, t'.entry p = .ok (loc, node) := by
  unfold makeEntry at h
  split at h
  next dir name hfind =>
    cases h
    have hne : dir ++ [name] ≠ [] := by simp
    have hnode : (t.insert (dir ++ [name]) node).node? (dir ++ [name]) = some node := by
      rw [node?_insert t hne, if_pos rfl]
    refine ⟨dir ++ [name], entry_eq_ok_iff.2 (find_fill hfind rfl ?_ hnode nofun)⟩
    exact fun _ _ => node?_insert_of_some t hne (node?_of_vacant hfind)
  · cases h
  · cases h

theorem namesFewer_removeAny (t : Tree) (p : Path) : NamesFewer t (t.removeAny p).2 := by
  unfold removeAny
  split
  · exact namesFewer_removeAll t p
  · exact namesFewer_remove t _
  · exact .refl t

theorem Stored.removeAny (h : t.Stored) (p : Path) : StoredAfter t (t.removeAny p).2 :=
  h.of_namesFewer (namesFewer_removeAny t p)

end VolumeStore.Host.Tree
