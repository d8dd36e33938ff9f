import VolumeStore.Host.Directories
import VolumeStore.Proofs.Host.FileChanges

/-!
# Stored files

Every file that an entry names has a content, and no content is larger than the host allows. No
change of a tree takes a content away, so the content that an open file stands for is always there.
-/

namespace VolumeStore.Host.Tree

structure Stored (t : Tree) : Prop where
  named : ∀ entry ∈ t.nodes, ∀ id, entry.2 = .file id → id < t.contents.length
  sized : ∀ c ∈ t.contents, c.size < sizeLimit

/-- What a change of a tree leaves: files that are stored, and all the contents there were. -/
structure StoredAfter (t t' : Tree) : Prop where
  stored : t'.Stored
  kept : t.contents.length ≤ t'.contents.length

/-- A tree with the same contents, in which no file has a name that had none before. -/
structure NamesFewer (t t' : Tree) : Prop where
  contents : t'.contents = t.contents
  named : ∀ entry ∈ t'.nodes, ∀ id, entry.2 = .file id → ∃ old ∈ t.nodes, old.2 = .file id

variable {t t' t'' : Tree} {loc : Location} {id : FileId} {p q : Path}

theorem Stored.lt_of_node? (h : t.Stored) (hnode : t.node? loc = some (.file id)) :
    id < t.contents.length := by
  by_cases hnil : loc = []
  · rw [hnil, node?_nil] at hnode
    cases hnode
  · exact h.named _ (mem_nodes_of_node? hnil hnode) id rfl

theorem Stored.size_lt (h : t.Stored) (id : FileId) : (t.content id).size < sizeLimit := by
  unfold content
  rw [List.getD_eq_getElem?_getD]
  cases hc : t.contents[id]? with
  | none => exact (by decide : Content.size {} < sizeLimit)
  | some c => exact h.sized c (List.mem_of_getElem? hc)

theorem Stored.refl (h : t.Stored) : StoredAfter t t :=
  ⟨h, Nat.le_refl _⟩

theorem StoredAfter.trans (h : StoredAfter t t') (h' : StoredAfter t' t'') : StoredAfter t t'' :=
  ⟨h'.stored, Nat.le_trans h.kept h'.kept⟩

theorem NamesFewer.refl (t : Tree) : NamesFewer t t :=
  ⟨rfl, fun entry hmem _ hfile => ⟨entry, hmem, hfile⟩⟩

theorem NamesFewer.trans (h : NamesFewer t t') (h' : NamesFewer t' t'') : NamesFewer t t'' where
  contents := h'.contents.trans h.contents
  named entry hmem id hfile := by
    obtain ⟨old, hold, hfile'⟩ := h'.named entry hmem id hfile
    exact h.named old hold id hfile'

theorem Stored.of_namesFewer (h : t.Stored) (hfewer : NamesFewer t t') : StoredAfter t t' where
  stored :=
    { named := fun entry hmem id hfile => by
        obtain ⟨old, hold, hfile'⟩ := hfewer.named entry hmem id hfile
        rw [hfewer.contents]
        exact h.named old hold id hfile'
      sized := hfewer.contents ▸ h.sized }
  kept := Nat.le_of_eq (congrArg List.length hfewer.contents.symm)

/-! ## Entries -/

theorem namesFewer_keep (t : Tree) (p : Location → Bool) : NamesFewer t (t.keep p) :=
  ⟨rfl, fun entry hmem _ hfile => ⟨entry, (List.mem_filter.1 hmem).1, hfile⟩⟩

theorem namesFewer_remove (t : Tree) (loc : Location) : NamesFewer t (t.remove loc) :=
  namesFewer_keep t _

theorem namesFewer_clear (t : Tree) (loc : Location) : NamesFewer t (t.clear loc) :=
  namesFewer_keep t _

theorem namesFewer_removeAll (t : Tree) (p : Path) : NamesFewer t (t.removeAll p).2 := by
  unfold removeAll
  split
  next loc _ =>
    have hcleared := namesFewer_clear t loc
    split
    next t' hremove =>
      obtain ⟨loc', -, -, rfl⟩ := removeEmpty_eq_ok hremove
      exact hcleared.trans (namesFewer_remove _ loc')
    · exact hcleared
  · exact namesFewer_remove t _
  · exact .refl t
  · exact .refl t

theorem namesFewer_insert (t : Tree) (loc : Location) :
    NamesFewer t (t.insert loc .directory) := by
  refine ⟨rfl, fun entry hmem id hfile => ?_⟩
  obtain rfl | hold := List.mem_cons.1 hmem
  · cases hfile
  · exact ⟨entry, (List.mem_filter.1 hold).1, hfile⟩

theorem namesFewer_move (t : Tree) (source target : Location) :
    NamesFewer t (t.move source target) := by
  refine ⟨rfl, fun entry hmem id hfile => ?_⟩
  obtain ⟨old, hold, rfl⟩ := List.mem_map.1 hmem
  refine ⟨old, (List.mem_filter.1 hold).1, ?_⟩
  split at hfile <;> exact hfile

/-! ## Making directories -/

theorem namesFewer_of_makeDirectory {start : Location} {names : List Name}
    (h : t.makeDirectory start names = .ok t') : NamesFewer t t' := by
  unfold makeDirectory at h
  split at h
  · cases h
    exact namesFewer_insert t _
  · cases h
  · cases h

theorem namesFewer_makeUpwards (t : Tree) (start : Location) (above : List Name) :
    NamesFewer t (t.makeUpwards start above).2 := by
  induction above generalizing t with
  | nil => exact .refl t
  | cons name above ih =>
    unfold makeUpwards
    dsimp only
    split
    next hmade => exact namesFewer_of_makeDirectory hmade
    · split
      · have habove := ih t
        split
        next heq =>
          rw [heq] at habove
          split
          next hmade => exact habove.trans (namesFewer_of_makeDirectory hmade)
          · exact habove
        next heq =>
          rw [heq] at habove
          exact habove
      · exact .refl t

theorem namesFewer_makeDirectories (t : Tree) (p : Path) :
    NamesFewer t (t.makeDirectories p).2 := by
  unfold makeDirectories
  split
  · exact .refl t
  · split
    · exact .refl t
    · exact namesFewer_makeUpwards t _ _

/-! ## Renaming -/

theorem namesFewer_of_rename (h : t.rename p q = .ok t') : NamesFewer t t' := by
  obtain ⟨-, rfl⟩ |
      ⟨loc, node, -, ⟨dir, name, -, -, -, rfl⟩ | ⟨loc', existing, -, -, -, -, -, rfl⟩⟩ :=
    rename_eq_ok h
  · exact .refl _
  · exact namesFewer_move t _ _
  · exact namesFewer_move t _ _

/-! ## Files -/

theorem node?_of_find_file {follow : Bool} (h : t.find follow p = .ok (.node loc (.file id))) :
    t.node? loc = some (.file id) := by
  unfold find at h
  split at h
  · cases h
  · obtain ⟨k, hleads⟩ := leads_of_walkLinks h
    exact hleads.node?_of_ne_directory nofun

theorem Stored.insertFile (h : t.Stored) (loc : Location) :
    StoredAfter t (t.insertFile loc).2 where
  stored :=
    { named := fun entry hmem id hfile => by
        rw [length_contents_insertFile]
        obtain rfl | hold := List.mem_cons.1 hmem
        · cases hfile
          exact Nat.lt_succ_self _
        · exact Nat.lt_succ_of_lt (h.named entry (List.mem_filter.1 hold).1 id hfile)
      sized := fun c hc => by
        obtain hold | hnew := List.mem_append.1 hc
        · exact h.sized c hold
        · rw [List.mem_singleton.1 hnew]
          decide }
  kept := by
    rw [length_contents_insertFile]
    exact Nat.le_succ _

theorem Stored.setContent (h : t.Stored) (id : FileId) {c : Content} (hc : c.size < sizeLimit) :
    StoredAfter t (t.setContent id c) where
  stored :=
    { named := fun entry hmem id' hfile => by
        rw [length_contents_setContent]
        exact h.named entry hmem id' hfile
      sized := fun d hd => by
        obtain hold | rfl := List.mem_or_eq_of_mem_set hd
        · exact h.sized d hold
        · exact hc }
  kept := Nat.le_of_eq (length_contents_setContent t id c).symm

theorem Stored.openFile (h : t.Stored) {access : Access} {create : Bool} {handle : Handle}
    (hopen : t.openFile p access create = .ok (handle, t')) :
    StoredAfter t t' ∧ handle.access = access ∧ handle.file < t'.contents.length := by
  obtain ⟨dir, name, -, -, rfl, rfl⟩ | ⟨loc, id, hfind, rfl, rfl⟩ := openFile_eq_ok hopen
  · refine ⟨h.insertFile _, rfl, ?_⟩
    rw [length_contents_insertFile]
    exact Nat.lt_succ_self _
  · exact ⟨h.refl, rfl, h.lt_of_node? (node?_of_find_file hfind)⟩

theorem Stored.createFile (h : t.Stored) {handle : Handle}
    (hcreate : t.createFile p = .ok (handle, t')) : StoredAfter t t' := by
  obtain ⟨dir, name, -, -, rfl⟩ := createFile_eq_ok hcreate
  exact h.insertFile _

end Tree

end VolumeStore.Host
