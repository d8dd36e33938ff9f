import VolumeStore.Proofs.Volume.Seated

/-!
# What the operations of a volume change

Every operation of a volume whose directory stands in a well-formed tree stays within that
directory, but for two: deleting and renaming take an entry itself, and when that is a link it may
stand outside.
-/

namespace VolumeStore.Volume

open Host (Location Name Below FileId)
open Host.Tree (StaysWithin ChangesOnly pathFailure? target_eq_ok_iff)

/-- The directory of a volume stands at `home` in a well-formed tree. -/
structure Stands (v : Volume) (t : Host.Tree) (home : Location) : Prop where
  wellFormed : t.WellFormed
  target : t.target v.root = .ok (home, .directory)
  directory : t.node? home = some .directory

/-- The places of a rename: it moves what stands at the first to the second, and where one of them
is not below the volume's directory, a link stands there. -/
structure Moves (v : Volume) (t : Host.Tree) (home : Location) (p q : VolumePath)
    (a b : Location) : Prop where
  places : t.renamePlaces? (v.hostPath p) (v.hostPath q) = some (a, b)
  present : t.node? a ≠ none
  apart : ¬ a <+: b
  apart' : ¬ b <+: a
  wellFormed : (t.move a b).WellFormed
  source : ¬ Below home a → ∃ target, t.node? a = some (.link target)
  target : ¬ Below home b → ∃ target, t.node? b = some (.link target)

variable {v : Volume} {t t' : Host.Tree} {p q : VolumePath} {path : String}
  {home loc dir : Location}
  {name : Name} {node : Host.Node} {handle : Host.Handle}

namespace Stands

theorem refl (h : v.Stands t home) (ids : FileId → Prop) : StaysWithin home ids t t :=
  ⟨.refl home ids t, h.wellFormed⟩

theorem seated (h : v.Stands t home) : v.Seated t home :=
  ⟨h.wellFormed.toConnected, h.target, h.directory⟩

theorem insertFile (h : v.Stands t home) (hc : v.confine t path = .ok p) {follow : Bool}
    (hfind : t.find follow (v.hostPath p) = .ok (.vacant dir name)) (ids : FileId → Prop) :
    StaysWithin home ids t (t.insertFile (dir ++ [name])).2 := by
  obtain ⟨hinside, hdir, hfree⟩ := h.seated.vacant hc hfind
  exact ⟨Host.Tree.changesOnly_insertFile (Host.below_of_prefix_concat hinside),
    h.wellFormed.insertFile hdir hfree⟩

/-! ## Making -/

theorem makeDirectories (h : v.Stands t home) (path : String) :
    StaysWithin home (t.Holds home) t (v.makeDirectories t path).2 := by
  obtain hsame | ⟨p, hc, hmake⟩ := makeDirectories_cases v t path
  · rw [hsame]
    exact h.refl _
  rw [hmake]
  obtain ⟨k, hr⟩ := exists_rooted h.target
  obtain hsame | ⟨hu, above, first, rest, dir, m, hseg, habove, hfree, htree⟩ :=
    hr.makeDirectories_cases h.wellFormed.toConnected (isProper_of_confine hc)
  · rw [hsame]
    exact h.refl _
  · have hinside := hr.inside_of_free hc hu hseg habove hfree
    rw [htree]
    exact ⟨Host.Tree.changesOnly_insertDirectories hinside _, h.wellFormed.insertDirectories
      (habove.holds h.wellFormed.toConnected h.directory) hfree _⟩

theorem refilled (h : v.Stands t home) {id : FileId} (hid : t.Holds home id)
    (hfilled : t.Refilled id t') : StaysWithin home (t.Holds home) t t' :=
  ⟨(hfilled.changesOnly home).mono fun _ he => he ▸ hid,
    hfilled.preserved (fun _ c hu => hu.setContent id c) h.wellFormed⟩

theorem newFile (h : v.Stands t home) (hc : v.confine t path = .ok p) {follow : Bool}
    (hfind : t.find follow (v.hostPath p) = .ok (.vacant dir name))
    (hfilled : (t.insertFile (dir ++ [name])).2.Refilled t.contents.length t') :
    StaysWithin home (t.Holds home) t t' := by
  have hinsert := h.insertFile hc hfind (t.Holds home)
  -- The bytes are those of the new file, which is none of the old ones.
  refine hinsert.trans ⟨hfilled.changesOnly home,
    hfilled.preserved (fun _ c hu => hu.setContent _ c) hinsert.wellFormed⟩ fun id hlt he => ?_
  exact absurd hlt (he ▸ Nat.lt_irrefl _)

/-! ## Opening -/

theorem holds_of_find (h : v.Stands t home) (hc : v.confine t path = .ok p) {id : FileId}
    (hfind : t.find true (v.hostPath p) = .ok (.node loc (.file id))) : t.Holds home id := by
  obtain ⟨k, hr⟩ := exists_rooted h.target
  have hinside := hr.inside_of_target hc (target_eq_ok_iff.2 hfind)
  have hnode : t.node? loc = some (.file id) := by
    by_cases hne : p.names = []
    · rw [hostPath_of_names_eq_nil hne, target_eq_ok_iff.1 h.target] at hfind
      cases hfind
    · exact h.seated.node?_of_find (isProper_of_confine hc) hne hfind
  -- The file is not the directory of the volume.
  refine ⟨loc, ⟨hinside, ?_⟩, hnode⟩
  rintro rfl
  rw [h.directory] at hnode
  cases hnode

theorem of_writes (h : v.Stands t home) (hw : Writes v t path t') :
    StaysWithin home (t.Holds home) t t' := by
  cases hw with
  | kept => exact h.refl _
  | written hc hfind hfilled => exact h.refilled (h.holds_of_find hc hfind) hfilled
  | made hc hfind hfilled => exact h.newFile hc hfind hfilled

theorem createFile (h : v.Stands t home) (path : String) (size : UInt64) :
    StaysWithin home (t.Holds home) t (v.createFile t path size).2 :=
  h.of_writes (createFile_writes v t path size)

theorem appendFile (h : v.Stands t home) (path : String) (data : List UInt8) :
    StaysWithin home (t.Holds home) t (v.appendFile t path data).2 :=
  h.of_writes (appendFile_writes v t path data)

theorem holds_of_openFile (h : v.Stands t home) (hc : v.confine t path = .ok p)
    {access : Host.Access} {create : Bool}
    (hopen : t.openFile (v.hostPath p) access create = .ok (handle, t')) :
    t'.Holds home handle.file := by
  obtain ⟨dir, name, hfind, -, rfl, rfl⟩ | ⟨loc, id, hfind, rfl, rfl⟩ :=
    Host.Tree.openFile_eq_ok hopen
  · obtain ⟨hinside, -, -⟩ := h.seated.vacant hc hfind
    refine ⟨dir ++ [name], Host.below_of_prefix_concat hinside, ?_⟩
    rw [Host.Tree.node?_insertFile t (by simp), if_pos rfl]
  · exact h.holds_of_find hc hfind

theorem openFile (h : v.Stands t home) (path : String) (flags : OpenFlags) :
    StaysWithin home (t.Holds home) t (v.openFile t path flags).2 ∧
      ∀ handle path', (v.openFile t path flags).1 = .ok (handle, path') →
        (v.openFile t path flags).2.Holds home handle.file := by
  refine ⟨h.of_writes (openFile_writes v t path flags), ?_⟩
  -- A handle is given in the last two branches only.
  unfold Volume.openFile
  split
  · exact fun _ _ hok => nomatch hok
  next p hc =>
    split
    · exact fun _ _ hok => nomatch hok
    · split
      · exact fun _ _ hok => nomatch hok
      next handle t₁ hopen =>
        have hid := h.holds_of_openFile hc hopen
        split
        · split
          · exact fun _ _ hok => nomatch hok
          next t₂ hsize =>
            rw [Host.Handle.setSize_eq_ok hsize]
            intro handle' path' hok
            cases hok
            exact hid
        · intro handle' path' hok
          cases hok
          exact hid

/-! ## Removing -/

theorem removeDirectory (h : v.Stands t home) (path : String) (recursive : Bool) :
    StaysWithin home (t.Holds home) t (v.removeDirectory t path recursive).2 := by
  have hr := removeDirectory_removes v t path recursive
  generalize (v.removeDirectory t path recursive).2 = t' at hr ⊢
  cases hr with
  | kept => exact h.refl _
  | vacant hc hne hentry hvacant =>
    have hb := h.seated.below_of_vacant hc hne hentry hvacant
    exact ⟨Host.Tree.changesOnly_remove hb, h.wellFormed.remove hb.ne_nil⟩
  | @emptied p loc hc hne hentry =>
    exact ⟨Host.Tree.changesOnly_clear (h.seated.inside_of_directory hc hentry),
      h.wellFormed.clear loc⟩
  | @removed p loc hc hne hentry hentry' =>
    have hb := h.seated.below_of_emptied hc hne hentry hentry'
    have hclear : StaysWithin home (t.Holds home) t (t.clear loc) :=
      ⟨Host.Tree.changesOnly_clear hb.1, h.wellFormed.clear loc⟩
    exact hclear.trans ⟨Host.Tree.changesOnly_remove hb, hclear.wellFormed.remove hb.ne_nil⟩
      fun _ _ hid => hid

theorem deleteFile (h : v.Stands t home) (path : String)
    (hinside : ∀ p loc node, v.confine t path = .ok p → t.entry (v.hostPath p) = .ok (loc, node) →
      node ≠ .directory → Below home loc) :
    StaysWithin home (t.Holds home) t (v.deleteFile t path).2 := by
  obtain hsame | ⟨p, loc, node, hc, hentry, hnode, hremove⟩ := deleteFile_cases v t path
  · rw [hsame]
    exact h.refl _
  · have hb := hinside p loc node hc hentry hnode
    rw [hremove]
    exact ⟨Host.Tree.changesOnly_remove hb, h.wellFormed.remove hb.ne_nil⟩

/-! ## Renaming -/

theorem moves_of_takes (h : v.Stands t home) {a b : Location} (ht : v.Takes t home p q a b) :
    v.Moves t home p q a b := by
  obtain ⟨dir, name, rfl, hdir⟩ := ht.above
  obtain ⟨node, -, hnode⟩ := ht.found
  exact ⟨ht.places, by simp [hnode], ht.apart, ht.apart',
    h.wellFormed.move ht.ne_nil ht.apart ht.apart' hdir, ht.source, ht.target⟩

theorem moves_of_rename (h : v.Stands t home) {path' : String} (hc : v.confine t path = .ok p)
    (hc' : v.confine t path' = .ok q) (hp : p ≠ VolumePath.top) (hq : q ≠ VolumePath.top)
    (hrename : t.rename (v.hostPath p) (v.hostPath q) = .ok t') :
    (t.renamePlaces? (v.hostPath p) (v.hostPath q) = none ∧ t' = t) ∨
      ∃ a b, v.Moves t home p q a b ∧ t' = t.move a b :=
  (h.seated.takes_of_rename hc hc' hp hq hrename).imp id fun ⟨a, b, htakes, hmove⟩ =>
    ⟨a, b, h.moves_of_takes htakes, hmove⟩

theorem rename_cases (h : v.Stands t home) (source target : String) :
    (v.rename t source target).2 = t ∨
      ∃ p q a b, v.confine t source = .ok p ∧ v.confine t target = .ok q ∧
        (v.rename t source target).1 = .ok q.render ∧ v.Moves t home p q a b ∧
        (v.rename t source target).2 = t.move a b :=
  (h.seated.rename_cases source target).imp id fun ⟨p, q, a, b, hc, hc', hok, htakes, hmove⟩ =>
    ⟨p, q, a, b, hc, hc', hok, h.moves_of_takes htakes, hmove⟩

theorem rename (h : v.Stands t home) (source target : String)
    (hinside : ∀ p q a b, v.confine t source = .ok p → v.confine t target = .ok q →
      v.Moves t home p q a b → Below home a ∧ Below home b) :
    StaysWithin home (t.Holds home) t (v.rename t source target).2 := by
  obtain hsame | ⟨p, q, a, b, hc, hc', -, hmoves, hmove⟩ := h.rename_cases source target
  · rw [hsame]
    exact h.refl _
  · rw [hmove]
    obtain ⟨ha, hb⟩ := hinside p q a b hc hc' hmoves
    exact ⟨Host.Tree.changesOnly_move ha hb hmoves.apart hmoves.apart', hmoves.wellFormed⟩

end Stands

/-! ## Reading and writing -/

theorem writeAt_cases (t : Host.Tree) (handle : Host.Handle) (offset : UInt64)
    (data : List UInt8) (append : Bool) :
    (∃ n, (writeAt t handle offset data append).2.1 = { handle with position := n }) ∧
      t.Refilled handle.file (writeAt t handle offset data append).2.2 := by
  cases append with
  | true => exact Host.Handle.write_cases handle t data
  | false => exact Host.Handle.writeAt_cases handle t offset.toNat data

/-- The data is written at the offset, or where the file stands when it is to append, unless the
offset is beyond the limit. -/
theorem writeAt_eq (t : Host.Tree) (handle : Host.Handle) (offset : UInt64) (data : List UInt8)
    (append : Bool) :
    (∃ n result, (append = false → n = offset.toNat ∧ n < Host.sizeLimit) ∧
      ({ handle with position := n } : Host.Handle).write t data =
        (result, (writeAt t handle offset data append).2) ∧
      (writeAt t handle offset data append).1 = onHost result) ∨
    append = false ∧ Host.sizeLimit ≤ offset.toNat ∧
      ∃ error, writeAt t handle offset data append = (.error error, handle, t) := by
  cases append with
  | true => exact .inl ⟨handle.position, _, nofun, rfl, rfl⟩
  | false =>
    by_cases hlt : offset.toNat < Host.sizeLimit
    · have hwrite : handle.writeAt t offset.toNat data =
          ({ handle with position := offset.toNat } : Host.Handle).write t data := by
        rw [Host.Handle.writeAt, Host.Handle.seek_of_lt hlt]
      refine .inl ⟨offset.toNat, (handle.writeAt t offset.toNat data).1, fun _ => ⟨rfl, hlt⟩, ?_,
        rfl⟩
      rw [← hwrite]
      rfl
    · have hle := Nat.le_of_not_lt hlt
      refine .inr ⟨rfl, hle, .host .invalidArgument, ?_⟩
      simp only [writeAt, Host.Handle.writeAt, Host.Handle.seek, if_pos hle]
      rfl

theorem readAt_cases (t : Host.Tree) (handle : Host.Handle) (offset : UInt64) (len : Nat) :
    ∃ n, (readAt t handle offset len).1 = { handle with position := n } :=
  Host.Handle.readAt_cases handle t offset.toNat len

theorem moved_of_writeAt {offset : UInt64} {data : List UInt8} {append : Bool}
    {handle' : Host.Handle} {result : Except VolumeError Unit}
    (h : writeAt t handle offset data append = (result, handle', t')) :
    ∃ n, handle' = { handle with position := n } := by
  obtain ⟨hposition, -⟩ := writeAt_cases t handle offset data append
  rwa [h] at hposition

theorem refilled_of_writeAt {offset : UInt64} {data : List UInt8} {append : Bool}
    {handle' : Host.Handle} {result : Except VolumeError Unit}
    (h : writeAt t handle offset data append = (result, handle', t')) :
    t.Refilled handle.file t' := by
  obtain ⟨-, hfilled⟩ := writeAt_cases t handle offset data append
  rwa [h] at hfilled

theorem moved_of_readAt {offset : UInt64} {len : Nat} {handle' : Host.Handle}
    {result : Except VolumeError (List UInt8)}
    (h : readAt t handle offset len = (handle', result)) :
    ∃ n, handle' = { handle with position := n } := by
  have hposition := readAt_cases t handle offset len
  rwa [h] at hposition

end VolumeStore.Volume
