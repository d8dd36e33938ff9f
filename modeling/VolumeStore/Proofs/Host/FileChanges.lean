import VolumeStore.Proofs.Host.Frame

/-!
# What calls on the host come to

For each call on the host that may change a tree, what a success says: where the entry stands, and
which change was made.
-/

namespace VolumeStore.Host

namespace Tree

variable {t t' : Tree} {p source target : Path} {handle : Handle} {access : Access} {create : Bool}
  {loc : Location}

theorem createFile_eq_ok (h : t.createFile p = .ok (handle, t')) :
    ∃ dir name, t.find false p = .ok (.vacant dir name) ∧
      handle = { file := t.contents.length, access := { write := true } } ∧
      t' = (t.insertFile (dir ++ [name])).2 := by
  unfold createFile at h
  split at h
  · cases h
  next dir name hfind =>
    cases h
    exact ⟨dir, name, hfind, rfl, rfl⟩
  · cases h

theorem openFile_eq_ok (h : t.openFile p access create = .ok (handle, t')) :
    (∃ dir name, t.find true p = .ok (.vacant dir name) ∧ access.isWritable = true ∧
      handle = { file := t.contents.length, access := access } ∧
      t' = (t.insertFile (dir ++ [name])).2) ∨
    ∃ loc id, t.find true p = .ok (.node loc (.file id)) ∧
      handle = { file := id, access := access } ∧ t' = t := by
  unfold openFile at h
  split at h
  · cases h
  split at h
  · cases h
  next hwritable =>
    split at h
    · cases h
    next dir name hfind =>
      -- The name is free: a file is made for it, which only a writing access may ask for.
      split at h
      next hcreate =>
        cases h
        have hw : access.isWritable = true := by simpa [hcreate] using hwritable
        exact .inl ⟨dir, name, hfind, hw, rfl, rfl⟩
      · cases h
    next loc id hfind =>
      cases h
      exact .inr ⟨loc, id, hfind, rfl, rfl⟩
    · cases h
    · cases h

theorem unlink_eq_ok (h : t.unlink p = .ok t') :
    ∃ loc node, t.entry p = .ok (loc, node) ∧ node ≠ .directory ∧ t' = t.remove loc := by
  unfold unlink at h
  split at h
  · cases h
  next loc node hnode hentry =>
    cases h
    exact ⟨loc, node, hentry, hnode, rfl⟩
  · cases h

theorem removeEmpty_eq_ok (h : t.removeEmpty p = .ok t') :
    ∃ loc, t.entry p = .ok (loc, .directory) ∧ t.isVacant loc = true ∧ t' = t.remove loc := by
  unfold removeEmpty at h
  split at h
  next loc hentry =>
    split at h
    next hvacant =>
      cases h
      exact ⟨loc, hentry, hvacant, rfl⟩
    · cases h
  · cases h
  · cases h

theorem node?_eq_none_of_isVacant (h : t.isVacant loc = true) (name : Name) :
    t.node? (loc ++ [name]) = none := by
  rw [node?_eq_lookup _ (by simp), List.lookup_eq_none_iff]
  rintro ⟨key, node⟩ hmem
  rw [bne_iff_ne]
  rintro rfl
  have hchild := mem_children_iff.2 hmem
  rw [isVacant, List.isEmpty_iff] at h
  rw [h] at hchild
  exact absurd hchild List.not_mem_nil

theorem isVacant_iff : t.isVacant loc = true ↔ ∀ name, t.node? (loc ++ [name]) = none := by
  refine ⟨node?_eq_none_of_isVacant, fun h => ?_⟩
  rw [isVacant, List.isEmpty_iff, List.eq_nil_iff_forall_not_mem]
  rintro ⟨name, node⟩ hmem
  exact node?_of_mem_children hmem (h name)

theorem findEntry_shrink {follow : Bool} {found : Location × Node}
    (h : t.findEntry follow p = .ok found) (hhome : t'.home = t.home)
    (hsub : ∀ loc, t.node? loc ≠ none → t'.node? loc ≠ none → t'.node? loc = t.node? loc) :
    t'.findEntry follow p = .ok found ∨ t'.findEntry follow p = .error .noEntry := by
  unfold findEntry find at h ⊢
  cases hu : pathFailure? p with
  | some failure => simp [hu] at h
  | none =>
    simp only [hu, hhome] at h ⊢
    split at h
    next loc node hwalk =>
      cases h
      obtain ⟨k, hleads⟩ := leads_of_walkLinks hwalk
      -- A name that has become free counts as nothing, as one in the middle does.
      obtain hsame | hgone | ⟨m, dir, name, hvacant⟩ := hleads.shrink hsub
      · rw [hsame.walkLinks]
        exact .inl rfl
      · rw [hgone]
        exact .inr rfl
      · rw [hvacant.walkLinks]
        exact .inr rfl
    · cases h
    · cases h

theorem findEntry_clear {follow : Bool} {found : Location × Node}
    (h : t.findEntry follow p = .ok found) (loc : Location) :
    (t.clear loc).findEntry follow p = .ok found ∨
      (t.clear loc).findEntry follow p = .error .noEntry :=
  findEntry_shrink h rfl fun _ _ => node?_clear_of_ne_none t loc

theorem directory_iff_of_replaceFailure? {node existing : Node}
    (h : t.replaceFailure? node loc existing = none) :
    node = .directory ↔ existing = .directory := by
  cases node <;> cases existing <;> simp_all [replaceFailure?]

def renamePlaces? (t : Tree) (source target : Path) : Option (Location × Location) :=
  match t.rename source target, t.find false source, t.find false target with
  | .ok _, .ok (.node loc _), .ok (.node loc' _) => if loc = loc' then none else some (loc, loc')
  | .ok _, .ok (.node loc _), .ok (.vacant dir name) => some (loc, dir ++ [name])
  | _, _, _ => none

theorem renamePlaces?_eq_none (h : t.rename source target = .ok t')
    (hnone : t.renamePlaces? source target = none) :
    ∃ loc node existing, t.find false source = .ok (.node loc node) ∧
      t.find false target = .ok (.node loc existing) := by
  simp only [renamePlaces?, h] at hnone
  unfold rename at h
  split at h
  · cases h
  · cases h
  · cases h
  next loc node dir name hs ht => simp [hs, ht] at hnone
  next loc node loc' existing hs ht =>
    simp only [hs, ht] at hnone
    split at hnone
    next heq =>
      subst heq
      exact ⟨loc, node, existing, hs, ht⟩
    · cases hnone

/-- A rename that succeeds leaves the tree as it is, or moves an entry to a name that is free or to
an entry that may be replaced. -/
theorem rename_eq_ok (h : t.rename source target = .ok t') :
    (t.renamePlaces? source target = none ∧ t' = t) ∨
    ∃ loc node, t.find false source = .ok (.node loc node) ∧
      ((∃ dir name, t.find false target = .ok (.vacant dir name) ∧ ¬ loc <+: dir ∧
          t.renamePlaces? source target = some (loc, dir ++ [name]) ∧
          t' = t.move loc (dir ++ [name])) ∨
        ∃ loc' existing, t.find false target = .ok (.node loc' existing) ∧
          ¬ loc <+: loc' ∧ ¬ loc' <+: loc ∧ t.replaceFailure? node loc' existing = none ∧
          t.renamePlaces? source target = some (loc, loc') ∧ t' = t.move loc loc') := by
  -- The places are told by the same look-ups, once it is known that the rename succeeds.
  have hok := h
  unfold rename at h
  split at h
  · cases h
  · cases h
  · cases h
  next loc node dir name hs ht =>
    split at h
    · cases h
    next hprefix =>
      cases h
      refine .inr ⟨loc, node, hs, .inl ⟨dir, name, ht, hprefix, ?_, rfl⟩⟩
      simp only [renamePlaces?, hok, hs, ht]
  next loc node loc' existing hs ht =>
    split at h
    next heq =>
      -- Both paths lead to one entry.
      cases h
      refine .inl ⟨?_, rfl⟩
      simp only [renamePlaces?, hok, hs, ht, if_pos heq]
    next hne =>
      split at h
      · cases h
      next hprefix =>
        split at h
        · cases h
        next hprefix' =>
          split at h
          · cases h
          next hreplace =>
            cases h
            refine .inr ⟨loc, node, hs, .inr ⟨loc', existing, ht, hprefix, hprefix', hreplace, ?_,
              rfl⟩⟩
            simp only [renamePlaces?, hok, hs, ht, if_neg hne]

end Tree

namespace Handle

variable {t t' : Tree} {handle handle' : Handle} {size : Nat} {data : List UInt8}

theorem setSize_eq_ok (h : handle.setSize t size = .ok t') :
    t' = t.setContent handle.file ((t.content handle.file).resize size) := by
  unfold setSize at h
  split at h
  · cases h
  split at h
  · cases h
  cases h
  rfl

theorem writeSome_eq_ok {n : Nat} (h : handle.writeSome t data = (.ok n, handle', t')) :
    handle.access.isWritable = true ∧ handle.position + data.length < sizeLimit ∧
      handle.writePosition t + 1 < sizeLimit ∧
      n = handle.taken t data.length ∧
      handle' = { handle with position := handle.writePosition t + n } ∧
      t' = t.setContent handle.file
        ((t.content handle.file).overlay (handle.writePosition t) (data.take n)) := by
  unfold writeSome at h
  split at h
  · cases h
  next hwritable =>
    split at h
    · cases h
    next hposition =>
      split at h
      · cases h
      next hroom =>
        cases h
        exact ⟨by simpa using hwritable, Nat.lt_of_not_le hposition, Nat.lt_of_not_le hroom, rfl,
          rfl, rfl⟩

theorem writeSome_eq_error {failure : Failure}
    (h : handle.writeSome t data = (.error failure, handle', t')) : handle' = handle ∧ t' = t := by
  unfold writeSome at h
  split at h
  · cases h
    exact ⟨rfl, rfl⟩
  split at h
  · cases h
    exact ⟨rfl, rfl⟩
  split at h
  · cases h
    exact ⟨rfl, rfl⟩
  · cases h

theorem file_writeSome (handle : Handle) (t : Tree) (data : List UInt8) :
    (handle.writeSome t data).2.1.file = handle.file := by
  unfold writeSome
  split
  · rfl
  · split
    · rfl
    · split <;> rfl

theorem write_cases (handle : Handle) (t : Tree) (data : List UInt8) :
    (∃ n, (handle.write t data).2.1 = { handle with position := n }) ∧
      t.Refilled handle.file (handle.write t data).2.2 := by
  fun_induction write handle t data with
  | case1 => exact ⟨⟨_, rfl⟩, .kept⟩
  | case2 _ _ _ _ _ _ _ hsome =>
    obtain ⟨rfl, rfl⟩ := writeSome_eq_error hsome
    exact ⟨⟨_, rfl⟩, .kept⟩
  | case3 _ _ _ _ _ _ hsome =>
    obtain ⟨-, -, -, -, rfl, rfl⟩ := writeSome_eq_ok hsome
    exact ⟨⟨_, rfl⟩, .of_setContent _ _ _⟩
  | case4 _ _ _ _ _ _ _ hsome ih =>
    obtain ⟨-, -, -, -, rfl, rfl⟩ := writeSome_eq_ok hsome
    obtain ⟨⟨n, hposition⟩, hfilled⟩ := ih
    exact ⟨⟨n, hposition⟩, (Tree.Refilled.of_setContent _ _ _).trans hfilled⟩

theorem read_eq_ok {len : Nat} (h : handle.read t len = .ok (handle', data)) :
    ∃ n, handle' = { handle with position := n } := by
  unfold read at h
  split at h
  · cases h
    exact ⟨handle.position, rfl⟩
  split at h
  · cases h
  split at h
  · cases h
  cases h
  exact ⟨_, rfl⟩

theorem seek_eq_ok {offset : Nat} (h : handle.seek offset = .ok handle') :
    offset < sizeLimit ∧ handle' = { handle with position := offset } := by
  unfold seek at h
  split at h
  · cases h
  next hlt =>
    cases h
    exact ⟨Nat.lt_of_not_le hlt, rfl⟩

theorem seek_of_lt {offset : Nat} (h : offset < sizeLimit) :
    handle.seek offset = .ok { handle with position := offset } :=
  if_neg (Nat.not_le.2 h)

theorem writeAt_cases (handle : Handle) (t : Tree) (offset : Nat) (data : List UInt8) :
    (∃ n, (handle.writeAt t offset data).2.1 = { handle with position := n }) ∧
      t.Refilled handle.file (handle.writeAt t offset data).2.2 := by
  unfold writeAt
  split
  · exact ⟨⟨_, rfl⟩, .kept⟩
  next hseek =>
    obtain ⟨-, rfl⟩ := seek_eq_ok hseek
    exact write_cases _ t data

theorem readAt_cases (handle : Handle) (t : Tree) (offset len : Nat) :
    ∃ n, (handle.readAt t offset len).1 = { handle with position := n } := by
  unfold readAt
  split
  · exact ⟨_, rfl⟩
  next hseek =>
    obtain ⟨-, rfl⟩ := seek_eq_ok hseek
    split
    next hread =>
      obtain ⟨n, rfl⟩ := read_eq_ok hread
      exact ⟨n, rfl⟩
    · exact ⟨_, rfl⟩

end Handle

end VolumeStore.Host
