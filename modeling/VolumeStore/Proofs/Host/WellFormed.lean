import VolumeStore.Proofs.Host.TreeView

/-!
# Well-formed trees

In a well-formed tree every entry stands in a directory and every file has a content of its own.
Each change that the host makes keeps a tree well formed, under the conditions that its look-ups
establish.
-/

namespace VolumeStore.Host.Tree

structure Connected (t : Tree) : Prop where
  above : ∀ {loc : Location} {name : Name},
    t.node? (loc ++ [name]) ≠ none → t.node? loc = some .directory

/-- Moreover every file has a content, and no two entries name the same one. -/
structure WellFormed (t : Tree) : Prop extends Connected t where
  stored : ∀ {loc : Location} {id : FileId},
    t.node? loc = some (.file id) → id < t.contents.length
  unshared : ∀ {loc loc' : Location} {id : FileId},
    t.node? loc = some (.file id) → t.node? loc' = some (.file id) → loc = loc'

variable {t : Tree} {loc loc' dir source target : Location} {name : Name}

namespace Connected

theorem directory_of_append (h : t.Connected) {names : List Name} (hne : names ≠ [])
    (hn : t.node? (loc ++ names) ≠ none) : t.node? loc = some .directory := by
  induction names generalizing loc with
  | nil => exact absurd rfl hne
  | cons name names ih =>
    rw [← List.singleton_append, ← List.append_assoc] at hn
    by_cases hnames : names = []
    · subst hnames
      exact h.above (by simpa using hn)
    · have hd : t.node? (loc ++ [name]) ≠ none := by simp [ih hnames hn]
      exact h.above hd

theorem directory_of_below (h : t.Connected) (hb : Below loc loc') (hn : t.node? loc' ≠ none) :
    t.node? loc = some .directory := by
  obtain ⟨⟨names, rfl⟩, hne⟩ := hb
  exact h.directory_of_append (by simpa using hne) hn

theorem directory_of_prefix (h : t.Connected) (hp : loc <+: loc')
    (hd : t.node? loc' = some .directory) : t.node? loc = some .directory := by
  by_cases he : loc' = loc
  · rwa [← he]
  · exact h.directory_of_below ⟨hp, he⟩ (by simp [hd])

theorem ne_none_of_prefix (h : t.Connected) (hp : loc <+: loc') (hn : t.node? loc' ≠ none) :
    t.node? loc ≠ none := by
  by_cases he : loc' = loc
  · rwa [← he]
  · simp [h.directory_of_below ⟨hp, he⟩ hn]

theorem node?_below_eq_none (h : t.Connected) (hn : t.node? loc ≠ some .directory)
    (hb : Below loc loc') : t.node? loc' = none := by
  by_contra hne
  exact hn (h.directory_of_below hb hne)

/-! ## New entries -/

theorem above_insert (h : t.Connected) (hd : t.node? dir = some .directory)
    (hfree : t.node? (dir ++ [name]) = none) (node : Node) {name' : Name}
    (hn : (t.insert (dir ++ [name]) node).node? (loc ++ [name']) ≠ none) :
    (t.insert (dir ++ [name]) node).node? loc = some .directory := by
  have hne : dir ++ [name] ≠ [] := by simp
  rw [node?_insert t hne] at hn ⊢
  by_cases he : loc ++ [name'] = dir ++ [name]
  · obtain ⟨rfl, -⟩ := List.append_inj' he rfl
    rwa [if_neg (by simp)]
  · rw [if_neg he] at hn
    have hloc := h.above hn
    rw [if_neg, hloc]
    rintro rfl
    simp [hfree] at hloc

theorem insert (h : t.Connected) (hd : t.node? dir = some .directory)
    (hfree : t.node? (dir ++ [name]) = none) (node : Node) :
    (t.insert (dir ++ [name]) node).Connected :=
  ⟨h.above_insert hd hfree node⟩

theorem insertFile (h : t.Connected) (hd : t.node? dir = some .directory)
    (hfree : t.node? (dir ++ [name]) = none) : (t.insertFile (dir ++ [name])).2.Connected :=
  ⟨fun hn => h.above_insert hd hfree _ hn⟩

theorem setContent (h : t.Connected) (id : FileId) (c : Content) : (t.setContent id c).Connected :=
  ⟨h.above⟩

end Connected

namespace WellFormed

theorem insert_directory (h : t.WellFormed) (hd : t.node? dir = some .directory)
    (hfree : t.node? (dir ++ [name]) = none) :
    (t.insert (dir ++ [name]) .directory).WellFormed := by
  have hne : dir ++ [name] ≠ [] := by simp
  have hfile : ∀ {loc id}, (t.insert (dir ++ [name]) .directory).node? loc = some (.file id) →
      t.node? loc = some (.file id) := by
    intro loc id hn
    rw [node?_insert t hne] at hn
    split at hn
    · simp at hn
    · exact hn
  exact ⟨h.toConnected.insert hd hfree _, fun hn => h.stored (hfile hn),
    fun hn hn' => h.unshared (hfile hn) (hfile hn')⟩

theorem insertFile (h : t.WellFormed) (hd : t.node? dir = some .directory)
    (hfree : t.node? (dir ++ [name]) = none) :
    (t.insertFile (dir ++ [name])).2.WellFormed := by
  have hne : dir ++ [name] ≠ [] := by simp
  -- The new file's number is one that no file had before.
  have hfile : ∀ {loc id}, (t.insertFile (dir ++ [name])).2.node? loc = some (.file id) →
      (loc = dir ++ [name] ∧ id = t.contents.length) ∨ t.node? loc = some (.file id) := by
    intro loc id hn
    rw [node?_insertFile t hne] at hn
    split at hn
    next he => exact .inl ⟨he, by simpa using hn.symm⟩
    next he => exact .inr hn
  refine ⟨h.toConnected.insertFile hd hfree, fun hn => ?_, fun hn hn' => ?_⟩
  · rw [length_contents_insertFile]
    obtain ⟨-, rfl⟩ | hold := hfile hn
    · exact Nat.lt_succ_self _
    · exact Nat.lt_succ_of_lt (h.stored hold)
  · obtain ⟨rfl, hid⟩ | hold := hfile hn
    · obtain ⟨rfl, -⟩ | hold' := hfile hn'
      · rfl
      · exact absurd (h.stored hold') (by simp [hid])
    · obtain ⟨rfl, hid'⟩ | hold' := hfile hn'
      · exact absurd (h.stored hold) (by simp [hid'])
      · exact h.unshared hold hold'

theorem setContent (h : t.WellFormed) (id : FileId) (c : Content) :
    (t.setContent id c).WellFormed :=
  ⟨h.toConnected.setContent id c, fun hn => by simpa using h.stored hn, h.unshared⟩

/-! ## Entries taken away -/

end WellFormed

/-- From one tree to the other, entries were taken away, and every entry that is left keeps what
stands above it. -/
structure Thinned (t t' : Tree) : Prop where
  same : ∀ loc, t'.node? loc ≠ none → t'.node? loc = t.node? loc
  above : ∀ {loc name}, t'.node? (loc ++ [name]) ≠ none → t'.node? loc = t.node? loc

theorem thinned_remove (t : Tree) (hne : loc ≠ []) : Thinned t (t.remove loc) where
  same l hn := by
    rw [node?_remove t hne] at hn ⊢
    split at hn
    · exact absurd rfl hn
    next hp => rw [if_neg hp]
  above {l n} hn := by
    rw [node?_remove t hne] at hn ⊢
    rw [if_neg]
    intro hp
    exact hn (if_pos (hp.trans (List.prefix_append _ _)))

theorem thinned_clear (t : Tree) (loc : Location) : Thinned t (t.clear loc) where
  same _ hn := node?_clear_of_ne_none t loc hn
  above {l n} hn := by
    rw [node?_clear] at hn ⊢
    rw [if_neg]
    intro hp
    exact hn (if_pos (hp.of_prefix (List.prefix_append _ _)))

theorem Thinned.refl (t : Tree) : Thinned t t :=
  ⟨fun _ _ => rfl, fun _ => rfl⟩

theorem Thinned.trans {t' t'' : Tree} (h : Thinned t t') (h' : Thinned t' t'') : Thinned t t'' where
  same loc hn := (h'.same loc hn).trans (h.same loc (h'.same loc hn ▸ hn))
  above {loc name} hn :=
    (h'.above hn).trans (h.above (h'.same (loc ++ [name]) hn ▸ hn))

theorem Connected.of_thinned (h : t.Connected) {t' : Tree} (hthin : Thinned t t') :
    t'.Connected := by
  refine ⟨fun {loc name} hn => ?_⟩
  rw [hthin.above hn]
  exact h.above (by rwa [← hthin.same _ hn])

namespace WellFormed

theorem of_thinned (h : t.WellFormed) {t' : Tree} (hthin : Thinned t t')
    (hc : t'.contents = t.contents) : t'.WellFormed := by
  have hfile : ∀ {loc id}, t'.node? loc = some (.file id) → t.node? loc = some (.file id) :=
    fun {loc id} hn => by rw [← hthin.same loc (by simp [hn]), hn]
  exact ⟨h.toConnected.of_thinned hthin, fun hn => hc ▸ h.stored (hfile hn),
    fun hn hn' => h.unshared (hfile hn) (hfile hn')⟩

theorem remove (h : t.WellFormed) (hne : loc ≠ []) : (t.remove loc).WellFormed :=
  h.of_thinned (thinned_remove t hne) rfl

theorem clear (h : t.WellFormed) (loc : Location) : (t.clear loc).WellFormed :=
  h.of_thinned (thinned_clear t loc) rfl

/-! ## Entries moved -/

def cameFrom (source target loc : Location) : Location :=
  if target <+: loc then source ++ loc.drop target.length else loc

theorem node?_move_ne_none (hs : source ≠ []) (hst : ¬ source <+: target)
    (hts : ¬ target <+: source) {loc : Location} (hn : (t.move source target).node? loc ≠ none) :
    (t.move source target).node? loc = t.node? (cameFrom source target loc) ∧
      (target <+: loc ∨ ¬ source <+: loc) := by
  rw [node?_move t hs hst hts] at hn ⊢
  unfold cameFrom
  split at hn
  next ht => exact ⟨by rw [if_pos ht, if_pos ht], .inl ht⟩
  next ht =>
    split at hn
    · exact absurd rfl hn
    next hsl => exact ⟨by rw [if_neg ht, if_neg hsl, if_neg ht], .inr hsl⟩

theorem eq_of_cameFrom_eq {loc loc' : Location}
    (hl : target <+: loc ∨ ¬ source <+: loc) (hl' : target <+: loc' ∨ ¬ source <+: loc')
    (h : cameFrom source target loc = cameFrom source target loc') : loc = loc' := by
  unfold cameFrom at h
  by_cases ht : target <+: loc <;> by_cases ht' : target <+: loc' <;>
    simp only [ht, ht', if_true, if_false] at h hl hl'
  · obtain ⟨names, rfl⟩ := ht
    obtain ⟨names', rfl⟩ := ht'
    simpa using h
  · simp [← h] at hl'
  · simp [h] at hl
  · exact h

end WellFormed

theorem Connected.move (h : t.Connected) (hs : source ≠ []) (hst : ¬ source <+: dir ++ [name])
    (hts : ¬ dir ++ [name] <+: source) (hd : t.node? dir = some .directory) :
    (t.move source (dir ++ [name])).Connected := by
  refine ⟨fun {l n} hn => ?_⟩
  rw [node?_move t hs hst hts] at hn ⊢
  by_cases ht : dir ++ [name] <+: l
  · -- Inside the moved subtree.
    rw [if_pos ht]
    rw [if_pos (ht.trans (List.prefix_append _ _))] at hn
    obtain ⟨names, rfl⟩ := ht
    rw [List.append_assoc, List.drop_left, ← List.append_assoc] at hn
    rw [List.drop_left]
    exact h.above hn
  · rw [if_neg ht]
    by_cases htn : dir ++ [name] <+: l ++ [n]
    · -- The moved entry itself: its directory has stayed.
      obtain ⟨rfl, -⟩ : dir = l ∧ [name] = [n] := by
        refine List.append_inj' ?_ rfl
        obtain hp | hp := List.prefix_concat_iff.1 htn
        · simpa using hp
        · exact absurd hp ht
      rw [if_neg (fun hp => hst (hp.trans (List.prefix_append _ _))), hd]
    · rw [if_neg htn] at hn
      split at hn
      · exact absurd rfl hn
      next hsn =>
        rw [if_neg (fun hp => hsn (hp.trans (List.prefix_append _ _)))]
        exact h.above hn

theorem WellFormed.move (h : t.WellFormed) (hs : source ≠ []) (hst : ¬ source <+: dir ++ [name])
    (hts : ¬ dir ++ [name] <+: source) (hd : t.node? dir = some .directory) :
    (t.move source (dir ++ [name])).WellFormed := by
  have hfile : ∀ {loc id}, (t.move source (dir ++ [name])).node? loc = some (.file id) →
      t.node? (cameFrom source (dir ++ [name]) loc) = some (.file id) ∧
        (dir ++ [name] <+: loc ∨ ¬ source <+: loc) := by
    intro loc id hn
    have hne : (t.move source (dir ++ [name])).node? loc ≠ none := by simp [hn]
    obtain ⟨he, hor⟩ := node?_move_ne_none hs hst hts hne
    exact ⟨by rw [← he, hn], hor⟩
  exact ⟨h.toConnected.move hs hst hts hd, fun hn => h.stored (hfile hn).1,
    fun hn hn' => eq_of_cameFrom_eq (hfile hn).2 (hfile hn').2
      (h.unshared (hfile hn).1 (hfile hn').1)⟩

/-! ## Checking a tree -/

def fileOf? : Node → Option FileId
  | .file id => some id
  | _ => none

theorem mem_nodes_of_node? (hne : loc ≠ []) {node : Node} (h : t.node? loc = some node) :
    (loc, node) ∈ t.nodes := by
  rw [node?_eq_lookup _ hne, List.lookup_eq_some_iff] at h
  obtain ⟨before, after, hnodes, -⟩ := h
  rw [hnodes]
  simp

theorem wellFormed_of_nodes (habove : ∀ entry ∈ t.nodes, t.node? entry.1.dropLast = some .directory)
    (hfiles : ∀ entry ∈ t.nodes, ∀ id ∈ fileOf? entry.2, id < t.contents.length ∧
      ∀ entry' ∈ t.nodes, fileOf? entry'.2 = some id → entry'.1 = entry.1) : t.WellFormed := by
  have hmem : ∀ {loc id}, t.node? loc = some (.file id) → (loc, Node.file id) ∈ t.nodes := by
    intro loc id h
    refine mem_nodes_of_node? ?_ h
    rintro rfl
    rw [node?_nil] at h
    cases h
  refine ⟨⟨fun {loc name} hn => ?_⟩, fun h => (hfiles _ (hmem h) _ rfl).1,
    fun h h' => ((hfiles _ (hmem h) _ rfl).2 _ (hmem h') rfl).symm⟩
  -- An entry that is seen is listed.
  obtain ⟨node, hnode⟩ := Option.ne_none_iff_exists'.1 hn
  have h := habove _ (mem_nodes_of_node? (by simp) hnode)
  rwa [List.dropLast_concat] at h

end VolumeStore.Host.Tree
