import VolumeStore.Proofs.Volume.HostPath

/-!
# Looking up the paths of a volume

Once the directory of a volume is found, a path of the volume is looked up from there. What a
confined path leads to stands inside that directory, unless it is a link that is not followed.
-/

namespace VolumeStore

open Host (Location Name IsEntryName maxLinks maxPathBytes)
open Host.Tree (Leads Extends isTelling pathFailure? pathLength pathFailure?_eq_none_of_find
  target_eq_ok_iff)

theorem pathFailure?_eq_none_iff {p : Host.Path} :
    pathFailure? p = none ↔ 0 ∉ p.bytes ∧ p.bytes ≠ [] ∧ p.bytes.length < maxPathBytes := by
  unfold pathFailure?
  split
  next h => simp [h]
  next h =>
    split
    next h' => simp [h']
    next h' =>
      split
      next h'' => simp [h'']
      next h'' => simp [h, h', Nat.lt_of_not_le h'']

theorem pathFailure?_of_isPrefix {p q : Host.Path} (h : pathFailure? q = none)
    (hp : p.bytes <+: q.bytes) (hne : p.bytes ≠ []) : pathFailure? p = none := by
  rw [pathFailure?_eq_none_iff] at h ⊢
  exact ⟨fun hmem => h.1 (hp.subset hmem), hne, Nat.lt_of_le_of_lt hp.length_le h.2.2⟩

theorem intercalate_append {α : Type} (sep : List α) {fields rest : List (List α)}
    (h : fields ≠ []) (hrest : rest ≠ []) :
    List.intercalate sep (fields ++ rest) =
      List.intercalate sep fields ++ sep ++ List.intercalate sep rest := by
  induction fields with
  | nil => exact absurd rfl h
  | cons field fields ih =>
    cases fields with
    | nil =>
      obtain ⟨next, rest, rfl⟩ := List.exists_cons_of_ne_nil hrest
      rw [List.singleton_append, List.intercalate_cons_cons, List.intercalate_singleton]
    | cons next fields =>
      rw [List.cons_append, List.cons_append, List.intercalate_cons_cons,
        List.intercalate_cons_cons, ← List.cons_append, ih (by simp)]
      simp only [List.append_assoc]

theorem intercalate_isPrefix_append {α : Type} (sep : List α) {fields : List (List α)}
    (h : fields ≠ []) (rest : List (List α)) :
    List.intercalate sep fields <+: List.intercalate sep (fields ++ rest) := by
  by_cases hrest : rest = []
  · simp [hrest]
  · rw [intercalate_append sep h hrest, List.append_assoc]
    exact List.prefix_append _ _

namespace Volume

variable {v : Volume} {t : Host.Tree} {p q : VolumePath} {path : String} {home loc dir : Location}
  {name : Name} {k : Nat} {follow : Bool} {node : Host.Node}

/-- The root of a volume leads to a node at `home`, and `k` links are left then. -/
structure Rooted (v : Volume) (t : Host.Tree) (home : Location) (node : Host.Node) (k : Nat) :
    Prop where
  usable : pathFailure? v.root = none
  leads : Leads t true maxLinks (v.start t) v.base k (.node home node)

theorem find_root (hu : pathFailure? v.root = none) :
    t.find follow v.root =
      t.walkLinks follow maxLinks (v.start t) (Host.Path.split v.root.bytes) := by
  rw [Host.Tree.find, hu]
  rfl

theorem exists_rooted (h : t.target v.root = .ok (home, node)) : ∃ k, v.Rooted t home node k := by
  rw [target_eq_ok_iff] at h
  have hu : pathFailure? v.root = none := by
    unfold Host.Tree.find at h
    split at h
    · cases h
    · assumption
  rw [find_root hu] at h
  obtain ⟨k, hleads⟩ := Host.Tree.leads_of_walkLinks h
  obtain hsplit | hsplit := v.split_root_bytes <;> rw [hsplit] at hleads
  · exact ⟨k, hu, hleads⟩
  · obtain ⟨m, dir, hbase, hlast⟩ := hleads.append_inv (by simp)
    cases hlast with
    | skip _ hlast =>
      cases hlast
      exact ⟨k, hu, hbase⟩
    | enter hname _ _ => exact absurd rfl hname.1
    | jump hname _ _ _ => exact absurd rfl hname.1
    | stop hname _ _ _ => exact absurd rfl hname.1

theorem Rooted.root_ne_nil (h : v.Rooted t home node k) : v.root.bytes ≠ [] :=
  (pathFailure?_eq_none_iff.1 h.usable).2.1

theorem Rooted.target_root (h : v.Rooted t home .directory k) :
    t.target v.root = .ok (home, .directory) := by
  rw [target_eq_ok_iff, find_root h.usable]
  obtain hsplit | hsplit := v.split_root_bytes <;> rw [hsplit]
  · exact h.leads.walkLinks
  · rw [h.leads.walkLinks_append (.inr rfl), Host.Tree.walkLinks_skip _ _ _ _ (.inl rfl),
      Host.Tree.walkLinks_nil]

theorem Rooted.home_eq (h : v.Rooted t home .directory k) (hroot : t.canSpell v.root = true) :
    v.home t = .ok home := by
  rw [Volume.home, Host.Tree.canonical_eq_ok_iff.2 ⟨hroot, h.target_root⟩]

/-! ## Paths with segments -/

theorem find_hostPath (hp : p.IsProper) (hne : p.names ≠ [])
    (hu : pathFailure? (v.hostPath p) = none) :
    t.find follow (v.hostPath p) =
      t.walkLinks follow maxLinks (v.start t) (v.base ++ p.names) := by
  by_cases hroot : v.root.bytes = []
  · obtain ⟨⟨bytes⟩⟩ := v
    obtain rfl : bytes = [] := hroot
    have hpath : (Volume.mk ⟨[]⟩).hostPath p = ⟨List.intercalate [Host.slash] p.names⟩ :=
      VolumePath.below_render_nil hp hne
    -- The empty root counts as one name, which leads nowhere else.
    have hbase : (Volume.mk ⟨[]⟩).base = [[]] := rfl
    rw [hpath] at hu ⊢
    rw [Host.Tree.find, hu, VolumePath.isAbsolute_intercalate_names hp hne,
      VolumePath.split_intercalate_names hp hne, hbase, List.singleton_append,
      Host.Tree.walkLinks_skip _ _ _ _ (.inl rfl)]
    rfl
  · rw [Host.Tree.find, hu, isAbsolute_hostPath hroot hp, split_hostPath hroot hp hne]
    rfl

theorem Rooted.find_eq (h : v.Rooted t home .directory k) (hp : p.IsProper) (hne : p.names ≠ [])
    (hu : pathFailure? (v.hostPath p) = none) :
    t.find follow (v.hostPath p) = t.walkLinks follow k home p.names := by
  rw [find_hostPath hp hne hu, h.leads.walkLinks_append (.inl hne)]

theorem Rooted.find_true_eq (h : v.Rooted t home .directory k) (hp : p.IsProper)
    (hu : pathFailure? (v.hostPath p) = none) :
    t.find true (v.hostPath p) = t.walkLinks true k home p.names := by
  by_cases hne : p.names = []
  · -- The root may end in a slash, so its own look-up is not cut here.
    rw [hostPath_of_names_eq_nil hne, hne, Host.Tree.walkLinks_nil]
    exact target_eq_ok_iff.1 h.target_root
  · exact h.find_eq hp hne hu

theorem canSpell_root (v : Volume) (t : Host.Tree) :
    t.canSpell v.root = t.spells maxLinks (v.start t) (Host.Path.split v.root.bytes) := rfl

theorem canSpell_hostPath (hroot : v.root.bytes ≠ []) (hp : p.IsProper) (hne : p.names ≠ []) :
    t.canSpell (v.hostPath p) = t.spells maxLinks (v.start t) (v.base ++ p.names) := by
  rw [Host.Tree.canSpell, isAbsolute_hostPath hroot hp, split_hostPath hroot hp hne]
  rfl

theorem Rooted.canSpell_eq (h : v.Rooted t home .directory k) (hroot : t.canSpell v.root = true)
    (hp : p.IsProper) : t.canSpell (v.hostPath p) = t.spells k home p.names := by
  by_cases hne : p.names = []
  · rw [hostPath_of_names_eq_nil hne, hroot, hne, Host.Tree.spells_nil]
  · have hasks := Host.Tree.asksDirectory_of_entries hp.isEntryName
    rw [canSpell_hostPath h.root_ne_nil hp hne]
    -- The root may end in a slash, and then it asks for more than the path does.
    rw [canSpell_root] at hroot
    obtain hsplit | hsplit := v.split_root_bytes <;> rw [hsplit] at hroot
    · rw [← List.append_nil v.base] at hroot
      refine h.leads.spells_append (fun front hfront => ?_) hroot
      rw [List.append_nil]
      exact Host.Tree.asksDirectory_of_append hasks hfront
    · exact h.leads.spells_append (fun front hfront => Host.Tree.asksDirectory_append_nil
        (Host.Tree.asksDirectory_of_append hasks hfront)) hroot

/-- The host can spell out the way to the root, and the place of an entry that stands below `home`
under the segments of a path. -/
structure Spellable (v : Volume) (t : Host.Tree) (home : Location) (p : VolumePath) : Prop where
  root : t.canSpell v.root = true
  place : pathLength (home ++ p.names) < maxPathBytes

/-- The path of an entry is short enough for the host, as it is written behind the root and as it is
spelled out. -/
structure FitsHost (v : Volume) (t : Host.Tree) (home : Location) (p : VolumePath) : Prop
    extends Spellable v t home p where
  written : (v.hostPath p).bytes.length < maxPathBytes

instance : Decidable (v.FitsHost t home p) :=
  decidable_of_iff (t.canSpell v.root = true ∧ pathLength (home ++ p.names) < maxPathBytes ∧
      (v.hostPath p).bytes.length < maxPathBytes)
    ⟨fun ⟨hroot, hplace, hwritten⟩ => ⟨⟨hroot, hplace⟩, hwritten⟩,
      fun h => ⟨h.root, h.place, h.written⟩⟩

theorem Spellable.of_isPrefix (h : v.Spellable t home p) (hqp : q.names <+: p.names) :
    v.Spellable t home q where
  root := h.root
  place := by
    obtain ⟨rest, hrest⟩ := hqp
    refine Nat.lt_of_le_of_lt ?_ h.place
    rw [← hrest, ← List.append_assoc]
    exact Host.Tree.pathLength_le_append _ _

theorem Rooted.canSpell_of_spellable (h : v.Rooted t home .directory k)
    (hs : v.Spellable t home p) (hq : q.IsProper) (hqp : q.names <+: p.names)
    (hlinks : ∀ front target, front <+: q.names → t.node? (home ++ front) ≠ some (.link target)) :
    t.canSpell (v.hostPath q) = true := by
  rw [h.canSpell_eq hs.root hq]
  exact Host.Tree.spells_of_short hq.isEntryName hlinks (hs.of_isPrefix hqp).place

theorem exists_rooted_of_find (hroot : pathFailure? v.root = none) (hp : p.IsProper)
    (hne : p.names ≠ []) {found : Host.Found} (h : t.find follow (v.hostPath p) = .ok found) :
    ∃ home k, v.Rooted t home .directory k := by
  rw [find_hostPath hp hne (pathFailure?_eq_none_of_find h)] at h
  obtain ⟨m, hleads⟩ := Host.Tree.leads_of_walkLinks h
  obtain ⟨k, home, hbase, -⟩ := hleads.append_inv hne
  exact ⟨home, k, hroot, hbase⟩

theorem usable_of_isPrefix (hroot : v.root.bytes ≠ []) (hp : p.IsProper) (hq : q.IsProper)
    (hpq : q.names <+: p.names) (hu : pathFailure? (v.hostPath p) = none) :
    pathFailure? (v.hostPath q) = none := by
  -- The bytes of one path start the bytes of the other, but for a slash behind the root.
  by_cases hpn : p.names = []
  · have hqn : q.names = [] := List.prefix_nil.1 (hpn ▸ hpq)
    rwa [hostPath_of_names_eq_nil hqn, ← hostPath_of_names_eq_nil hpn]
  have hpb := hostPath_bytes hroot hp hpn
  by_cases hqn : q.names = []
  · rw [hostPath_of_names_eq_nil hqn]
    refine pathFailure?_of_isPrefix hu ?_ hroot
    rw [hpb]
    obtain h | h := v.root_bytes_eq <;> rw [h]
    · exact List.prefix_append _ _
    · exact (List.prefix_append_right_inj _).2 (by simp)
  · have hqb := hostPath_bytes hroot hq hqn
    refine pathFailure?_of_isPrefix hu ?_ (by rw [hqb]; simp)
    rw [hpb, hqb, List.prefix_append_right_inj, List.cons_prefix_cons]
    obtain ⟨rest, hrest⟩ := hpq
    exact ⟨rfl, hrest ▸ intercalate_isPrefix_append _ hqn rest⟩

/-! ## The lowest existing stage -/

theorem stages_append (above rest : List String) :
    VolumePath.stages ⟨above ++ rest⟩ = VolumePath.stages ⟨above⟩ ++
      (List.range rest.length).map fun n => ⟨above ++ rest.take (n + 1)⟩ := by
  simp only [VolumePath.stages, List.length_append, List.range_add, List.map_append, List.map_map]
  congr 1
  · refine List.map_congr_left fun n hn => ?_
    rw [List.take_append_of_le_length (Nat.succ_le_of_lt (List.mem_range.1 hn))]
  · refine List.map_congr_left fun n _ => ?_
    rw [Function.comp_apply, Nat.add_assoc, List.take_length_add_append]

theorem mem_stages_iff {stage : VolumePath} :
    stage ∈ p.stages ↔ stage.segments ≠ [] ∧ stage.segments <+: p.segments := by
  constructor
  · intro hmem
    obtain ⟨n, hn, rfl⟩ := List.mem_map.1 hmem
    have hlt := List.mem_range.1 hn
    exact ⟨List.ne_nil_of_length_pos (by rw [List.length_take]; omega), List.take_prefix _ _⟩
  · rintro ⟨hne, hp⟩
    have hpos := List.length_pos_of_ne_nil hne
    have hle := hp.length_le
    refine List.mem_map.2 ⟨stage.segments.length - 1, List.mem_range.2 (by omega), ?_⟩
    rw [Nat.sub_add_cancel hpos, ← List.prefix_iff_eq_take.1 hp]

theorem upwards_concat (segments : List String) (segment : String) :
    upwards ⟨segments ++ [segment]⟩ = ⟨segments ++ [segment]⟩ :: upwards ⟨segments⟩ := by
  rw [upwards, stages_append, List.reverse_append]
  rfl

theorem isPrefix_of_mem_upwards {stage : VolumePath} (h : stage ∈ upwards p) :
    stage.segments <+: p.segments := by
  obtain hmem | hmem := List.mem_append.1 h
  · exact (mem_stages_iff.1 (List.mem_reverse.1 hmem)).2
  · obtain rfl := List.mem_singleton.1 hmem
    exact List.nil_prefix

theorem lowestStage?_eq_self (h : (t.entry (v.hostPath p)).isOk = true) :
    v.lowestStage? t p = some p := by
  obtain ⟨segments⟩ := p
  obtain rfl | ⟨above, last, rfl⟩ := List.eq_nil_or_concat segments
  · show List.find? _ [VolumePath.top] = _
    exact List.find?_cons_of_pos h
  · rw [List.concat_eq_append] at h ⊢
    rw [lowestStage?, upwards_concat]
    exact List.find?_cons_of_pos h

theorem lowestStage?_concat {segments : List String} {segment : String}
    (h : (t.entry (v.hostPath ⟨segments ++ [segment]⟩)).isOk = false) :
    v.lowestStage? t ⟨segments ++ [segment]⟩ = v.lowestStage? t ⟨segments⟩ := by
  rw [lowestStage?, upwards_concat]
  exact List.find?_cons_of_neg (by simp [h])

/-! ## New directories -/

theorem components_hostPath (hroot : v.root.bytes ≠ []) (hp : p.IsProper) :
    (v.hostPath p).components = v.base.filter isTelling ++ p.names := by
  rw [Host.Tree.components_eq]
  by_cases hne : p.names = []
  · rw [hostPath_of_names_eq_nil hne, hne, List.append_nil]
    obtain hsplit | hsplit := v.split_root_bytes <;> rw [hsplit]
    rw [List.filter_append]
    simp [isTelling]
  · rw [split_hostPath hroot hp hne, List.filter_append,
      List.filter_eq_self.2 fun name hmem =>
        Host.Tree.isTelling_of_isEntryName (hp.isEntryName name hmem)]

theorem hostPath_ne_nil (hroot : v.root.bytes ≠ []) (hp : p.IsProper) :
    (v.hostPath p).bytes ≠ [] := by
  by_cases hne : p.names = []
  · rwa [hostPath_of_names_eq_nil hne]
  · rw [hostPath_bytes hroot hp hne]
    simp

theorem pathFailure?_hostPath (hroot : pathFailure? v.root = none)
    (hparse : VolumePath.parse path = .ok p)
    (hshort : (v.hostPath p).bytes.length < maxPathBytes) : pathFailure? (v.hostPath p) = none := by
  obtain ⟨hzero, hnil, -⟩ := pathFailure?_eq_none_iff.1 hroot
  have hproper := VolumePath.isProper_of_parse hparse
  refine pathFailure?_eq_none_iff.2 ⟨?_, hostPath_ne_nil hnil hproper, hshort⟩
  by_cases hne : p.names = []
  · rwa [hostPath_of_names_eq_nil hne]
  · rw [hostPath_bytes hnil hproper hne]
    intro hmem
    obtain hmem | hmem := List.mem_append.1 hmem
    · obtain hbytes | hbytes := v.root_bytes_eq
      · exact hzero (hbytes ▸ hmem)
      · exact hzero (hbytes ▸ List.mem_append_left _ hmem)
    · rcases List.mem_cons.1 hmem with hslash | hmem
      · exact absurd hslash (by decide)
      rcases Text.mem_intercalate hmem with hslash | ⟨name, hname, hmem⟩
      · exact absurd hslash (by decide)
      · exact VolumePath.zero_notMem_names hparse name hname hmem

theorem makeDirectories_unusable (hroot : v.root.bytes ≠ []) (hp : p.IsProper)
    {failure : Host.Failure} (hu : pathFailure? (v.hostPath p) = some failure) :
    t.makeDirectories (v.hostPath p) = (.error failure, t) := by
  rw [Host.Tree.makeDirectories, if_neg (hostPath_ne_nil hroot hp), hu]

/-- The host makes the directories under the names of the root, but those that say nothing, and
under the segments of the path. -/
theorem makeDirectories_eq (hroot : v.root.bytes ≠ []) (hp : p.IsProper)
    (hu : pathFailure? (v.hostPath p) = none) :
    t.makeDirectories (v.hostPath p) =
      t.makeUpwards (v.start t) (v.base.filter isTelling ++ p.names).reverse := by
  rw [Host.Tree.makeDirectories, if_neg (hostPath_ne_nil hroot hp), hu,
    isAbsolute_hostPath hroot hp, components_hostPath hroot hp]
  rfl

theorem Rooted.extends_makeDirectories (h : v.Rooted t home node k) (hwf : t.Connected)
    (hp : p.IsProper) :
    Extends t (v.start t) (v.base.filter isTelling) p.names (t.makeDirectories (v.hostPath p)).1
      (t.makeDirectories (v.hostPath p)).2 := by
  cases hu : pathFailure? (v.hostPath p) with
  | some failure =>
    rw [makeDirectories_unusable h.root_ne_nil hp hu]
    exact .failed failure
  | none =>
    rw [makeDirectories_eq h.root_ne_nil hp hu]
    exact hwf.extends_makeUpwards h.leads.filter_telling hp.isEntryName

end Volume

end VolumeStore
