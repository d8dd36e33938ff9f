import VolumeStore.Proofs.Volume.Plain
import VolumeStore.Proofs.Volume.RootKept

/-!
# Making the directories of a path

A path of the volume asks for a directory at each of its stages. In a volume without links they are
made exactly if nothing else stands at one of them; then the missing ones are there, one in the
other, and the tree is otherwise as it was. If something else stands at a stage, that stage is the
one that is reported.
-/

namespace VolumeStore

open Host (Location Name IsEntryName Below maxLinks maxPathBytes)
open Host.Tree (Leads isTelling)

namespace Host.Tree

/-- From one tree to the other, directories have come at `home` extended by one, two, and so on to
all of the names, where there were none. -/
structure GainsDirectories (t : Tree) (home : Location) (names : List Name) (t' : Tree) : Prop where
  row : ∀ loc, home <+: loc → loc <+: home ++ names → t'.node? loc = some .directory
  bare : ∀ loc name, home <+: loc → loc <+: home ++ names → t.node? loc = none →
    t'.node? (loc ++ [name]) ≠ none → loc ++ [name] <+: home ++ names
  kept : ∀ loc node, t.node? loc = some node → t'.node? loc = some node
  others : ∀ loc, ¬ (home <+: loc ∧ loc <+: home ++ names) → t'.node? loc = t.node? loc
  contents : t'.contents = t.contents
  workingDirectory : t'.home = t.home

variable {t : Tree} {home dir : Location} {name : Name} {names rest : List Name}

theorem gainsDirectories_refl (h : t.Connected)
    (hdir : t.node? (home ++ names) = some .directory) : t.GainsDirectories home names t where
  row loc _ hp := h.directory_of_prefix hp hdir
  bare loc name _ hp hnone := by
    rw [h.directory_of_prefix hp hdir] at hnone
    cases hnone
  kept _ _ hn := hn
  others _ _ := rfl
  contents := rfl
  workingDirectory := rfl

theorem gainsDirectories_insertDirectories (h : t.Connected) (hhome : home <+: dir)
    (hdir : t.node? dir = some .directory) (hfree : t.node? (dir ++ [name]) = none)
    (hsplit : home ++ names = dir ++ name :: rest) :
    t.GainsDirectories home names (t.insertDirectories dir (name :: rest)) := by
  have hkept : ∀ loc node, t.node? loc = some node →
      (t.insertDirectories dir (name :: rest)).node? loc = some node :=
    fun _ _ => h.node?_insertDirectories_of_some hfree rest
  have habove : ∀ loc, loc <+: dir → t.node? loc = some .directory :=
    fun _ hp => h.directory_of_prefix hp hdir
  refine ⟨fun loc _ hp => ?_, fun loc name' _ hp hnone hn => ?_, hkept, fun loc hout => ?_,
    contents_insertDirectories .., home_insertDirectories ..⟩
  · -- A place on the way stands at or above `dir`, or in the new row.
    by_cases hd : loc <+: dir
    · exact hkept _ _ (habove loc hd)
    · rw [hsplit] at hp
      have hbelow : Below dir loc := by
        refine ⟨(List.prefix_or_prefix_of_prefix hp (List.prefix_append _ _)).resolve_left hd, ?_⟩
        rintro rfl
        exact hd List.prefix_rfl
      rw [node?_insertDirectories, if_pos ⟨hbelow, hp⟩]
  · rw [hsplit]
    rw [node?_insertDirectories] at hn
    split at hn
    next hrow => exact hrow.2
    · -- What stood there before had a directory above it.
      rw [h.above hn] at hnone
      cases hnone
  · rw [node?_insertDirectories, if_neg]
    rintro ⟨hb, hp⟩
    exact hout ⟨hhome.trans hb.1, hsplit ▸ hp⟩

end Host.Tree

namespace Volume

def Obstructs (t : Host.Tree) (home : Location) (p stage : VolumePath) : Prop :=
  stage.segments <+: p.segments ∧
    ∃ node, t.node? (home ++ stage.names) = some node ∧ node ≠ .directory

variable {v : Volume} {t t' : Host.Tree} {p : VolumePath} {path : String} {home : Location}
  {above rest : List String} {first : String}

/-! ## Looking for obstacles -/

theorem obstacle?_append {front behind : List VolumePath}
    (h : ∀ stage ∈ front, ∃ loc, t.target (v.hostPath stage) = .ok (loc, .directory)) :
    v.obstacle? t (front ++ behind) = v.obstacle? t behind := by
  induction front with
  | nil => rfl
  | cons stage front ih =>
    obtain ⟨loc, htarget⟩ := h stage (by simp)
    rw [List.cons_append, obstacle?, htarget]
    exact ih fun stage hmem => h stage (by simp [hmem])

theorem stages_append_cons (above rest : List String) (first : String) :
    VolumePath.stages ⟨above ++ first :: rest⟩ = VolumePath.stages ⟨above⟩ ++
      ⟨above ++ [first]⟩ :: (List.range rest.length).map
        fun n => ⟨above ++ first :: rest.take (n + 1)⟩ := by
  rw [stages_append, List.length_cons, List.range_succ_eq_map, List.map_cons, List.map_map]
  rfl

theorem Seated.leads_components (h : v.Seated t home) (hp : p.IsProper)
    (hdir : t.node? (home ++ p.names) = some .directory) :
    ∃ m, Leads t true maxLinks (v.start t) (v.base.filter isTelling ++ p.names) m
      (.node (home ++ p.names) .directory) := by
  obtain ⟨k, hr⟩ := exists_rooted h.target
  obtain ⟨m, hleads⟩ := h.leads_directory hp.isEntryName hdir k
  refine Host.Tree.leads_of_walkLinks ?_
  rw [hr.leads.filter_telling.walkLinks_append (.inr rfl), hleads.walkLinks]

namespace Plain

theorem target_of_stage (h : v.Plain t home) (hp : v.Usable t home p)
    (hdir : t.node? (home ++ p.names) = some .directory) :
    ∀ stage ∈ p.stages, ∃ loc, t.target (v.hostPath stage) = .ok (loc, .directory) := by
  intro stage hmem
  obtain ⟨segments⟩ := stage
  obtain ⟨rest, hrest⟩ := (mem_stages_iff.1 hmem).2
  obtain ⟨segments'⟩ := p
  obtain rfl : segments ++ rest = segments' := hrest
  refine ⟨_, (h.target_iff (h.usable_of_append hp)).2 ⟨rfl, ?_⟩⟩
  refine h.connected.directory_of_prefix ?_ hdir
  rw [names_append, ← List.append_assoc]
  exact List.prefix_append _ _

/-! ## The three ways a path can go -/

theorem makeDirectories_of_directory (h : v.Plain t home)
    (hparse : VolumePath.parse path = .ok p) (hp : v.Usable t home p)
    (hdir : t.node? (home ++ p.names) = some .directory) :
    v.makeDirectories t path = (.ok p.render, t) := by
  obtain ⟨k, hr⟩ := exists_rooted h.target
  have hobstacle : v.obstacle? t p.stages = none := by
    rw [← List.append_nil p.stages, obstacle?_append (h.target_of_stage hp hdir), obstacle?]
  obtain ⟨m, hleads⟩ := h.leads_components hp.proper hdir
  have hmake : t.makeDirectories (v.hostPath p) = (.ok (), t) := by
    rw [makeDirectories_eq hr.root_ne_nil hp.proper hp.accepted, hleads.makeUpwards_eq]
  rw [makeDirectories, h.confine_eq hparse hp.toSpellable]
  dsimp only
  rw [hobstacle, hmake]

theorem makeDirectories_of_free (h : v.Plain t home)
    (hparse : VolumePath.parse path = .ok ⟨above ++ first :: rest⟩)
    (hp : v.Usable t home ⟨above ++ first :: rest⟩)
    (hdir : t.node? (home ++ VolumePath.names ⟨above⟩) = some .directory)
    (hfree : t.node? (home ++ VolumePath.names ⟨above⟩ ++ [Text.encode first]) = none) :
    v.makeDirectories t path = (.ok (VolumePath.render ⟨above ++ first :: rest⟩),
      t.insertDirectories (home ++ VolumePath.names ⟨above⟩)
        (Text.encode first :: rest.map Text.encode)) := by
  obtain ⟨k, hr⟩ := exists_rooted h.target
  have hpa := h.usable_of_append hp
  have hnames := names_append above (first :: rest)
  have hobstacle : v.obstacle? t (VolumePath.stages ⟨above ++ first :: rest⟩) = none := by
    -- The search passes what is there, and ends at the first name that is free.
    have hmissing : t.target (v.hostPath ⟨above ++ [first]⟩) = .error .noEntry := by
      rw [Host.Tree.target, Host.Tree.findEntry,
        h.find_of_free (h.usable_of_append_cons hp) hdir hfree]
    rw [stages_append_cons, obstacle?_append (h.target_of_stage hpa hdir), obstacle?, hmissing]
    exact if_pos (by decide)
  obtain ⟨m, hleads⟩ := h.leads_components hpa.proper hdir
  have hentry : ∀ name ∈ Text.encode first :: rest.map Text.encode, IsEntryName name := by
    intro name hmem
    apply hp.proper.isEntryName
    rw [hnames]
    exact List.mem_append_right _ hmem
  have hmake : t.makeDirectories (v.hostPath ⟨above ++ first :: rest⟩) = (.ok (),
      t.insertDirectories (home ++ VolumePath.names ⟨above⟩)
        (Text.encode first :: rest.map Text.encode)) := by
    rw [makeDirectories_eq hr.root_ne_nil hp.proper hp.accepted, hnames, ← List.append_assoc]
    exact h.connected.makeUpwards_of_free hleads hfree hentry
  rw [makeDirectories, h.confine_eq hparse hp.toSpellable]
  dsimp only
  rw [hobstacle, hmake]

theorem makeDirectories_of_blocked (h : v.Plain t home)
    (hparse : VolumePath.parse path = .ok ⟨above ++ first :: rest⟩)
    (hp : v.Usable t home ⟨above ++ first :: rest⟩)
    (hdir : t.node? (home ++ VolumePath.names ⟨above⟩) = some .directory) {node : Host.Node}
    (hnode : t.node? (home ++ VolumePath.names ⟨above⟩ ++ [Text.encode first]) = some node)
    (hother : node ≠ .directory) :
    v.makeDirectories t path =
      (.error (.notADirectory (VolumePath.render ⟨above ++ [first]⟩)), t) := by
  have hobstacle : v.obstacle? t (VolumePath.stages ⟨above ++ first :: rest⟩) =
      some (.notADirectory (VolumePath.render ⟨above ++ [first]⟩)) := by
    have htarget := (h.target_iff (h.usable_of_append_cons hp)).2
      ⟨rfl, by rw [append_names_concat, hnode]⟩
    rw [stages_append_cons, obstacle?_append (h.target_of_stage (h.usable_of_append hp) hdir),
      obstacle?, htarget]
    cases node with
    | directory => exact absurd rfl hother
    | _ => rfl
  rw [makeDirectories, h.confine_eq hparse hp.toSpellable]
  dsimp only
  rw [hobstacle]

end Plain

/-! ## The law -/

theorem not_obstructs_of_gains (h : t.GainsDirectories home p.names t') (stage : VolumePath) :
    ¬ Obstructs t home p stage := by
  rintro ⟨⟨rest, hrest⟩, node, hnode, hother⟩
  have hnames : p.names = stage.names ++ rest.map Text.encode := by
    rw [VolumePath.names, ← hrest, List.map_append]
    rfl
  -- What stands at the stage was kept, and it is on the way of the new directories.
  have hkept := h.kept _ node hnode
  rw [h.row _ (List.prefix_append _ _)
    ((List.prefix_append_right_inj _).2 (hnames ▸ List.prefix_append _ _))] at hkept
  exact hother (Option.some.inj hkept).symm

theorem length_le_of_obstructs (h : t.Connected)
    (hdir : t.node? (home ++ VolumePath.names ⟨above⟩) = some .directory) {other : VolumePath}
    (hother : Obstructs t home ⟨above ++ first :: rest⟩ other) :
    (above ++ [first]).length ≤ other.segments.length := by
  obtain ⟨hp, node, hnode, hne⟩ := hother
  by_contra hlt
  rw [List.length_append, List.length_singleton] at hlt
  have habove : other.segments <+: above :=
    List.prefix_of_prefix_length_le hp (List.prefix_append _ _) (by omega)
  obtain ⟨more, rfl⟩ := habove
  rw [names_append, ← List.append_assoc] at hdir
  have hstage := h.directory_of_prefix (List.prefix_append _ _) hdir
  rw [show VolumePath.names ⟨other.segments⟩ = other.names from rfl, hnode] at hstage
  exact hne (Option.some.inj hstage)

namespace Plain

theorem makeDirectories_or (h : v.Plain t home) (hparse : VolumePath.parse path = .ok p)
    (hp : v.Usable t home p) :
    (∃ t', v.makeDirectories t path = (.ok p.render, t') ∧ t.GainsDirectories home p.names t') ∨
    ∃ stage, v.makeDirectories t path = (.error (.notADirectory stage.render), t) ∧
      Obstructs t home p stage ∧
      ∀ other, Obstructs t home p other → stage.segments.length ≤ other.segments.length := by
  cases reach h.directory p with
  | whole hdir =>
    exact .inl ⟨t, h.makeDirectories_of_directory hparse hp hdir,
      Host.Tree.gainsDirectories_refl h.connected hdir⟩
  | free hdir hfree =>
    refine .inl ⟨_, h.makeDirectories_of_free hparse hp hdir hfree, ?_⟩
    apply Host.Tree.gainsDirectories_insertDirectories h.connected (List.prefix_append _ _) hdir
      hfree
    rw [names_append, List.map_cons, List.append_assoc]
  | @blocked above rest first node hdir hnode hother =>
    refine .inr ⟨⟨above ++ [first]⟩, h.makeDirectories_of_blocked hparse hp hdir hnode hother,
      ⟨⟨rest, by simp⟩, node, ?_, hother⟩, fun other => length_le_of_obstructs h.connected hdir⟩
    rw [append_names_concat, hnode]

theorem of_gainsDirectories (h : v.Plain t home) {names : List Name}
    (hgains : t.GainsDirectories home names (v.makeDirectories t path).2) :
    v.Plain (v.makeDirectories t path).2 home where
  toSeated := h.toSeated.of_adds (h.toSeated.adds_makeDirectories path)
  linkless loc target hb hlink := by
    by_cases hp : home <+: loc ∧ loc <+: home ++ names
    · rw [hgains.row loc hp.1 hp.2] at hlink
      cases hlink
    · rw [hgains.others loc hp] at hlink
      exact h.linkless loc target hb hlink

end Plain

/-- In a volume without links, making the directories of a path succeeds if and only if nothing else
stands at a stage of the path. On success every stage is a directory, the new ones hold nothing but
the next one, all that was there before stays, and the same call once more succeeds and changes
nothing. Otherwise the shortest stage at which something else stands is reported, and nothing is
changed. -/
theorem makeDirectories_exact (h : v.Plain t home) (hparse : VolumePath.parse path = .ok p)
    (hfits : v.FitsHost t home p) :
    ((∃ written, (v.makeDirectories t path).1 = .ok written) ↔
      ∀ stage, ¬ Obstructs t home p stage) ∧
    (∀ written, (v.makeDirectories t path).1 = .ok written →
      written = p.render ∧ t.GainsDirectories home p.names (v.makeDirectories t path).2 ∧
      v.makeDirectories (v.makeDirectories t path).2 path =
        (.ok p.render, (v.makeDirectories t path).2)) ∧
    ∀ error, (v.makeDirectories t path).1 = .error error →
      (v.makeDirectories t path).2 = t ∧
      ∃ stage, error = .notADirectory stage.render ∧ Obstructs t home p stage ∧
        ∀ other, Obstructs t home p other → stage.segments.length ≤ other.segments.length := by
  have hp := h.usable hparse hfits
  obtain ⟨t', hmake, hgains⟩ | ⟨stage, hmake, hstage, hshortest⟩ := h.makeDirectories_or hparse hp
  · have hgains' : t.GainsDirectories home p.names (v.makeDirectories t path).2 := by rwa [hmake]
    have hplain := h.of_gainsDirectories hgains'
    rw [hmake] at hplain ⊢
    refine ⟨⟨fun _ => not_obstructs_of_gains hgains, fun _ => ⟨_, rfl⟩⟩, ?_, nofun⟩
    rintro written ⟨⟩
    refine ⟨rfl, hgains, ?_⟩
    -- The second time all directories are there.
    have hkept := h.spellable_grow hp.toSpellable
      (h.adds_makeDirectories path).workingDirectory (h.adds_makeDirectories path).kept
    rw [hmake] at hkept
    apply hplain.makeDirectories_of_directory hparse ⟨hkept, hp.proper, hp.accepted⟩
    exact hgains.row _ (List.prefix_append _ _) List.prefix_rfl
  · rw [hmake]
    refine ⟨⟨nofun, fun hfree => absurd hstage (hfree stage)⟩, nofun, ?_⟩
    rintro error ⟨⟩
    exact ⟨rfl, stage, rfl, hstage, hshortest⟩

theorem makeDirectories_exact_smallTree :
    smallTree.GainsDirectories [Text.encode "vol"] (VolumePath.names ⟨["a", "b", "c"]⟩)
        (makeDirectories ⟨.ofString "vol"⟩ smallTree "//a/./b/c").2 ∧
      ∃ stage : VolumePath, stage.render = "/a/f" ∧
        Obstructs smallTree [Text.encode "vol"] ⟨["a", "f", "g"]⟩ stage := by
  have hmade : (makeDirectories ⟨.ofString "vol"⟩ smallTree "//a/./b/c").1 = .ok "/a/b/c" := by
    decide +kernel
  have hblocked : (makeDirectories ⟨.ofString "vol"⟩ smallTree "/a/f/g").1 =
      .error (.notADirectory "/a/f") := by
    decide +kernel
  have hparse : VolumePath.parse "//a/./b/c" = .ok ⟨["a", "b", "c"]⟩ := by decide +kernel
  have hparse' : VolumePath.parse "/a/f/g" = .ok ⟨["a", "f", "g"]⟩ := by decide +kernel
  obtain ⟨-, hok, -⟩ := makeDirectories_exact plain_smallTree hparse (by decide +kernel)
  obtain ⟨-, -, herror⟩ := makeDirectories_exact plain_smallTree hparse' (by decide +kernel)
  obtain ⟨-, stage, hstage, hobstructs, -⟩ := herror _ hblocked
  exact ⟨(hok _ hmade).2.1, stage, (VolumeError.notADirectory.inj hstage).symm, hobstructs⟩

end Volume

end VolumeStore
