import VolumeStore.Proofs.Volume.NewDirectories

/-!
# Paths that are cut off

In a volume without links, the look-up of a path comes to one of three things. An entry stands at
the end of the path; or nothing does, and the directories on the way just end; or the way goes
through an entry that is no directory, and cannot go on. The host tells the last two apart.
-/

namespace VolumeStore.Volume

open Host (Location Name IsEntryName Below)

/-- Before the end of a path, the way to it goes through something that is no directory. -/
def CutOff (t : Host.Tree) (home : Location) (p : VolumePath) : Prop :=
  ∃ stage, Obstructs t home p stage ∧ stage ≠ p

/-- The way to the place where a directory should hold the last name of a path is cut off. -/
def Stranded (t : Host.Tree) (home : Location) (p : VolumePath) : Prop :=
  ∃ above last, p.parent? = some (above, last) ∧ CutOff t home above

inductive Finds (t : Host.Tree) (home : Location) (p : VolumePath)
    (result : Except Host.Failure (Location × Host.Node)) : Prop where
  | there {node : Host.Node} (hnode : t.node? (home ++ p.names) = some node)
      (h : result = .ok (home ++ p.names, node))
  | missing (hnone : t.node? (home ++ p.names) = none) (hgo : ¬ CutOff t home p)
      (h : result = .error .noEntry)
  | cutOff (hcut : CutOff t home p) (h : result = .error .notDirectory)

variable {v : Volume} {t : Host.Tree} {p stage : VolumePath} {home : Location} {node : Host.Node}
  {follow : Bool} {above rest : List String} {first last : String}

theorem prefix_of_segments (home : Location) (h : stage.segments <+: p.segments) :
    home ++ stage.names <+: home ++ p.names :=
  (List.prefix_append_right_inj _).2 (VolumePath.names_isPrefix_iff.2 h)

/-! ## Where nothing stands -/

theorem CutOff.node?_eq_none (hcut : CutOff t home p) (h : t.Connected) :
    t.node? (home ++ p.names) = none := by
  obtain ⟨stage, ⟨hp, node, hnode, hother⟩, hne⟩ := hcut
  have hb : Below (home ++ stage.names) (home ++ p.names) := by
    refine ⟨prefix_of_segments home hp, fun he => hne ?_⟩
    exact (VolumePath.names_injective (List.append_cancel_left he)).symm
  refine h.node?_below_eq_none ?_ hb
  rw [hnode]
  exact fun he => hother (Option.some.inj he)

theorem not_cutOff_of_node (h : t.Connected) (hnode : t.node? (home ++ p.names) = some node) :
    ¬ CutOff t home p := by
  intro hcut
  rw [hcut.node?_eq_none h] at hnode
  cases hnode

theorem not_cutOff_top : ¬ CutOff t home VolumePath.top := by
  rintro ⟨⟨segments⟩, ⟨hp, -⟩, hne⟩
  obtain rfl : segments = [] := List.prefix_nil.1 hp
  exact hne rfl

theorem stranded_concat_iff : Stranded t home ⟨above ++ [last]⟩ ↔ CutOff t home ⟨above⟩ := by
  have hparent : VolumePath.parent? ⟨above ++ [last]⟩ = some (⟨above⟩, last) :=
    VolumePath.parent?_eq_some_iff.2 rfl
  constructor
  · rintro ⟨above', last', hparent', hcut⟩
    obtain ⟨rfl, rfl⟩ := Prod.mk.inj (Option.some.inj (hparent.symm.trans hparent'))
    exact hcut
  · exact fun hcut => ⟨⟨above⟩, last, hparent, hcut⟩

theorem not_stranded_top : ¬ Stranded t home VolumePath.top := by
  rintro ⟨above, last, hparent, -⟩
  cases hparent

theorem Stranded.node?_eq_none (hstranded : Stranded t home p) (h : t.Connected) :
    t.node? (home ++ p.names) = none := by
  obtain ⟨⟨above⟩, last, hparent, hcut⟩ := hstranded
  have habove : above <+: p.segments := by
    rw [VolumePath.parent?_eq_some_iff.1 hparent]
    exact List.prefix_append _ _
  by_contra hne
  have hplace : home ++ VolumePath.names ⟨above⟩ <+: home ++ p.names :=
    prefix_of_segments home habove
  exact h.ne_none_of_prefix hplace hne (hcut.node?_eq_none h)

theorem not_stranded_of_directory (h : t.Connected)
    (hdir : t.node? (home ++ VolumePath.names ⟨above⟩) = some .directory) :
    ¬ Stranded t home ⟨above ++ [last]⟩ := by
  rw [stranded_concat_iff]
  exact not_cutOff_of_node h hdir

theorem not_obstructs_of_free (h : t.Connected)
    (hdir : t.node? (home ++ VolumePath.names ⟨above⟩) = some .directory)
    (hfree : t.node? (home ++ VolumePath.names ⟨above⟩ ++ [Text.encode first]) = none) :
    ¬ Obstructs t home ⟨above ++ first :: rest⟩ stage := by
  intro hstage
  have hlen := length_le_of_obstructs h hdir hstage
  obtain ⟨hp, node, hnode, -⟩ := hstage
  -- An obstacle would stand at or behind the free name.
  have hfirst : above ++ [first] <+: stage.segments :=
    List.prefix_of_prefix_length_le ⟨rest, by simp⟩ hp hlen
  have hplace : t.node? (home ++ stage.names) ≠ none := by simp [hnode]
  rw [← append_names_concat] at hfree
  exact h.ne_none_of_prefix (prefix_of_segments home hfirst) hplace hfree

/-! ## The three outcomes -/

namespace Plain

theorem finds (h : v.Plain t home) (hp : v.Usable t home p) (hlast : follow = true ∨ p.names ≠ []) :
    Finds t home p (t.findEntry follow (v.hostPath p)) := by
  unfold Host.Tree.findEntry
  cases reach h.directory p with
  | whole hdir => exact .there hdir (by rw [h.find_of_node hp hlast hdir])
  | @free above rest first hdir hfree =>
    have hentry : IsEntryName (Text.encode first) :=
      hp.proper.isEntryName _ (by simp [names_append])
    obtain ⟨m, hfind⟩ := h.find_append follow hp.proper (by simp) hp.accepted hdir
    rw [List.map_cons, Host.Tree.walkLinks_entry _ _ _ _ hentry, hfree] at hfind
    -- The host says the same whether the free name is the last one or there are names behind it.
    refine .missing ?_ (fun ⟨stage, hstage, _⟩ =>
      not_obstructs_of_free h.connected hdir hfree hstage) ?_
    · by_contra hne
      rw [← append_names_concat] at hfree
      refine h.connected.ne_none_of_prefix (prefix_of_segments home ?_) hne hfree
      exact ⟨rest, by simp⟩
    · rw [hfind]
      by_cases hrest : rest.map Text.encode = []
      · rw [hrest]
        rfl
      · rw [if_neg hrest]
  | @blocked above rest first node hdir hnode hother =>
    cases rest with
    | nil =>
      -- What is no directory stands at the end, where it is not in the way.
      rw [← append_names_concat] at hnode
      exact .there hnode (by rw [h.find_of_node hp hlast hnode])
    | cons next rest =>
      have hentry : IsEntryName (Text.encode first) :=
        hp.proper.isEntryName _ (by simp [names_append])
      have hstage : Obstructs t home ⟨above ++ first :: next :: rest⟩ ⟨above ++ [first]⟩ :=
        ⟨⟨next :: rest, by simp⟩, node, by rw [append_names_concat, hnode], hother⟩
      obtain ⟨m, hfind⟩ := h.find_append follow hp.proper (by simp) hp.accepted hdir
      rw [List.map_cons, Host.Tree.walkLinks_entry _ _ _ _ hentry, hnode] at hfind
      refine .cutOff ⟨_, hstage, by simp⟩ ?_
      rw [hfind]
      -- Names are looked up in nothing but a directory, or behind a link.
      cases node with
      | directory => exact absurd rfl hother
      | link target =>
        refine absurd hnode (h.linkless _ target ?_)
        rw [List.append_assoc]
        exact Host.below_append (by simp)
      | file id => rfl
      | socket => rfl

theorem find_of_requireParent (h : v.Plain t home) (hp : v.Usable t home p)
    (hparent : v.requireParent t p = .ok ()) :
    (∃ node, t.node? (home ++ p.names) = some node ∧
      ∀ follow, t.find follow (v.hostPath p) = .ok (.node (home ++ p.names) node)) ∨
    ∃ dir name, home ++ p.names = dir ++ [name] ∧ t.node? dir = some .directory ∧
      t.node? (dir ++ [name]) = none ∧
      ∀ follow, t.find follow (v.hostPath p) = .ok (.vacant dir name) := by
  obtain ⟨segments⟩ := p
  obtain rfl | ⟨above, last, rfl⟩ := List.eq_nil_or_concat segments
  · cases hparent
  rw [List.concat_eq_append] at *
  have hdir := (h.requireParent_iff hp).1 hparent
  rw [append_names_concat]
  cases hnode : t.node? (home ++ VolumePath.names ⟨above⟩ ++ [Text.encode last]) with
  | some node =>
    have hne : VolumePath.names ⟨above ++ [last]⟩ ≠ [] := by simp [names_append]
    have hnode' : t.node? (home ++ VolumePath.names ⟨above ++ [last]⟩) = some node := by
      rw [append_names_concat, hnode]
    refine .inl ⟨node, rfl, fun follow => ?_⟩
    rw [h.find_of_node hp (.inr hne) hnode', append_names_concat]
  | none => exact .inr ⟨_, _, rfl, hdir, hnode, fun _ => h.find_of_free hp hdir hnode⟩

end Plain

end VolumeStore.Volume
