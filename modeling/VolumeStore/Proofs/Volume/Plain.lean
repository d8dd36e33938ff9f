import VolumeStore.Proofs.Host.LinkFree
import VolumeStore.Proofs.Volume.Seated

/-!
# Volumes without links

Where no links stand below the directory of a volume, a path leads to the place that its segments
spell, or nowhere. Such a path is never refused for where it leads, and what an operation finds out
about it can be read off the entries at that place and above it.
-/

namespace VolumeStore.Volume

open Host (Location Name IsEntryName Below maxPathBytes)
open Host.Tree (Leads pathFailure? pathFailure?_eq_none_of_find target_eq_ok_iff entry_eq_ok_iff
  target_of_entry)

/-- The root of a volume leads to a directory below which no links stand. -/
structure Plain (v : Volume) (t : Host.Tree) (home : Location) : Prop extends Seated v t home where
  linkless : ∀ loc target, Below home loc → t.node? loc ≠ some (.link target)

/-- How far the segments of a path lead down directories: all the way, or to a name under which
nothing stands, or to one under which something else stands. -/
inductive Reach (t : Host.Tree) (home : Location) : VolumePath → Prop where
  | whole {p : VolumePath} (hdir : t.node? (home ++ p.names) = some .directory) : Reach t home p
  | free {above rest : List String} {first : String}
      (hdir : t.node? (home ++ VolumePath.names ⟨above⟩) = some .directory)
      (hfree : t.node? (home ++ VolumePath.names ⟨above⟩ ++ [Text.encode first]) = none) :
      Reach t home ⟨above ++ first :: rest⟩
  | blocked {above rest : List String} {first : String} {node : Host.Node}
      (hdir : t.node? (home ++ VolumePath.names ⟨above⟩) = some .directory)
      (hnode : t.node? (home ++ VolumePath.names ⟨above⟩ ++ [Text.encode first]) = some node)
      (hother : node ≠ .directory) : Reach t home ⟨above ++ first :: rest⟩

/-- A path whose segments can be names of entries, and which the host does not refuse for how it is
written or how long it is. -/
structure Usable (v : Volume) (t : Host.Tree) (home : Location) (p : VolumePath) : Prop
    extends Spellable v t home p where
  proper : p.IsProper
  accepted : pathFailure? (v.hostPath p) = none

variable {v : Volume} {t : Host.Tree} {p : VolumePath} {path : String} {home loc : Location}
  {node : Host.Node} {follow : Bool} {above rest : List String} {first last : String}

theorem append_names_concat (home : Location) (above : List String) (last : String) :
    home ++ VolumePath.names ⟨above ++ [last]⟩ =
      home ++ VolumePath.names ⟨above⟩ ++ [Text.encode last] := by
  rw [names_append, List.map_singleton, List.append_assoc]

theorem reach (hhome : t.node? home = some .directory) (p : VolumePath) : Reach t home p := by
  -- The induction takes segments from the front as long as directories stand there.
  suffices h : ∀ rest above, t.node? (home ++ VolumePath.names ⟨above⟩) = some .directory →
      Reach t home ⟨above ++ rest⟩ from
    h p.segments [] (by rw [VolumePath.names, List.map_nil, List.append_nil, hhome])
  intro rest
  induction rest with
  | nil =>
    intro above hdir
    rw [List.append_nil]
    exact .whole hdir
  | cons first rest ih =>
    intro above hdir
    cases hnode : t.node? (home ++ VolumePath.names ⟨above⟩ ++ [Text.encode first]) with
    | none => exact .free hdir hnode
    | some node =>
      by_cases hother : node = .directory
      · have hrest := ih (above ++ [first])
          (by rw [append_names_concat, hnode, hother])
        rwa [List.append_assoc, List.singleton_append] at hrest
      · exact .blocked hdir hnode hother

namespace Seated

theorem usable (h : v.Seated t home) (hparse : VolumePath.parse path = .ok p)
    (hfits : v.FitsHost t home p) : v.Usable t home p := by
  obtain ⟨k, hr⟩ := exists_rooted h.target
  exact ⟨hfits.toSpellable, VolumePath.isProper_of_parse hparse,
    pathFailure?_hostPath hr.usable hparse hfits.written⟩

theorem usable_of_append (h : v.Seated t home) (hp : v.Usable t home ⟨above ++ rest⟩) :
    v.Usable t home ⟨above⟩ := by
  obtain ⟨k, hr⟩ := exists_rooted h.target
  have hproper := IsProper.of_append hp.proper
  have habove : VolumePath.names ⟨above⟩ <+: VolumePath.names ⟨above ++ rest⟩ :=
    names_append above rest ▸ List.prefix_append _ _
  exact ⟨hp.toSpellable.of_isPrefix habove, hproper,
    usable_of_isPrefix hr.root_ne_nil hp.proper hproper habove hp.accepted⟩

theorem usable_of_append_cons (h : v.Seated t home)
    (hp : v.Usable t home ⟨above ++ first :: rest⟩) :
    v.Usable t home ⟨above ++ [first]⟩ := by
  rw [← List.singleton_append, ← List.append_assoc] at hp
  exact h.usable_of_append hp

end Seated

namespace Plain

/-! ## Looking up -/

theorem eq_of_find (h : v.Plain t home) (hp : p.IsProper) (hlast : follow = true ∨ p.names ≠ [])
    (hfind : t.find follow (v.hostPath p) = .ok (.node loc node)) :
    loc = home ++ p.names ∧ t.node? loc = some node := by
  obtain ⟨k, hr⟩ := exists_rooted h.target
  have hu := pathFailure?_eq_none_of_find hfind
  -- Only with segments, or with links followed, is the root's own look-up cut off in front.
  have hwalk : t.walkLinks follow k home p.names = .ok (.node loc node) := by
    obtain rfl | hne := hlast
    · rwa [hr.find_true_eq hp hu] at hfind
    · rwa [hr.find_eq hp hne hu] at hfind
  obtain ⟨m, hleads⟩ := Host.Tree.leads_of_walkLinks hwalk
  exact ⟨hleads.eq_append h.linkless hp.isEntryName, hleads.holds h.connected h.directory⟩

theorem find_of_node (h : v.Plain t home) (hp : v.Usable t home p)
    (hlast : follow = true ∨ p.names ≠ [])
    (hnode : t.node? (home ++ p.names) = some node) :
    t.find follow (v.hostPath p) = .ok (.node (home ++ p.names) node) := by
  obtain ⟨segments⟩ := p
  obtain rfl | ⟨above, last, rfl⟩ := List.eq_nil_or_concat segments
  · -- The top: its look-up is the one of the root.
    obtain rfl : follow = true := hlast.resolve_right (fun hne => hne rfl)
    obtain ⟨k, hr⟩ := exists_rooted h.target
    have hnil : VolumePath.names ⟨[]⟩ = [] := rfl
    rw [hnil, List.append_nil] at hnode ⊢
    rw [hr.find_true_eq hp.proper hp.accepted, hnil, Host.Tree.walkLinks_nil]
    rw [h.directory] at hnode
    rw [Option.some.inj hnode]
  · rw [List.concat_eq_append] at *
    rw [append_names_concat] at hnode ⊢
    obtain ⟨m, hfind⟩ := h.find_append follow hp.proper (by simp) hp.accepted
      (h.connected.above (by rw [hnode]; simp))
    have hentry : IsEntryName (Text.encode last) :=
      hp.proper.isEntryName _ (by simp [names_append])
    rw [hfind, List.map_singleton, Host.Tree.walkLinks_entry _ _ _ _ hentry, hnode]
    cases node with
    | directory => exact Host.Tree.walkLinks_nil ..
    | link target =>
      refine absurd hnode (h.linkless _ target ?_)
      rw [List.append_assoc]
      exact Host.below_append (by simp)
    | file id => rfl
    | socket => rfl

theorem find_of_free (h : v.Plain t home) (hp : v.Usable t home ⟨above ++ [last]⟩)
    (hdir : t.node? (home ++ VolumePath.names ⟨above⟩) = some .directory)
    (hfree : t.node? (home ++ VolumePath.names ⟨above⟩ ++ [Text.encode last]) = none) :
    t.find follow (v.hostPath ⟨above ++ [last]⟩) =
      .ok (.vacant (home ++ VolumePath.names ⟨above⟩) (Text.encode last)) := by
  obtain ⟨m, hfind⟩ := h.find_append follow hp.proper (by simp) hp.accepted hdir
  have hentry : IsEntryName (Text.encode last) :=
    hp.proper.isEntryName _ (by simp [names_append])
  rw [hfind, List.map_singleton, Host.Tree.walkLinks_entry _ _ _ _ hentry, hfree]
  rfl

theorem target_iff (h : v.Plain t home) (hp : v.Usable t home p) :
    t.target (v.hostPath p) = .ok (loc, node) ↔
      loc = home ++ p.names ∧ t.node? (home ++ p.names) = some node := by
  rw [target_eq_ok_iff]
  constructor
  · intro hfind
    obtain ⟨rfl, hnode⟩ := h.eq_of_find hp.proper (.inl rfl) hfind
    exact ⟨rfl, hnode⟩
  · rintro ⟨rfl, hnode⟩
    exact h.find_of_node hp (.inl rfl) hnode

theorem exists?_iff (h : v.Plain t home) (hp : v.Usable t home p) :
    t.exists? (v.hostPath p) = true ↔ t.node? (home ++ p.names) ≠ none := by
  unfold Host.Tree.exists?
  constructor
  · intro hok
    cases htarget : t.target (v.hostPath p) with
    | error failure =>
      rw [htarget] at hok
      cases hok
    | ok found =>
      rw [((h.target_iff hp).1 htarget).2]
      nofun
  · intro hne
    obtain ⟨node, hnode⟩ := Option.ne_none_iff_exists'.1 hne
    rw [(h.target_iff hp).2 ⟨rfl, hnode⟩]
    rfl

/-! ## Confinement -/

theorem confine_eq (h : v.Plain t home) (hparse : VolumePath.parse path = .ok p)
    (hs : v.Spellable t home p) : v.confine t path = .ok p := by
  obtain ⟨k, hr⟩ := exists_rooted h.target
  have hescape : v.escape? t home p = none := by
    unfold escape?
    cases hlowest : v.lowestStage? t p with
    | none => rfl
    | some stage =>
      have hprefix := isPrefix_of_mem_upwards (List.mem_of_find?_eq_some hlowest)
      have hp : stage.IsProper := IsProper.of_isPrefix (VolumePath.isProper_of_parse hparse) hprefix
      -- The stage exists, so it stands where its segments say, and that is inside.
      have hinside : ∃ node, t.target (v.hostPath stage) = .ok (home ++ stage.names, node) ∧
          t.node? (home ++ stage.names) = some node ∧ node.kind ≠ .link := by
        by_cases hnil : stage.names = []
        · rw [hostPath_of_names_eq_nil hnil, hnil, List.append_nil]
          exact ⟨.directory, h.target, h.directory, nofun⟩
        cases hentry : t.entry (v.hostPath stage) with
        | error failure =>
          have hok := List.find?_some hlowest
          rw [hentry] at hok
          cases hok
        | ok found =>
          obtain ⟨loc, node⟩ := found
          obtain ⟨rfl, hnode⟩ := h.eq_of_find hp (.inr hnil) (entry_eq_ok_iff.1 hentry)
          have hkind : node.kind ≠ .link := by
            cases node with
            | link target => exact absurd hnode (h.linkless _ target (Host.below_append hnil))
            | _ => nofun
          exact ⟨node, target_of_entry hentry hkind, hnode, hkind⟩
      obtain ⟨node, htarget, hnode, hkind⟩ := hinside
      have hspells := h.canSpell_stage hs hp (VolumePath.names_isPrefix_iff.2 hprefix) hnode hkind
      dsimp only
      rw [Host.Tree.canonical_eq_ok_iff.2 ⟨hspells, htarget⟩]
      exact if_pos (List.prefix_append _ _)
  unfold confine
  rw [hparse, hr.home_eq hs.root]
  dsimp only
  rw [hescape]

theorem requireParent_iff (h : v.Plain t home) (hp : v.Usable t home ⟨above ++ [last]⟩) :
    v.requireParent t ⟨above ++ [last]⟩ = .ok () ↔
      t.node? (home ++ VolumePath.names ⟨above⟩) = some .directory := by
  have hpa := h.usable_of_append hp
  rw [requireParent_eq_ok_iff]
  constructor
  · rintro ⟨dir, htarget⟩
    exact ((h.target_iff hpa).1 htarget).2
  · intro hdir
    exact ⟨_, (h.target_iff hpa).2 ⟨rfl, hdir⟩⟩

end Plain

section SmallVolume

open Text (encode)

def smallTree : Host.Tree where
  nodes :=
    [([encode "vol"], .directory),
      ([encode "vol", encode "a"], .directory),
      ([encode "vol", encode "a", encode "f"], .file 0),
      ([encode "vol", encode "d"], .directory)]
  contents := [.ofList [120]]

theorem plain_smallTree : Plain ⟨.ofString "vol"⟩ smallTree [encode "vol"] where
  connected := (Host.Tree.wellFormed_of_nodes (by decide +kernel) (by decide +kernel)).toConnected
  target := by decide +kernel
  directory := by decide +kernel
  linkless loc target _ := Host.Tree.linkFree_of_nodes (by decide +kernel) loc target

end SmallVolume

end VolumeStore.Volume
