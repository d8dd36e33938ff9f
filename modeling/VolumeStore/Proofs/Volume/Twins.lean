import Mathlib.Data.List.Find
import VolumeStore.Proofs.Host.MirrorCalls
import VolumeStore.Proofs.Volume.Effects

/-!
# A volume in two trees

A volume whose directory stands at the same place in two trees without links, which mirror each
other below it: every operation answers the same in both and leaves trees that mirror each other
again. So nothing outside the directory has a say in what an operation does.
-/

namespace VolumeStore.Volume

open Host (Location Name IsEntryName Below FileId Alike Numbering maxLinks)
open Host.Tree (Mirrors SamePath Opened StaysWithin Leads isTelling pathFailure?
  pathFailure?_eq_none_of_find)

/-- There are no links, and the root of the volume leads to `home` whatever changes in a region,
which covers all that stands below `home`. -/
structure Settled (v : Volume) (region : Location → Prop) (t : Host.Tree) (home : Location) : Prop
    extends Stands v t home where
  linkFree : t.LinkFree
  covered : ∀ loc, Below home loc → region loc
  fixed : ∀ t' : Host.Tree, t'.home = t.home →
    (∀ loc, ¬ region loc → t'.node? loc = t.node? loc) → t'.target v.root = .ok (home, .directory)

structure Twins (v : Volume) (region : Location → Prop) (home : Location) (N : Numbering)
    (t t' : Host.Tree) : Prop where
  left : v.Settled region t home
  right : v.Settled region t' home
  workingDirectory : t'.home = t.home
  mirrors : Mirrors home N t t'

/-- Two trees mirror each other, with files that the numbering has not known before if they are
new. -/
def Follows (home : Location) (N : Numbering) (bound : Nat) (t t' : Host.Tree) : Prop :=
  ∃ N', N.Extends N' bound ∧ Mirrors home N' t t'

variable {v : Volume} {t t' : Host.Tree} {p q : VolumePath} {path : String} {home top : Location}
  {region : Location → Prop} {ids : FileId → Prop} {N : Numbering}

theorem follows_of_mirrors (h : Mirrors home N t t') (bound : Nat) : Follows home N bound t t' :=
  ⟨N, .refl N bound, h⟩

theorem Settled.of_staysWithin (h : v.Settled region t home) (hs : StaysWithin top ids t t')
    (hregion : ∀ loc, Below top loc → region loc) (hhome : ¬ Below top home) :
    v.Settled region t' home where
  wellFormed := hs.wellFormed
  target := h.fixed t' hs.home fun _ hloc => hs.node?_eq fun hb => hloc (hregion _ hb)
  directory := (hs.node?_eq hhome).trans h.directory
  linkFree := hs.linkFree h.linkFree
  covered := h.covered
  fixed u hu hsame := by
    refine h.fixed u (hu.trans hs.home) fun loc hloc => ?_
    rw [hsame loc hloc]
    exact hs.node?_eq fun hb => hloc (hregion loc hb)

theorem Settled.stays (h : v.Settled region t home) (hs : StaysWithin home ids t t') :
    v.Settled region t' home :=
  h.of_staysWithin hs h.covered (Host.not_below_self home)

theorem Settled.find_eq (h : v.Settled region t home) (hp : p.IsProper)
    (hu : pathFailure? (v.hostPath p) = none) (follow : Bool) :
    t.find follow (v.hostPath p) = t.walkLinks true maxLinks home p.names := by
  obtain ⟨k, hr⟩ := exists_rooted h.target
  -- Without links it makes no difference how many of them are left, or if the last is followed.
  rw [h.linkFree.find_eq follow true, hr.find_true_eq hp hu]
  exact h.linkFree.walkLinks_eq _ _ _ _ fun _ _ => rfl

theorem Stands.below_of_file (h : v.Stands t home) {loc : Location} {id : FileId}
    (hp : home <+: loc) (hnode : t.node? loc = some (.file id)) : Below home loc := by
  refine ⟨hp, ?_⟩
  rintro rfl
  rw [h.directory] at hnode
  cases hnode

namespace Twins

theorem spells_eq (h : v.Twins region home N t t') {names : List Name}
    (hnames : names = [[]] ∨ ∀ name ∈ names, IsEntryName name) :
    t'.spells maxLinks (v.start t') (v.base ++ names) =
      t.spells maxLinks (v.start t) (v.base ++ names) := by
  obtain ⟨k, hr⟩ := exists_rooted h.left.target
  obtain ⟨k', hr'⟩ := exists_rooted h.right.target
  have hstart : v.start t' = v.start t := by rw [start, start, h.workingDirectory]
  have hleads' := hr'.leads
  rw [hstart] at hleads' ⊢
  refine h.left.linkFree.spells_append_eq h.right.linkFree hr.leads hleads' ?_
  obtain rfl | hentry := hnames
  · rw [Host.Tree.spells_skip _ _ _ (.inl rfl), Host.Tree.spells_skip _ _ _ (.inl rfl),
      Host.Tree.spells_nil, Host.Tree.spells_nil]
  · exact h.mirrors.spells_eq h.left.linkFree (List.prefix_refl home) hentry _ _

theorem canSpell_eq (h : v.Twins region home N t t') (hp : p.IsProper) :
    t'.canSpell (v.hostPath p) = t.canSpell (v.hostPath p) := by
  obtain ⟨k, hr⟩ := exists_rooted h.left.target
  by_cases hne : p.names = []
  · rw [hostPath_of_names_eq_nil hne, canSpell_root, canSpell_root]
    obtain hsplit | hsplit := v.split_root_bytes <;> rw [hsplit]
    · simpa using h.spells_eq (.inr fun _ hmem => absurd hmem List.not_mem_nil)
    · exact h.spells_eq (.inl rfl)
  · rw [canSpell_hostPath hr.root_ne_nil hp hne, canSpell_hostPath hr.root_ne_nil hp hne]
    exact h.spells_eq (.inr hp.isEntryName)

theorem samePath (h : v.Twins region home N t t') (hp : p.IsProper) :
    SamePath home N t t' (v.hostPath p) where
  canSpell_eq := h.canSpell_eq hp
  find_eq follow := by
    cases hu : pathFailure? (v.hostPath p) with
    | some failure => simp only [Host.Tree.find, hu, Except.map]
    | none =>
      rw [h.left.find_eq hp hu, h.right.find_eq hp hu]
      exact h.mirrors.walkLinks_eq h.left.linkFree (List.prefix_refl home) hp.isEntryName _ _ _
  inside follow found hfind := by
    rw [h.left.find_eq hp (pathFailure?_eq_none_of_find hfind)] at hfind
    exact h.left.linkFree.below_of_walkLinks hp.isEntryName h.left.directory hfind

/-! ## Checks -/

theorem isProper_of_mem_upwards {stage : VolumePath} (hp : p.IsProper) (hmem : stage ∈ upwards p) :
    stage.IsProper := by
  unfold upwards VolumePath.stages at hmem
  rw [List.mem_append, List.mem_reverse, List.mem_map, List.mem_singleton] at hmem
  obtain ⟨n, -, rfl⟩ | rfl := hmem
  · intro name hname
    rw [VolumePath.names, List.map_take] at hname
    exact hp name (List.mem_of_mem_take hname)
  · exact fun name hname => absurd hname List.not_mem_nil

theorem lowestStage?_eq (h : v.Twins region home N t t') (hp : p.IsProper) :
    v.lowestStage? t' p = v.lowestStage? t p := by
  -- The stages are tried in the same order, each with the same answer.
  unfold lowestStage?
  refine List.find?_congr fun stage hmem => ?_
  exact (h.samePath (isProper_of_mem_upwards hp hmem)).isOk_entry_eq

theorem escape?_eq (h : v.Twins region home N t t') (hp : p.IsProper) :
    v.escape? t' home p = v.escape? t home p := by
  unfold escape?
  rw [h.lowestStage?_eq hp]
  cases hstage : v.lowestStage? t p with
  | none => rfl
  | some stage =>
    have hmem : stage ∈ upwards p := List.mem_of_find?_eq_some hstage
    simp only [(h.samePath (isProper_of_mem_upwards hp hmem)).canonical_eq]
    cases t.canonical (v.hostPath stage) <;> rfl

theorem home_eq (h : v.Twins region home N t t') : v.home t' = v.home t := by
  have htop : v.hostPath VolumePath.top = v.root := hostPath_of_names_eq_nil rfl
  have hsame := h.samePath (p := VolumePath.top) fun _ hmem => absurd hmem List.not_mem_nil
  rw [htop] at hsame
  unfold Volume.home
  rw [hsame.canonical_eq]
  cases t.canonical v.root <;> rfl

theorem confine_eq (h : v.Twins region home N t t') (path : String) :
    v.confine t' path = v.confine t path := by
  unfold confine
  rw [h.home_eq]
  cases hparse : VolumePath.parse path with
  | error error => rfl
  | ok p =>
    cases hhome : v.home t with
    | error error => rfl
    | ok home' =>
      -- The directory that is found is the one below which the trees mirror each other.
      obtain ⟨node, htarget⟩ := target_of_home hhome
      cases h.left.target.symm.trans htarget
      simp only [h.escape?_eq (VolumePath.isProper_of_parse hparse)]

theorem isProper_of_parent? {parent : VolumePath} {name : String} (hp : p.IsProper)
    (hparent : p.parent? = some (parent, name)) : parent.IsProper := by
  unfold VolumePath.parent? at hparent
  obtain ⟨last, -, he⟩ := Option.map_eq_some_iff.1 hparent
  cases he
  intro name hname
  rw [VolumePath.names, List.map_dropLast] at hname
  exact hp name (List.dropLast_subset _ hname)

theorem requireParent_eq (h : v.Twins region home N t t') (hp : p.IsProper) :
    v.requireParent t' p = v.requireParent t p := by
  unfold requireParent Host.Tree.target
  cases hparent : p.parent? with
  | none => rfl
  | some above =>
    obtain ⟨parent, name⟩ := above
    simp only [(h.samePath (isProper_of_parent? hp hparent)).findEntry_eq]
    cases t.findEntry true (v.hostPath parent) with
    | error failure => rfl
    | ok found =>
      obtain ⟨loc, node⟩ := found
      cases node <;> rfl

theorem requireOpenable_eq (h : v.Twins region home N t t') (hp : p.IsProper) (create : Bool) :
    v.requireOpenable t' p create = v.requireOpenable t p create := by
  unfold requireOpenable
  rw [(h.samePath hp).isDirectory_eq, (h.samePath hp).exists?_eq, h.requireParent_eq hp]

theorem obstacle?_eq (h : v.Twins region home N t t') {stages : List VolumePath}
    (hp : ∀ stage ∈ stages, stage.IsProper) : v.obstacle? t' stages = v.obstacle? t stages := by
  induction stages with
  | nil => rfl
  | cons stage stages ih =>
    unfold obstacle? Host.Tree.target
    rw [(h.samePath (hp stage List.mem_cons_self)).findEntry_eq,
      ih fun stage' hmem => hp stage' (List.mem_cons_of_mem _ hmem)]
    cases t.findEntry true (v.hostPath stage) with
    | error failure => rfl
    | ok found =>
      obtain ⟨loc, node⟩ := found
      cases node <;> rfl

end Twins

end VolumeStore.Volume
