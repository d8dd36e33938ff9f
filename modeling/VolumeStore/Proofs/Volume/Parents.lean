import VolumeStore.Proofs.Volume.Parts
import VolumeStore.Proofs.Volume.Plain

/-!
# The directory above a path

A canonical path is taken apart at its last slash into the canonical path of the directory above it
and the name in there. The two stand for each other on the host as well: the parts of the path are
those of the directory and then the name. So the directory that is tested before an entry is made is
the one in which the host looks for the name of the entry, and the one in which it makes it.
-/

namespace VolumeStore

open Host (Location Name maxLinks)
open Host.Tree (Leads pathFailure? pathFailure?_eq_none_of_find target_eq_ok_iff)

/-! ## Written paths -/

namespace VolumePath

variable {p : VolumePath} {last : String} {above : List String}

theorem render_eq_slash_iff (h : p.IsWritten) : p.render = "/" ↔ p.segments = [] := by
  constructor
  · intro hrender
    obtain ⟨path, hparse⟩ := h
    have htop : parse "/" = .ok p := hrender ▸ parse_render hparse
    have hslash : parse "/" = .ok top := rfl
    rw [hslash] at htop
    cases htop
    rfl
  · intro hnil
    rw [render_eq, hnil]
    rfl

theorem render_concat (above : List String) (last : String) :
    (render ⟨above ++ [last]⟩).toList =
      (if above = [] then [] else (render ⟨above⟩).toList) ++ '/' :: last.toList := by
  rw [toList_render, toList_render, List.map_append, List.map_singleton]
  by_cases hnil : above = []
  · simp [hnil]
  · have hfields : above.map (·.toList) ≠ [] := by simpa using hnil
    rw [if_neg hnil, intercalate_append _ hfields (by simp), List.intercalate_singleton,
      List.append_assoc]
    rfl

theorem splitParent?_render (h : p.IsWritten) :
    splitParent? p.render = p.parent?.map fun (above, name) => (above.render, name) := by
  obtain ⟨segments⟩ := p
  obtain rfl | ⟨above, last, rfl⟩ := List.eq_nil_or_concat segments
  · rfl
  · rw [List.concat_eq_append] at h ⊢
    have hslash : render ⟨above ++ [last]⟩ ≠ "/" := by
      rw [Ne, render_eq_slash_iff h]
      simp
    have hlast : '/' ∉ last.toList := ((isWritten_iff.1 h).1 last (by simp)).undivided
    have hparent : parent? ⟨above ++ [last]⟩ = some (⟨above⟩, last) := parent?_eq_some_iff.2 rfl
    rw [splitParent?, if_neg hslash, render_concat, Text.cutLast?_append_cons _ hlast, hparent]
    -- What stands in front of the last slash is empty below the top, and the parent else.
    by_cases hnil : above = []
    · subst hnil
      simp [render_eq]
    · have hne : (render ⟨above⟩).toList ≠ [] := by simp [toList_render]
      simp [hnil, hne]

/-- A canonical path is divided into the canonical path of the directory above it and the name in
there, a segment. On the host the path has one part more than the directory, whatever the root is
and however it is spelled. -/
structure DividesInto (path parent name : String) : Prop where
  normal : normalize parent = .ok parent
  segments : ∃ above, IsCanonical parent above ∧ IsCanonical path (above ++ [name])
  nonempty : name ≠ ""
  undivided : '/' ∉ name.toList
  here : name ≠ "."
  upwards : name ≠ ".."
  short : (Text.encode name).length ≤ 255
  joined : path = if parent = "/" then "/" ++ name else parent ++ "/" ++ name
  parts : ∀ root : Host.Path,
    (root.below path).parts = (root.below parent).parts ++ [.ofSegment name]

theorem dividesInto_render (h : IsWritten ⟨above ++ [last]⟩) :
    DividesInto (render ⟨above ++ [last]⟩) (render ⟨above⟩) last := by
  have habove := h.of_append
  obtain ⟨written, hparse⟩ := h
  obtain ⟨written', hparse'⟩ := habove
  have hsegment : IsSegment last.toList := isSegment_of_parse hparse last (by simp)
  have htelling : last ≠ "" ∧ last ≠ "." := by
    simpa [isTrivialSegment_toList] using hsegment.telling
  -- The last segment has what every segment of a path has, and what is above it is a path again.
  exact
    { normal := normalize_of_parse (parse_render hparse')
      segments := ⟨above, isCanonical_of_parse hparse', isCanonical_of_parse hparse⟩
      nonempty := htelling.1
      undivided := hsegment.undivided
      here := htelling.2
      upwards := by
        rintro rfl
        exact hsegment.descending rfl
      short := by
        rw [Text.length_encode]
        exact hsegment.short
      joined := by
        have hslash := render_eq_slash_iff ⟨written', hparse'⟩
        rw [← String.toList_inj, render_concat]
        by_cases hnil : above = []
        · rw [if_pos (hslash.2 hnil), if_pos hnil]
          simp
        · rw [if_neg (mt hslash.1 hnil), if_neg hnil]
          simp
      parts := fun root => by
        have hproper := isProper_of_parse hparse
        rw [parts_below root hproper, parts_below root (isProper_of_parse hparse'),
          List.append_assoc]
        simp }

end VolumePath

/-! ## Look-ups on the host -/

/-- The look-up of a path ends with the look-up of one name in one directory, whether a link under
this name is followed or not. Only a path that the host refuses as it is does not come that far. -/
def Host.Tree.EndsIn (t : Host.Tree) (r : Host.Path) (dir : Location) (name : Name) : Prop :=
  ∃ links, ∀ follow, pathFailure? r = none →
    t.find follow r = t.walkLinks follow links dir [name]

namespace Volume

variable {v : Volume} {t : Host.Tree} {p : VolumePath} {dir : Location} {k : Nat} {follow : Bool}
  {above : List String} {last : String}

theorem leads_of_target (hp : p.IsProper) (h : t.target (v.hostPath p) = .ok (dir, .directory)) :
    ∃ k, Leads t true maxLinks (v.start t) (v.base ++ p.names) k (.node dir .directory) := by
  by_cases hne : p.names = []
  · rw [hostPath_of_names_eq_nil hne] at h
    obtain ⟨k, hr⟩ := exists_rooted h
    rw [hne, List.append_nil]
    exact ⟨k, hr.leads⟩
  · rw [target_eq_ok_iff] at h
    rw [find_hostPath hp hne (pathFailure?_eq_none_of_find h)] at h
    exact Host.Tree.leads_of_walkLinks h

theorem target_of_leads (hp : p.IsProper) (hu : pathFailure? (v.hostPath p) = none)
    (h : Leads t true maxLinks (v.start t) (v.base ++ p.names) k (.node dir .directory)) :
    t.target (v.hostPath p) = .ok (dir, .directory) := by
  by_cases hne : p.names = []
  · rw [hostPath_of_names_eq_nil hne] at hu ⊢
    rw [hne, List.append_nil] at h
    exact Rooted.target_root ⟨hu, h⟩
  · rw [target_eq_ok_iff, find_hostPath hp hne hu]
    exact h.walkLinks

theorem endsIn_of_target (hp : VolumePath.IsProper ⟨above ++ [last]⟩)
    (h : t.target (v.hostPath ⟨above⟩) = .ok (dir, .directory)) :
    t.EndsIn (v.hostPath ⟨above ++ [last]⟩) dir (Text.encode last) := by
  obtain ⟨k, hleads⟩ := leads_of_target (IsProper.of_append hp) h
  have hnames := names_append above [last]
  refine ⟨k, fun follow hu => ?_⟩
  rw [find_hostPath hp (by simp [hnames]) hu, hnames, ← List.append_assoc,
    hleads.walkLinks_append (.inl (by simp))]
  rfl

theorem exists_target_of_find (hroot : v.root.bytes ≠ [])
    (hp : VolumePath.IsProper ⟨above ++ [last]⟩) {found : Host.Found}
    (h : t.find follow (v.hostPath ⟨above ++ [last]⟩) = .ok found) :
    ∃ dir, t.target (v.hostPath ⟨above⟩) = .ok (dir, .directory) := by
  have hu := pathFailure?_eq_none_of_find h
  have hnames := names_append above [last]
  have hpa := IsProper.of_append hp
  rw [find_hostPath hp (by simp [hnames]) hu, hnames, ← List.append_assoc] at h
  obtain ⟨m, hleads⟩ := Host.Tree.leads_of_walkLinks h
  -- The names in front of the last one are followed with all links, as the path above is.
  obtain ⟨k, dir, habove, -⟩ := hleads.append_inv (by simp)
  have hua := usable_of_isPrefix hroot hp hpa (hnames ▸ List.prefix_append _ _) hu
  exact ⟨dir, target_of_leads hpa hua habove⟩

/-! ## The directory that is tested -/

def requireDirectory (v : Volume) (t : Host.Tree) (path : String) : Except VolumeError Unit :=
  match t.target (v.root.below path) with
  | .ok (_, .directory) => .ok ()
  | .ok _ => .error (.notADirectory path)
  | .error failure =>
    if VolumeError.isAbsence failure then .error (.directoryNotFound path)
    else .error (.host failure)

/-- Before an entry is made at a path, its parent is tested, and this is where the host looks for
the name and where it makes the entry. -/
structure TestsParent (v : Volume) (t : Host.Tree) (path parent name : String) : Prop where
  test : ∀ p, VolumePath.parse path = .ok p → v.requireParent t p = v.requireDirectory t parent
  /-- The directory that is tested is the one in which the name is looked up. -/
  within : ∀ dir, t.target (v.root.below parent) = .ok (dir, .directory) →
    t.EndsIn (v.root.below path) dir (Text.encode name)
  only : v.root.bytes ≠ [] → ∀ follow found, t.find follow (v.root.below path) = .ok found →
    ∃ dir, t.target (v.root.below parent) = .ok (dir, .directory)
  /-- A free name at which an entry can be made is this name in the directory that is tested. -/
  vacant : ∀ written p follow dir free, v.confine t written = .ok p → p.render = path →
    t.find follow (v.root.below path) = .ok (.vacant dir free) →
      t.target (v.root.below parent) = .ok (dir, .directory) ∧ free = Text.encode name

theorem testsParent_render (v : Volume) (t : Host.Tree)
    (h : VolumePath.IsWritten ⟨above ++ [last]⟩) :
    v.TestsParent t (VolumePath.render ⟨above ++ [last]⟩) (VolumePath.render ⟨above⟩) last := by
  obtain ⟨written, hparse⟩ := h
  have hproper := VolumePath.isProper_of_parse hparse
  refine ⟨fun p hp => ?_, fun dir htarget => endsIn_of_target hproper htarget,
    fun hroot follow found hfind => exists_target_of_find hroot hproper hfind,
    fun written' p follow dir free hc hrender hfind => ?_⟩
  · obtain rfl : p = ⟨above ++ [last]⟩ := by
      rw [VolumePath.parse_render hparse] at hp
      exact (Except.ok.inj hp).symm
    rw [requireParent, VolumePath.parent?_eq_some_iff.2 rfl]
    rfl
  · obtain rfl : p = ⟨above ++ [last]⟩ :=
      VolumePath.eq_of_render_eq (confine_eq_ok hc).1 hparse hrender
    obtain ⟨hfree, htarget, -⟩ := target_of_vacant hc hfind
    exact ⟨htarget, hfree⟩

end Volume

/-! ## The law -/

namespace VolumePath

/-- A canonical path other than the top is divided into the canonical path of the directory above it
and the last of its segments, and the top is not divided. The directory is the one that is tested
before an entry is made at the path. -/
theorem splitParent?_exact (written path : String) (h : normalize written = .ok path) :
    splitParent? "/" = none ∧
      (path ≠ "/" → ∃ parent name, splitParent? path = some (parent, name) ∧
        DividesInto path parent name ∧
        ∀ (v : Volume) (t : Host.Tree), v.TestsParent t path parent name) := by
  refine ⟨rfl, fun hpath => ?_⟩
  obtain ⟨⟨segments⟩, hparse, rfl⟩ := exists_parse_of_normalize h
  obtain rfl | ⟨above, last, rfl⟩ := List.eq_nil_or_concat segments
  · exact absurd rfl hpath
  · rw [List.concat_eq_append] at hparse ⊢
    have hwritten : IsWritten ⟨above ++ [last]⟩ := ⟨written, hparse⟩
    refine ⟨render ⟨above⟩, last, ?_, dividesInto_render hwritten,
      fun v t => Volume.testsParent_render v t hwritten⟩
    rw [splitParent?_render hwritten, parent?_eq_some_iff.2 rfl]
    rfl

theorem splitParent?_exact_smallTree :
    DividesInto "/a/é" "/a" "é" ∧
      Volume.smallTree.EndsIn ((Host.Path.ofString "vol").below "/a/é")
        [Text.encode "vol", Text.encode "a"] (Text.encode "é") ∧
      (Volume.mk (.ofString "vol")).confine Volume.smallTree "//a/./é/" = .ok ⟨["a", "é"]⟩ ∧
      Volume.smallTree.find true ((Host.Path.ofString "vol").below "/a/é") =
        .ok (.vacant [Text.encode "vol", Text.encode "a"] (Text.encode "é")) := by
  have hnormal : normalize "//a/./é/" = .ok "/a/é" := by decide
  have htarget : Volume.smallTree.target ((Host.Path.ofString "vol").below "/a") =
      .ok ([Text.encode "vol", Text.encode "a"], .directory) := by decide +kernel
  obtain ⟨-, hdivided⟩ := splitParent?_exact "//a/./é/" "/a/é" hnormal
  obtain ⟨parent, name, hsplit, hdivides, htested⟩ := hdivided (by decide)
  have hpair : splitParent? "/a/é" = some ("/a", "é") := by decide
  rw [hpair] at hsplit
  cases hsplit
  exact ⟨hdivides, (htested ⟨.ofString "vol"⟩ Volume.smallTree).within _ htarget,
    by decide +kernel, by decide +kernel⟩

end VolumePath

end VolumeStore
