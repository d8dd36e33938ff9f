import VolumeStore.Proofs.Volume.Twins
import VolumeStore.Settings.Store

/-!
# Where the volumes of a store stand

Without links, the directories of two volumes stand side by side, whatever the path of the store's
root looks like. As long as that path leads below neither of them, nothing that happens there moves
one of the two.
-/

namespace VolumeStore

open Host (Location IsEntryName Below maxLinks)

/-! ## Names and paths of volumes -/

theorem isProper_of_isVolumeName {name : String} (h : isVolumeName name = true) :
    (VolumePath.mk [name]).IsProper := by
  simp only [isVolumeName, Bool.and_eq_true, Bool.not_eq_true', decide_eq_true_eq, ne_eq] at h
  obtain ⟨⟨⟨⟨⟨hblank, hlong⟩, hself⟩, hparent⟩, hslash⟩, -⟩ := h
  intro encoded hmem
  obtain rfl : encoded = Text.encode name := List.mem_singleton.1 hmem
  refine ⟨VolumePath.isEntryName_encode ?_ hself hparent hlong, fun hin => ?_⟩
  · rintro rfl
    exact absurd hblank (by decide)
  · have hchar := Text.mem_toList_of_mem_encode (c := '/') (by decide) (by decide) hin
    rw [List.any_eq_false] at hslash
    exact hslash '/' hchar rfl

namespace StoreSettings

variable {settings : StoreSettings} {name : String}

def rootVolume (settings : StoreSettings) : Volume :=
  ⟨settings.rootPath⟩

theorem rootPath_ne_nil (h : settings.fault? = none) : settings.rootVolume.root.bytes ≠ [] := by
  unfold fault? at h
  split at h
  · cases h
  split at h
  · cases h
  next hroot => exact fun hnil => hroot (Text.encode_injective (hnil.trans Text.encode_empty.symm))

theorem isVolumeName_of_hasVolume (h : settings.fault? = none)
    (hserved : settings.hasVolume name = true) : isVolumeName name = true := by
  have hfind : settings.volumes.find? (fun name => !isVolumeName name) = none := by
    unfold fault? at h
    split at h
    · cases h
    split at h
    · cases h
    split at h
    · cases h
    split at h
    · cases h
    · assumption
  have hall := List.find?_eq_none.1 hfind name (List.contains_iff_mem.1 hserved)
  simpa using hall

theorem volumePath_eq_hostPath (hname : isVolumeName name = true) :
    settings.volumePath name = settings.rootVolume.hostPath ⟨[name]⟩ := by
  have hnames : List.intercalate [Host.slash] (VolumePath.mk [name]).names = Text.encode name := by
    simp [VolumePath.names]
  rw [Volume.hostPath, VolumePath.onHost,
    VolumePath.below_render _ (isProper_of_isVolumeName hname) (by simp [VolumePath.names]), hnames]
  rfl

def rootRoute (settings : StoreSettings) (t : Host.Tree) : List Location :=
  Host.Tree.route (settings.rootVolume.start t) (Host.Path.split settings.rootPath.bytes)

end StoreSettings

/-! ## Directories of volumes -/

/-- Some volumes of a store, with the places of their directories in a tree without links. The path
of the store's root leads below none of them. -/
structure Placed {ι : Type} (settings : StoreSettings) (t : Host.Tree) (volume : ι → String)
    (home : ι → Location) : Prop where
  valid : settings.fault? = none
  served : ∀ i, settings.hasVolume (volume i) = true
  different : ∀ i j, volume i = volume j → i = j
  wellFormed : t.WellFormed
  linkFree : t.LinkFree
  target : ∀ i, t.target (settings.volumePath (volume i)) = .ok (home i, .directory)
  beside : ∀ loc ∈ settings.rootRoute t, ∀ i, ¬ Below (home i) loc

namespace Placed

variable {ι : Type} {settings : StoreSettings} {t : Host.Tree} {volume : ι → String}
  {home : ι → Location} {i j : ι}

def top (settings : StoreSettings) (t : Host.Tree) : Location :=
  settings.rootVolume.base.foldl Host.Tree.stepTo (settings.rootVolume.start t)

theorem route_base (settings : StoreSettings) (t : Host.Tree) {loc : Location}
    (hmem : loc ∈ Host.Tree.route (settings.rootVolume.start t) settings.rootVolume.base) :
    loc ∈ settings.rootRoute t := by
  unfold StoreSettings.rootRoute
  -- A slash at the end of the path adds an empty name, which leads nowhere else.
  obtain hsplit | hsplit := settings.rootVolume.split_root_bytes
  · rwa [← hsplit] at hmem
  · show loc ∈ Host.Tree.route _ (Host.Path.split settings.rootVolume.root.bytes)
    rw [hsplit, Host.Tree.route_concat]
    exact List.mem_append_left _ hmem

variable (h : Placed settings t volume home)

include h

theorem isProper (i : ι) : (VolumePath.mk [volume i]).IsProper :=
  isProper_of_isVolumeName (StoreSettings.isVolumeName_of_hasVolume h.valid (h.served i))

theorem isEntryName (i : ι) : IsEntryName (Text.encode (volume i)) :=
  (h.isProper i _ (List.mem_singleton_self _)).1

theorem volumePath_eq (i : ι) :
    settings.volumePath (volume i) = settings.rootVolume.hostPath ⟨[volume i]⟩ :=
  StoreSettings.volumePath_eq_hostPath
    (StoreSettings.isVolumeName_of_hasVolume h.valid (h.served i))

theorem find_volumePath (i : ι) {t' : Host.Tree}
    (hu : Host.Tree.pathFailure? (settings.volumePath (volume i)) = none) :
    t'.find true (settings.volumePath (volume i)) =
      t'.walkLinks true maxLinks (settings.rootVolume.start t')
        (settings.rootVolume.base ++ [Text.encode (volume i)]) := by
  have hroot := StoreSettings.rootPath_ne_nil h.valid
  have hsplit := Volume.split_hostPath hroot (h.isProper i) (by simp [VolumePath.names])
  have habsolute := Volume.isAbsolute_hostPath hroot (h.isProper i)
  unfold Host.Tree.find
  simp only [hu]
  rw [h.volumePath_eq i, hsplit, habsolute]
  rfl

theorem pathFailure?_eq_none (i : ι) :
    Host.Tree.pathFailure? (settings.volumePath (volume i)) = none :=
  Host.Tree.pathFailure?_eq_none_of_find (Host.Tree.target_eq_ok_iff.1 (h.target i))

theorem leads (i : ι) : ∃ k, Host.Tree.Leads t true maxLinks (settings.rootVolume.start t)
    (settings.rootVolume.base ++ [Text.encode (volume i)]) k (.node (home i) .directory) := by
  have hfind := Host.Tree.target_eq_ok_iff.1 (h.target i)
  rw [h.find_volumePath i (h.pathFailure?_eq_none i)] at hfind
  exact Host.Tree.leads_of_walkLinks hfind

theorem home_eq (i : ι) : home i = top settings t ++ [Text.encode (volume i)] := by
  obtain ⟨k, hleads⟩ := h.leads i
  rw [h.linkFree.eq_foldl_stepTo hleads, List.foldl_append, List.foldl_cons, List.foldl_nil,
    Host.Tree.stepTo_entry _ (h.isEntryName i)]
  rfl

theorem eq_of_isPrefix (hp : home i <+: home j) : i = j := by
  have heq := hp.eq_of_length (by rw [h.home_eq i, h.home_eq j]; simp)
  rw [h.home_eq i, h.home_eq j] at heq
  have hname := (List.append_inj' heq rfl).2
  exact h.different i j (Text.encode_injective (List.head_eq_of_cons_eq hname))

theorem not_below_home (i j : ι) : ¬ Below (home i) (home j) := by
  intro hb
  obtain rfl := h.eq_of_isPrefix hb.1
  exact Host.not_below_self _ hb

theorem eq_of_below {loc : Location} (hi : Below (home i) loc) (hj : Below (home j) loc) :
    i = j := by
  obtain hp | hp := List.prefix_or_prefix_of_prefix hi.1 hj.1
  · exact h.eq_of_isPrefix hp
  · exact (h.eq_of_isPrefix hp).symm

theorem settled (i : ι) : (Volume.mk (settings.volumePath (volume i))).Settled
    (fun loc => ∃ j, Below (home j) loc) t (home i) := by
  obtain ⟨k, hleads⟩ := h.leads i
  refine ⟨⟨h.wellFormed, h.target i, ?_⟩, h.linkFree, fun loc hb => ⟨i, hb⟩,
    fun t' hhome hsame => ?_⟩
  · exact h.linkFree.directory_of_concat (h.isEntryName i) hleads
  · rw [Host.Tree.target_eq_ok_iff, h.find_volumePath i (h.pathFailure?_eq_none i),
      ← hleads.walkLinks]
    have hstart : settings.rootVolume.start t' = settings.rootVolume.start t := by
      unfold Volume.start
      rw [hhome]
    rw [hstart]
    -- The route passes the root of the store and ends at the volume: nothing of it has changed.
    refine h.linkFree.walkLinks_eq _ _ _ _ fun loc hmem => hsame loc ?_
    rintro ⟨j, hb⟩
    rw [Host.Tree.route_concat, List.mem_append, List.mem_singleton] at hmem
    obtain hmem | rfl := hmem
    · exact h.beside loc (route_base settings t hmem) j hb
    · rw [Host.Tree.stepTo_entry _ (h.isEntryName i)] at hb
      exact h.not_below_home j i (h.home_eq i ▸ hb)

end Placed

end VolumeStore
