import VolumeStore.Proofs.Volume.Placement
import VolumeStore.Proofs.Volume.Spelling

/-!
# The parts of a path on the host

Paths of the host are compared part by part: the slash at the start, or the name of the directory
itself there, and then the names that lead somewhere. More slashes in a row, a slash at the end, and
the name of the directory itself further on make no difference. So a path of a volume has the parts
of the store's root, however that is spelled, then the volume's name, and then the segments. Two
such paths are the same only when volume and segments are, and one begins with another one only in
the same volume and from a path above it.
-/

namespace VolumeStore

open Host (Name slash selfName parentName)
open Host.Tree (isTelling)

namespace Host

/-- A part of a path: the slash or the name of the directory itself at its start, the name that
leads up, or a name of an entry. -/
inductive Part where
  | top
  | here
  | up
  | name (name : Name)
deriving DecidableEq, Repr

namespace Part

def ofName (name : Name) : Part :=
  if name = parentName then .up else .name name

def ofSegment (segment : String) : Part :=
  .name (Text.encode segment)

theorem ofSegment_injective : Function.Injective ofSegment :=
  fun _ _ h => Text.encode_injective (Part.name.inj h)

theorem ofName_of_isEntryName {name : Name} (h : IsEntryName name) : ofName name = .name name :=
  if_neg h.2.2.1

end Part

namespace Path

def opening (p : Path) : List Part :=
  if p.isAbsolute then [.top]
  else if (split p.bytes).head? = some selfName then [.here]
  else []

def parts (p : Path) : List Part :=
  p.opening ++ p.components.map .ofName

end Path

end Host

/-! ## Continued paths -/

namespace VolumePath

variable {p : VolumePath}

theorem map_ofName_names (hp : p.IsProper) :
    p.names.map Host.Part.ofName = p.segments.map .ofSegment := by
  rw [names, List.map_map]
  refine List.map_congr_left fun segment hmem => ?_
  exact Host.Part.ofName_of_isEntryName (hp.isEntryName _ (List.mem_map_of_mem hmem))

theorem parts_intercalate_names (hp : p.IsProper) (hne : p.names ≠ []) :
    (Host.Path.mk (List.intercalate [slash] p.names)).parts = p.segments.map .ofSegment := by
  have hself : p.names.head? ≠ some selfName := by
    intro hhead
    exact (hp.isEntryName _ (List.mem_of_head? hhead)).2.1 rfl
  have htelling : p.names.filter isTelling = p.names :=
    List.filter_eq_self.2 fun name hmem =>
      Host.Tree.isTelling_of_isEntryName (hp.isEntryName name hmem)
  rw [Host.Path.parts, Host.Path.opening, Host.Tree.components_eq, split_intercalate_names hp hne,
    htelling, map_ofName_names hp, isAbsolute_intercalate_names hp hne]
  simp [hself]

end VolumePath

namespace Volume

variable {v : Volume} {p : VolumePath}

theorem base_ne_nil (v : Volume) : v.base ≠ [] :=
  List.splitOn_ne_nil _ _

theorem head?_split_root (v : Volume) :
    (Host.Path.split v.root.bytes).head? = v.base.head? := by
  obtain h | h := v.split_root_bytes
  · rw [h]
  · rw [h, List.head?_append_of_ne_nil _ v.base_ne_nil]

theorem opening_hostPath (hroot : v.root.bytes ≠ []) (hp : p.IsProper) :
    (v.hostPath p).opening = v.root.opening := by
  by_cases hne : p.names = []
  · rw [hostPath_of_names_eq_nil hne]
  · have hhead : (Host.Path.split (v.hostPath p).bytes).head? =
        (Host.Path.split v.root.bytes).head? := by
      rw [split_hostPath hroot hp hne, head?_split_root,
        List.head?_append_of_ne_nil _ v.base_ne_nil]
    rw [Host.Path.opening, Host.Path.opening, isAbsolute_hostPath hroot hp, hhead]

end Volume

theorem parts_below (root : Host.Path) {p : VolumePath} (hp : p.IsProper) :
    (root.below p.render).parts = root.parts ++ p.segments.map .ofSegment := by
  by_cases hroot : root.bytes = []
  · -- Behind an empty root there is no slash, so the first segment starts the path.
    obtain ⟨bytes⟩ := root
    obtain rfl : bytes = [] := hroot
    have hnil : (Host.Path.mk []).parts = [] := by decide
    rw [hnil, List.nil_append]
    by_cases hne : p.names = []
    · obtain rfl : p = VolumePath.top := VolumePath.names_injective hne
      decide
    · rw [VolumePath.below_render_nil hp hne, VolumePath.parts_intercalate_names hp hne]
  · -- The components of the root are those of the top of a volume that has this root.
    have hcomponents : root.components.map Host.Part.ofName ++ p.segments.map .ofSegment =
        ((Volume.mk root).hostPath p).components.map Host.Part.ofName := by
      have htop := Volume.components_hostPath (v := ⟨root⟩) (p := VolumePath.top) hroot nofun
      rw [Volume.hostPath_of_names_eq_nil rfl] at htop
      rw [htop, Volume.components_hostPath hroot hp, ← VolumePath.map_ofName_names hp]
      simp [VolumePath.names, VolumePath.top]
    show ((Volume.mk root).hostPath p).parts = _
    rw [Host.Path.parts, Volume.opening_hostPath hroot hp, ← hcomponents, ← List.append_assoc]
    rfl

/-! ## The paths of a store -/

namespace StoreSettings

open VolumePath (IsCanonical normalize)

variable {name other : String}

def realPath (settings : StoreSettings) (volume path : String) : Host.Path :=
  (settings.volumePath volume).below path

theorem parts_volumePath (settings : StoreSettings) (hname : isVolumeName name = true) :
    (settings.volumePath name).parts = settings.rootPath.parts ++ [.ofSegment name] := by
  rw [volumePath_eq_hostPath hname]
  exact parts_below settings.rootPath (isProper_of_isVolumeName hname)

theorem parts_realPath (settings : StoreSettings) (hname : isVolumeName name = true)
    {p : VolumePath} (hp : p.IsProper) :
    (settings.realPath name p.render).parts =
      settings.rootPath.parts ++ (name :: p.segments).map .ofSegment := by
  rw [realPath, parts_below _ hp, parts_volumePath settings hname, List.append_assoc]
  rfl

/-- On the host, a path of a volume has the parts of the store's root, then the name of the volume,
then the segments of the path. It is the path for another path of a volume of the store only if both
the volumes and the paths are the same, and that one starts with it, part by part, only if the
volumes are the same and the path is the other one or above it. -/
theorem paths_apart {settings : StoreSettings} {first second path path' : String}
    (h : settings.fault? = none)
    (hname : settings.hasVolume name = true) (hother : settings.hasVolume other = true)
    (hpath : normalize first = .ok path) (hpath' : normalize second = .ok path') :
    ∃ segments segments', IsCanonical path segments ∧ IsCanonical path' segments' ∧
      (settings.realPath name path).parts =
        settings.rootPath.parts ++ (name :: segments).map .ofSegment ∧
      ((settings.realPath name path).parts = (settings.realPath other path').parts ↔
        name = other ∧ path = path') ∧
      ((settings.realPath name path).parts <+: (settings.realPath other path').parts ↔
        name = other ∧ segments <+: segments') := by
  obtain ⟨p, hparse, rfl⟩ := VolumePath.exists_parse_of_normalize hpath
  obtain ⟨q, hparse', rfl⟩ := VolumePath.exists_parse_of_normalize hpath'
  have hparts := parts_realPath settings (isVolumeName_of_hasVolume h hname)
    (VolumePath.isProper_of_parse hparse)
  have hparts' := parts_realPath settings (isVolumeName_of_hasVolume h hother)
    (VolumePath.isProper_of_parse hparse')
  refine ⟨p.segments, q.segments, VolumePath.isCanonical_of_parse hparse,
    VolumePath.isCanonical_of_parse hparse', hparts, ?_, ?_⟩
  · rw [hparts, hparts', List.append_cancel_left_eq,
      (List.map_injective_iff.2 Host.Part.ofSegment_injective).eq_iff, List.cons.injEq]
    refine and_congr_right fun _ => ⟨fun hsegments => ?_, fun hrender => ?_⟩
    · rw [VolumePath.render_eq, VolumePath.render_eq, hsegments]
    · exact congrArg VolumePath.segments (VolumePath.eq_of_render_eq hparse hparse' hrender)
  · rw [hparts, hparts', List.prefix_append_right_inj,
      List.prefix_map_iff_of_injective Host.Part.ofSegment_injective, List.cons_prefix_cons]

/-- A store whose root is spelled with detours, and two volumes of which one's name goes on behind
the other's. -/
def detouredStore : StoreSettings where
  storeRoot := "./r//../s/"
  volumes := ["a", "ab"]

theorem paths_apart_detouredStore :
    detouredStore.fault? = none ∧ detouredStore.hasVolume "a" = true ∧
      detouredStore.hasVolume "ab" = true ∧ normalize "/." = .ok "/" ∧
      normalize "//b c/" = .ok "/b c" ∧
      ∃ segments segments', IsCanonical "/" segments ∧ IsCanonical "/b c" segments' ∧
        (detouredStore.realPath "a" "/").parts =
          detouredStore.rootPath.parts ++ ("a" :: segments).map .ofSegment ∧
        ((detouredStore.realPath "a" "/").parts = (detouredStore.realPath "ab" "/b c").parts ↔
          "a" = "ab" ∧ "/" = "/b c") ∧
        ((detouredStore.realPath "a" "/").parts <+: (detouredStore.realPath "ab" "/b c").parts ↔
          "a" = "ab" ∧ segments <+: segments') := by
  have hfault : detouredStore.fault? = none := by decide
  have hfirst : normalize "/." = .ok "/" := by decide
  have hsecond : normalize "//b c/" = .ok "/b c" := by decide
  exact ⟨hfault, rfl, rfl, hfirst, hsecond, paths_apart hfault rfl rfl hfirst hsecond⟩

-- The bytes of the one path start those of the other, but not its parts.
example : (detouredStore.realPath "a" "/").bytes <+: (detouredStore.realPath "ab" "/b c").bytes ∧
    (detouredStore.realPath "a" "/").parts =
      [.here, .ofSegment "r", .up, .ofSegment "s", .ofSegment "a"] := by
  decide

end StoreSettings

end VolumeStore
