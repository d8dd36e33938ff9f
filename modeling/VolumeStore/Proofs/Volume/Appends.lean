import VolumeStore.Proofs.Volume.RootKept
import VolumeStore.Proofs.Volume.StoredFiles

/-!
# Appending to a file

A path that leads to a file keeps doing so while the bytes of files change, so data can be appended
to the file piece by piece. An append to a path whose name is free is an append to the file that is
made for it.
-/

namespace VolumeStore

open Host (Location Name FileId IsEntryName maxLinks maxPathBytes)
open Host.Tree (Leads pathFailure? pathFailure?_eq_none_of_find target_eq_ok_iff
  isOk_entry_of_target)

namespace Host.Tree

variable {t : Tree} {loc : Location}

/-- At a place there is a file with these bytes, or a new one can be made there. The last two are
the number of the file and the tree in which it is there. -/
inductive FilePlace (t : Tree) : Location → List UInt8 → FileId → Tree → Prop where
  | there {loc : Location} {id : FileId} (hfile : t.node? loc = some (.file id)) :
      FilePlace t loc (t.content id).toList id t
  | free {dir : Location} {name : Name} (hdir : t.node? dir = some .directory)
      (hfree : t.node? (dir ++ [name]) = none) :
      FilePlace t (dir ++ [name]) [] t.contents.length (t.insertFile (dir ++ [name])).2

namespace FilePlace

variable {base : Tree} {id : FileId} {x : List UInt8}

theorem ne_directory (h : t.FilePlace loc x id base) : t.node? loc ≠ some .directory := by
  cases h with
  | there hfile =>
    rw [hfile]
    nofun
  | free _ hfree =>
    rw [hfree]
    nofun

theorem toList_content (h : t.FilePlace loc x id base) :
    (base.content id).toList = x := by
  cases h with
  | there _ => rfl
  | free _ _ =>
    rw [content_insertFile, content_of_length_le t (Nat.le_refl _)]
    rfl

theorem stored (h : t.FilePlace loc x id base) (hstored : t.Stored) : base.Stored := by
  cases h with
  | there _ => exact hstored
  | free _ _ => exact (hstored.insertFile _).stored

end FilePlace

end Host.Tree

namespace Volume

variable {v : Volume} {t t' base : Host.Tree} {p : VolumePath} {path : String}
  {home loc dir : Location} {name : Name} {node : Host.Node} {id : FileId} {k m : Nat}
  {x data : List UInt8}

/-! ## Confined paths -/

theorem confine_of_lowestStage? (hparse : VolumePath.parse path = .ok p)
    (hhome : v.home t = .ok home) {stage : VolumePath} (hstage : v.lowestStage? t p = some stage)
    (hcanonical : t.canonical (v.hostPath stage) = .ok (loc, node)) (hinside : home <+: loc) :
    v.confine t path = .ok p := by
  have hescape : v.escape? t home p = none := by
    unfold escape?
    rw [hstage]
    dsimp only
    rw [hcanonical]
    exact if_pos hinside
  unfold confine
  rw [hparse]
  dsimp only
  rw [hhome]
  dsimp only
  rw [hescape]

theorem Rooted.requireParent_eq (h : v.Rooted t home .directory k) {above : List String}
    {last : String} (hp : VolumePath.IsProper ⟨above ++ [last]⟩)
    (hu : pathFailure? (v.hostPath ⟨above ++ [last]⟩) = none)
    (habove : Leads t true k home (VolumePath.names ⟨above⟩) m (.node dir .directory)) :
    v.requireParent t ⟨above ++ [last]⟩ = .ok () := by
  have hua := usable_of_isPrefix h.root_ne_nil hp (IsProper.of_append hp)
    (names_append above [last] ▸ List.prefix_append _ _) hu
  have htarget : t.target (v.hostPath ⟨above⟩) = .ok (dir, .directory) := by
    rw [target_eq_ok_iff, h.find_true_eq (IsProper.of_append hp) hua]
    exact habove.walkLinks
  exact requireParent_eq_ok_iff.2 ⟨dir, htarget⟩

theorem appendFile_of_openFile (hc : v.confine t path = .ok p)
    (hparent : v.requireParent t p = .ok ()) (hdirectory : t.isDirectory (v.hostPath p) = false)
    {handle : Host.Handle}
    (hopen : t.openFile (v.hostPath p) { append := true } true = .ok (handle, t'))
    (data : List UInt8) :
    v.appendFile t path data =
      match handle.write t' data with
      | (.error failure, _, t) => (.error (.host failure), t)
      | (.ok (), handle, t) => (.ok (t.content handle.file).size, t) := by
  unfold Volume.appendFile
  rw [hc]
  dsimp only
  rw [hparent]
  dsimp only
  rw [hdirectory, hopen]
  rfl

/-! ## Paths that lead to a file -/

def LeadsToFile (v : Volume) (t : Host.Tree) (path : String) (id : FileId) : Prop :=
  ∃ p loc, v.confine t path = .ok p ∧ p ≠ VolumePath.top ∧
    t.target (v.hostPath p) = .ok (loc, .file id)

namespace LeadsToFile

theorem grow (h : v.LeadsToFile t path id) (hhome : t'.home = t.home)
    (hgrow : ∀ loc node, t.node? loc = some node → t'.node? loc = some node) :
    v.LeadsToFile t' path id := by
  obtain ⟨p, loc, hc, hp, htarget⟩ := h
  obtain ⟨hparse, home, hhomeOf, hescape⟩ := confine_eq_ok hc
  obtain ⟨loc', node', hcanonical, hinside⟩ :=
    inside_of_lowestStage? hescape (lowestStage?_eq_self (isOk_entry_of_target htarget))
  cases htarget.symm.trans (Host.Tree.canonical_eq_ok_iff.1 hcanonical).2
  obtain ⟨node, hroot⟩ := home_eq_ok hhomeOf
  have hhomeOf' : v.home t' = .ok home := by
    rw [Volume.home, canonical_grow hroot hhome hgrow]
  have hcanonical' := canonical_grow hcanonical hhome hgrow
  have htarget' := (Host.Tree.canonical_eq_ok_iff.1 hcanonical').2
  exact ⟨p, loc, confine_of_lowestStage? hparse hhomeOf'
    (lowestStage?_eq_self (isOk_entry_of_target htarget')) hcanonical' hinside, hp, htarget'⟩

theorem of_rewritten {id' : FileId} (h : v.LeadsToFile t path id)
    (hrewritten : t.Rewritten id' data t') : v.LeadsToFile t' path id := by
  have hfilled := hrewritten.refilled
  exact h.grow (hfilled.changesOnly []).home fun loc _ hnode => (hfilled.node?_eq loc).trans hnode

theorem lt_length (h : v.LeadsToFile t path id) (hstored : t.Stored) :
    id < t.contents.length := by
  obtain ⟨p, loc, -, -, htarget⟩ := h
  exact hstored.lt_of_node? (Host.Tree.node?_of_find_file (target_eq_ok_iff.1 htarget))

theorem appendFile_eq (h : v.LeadsToFile t path id) (data : List UInt8) :
    v.appendFile t path data =
      match ({ file := id, access := { append := true } } : Host.Handle).write t data with
      | (.error failure, _, t) => (.error (.host failure), t)
      | (.ok (), handle, t) => (.ok (t.content handle.file).size, t) := by
  obtain ⟨⟨segments⟩, loc, hc, htop, htarget⟩ := h
  have hproper := isProper_of_confine hc
  obtain ⟨-, home', hhome, -⟩ := confine_eq_ok hc
  obtain ⟨node, hroot⟩ := target_of_home hhome
  have hfind := target_eq_ok_iff.1 htarget
  have hu := pathFailure?_eq_none_of_find hfind
  obtain ⟨home, k, hr⟩ := exists_rooted_of_find
    (pathFailure?_eq_none_of_find (target_eq_ok_iff.1 hroot)) hproper
    (VolumePath.names_ne_nil htop) hfind
  -- The directory above is there: the path leads through it to the file.
  have hparent : v.requireParent t ⟨segments⟩ = .ok () := by
    obtain rfl | ⟨above, last, rfl⟩ := List.eq_nil_or_concat segments
    · exact absurd rfl htop
    · rw [List.concat_eq_append] at hproper hfind hu ⊢
      rw [hr.find_true_eq hproper hu, names_append] at hfind
      obtain ⟨m, hleads⟩ := Host.Tree.leads_of_walkLinks hfind
      obtain ⟨m', dir, habove, -⟩ := hleads.append_inv (by simp)
      exact hr.requireParent_eq hproper hu habove
  have hdirectory : t.isDirectory (v.hostPath ⟨segments⟩) = false := by
    rw [Host.Tree.isDirectory, htarget]
  have hopen : t.openFile (v.hostPath ⟨segments⟩) { append := true } true =
      .ok ({ file := id, access := { append := true } }, t) := by
    unfold Host.Tree.openFile
    rw [hfind]
    rfl
  exact appendFile_of_openFile hc hparent hdirectory hopen data

theorem write_eq_ok_iff (hstored : t.Stored) (id : FileId) (data : List UInt8) :
    (({ file := id, access := { append := true } } : Host.Handle).write t data).1 = .ok () ↔
      (t.content id).toList.length + data.length < Host.sizeLimit := by
  have hold := hstored.size_lt id
  rw [Host.Handle.append_eq_ok_iff, Host.Content.length_toList]
  constructor
  · rintro (rfl | hlt)
    · exact hold
    · exact hlt
  · exact .inr

theorem appendFile_of_lt (h : v.LeadsToFile t path id) (hstored : t.Stored)
    (hlt : (t.content id).toList.length + data.length < Host.sizeLimit) :
    ∃ t', v.appendFile t path data =
        (.ok ((t.content id).toList.length + data.length), t') ∧
      t.Rewritten id ((t.content id).toList ++ data) t' := by
  have hok := (write_eq_ok_iff hstored id data).2 hlt
  rw [h.appendFile_eq]
  split
  next hwrite =>
    rw [hwrite] at hok
    cases hok
  next handle t' hwrite =>
    have hrewritten := Host.Handle.rewritten_of_append (h.lt_length hstored) rfl hwrite
    obtain ⟨⟨n, hhandle⟩, -⟩ := Host.Handle.write_cases { file := id, access := { append := true } }
      t data
    rw [hwrite] at hhandle
    obtain rfl : handle = _ := hhandle
    refine ⟨t', ?_, hrewritten⟩
    rw [hrewritten.size_content, List.length_append]

theorem lt_of_appendFile (h : v.LeadsToFile t path id) (hstored : t.Stored) {size : Nat}
    (hok : (v.appendFile t path data).1 = .ok size) :
    (t.content id).toList.length + data.length < Host.sizeLimit := by
  rw [← write_eq_ok_iff hstored]
  rw [h.appendFile_eq] at hok
  split at hok
  · cases hok
  next hwrite => rw [hwrite]

theorem of_appendFile_eq_ok (h : v.LeadsToFile t path id) (hstored : t.Stored) {size : Nat}
    (hok : v.appendFile t path data = (.ok size, t')) :
    size = (t.content id).toList.length + data.length ∧
      t.Rewritten id ((t.content id).toList ++ data) t' := by
  have hlt := h.lt_of_appendFile hstored (congrArg Prod.fst hok)
  obtain ⟨t'', happend, hrewritten⟩ := h.appendFile_of_lt hstored hlt
  rw [hok] at happend
  cases happend
  exact ⟨rfl, hrewritten⟩

end LeadsToFile

/-! ## Files that are there or can be made -/

/-- What is appended to a path of the volume goes to this file of another tree, which is the same
one if the file is there already. -/
structure AppendsTo (v : Volume) (t : Host.Tree) (path : String) (id : FileId) (base : Host.Tree) :
    Prop where
  leads : v.LeadsToFile base path id
  same : ∀ data, v.appendFile t path data = v.appendFile base path data

theorem LeadsToFile.appendsTo (h : v.LeadsToFile t path id) : v.AppendsTo t path id t :=
  ⟨h, fun _ => rfl⟩

theorem Seated.appendsTo_insertFile (h : v.Seated t home) (hc : v.confine t path = .ok p)
    (hfind : t.find true (v.hostPath p) = .ok (.vacant dir name))
    (hleads : v.LeadsToFile (t.insertFile (dir ++ [name])).2 path t.contents.length) :
    v.AppendsTo t path t.contents.length (t.insertFile (dir ++ [name])).2 where
  leads := hleads
  same data := by
    obtain ⟨k, hr⟩ := exists_rooted h.target
    obtain ⟨above, last, m, hseg, rfl, habove, -⟩ := hr.vacant_inv hc hfind
    rw [hleads.appendFile_eq]
    obtain ⟨segments⟩ := p
    obtain rfl : segments = above ++ [last] := hseg
    have hparent := hr.requireParent_eq (isProper_of_confine hc)
      (pathFailure?_eq_none_of_find hfind) habove
    have hdirectory : t.isDirectory (v.hostPath ⟨above ++ [last]⟩) = false := by
      rw [Host.Tree.isDirectory, Host.Tree.target, Host.Tree.findEntry, hfind]
    -- The name is free, so opening the path makes the file.
    have hopen : t.openFile (v.hostPath ⟨above ++ [last]⟩) { append := true } true =
        .ok ({ file := t.contents.length, access := { append := true } },
          (t.insertFile (dir ++ [Text.encode last])).2) := by
      unfold Host.Tree.openFile
      rw [hfind]
      rfl
    exact appendFile_of_openFile hc hparent hdirectory hopen data

/-! ## Files by their places -/

namespace Seated

theorem leadsToFile (h : v.Seated t home) {above : List String} {last : String}
    (hparse : VolumePath.parse path = .ok ⟨above ++ [last]⟩)
    (hs : v.Spellable t home ⟨above ++ [last]⟩)
    (hu : pathFailure? (v.hostPath ⟨above ++ [last]⟩) = none)
    (hfile : t.node? (home ++ VolumePath.names ⟨above⟩ ++ [Text.encode last]) = some (.file id)) :
    v.LeadsToFile t path id := by
  have hproper := VolumePath.isProper_of_parse hparse
  have hlast : IsEntryName (Text.encode last) :=
    hproper.isEntryName _ (by rw [names_append]; simp)
  obtain ⟨k, hr⟩ := exists_rooted h.target
  obtain ⟨m, hfind⟩ := h.find_append true hproper (by simp) hu
    (h.connected.above (by rw [hfile]; simp))
  rw [List.map_singleton, Host.Tree.walkLinks_entry _ _ _ _ hlast, hfile] at hfind
  have htarget := target_eq_ok_iff.2 hfind
  -- The way to the file can be spelled, so the stage is found at its canonical location.
  have hspells : t.canSpell (v.hostPath ⟨above ++ [last]⟩) = true :=
    h.canSpell_stage hs hproper List.prefix_rfl (by rw [names_append]; simpa using hfile)
      (by nofun)
  refine ⟨_, _, confine_of_lowestStage? hparse (hr.home_eq hs.root)
    (lowestStage?_eq_self (isOk_entry_of_target htarget))
    (Host.Tree.canonical_eq_ok_iff.2 ⟨hspells, htarget⟩) ?_, ?_, htarget⟩
  · rw [List.append_assoc]
    exact List.prefix_append _ _
  · simp [VolumePath.top]

theorem vacant_of_free (h : v.Seated t home) {above : List String} {last : String}
    (hparse : VolumePath.parse path = .ok ⟨above ++ [last]⟩)
    (hs : v.Spellable t home ⟨above ++ [last]⟩)
    (hu : pathFailure? (v.hostPath ⟨above ++ [last]⟩) = none)
    (hdir : t.node? (home ++ VolumePath.names ⟨above⟩) = some .directory)
    (hfree : t.node? (home ++ VolumePath.names ⟨above⟩ ++ [Text.encode last]) = none) :
    v.confine t path = .ok ⟨above ++ [last]⟩ ∧
      t.find true (v.hostPath ⟨above ++ [last]⟩) =
        .ok (.vacant (home ++ VolumePath.names ⟨above⟩) (Text.encode last)) := by
  have hproper := VolumePath.isProper_of_parse hparse
  have hlast : IsEntryName (Text.encode last) :=
    hproper.isEntryName _ (by rw [names_append]; simp)
  obtain ⟨k, hr⟩ := exists_rooted h.target
  obtain ⟨m, hfind⟩ := h.find_append true hproper (by simp) hu hdir
  rw [List.map_singleton, Host.Tree.walkLinks_entry _ _ _ _ hlast, hfree] at hfind
  obtain ⟨m', hleads⟩ := h.leads_directory (IsProper.of_append hproper).isEntryName hdir k
  obtain ⟨hstage, htarget⟩ := hr.lowestStage?_of_free hproper hu hleads hfree
  have hspells : t.canSpell (v.hostPath ⟨above⟩) = true :=
    h.canSpell_stage hs (IsProper.of_append hproper)
      (names_append _ _ ▸ List.prefix_append _ _) hdir
      (by nofun)
  exact ⟨confine_of_lowestStage? hparse (hr.home_eq hs.root) hstage
    (Host.Tree.canonical_eq_ok_iff.2 ⟨hspells, htarget⟩) (List.prefix_append _ _), hfind⟩

theorem appendsTo (h : v.Seated t home) (hparse : VolumePath.parse path = .ok p)
    (hs : v.Spellable t home p) (hplace : t.FilePlace (home ++ p.names) x id base)
    (hshort : (v.hostPath p).bytes.length < maxPathBytes) : v.AppendsTo t path id base := by
  obtain ⟨k, hr⟩ := exists_rooted h.target
  have hu := pathFailure?_hostPath hr.usable hparse hshort
  obtain ⟨segments⟩ := p
  obtain rfl | ⟨above, last, rfl⟩ := List.eq_nil_or_concat segments
  · exact absurd ((List.append_nil home).symm ▸ h.directory) hplace.ne_directory
  rw [List.concat_eq_append] at hparse hs hplace hu
  rw [names_append, List.map_singleton, ← List.append_assoc] at hplace
  generalize hloc : home ++ VolumePath.names ⟨above⟩ ++ [Text.encode last] = loc at hplace
  cases hplace with
  | there hfile => exact (h.leadsToFile hparse hs hu (hloc ▸ hfile)).appendsTo
  | free hdir hfree =>
    obtain ⟨rfl, hname⟩ := List.append_inj' hloc rfl
    cases hname
    obtain ⟨hc, hfind⟩ := h.vacant_of_free hparse hs hu hdir hfree
    -- The file that is made stands where the path says, and is found there.
    have hadds := h.adds_insertFile hc hfind
    refine h.appendsTo_insertFile hc hfind ((h.of_adds hadds).leadsToFile hparse
      (h.spellable_grow hs hadds.workingDirectory hadds.kept) hu ?_)
    rw [Host.Tree.node?_insertFile t (by simp), if_pos rfl]

end Seated

theorem length_hostPath_of_appendFile (hparse : VolumePath.parse path = .ok p) {size : Nat}
    (hok : (v.appendFile t path data).1 = .ok size) :
    (v.hostPath p).bytes.length < maxPathBytes := by
  unfold Volume.appendFile at hok
  split at hok
  · cases hok
  next q hc =>
    cases hparse.symm.trans (confine_eq_ok hc).1
    split at hok
    · cases hok
    split at hok
    · cases hok
    split at hok
    · cases hok
    next hopen =>
      -- The host does not look up a path that is too long.
      have hu : pathFailure? (v.hostPath p) = none := by
        obtain ⟨dir, name, hfind, -⟩ | ⟨loc, id, hfind, -⟩ := Host.Tree.openFile_eq_ok hopen
        · exact pathFailure?_eq_none_of_find hfind
        · exact pathFailure?_eq_none_of_find hfind
      exact (pathFailure?_eq_none_iff.1 hu).2.2

/-- Data can be appended: the path on the host is short enough to be looked up, and the file stays
below the limit of a file. -/
def HasRoom (v : Volume) (p : VolumePath) (bytes data : List UInt8) : Prop :=
  (v.hostPath p).bytes.length < maxPathBytes ∧ bytes.length + data.length < Host.sizeLimit

theorem Seated.appendFile_of_hasRoom (h : v.Seated t home) (hstored : t.Stored)
    (hparse : VolumePath.parse path = .ok p) (hs : v.Spellable t home p)
    (hplace : t.FilePlace (home ++ p.names) x id base) (hroom : v.HasRoom p x data) :
    (v.appendFile t path data).1 = .ok (x.length + data.length) ∧
      base.Rewritten id (x ++ data) (v.appendFile t path data).2 := by
  have happends := h.appendsTo hparse hs hplace hroom.1
  obtain ⟨t', happend, hrewritten⟩ := happends.leads.appendFile_of_lt (hplace.stored hstored)
    (hplace.toList_content ▸ hroom.2)
  rw [hplace.toList_content] at happend hrewritten
  rw [happends.same, happend]
  exact ⟨rfl, hrewritten⟩

theorem Seated.hasRoom_of_appendFile (h : v.Seated t home) (hstored : t.Stored)
    (hparse : VolumePath.parse path = .ok p) (hs : v.Spellable t home p)
    (hplace : t.FilePlace (home ++ p.names) x id base) {size : Nat}
    (hok : (v.appendFile t path data).1 = .ok size) : v.HasRoom p x data := by
  have hshort := length_hostPath_of_appendFile hparse hok
  have happends := h.appendsTo hparse hs hplace hshort
  rw [happends.same] at hok
  have hlt := happends.leads.lt_of_appendFile (hplace.stored hstored) hok
  rw [hplace.toList_content] at hlt
  exact ⟨hshort, hlt⟩

end Volume

end VolumeStore
