import VolumeStore.Proofs.Host.Mirror
import VolumeStore.Proofs.Text.Order
import VolumeStore.Proofs.Volume.Appends

/-!
# Listings

A listing of a directory has one entry for each name in it, in the order of their bytes, and each
entry says what stands there.
-/

namespace VolumeStore

open Host (Location Name maxPathBytes)
open Host.Tree (Leads pathFailure? pathFailure?_eq_none_of_find target_eq_ok_iff
  isOk_entry_of_target)

/-! ## The entries of a directory -/

namespace Host.Tree

variable {t : Tree} {loc : Location} {name : Name} {node : Node}

theorem pairwise_ne_children (hunique : (t.nodes.map (·.1)).Nodup) (loc : Location) :
    (t.children loc).Pairwise fun a b => a.1 ≠ b.1 := by
  have hkeys : t.nodes.Pairwise fun a b => a.1 ≠ b.1 := List.pairwise_map.1 hunique
  -- A child tells the place that it was taken from.
  have hplace {entry : Location × Node} {child : Name × Node}
      (h : child ∈ ({ nodes := [entry] } : Tree).children loc) : entry.1 = loc ++ [child.1] := by
    rw [← List.mem_singleton.1 (mem_children_iff.1 h)]
  unfold children
  refine List.pairwise_filterMap.2 (hkeys.imp fun {a b} hne child hchild child' hchild' hname => ?_)
  have ha := hplace (List.mem_filterMap.2 ⟨a, List.mem_singleton_self a, hchild⟩)
  have hb := hplace (List.mem_filterMap.2 ⟨b, List.mem_singleton_self b, hchild'⟩)
  rw [ha, hb, hname] at hne
  exact hne rfl

theorem mem_children_iff_node? (hunique : (t.nodes.map (·.1)).Nodup) :
    (name, node) ∈ t.children loc ↔ t.node? (loc ++ [name]) = some node := by
  rw [mem_children_iff]
  exact ⟨node?_eq_of_mem_nodes hunique (by simp), mem_nodes_of_node? (by simp)⟩

end Host.Tree

namespace Volume

/-- An entry of a listing says what stands under a name in a directory. -/
structure Tells (t : Host.Tree) (loc : Location) (name : Name) (node : Host.Node)
    (entry : DirEntry) : Prop where
  named : Text.encode entry.name = name
  isDir : entry.isDir = true ↔ node = .directory
  size : entry.size = if node = .directory then 0 else (t.describe (loc ++ [name]) node).size
  mtime : entry.mtime = (t.describe (loc ++ [name]) node).mtime.secs

/-- The listing has an entry for each name in the directory and no other ones, in strictly
increasing order of the bytes of the names. -/
structure Lists (t : Host.Tree) (loc : Location) (listing : List DirEntry) : Prop where
  sorted : listing.Pairwise fun a b => Text.encode a.name < Text.encode b.name
  sound : ∀ entry ∈ listing, ∃ name node, t.node? (loc ++ [name]) = some node ∧
    Tells t loc name node entry
  complete : ∀ name node, t.node? (loc ++ [name]) = some node →
    ∃ entry ∈ listing, Tells t loc name node entry

def listing (t : Host.Tree) (loc : Location) : List DirEntry :=
  ((t.children loc).map fun (name, node) => listingEntry t loc name node).mergeSort
    fun a b => decide (a.name ≤ b.name)

/-- The names in a directory are texts that take a line, and none of them is empty. -/
def HasTexts (t : Host.Tree) (loc : Location) : Prop :=
  ∀ name node, t.node? (loc ++ [name]) = some node →
    ∃ s, s ≠ "" ∧ '\n' ∉ s.toList ∧ name = Text.encode s

variable {v : Volume} {t : Host.Tree} {p : VolumePath} {path : String} {home loc : Location}
  {name : Name} {node : Host.Node} {entry : DirEntry} {k m : Nat}

/-! ## What a listing holds -/

theorem Tells.unique {entry' : DirEntry} (h : Tells t loc name node entry)
    (h' : Tells t loc name node entry') : entry = entry' := by
  have hname : entry.name = entry'.name := Text.encode_injective (h.named.trans h'.named.symm)
  have hdir : entry.isDir = entry'.isDir := Bool.eq_iff_iff.2 (h.isDir.trans h'.isDir.symm)
  have hsize : entry.size = entry'.size := h.size.trans h'.size.symm
  have hmtime : entry.mtime = entry'.mtime := h.mtime.trans h'.mtime.symm
  cases entry
  cases entry'
  simp_all

theorem Lists.unique {entries entries' : List DirEntry} (h : Lists t loc entries)
    (h' : Lists t loc entries') : entries = entries' := by
  have hsubset {entries entries' : List DirEntry} (h : Lists t loc entries)
      (h' : Lists t loc entries') : ∀ entry ∈ entries, entry ∈ entries' := by
    intro entry hmem
    obtain ⟨name, node, hnode, htells⟩ := h.sound entry hmem
    obtain ⟨entry', hmem', htells'⟩ := h'.complete name node hnode
    rwa [htells.unique htells']
  have hnodup {entries : List DirEntry} (h : Lists t loc entries) : entries.Nodup := by
    refine h.sorted.imp fun hlt he => ?_
    rw [he] at hlt
    exact List.lt_irrefl _ hlt
  -- With the same entries in them, two sorted rows are equal.
  apply List.Perm.eq_of_pairwise _ h.sorted h'.sorted
  · exact (List.perm_ext_iff_of_nodup (hnodup h) (hnodup h')).2 fun entry =>
      ⟨hsubset h h' entry, hsubset h' h entry⟩
  · exact fun a b _ _ hab hba => absurd hba (List.lt_asymm hab)

theorem text_of_isSegment {s : String} (h : VolumePath.IsSegment s.toList) :
    s ≠ "" ∧ '\n' ∉ s.toList := by
  constructor
  · rintro rfl
    exact absurd h.telling (by decide)
  · exact fun hmem => absurd (h.printable _ hmem) (by decide)

theorem hasTexts_of_nodes {texts : List String}
    (hnames : ∀ entry ∈ t.nodes, ∀ name ∈ entry.1.getLast?, name ∈ texts.map Text.encode)
    (htexts : ∀ s ∈ texts, s ≠ "" ∧ '\n' ∉ s.toList) (loc : Location) : HasTexts t loc := by
  intro name node hnode
  have hlast : name ∈ (loc ++ [name]).getLast? := List.getLast?_concat
  have hname := hnames _ (Host.Tree.mem_nodes_of_node? (by simp) hnode) name hlast
  obtain ⟨s, hmem, hs⟩ := List.mem_map.1 hname
  obtain ⟨hne, hfeed⟩ := htexts s hmem
  exact ⟨s, hne, hfeed, hs.symm⟩

theorem tells_listingEntry {s : String} (h : name = Text.encode s) :
    Tells t loc name node (listingEntry t loc name node) where
  named := by
    show Text.encode (Text.decodeLossy name) = name
    rw [h, Text.decodeLossy_encode]
  isDir := decide_eq_true_iff
  size := rfl
  mtime := rfl

theorem mem_listing_iff : entry ∈ listing t loc ↔
    ∃ name node, (name, node) ∈ t.children loc ∧ listingEntry t loc name node = entry := by
  rw [listing, List.mem_mergeSort, List.mem_map, Prod.exists]

theorem length_listing (t : Host.Tree) (loc : Location) :
    (listing t loc).length = (t.children loc).length := by
  rw [listing, List.length_mergeSort, List.length_map]

theorem pairwise_le_listing (t : Host.Tree) (loc : Location) :
    (listing t loc).Pairwise fun a b => a.name ≤ b.name := by
  have hsorted : (listing t loc).Pairwise fun a b => decide (a.name ≤ b.name) = true := by
    refine List.pairwise_mergeSort ?_ ?_ _
    · intro a b c hab hbc
      exact decide_eq_true (le_trans (of_decide_eq_true hab) (of_decide_eq_true hbc))
    · intro a b
      rw [Bool.or_eq_true, decide_eq_true_eq, decide_eq_true_eq]
      exact le_total a.name b.name
  exact hsorted.imp of_decide_eq_true

theorem pairwise_ne_listing (hunique : (t.nodes.map (·.1)).Nodup) (htexts : HasTexts t loc) :
    (listing t loc).Pairwise fun a b => a.name ≠ b.name := by
  refine ((List.mergeSort_perm _ _).pairwise_iff Ne.symm).2 (List.pairwise_map.2 ?_)
  refine (t.pairwise_ne_children hunique loc).imp_of_mem fun {a b} ha hb hne hname => hne ?_
  have hencode {child : Name × Host.Node} (hchild : child ∈ t.children loc) :
      Text.encode (Text.decodeLossy child.1) = child.1 := by
    obtain ⟨s, -, -, hs⟩ := htexts _ _ ((Host.Tree.mem_children_iff_node? hunique).1 hchild)
    rw [hs, Text.decodeLossy_encode]
  rw [← hencode ha, ← hencode hb]
  exact congrArg Text.encode hname

theorem lists_listing (hunique : (t.nodes.map (·.1)).Nodup) (htexts : HasTexts t loc) :
    Lists t loc (listing t loc) where
  sorted := by
    -- The names are in order and differ, and their bytes are in the order of the names.
    refine (pairwise_le_listing t loc).imp₂ (fun a b hle hne => ?_)
      (pairwise_ne_listing hunique htexts)
    exact Text.encode_lt_encode_iff.2 (lt_of_le_of_ne hle hne)
  sound entry hmem := by
    obtain ⟨name, node, hchild, rfl⟩ := mem_listing_iff.1 hmem
    have hnode := (Host.Tree.mem_children_iff_node? hunique).1 hchild
    obtain ⟨s, -, -, hs⟩ := htexts name node hnode
    exact ⟨name, node, hnode, tells_listingEntry hs⟩
  complete name node hnode := by
    obtain ⟨s, -, -, hs⟩ := htexts name node hnode
    exact ⟨_, mem_listing_iff.2 ⟨name, node, (Host.Tree.mem_children_iff_node? hunique).2 hnode,
      rfl⟩, tells_listingEntry hs⟩

/-! ## Listing by path -/

theorem listDirectory_eq_ok_iff {entries : List DirEntry} :
    v.listDirectory t path = .ok entries ↔ ∃ p loc, v.confine t path = .ok p ∧
      t.target (v.hostPath p) = .ok (loc, .directory) ∧ entries = listing t loc := by
  unfold Volume.listDirectory
  constructor
  · intro h
    cases hconfine : v.confine t path with
    | error error =>
      rw [hconfine] at h
      cases h
    | ok p =>
      rw [hconfine] at h
      dsimp only [bind, Except.bind] at h
      split at h
      next loc htarget =>
        cases h
        exact ⟨p, loc, rfl, htarget, rfl⟩
      · cases h
      · cases h
  · rintro ⟨p, loc, hconfine, htarget, rfl⟩
    rw [hconfine]
    dsimp only [bind, Except.bind]
    rw [htarget]
    rfl

/-- The host follows a path to its end: neither the path as it is written nor a place on the way
to the root or along the path, spelled out from the top, is too long. -/
structure Followed (v : Volume) (t : Host.Tree) (p : VolumePath) : Prop where
  written : (v.hostPath p).bytes.length < maxPathBytes
  root : t.canSpell v.root = true
  way : t.canSpell (v.hostPath p) = true

instance : Decidable (v.Followed t p) :=
  decidable_of_iff ((v.hostPath p).bytes.length < maxPathBytes ∧ t.canSpell v.root = true ∧
      t.canSpell (v.hostPath p) = true)
    ⟨fun ⟨hwritten, hroot, hway⟩ => ⟨hwritten, hroot, hway⟩,
      fun h => ⟨h.written, h.root, h.way⟩⟩

/-- A path of the volume leads to a directory inside it. How long the path is on the host is left
open. -/
structure LeadsInside (v : Volume) (t : Host.Tree) (home : Location) (p : VolumePath)
    (loc : Location) : Prop where
  inside : home <+: loc
  leads : ∃ k m, v.Rooted t home .directory k ∧
    Leads t true k home p.names m (.node loc .directory)

namespace LeadsInside

theorem target_eq (h : v.LeadsInside t home p loc) (hparse : VolumePath.parse path = .ok p)
    (hshort : (v.hostPath p).bytes.length < maxPathBytes) :
    t.target (v.hostPath p) = .ok (loc, .directory) := by
  obtain ⟨k, m, hr, hleads⟩ := h.leads
  rw [target_eq_ok_iff, hr.find_true_eq (VolumePath.isProper_of_parse hparse)
    (pathFailure?_hostPath hr.usable hparse hshort)]
  exact hleads.walkLinks

theorem listDirectory_eq (h : v.LeadsInside t home p loc)
    (hparse : VolumePath.parse path = .ok p) (hfollowed : v.Followed t p) :
    v.listDirectory t path = .ok (listing t loc) := by
  obtain ⟨k, m, hr, -⟩ := h.leads
  have htarget := h.target_eq hparse hfollowed.written
  -- The path itself exists, so it is the stage that decides whether it is confined.
  have hconfine := confine_of_lowestStage? hparse (hr.home_eq hfollowed.root)
    (lowestStage?_eq_self (isOk_entry_of_target htarget))
    (Host.Tree.canonical_eq_ok_iff.2 ⟨hfollowed.way, htarget⟩) h.inside
  exact listDirectory_eq_ok_iff.2 ⟨p, loc, hconfine, htarget, rfl⟩

end LeadsInside

theorem Seated.leadsInside (h : v.Seated t home) (hp : p.IsProper)
    (hdir : t.node? (home ++ p.names) = some .directory) :
    v.LeadsInside t home p (home ++ p.names) := by
  obtain ⟨k, hr⟩ := exists_rooted h.target
  obtain ⟨m, hleads⟩ := h.leads_directory hp.isEntryName hdir k
  exact ⟨List.prefix_append _ _, k, m, hr, hleads⟩

theorem Seated.leadsInside_of_target (h : v.Seated t home) (hp : p.IsProper)
    (htarget : t.target (v.hostPath p) = .ok (loc, .directory)) (hinside : home <+: loc) :
    v.LeadsInside t home p loc := by
  obtain ⟨k, hr⟩ := exists_rooted h.target
  rw [target_eq_ok_iff] at htarget
  rw [hr.find_true_eq hp (pathFailure?_eq_none_of_find htarget)] at htarget
  obtain ⟨m, hleads⟩ := Host.Tree.leads_of_walkLinks htarget
  exact ⟨hinside, k, m, hr, hleads⟩

theorem followed_of_listDirectory (hparse : VolumePath.parse path = .ok p)
    {entries : List DirEntry} (hok : v.listDirectory t path = .ok entries) : v.Followed t p := by
  obtain ⟨q, loc, hconfine, htarget, -⟩ := listDirectory_eq_ok_iff.1 hok
  obtain ⟨hparse', home, hhome, hescape⟩ := confine_eq_ok hconfine
  cases hparse.symm.trans hparse'
  obtain ⟨_, _, hcanonical, -⟩ :=
    inside_of_lowestStage? hescape (lowestStage?_eq_self (isOk_entry_of_target htarget))
  exact ⟨(pathFailure?_eq_none_iff.1
      (pathFailure?_eq_none_of_find (target_eq_ok_iff.1 htarget))).2.2,
    canSpell_root_of_confine hconfine, (Host.Tree.canonical_eq_ok_iff.1 hcanonical).1⟩

end Volume

end VolumeStore
