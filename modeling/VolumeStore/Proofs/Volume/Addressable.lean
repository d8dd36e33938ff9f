import VolumeStore.Proofs.Host.LinkFree
import VolumeStore.Proofs.Volume.Listing

/-!
# Addressable entries

A volume that was empty once holds only what its operations have made: no links, and entries at
places that its paths spell. As long as none of them stands deeper than a path may reach, each has a
written path, and so has every name that a listing shows. Only a rename can bring an entry deeper
than that, since of what it moves it checks no more than the new path of the topmost entry.
-/

namespace VolumeStore.Volume

open Host (Location Name Below)
open Host.Tree (Leads pathFailure?_eq_none_of_find target_eq_ok_iff)

/-- Every entry below the directory of a volume has a written path. And what a listing names is not
refused as an invalid path, when the name is written behind the path of the directory and is to be
described, deleted or removed. -/
structure Addressable (v : Volume) (t : Host.Tree) (home : Location) : Prop where
  entries : ∀ loc, Below home loc → t.node? loc ≠ none →
    ∃ p : VolumePath, p.IsWritten ∧ loc = home ++ p.names
  listed : ∀ path listing, v.listDirectory t path = .ok listing → ∀ entry ∈ listing, ∀ fault,
    v.stat t (path ++ "/" ++ entry.name) ≠ .error (.invalidPath fault) ∧
    (v.deleteFile t (path ++ "/" ++ entry.name)).1 ≠ .error (.invalidPath fault) ∧
    ∀ recursive,
      (v.removeDirectory t (path ++ "/" ++ entry.name) recursive).1 ≠ .error (.invalidPath fault)

/-- A rename that is carried out, although an entry below its source has too many segments under the
new path. -/
def Buries (v : Volume) (t : Host.Tree) (source target : String) : Prop :=
  ∃ home p q inner, v.home t = .ok home ∧ VolumePath.parse source = .ok p ∧
    VolumePath.parse target = .ok q ∧ (v.rename t source target).1 = .ok q.render ∧
    t.node? (home ++ p.names ++ inner) ≠ none ∧ maxDepth < q.segments.length + inner.length

structure Vacant {ι : Type} (v : ι → Volume) (home : ι → Location) (t : Host.Tree) : Prop where
  connected : t.Connected
  target : ∀ i, t.target (v i).root = .ok (home i, .directory)
  directory : ∀ i, t.node? (home i) = some .directory
  empty : ∀ i loc, Below (home i) loc → t.node? loc = none

/-- From one tree to the other, there is nothing new outside the directories of the volumes. -/
structure NewInside {ι : Type} (home : ι → Location) (t t' : Host.Tree) : Prop where
  workingDirectory : t'.home = t.home
  outside : ∀ loc node, (∀ i, ¬ Below (home i) loc) → t'.node? loc = some node →
    t.node? loc = some node

/-- Volumes whose directories hold no links, and only entries with written paths. None of them
stands below another one, and whatever happens in them or vanishes elsewhere, the root of each leads
to its directory or to nothing. -/
structure Orderly {ι : Type} (v : ι → Volume) (home : ι → Location) (t : Host.Tree) : Prop where
  connected : t.Connected
  directory : ∀ i, t.node? (home i) = some .directory
  apart : ∀ i j, ¬ Below (home i) (home j)
  root : ∀ i t', NewInside home t t' → ∀ found, t'.target (v i).root = .ok found →
    found = (home i, .directory)
  linkFree : ∀ i loc target, Below (home i) loc → t.node? loc ≠ some (.link target)
  written : ∀ i loc, Below (home i) loc → t.node? loc ≠ none →
    ∃ p : VolumePath, p.IsWritten ∧ loc = home i ++ p.names

/-- From one tree to the other, entries were taken away, and those that are new have written paths
below `home`. -/
structure Revises (home : Location) (t t' : Host.Tree) : Prop where
  connected : t'.Connected
  workingDirectory : t'.home = t.home
  kept : ∀ loc, ¬ Below home loc → t.node? loc = some .directory → t'.node? loc = some .directory
  entries : ∀ loc node, t'.node? loc = some node → t.node? loc = some node ∨
    Below home loc ∧ node.kind ≠ .link ∧ ∃ p : VolumePath, p.IsWritten ∧ loc = home ++ p.names

section

variable {ι : Type} {v : ι → Volume} {home : ι → Location} {t t' : Host.Tree} {i : ι}
  {p q : VolumePath} {path source target : String} {loc a b : Location} {node : Host.Node}

/-! ## What may be said of a path that is read -/

theorem confine_ne_invalidPath {v : Volume} {home : Location} (hs : v.Seated t home)
    (hroot : t.canSpell v.root = true) (hparse : VolumePath.parse path = .ok p)
    (fault : PathFault) :
    v.confine t path ≠ .error (.invalidPath fault) := by
  obtain ⟨k, hr⟩ := exists_rooted hs.target
  unfold confine
  rw [hparse, hr.home_eq hroot]
  dsimp only
  cases hescape : v.escape? t home p with
  | none => exact nofun
  | some error =>
    unfold escape? at hescape
    split at hescape
    · cases hescape
    · split at hescape
      · split at hescape <;> cases hescape
        exact nofun
      · split at hescape <;> cases hescape <;> exact nofun

theorem stat_ne_invalidPath {v : Volume} {fault : PathFault}
    (hc : v.confine t path ≠ .error (.invalidPath fault)) :
    v.stat t path ≠ .error (.invalidPath fault) := by
  unfold Volume.stat
  cases hconfine : v.confine t path with
  | error error => exact fun he => hc (hconfine.trans (congrArg _ (Except.error.inj he)))
  | ok p =>
    dsimp only [bind, Except.bind]
    split
    · exact nofun
    · split <;> exact nofun

theorem deleteFile_ne_invalidPath {v : Volume} {fault : PathFault}
    (hc : v.confine t path ≠ .error (.invalidPath fault)) :
    (v.deleteFile t path).1 ≠ .error (.invalidPath fault) := by
  unfold Volume.deleteFile
  cases hconfine : v.confine t path with
  | error error => exact fun he => hc (hconfine.trans (congrArg _ (Except.error.inj he)))
  | ok p =>
    dsimp only
    split
    · exact nofun
    · split <;> exact nofun
    · dsimp only
      split <;> exact nofun

theorem removeDirectory_ne_invalidPath {v : Volume} {fault : PathFault} {recursive : Bool}
    (hc : v.confine t path ≠ .error (.invalidPath fault)) :
    (v.removeDirectory t path recursive).1 ≠ .error (.invalidPath fault) := by
  have hremoval : ∀ (p : VolumePath) (failure : Host.Failure),
      (.error (removalError p failure) : Except VolumeError String) ≠
        .error (.invalidPath fault) := by
    intro p failure
    unfold removalError
    split <;> exact nofun
  unfold Volume.removeDirectory
  cases hconfine : v.confine t path with
  | error error => exact fun he => hc (hconfine.trans (congrArg _ (Except.error.inj he)))
  | ok p =>
    -- None of the errors behind the confinement is about the path as it is written.
    dsimp only
    split
    · exact nofun
    · split
      · split
        · split
          · exact nofun
          · exact hremoval _ _
        · split
          · exact nofun
          · exact hremoval _ _
      · exact nofun
      · dsimp only
        split <;> exact nofun

/-! ## From the empty volumes on -/

theorem Vacant.orderly (h : Vacant v home t) : Orderly v home t where
  connected := h.connected
  directory := h.directory
  apart i j hb := by
    have hnone := h.empty i _ hb
    rw [h.directory j] at hnone
    cases hnone
  root i t' hnew found hfound := by
    -- The look-up of the root has passed entries that are there, so none below the directories.
    obtain hsame | hgone := Host.Tree.findEntry_shrink (h.target i) hnew.workingDirectory
      fun loc hne hne' => by
        obtain ⟨node, hnode⟩ := Option.ne_none_iff_exists'.1 hne'
        rw [hnode, hnew.outside loc node (fun j hb => hne (h.empty j loc hb)) hnode]
    · rw [Host.Tree.target, hsame] at hfound
      exact (Except.ok.inj hfound).symm
    · rw [Host.Tree.target, hgone] at hfound
      cases hfound
  linkFree i loc target hb := by simp [h.empty i loc hb]
  written i loc hb hne := absurd (h.empty i loc hb) hne

theorem Revises.refl {home : Location} (h : t.Connected) : Revises home t t :=
  ⟨h, rfl, fun _ _ hd => hd, fun _ _ hn => .inl hn⟩

namespace Orderly

theorem revises (h : Orderly v home t) (hr : Revises (home i) t t') : Orderly v home t' where
  connected := hr.connected
  directory j := hr.kept _ (h.apart i j) (h.directory j)
  apart := h.apart
  root j t'' hnew := by
    refine h.root j t'' ⟨hnew.workingDirectory.trans hr.workingDirectory,
      fun loc node hout hn => ?_⟩
    exact (hr.entries loc node (hnew.outside loc node hout hn)).resolve_right
      fun hb => hout i hb.1
  linkFree j loc target hb hn := by
    obtain hold | ⟨-, hkind, -⟩ := hr.entries loc _ hn
    · exact h.linkFree j loc target hb hold
    · exact hkind rfl
  written j loc hb hne := by
    obtain ⟨node, hn⟩ := Option.ne_none_iff_exists'.1 hne
    obtain hold | ⟨hb', -, p, hp, rfl⟩ := hr.entries loc node hn
    · exact h.written j loc hb (by simp [hold])
    · -- Two directories above one place are the same.
      have hsame : home i = home j := by
        by_contra hne'
        obtain hpre | hpre := List.prefix_or_prefix_of_prefix hb'.1 hb.1
        · exact h.apart i j ⟨hpre, Ne.symm hne'⟩
        · exact h.apart j i ⟨hpre, hne'⟩
      exact ⟨p, hp, by rw [hsame]⟩

theorem refilled {id : Host.FileId} (h : Orderly v home t) (hfilled : t.Refilled id t') :
    Orderly v home t' :=
  hfilled.preserved (fun _ c hu => ⟨hu.connected.setContent id c, hu.directory, hu.apart,
    fun i t' hnew => hu.root i t' ⟨hnew.workingDirectory, hnew.outside⟩, hu.linkFree,
    hu.written⟩) h

theorem seated (h : Orderly v home t) (hc : (v i).confine t path = .ok p) :
    (v i).Seated t (home i) := by
  obtain ⟨-, home', hhome, -⟩ := confine_eq_ok hc
  obtain ⟨node, htarget⟩ := target_of_home hhome
  have hfound := h.root i t ⟨rfl, fun _ _ _ hn => hn⟩ _ htarget
  exact ⟨h.connected, hfound ▸ htarget, h.directory i⟩

/-! ## Places of paths -/

theorem eq_append_of_leads (h : Orderly v home t) {follow : Bool} {n k : Nat}
    (hp : p.IsProper) (hleads : Leads t follow n (home i) p.names k (.node loc node)) :
    loc = home i ++ p.names :=
  hleads.eq_append (fun loc' target hb => h.linkFree i loc' target hb) hp.isEntryName

theorem eq_append_of_find (h : Orderly v home t) (hs : (v i).Seated t (home i)) (hp : p.IsProper)
    (hne : p.names ≠ []) {follow : Bool}
    (hfind : t.find follow ((v i).hostPath p) = .ok (.node loc node)) :
    loc = home i ++ p.names := by
  obtain ⟨k, hr⟩ := exists_rooted hs.target
  rw [hr.find_eq hp hne (pathFailure?_eq_none_of_find hfind)] at hfind
  obtain ⟨m, hleads⟩ := Host.Tree.leads_of_walkLinks hfind
  exact h.eq_append_of_leads hp hleads

theorem eq_append_of_target (h : Orderly v home t) (hs : (v i).Seated t (home i))
    (hp : p.IsProper) (htarget : t.target ((v i).hostPath p) = .ok (loc, node)) :
    loc = home i ++ p.names := by
  obtain ⟨k, hr⟩ := exists_rooted hs.target
  rw [target_eq_ok_iff] at htarget
  rw [hr.find_true_eq hp (pathFailure?_eq_none_of_find htarget)] at htarget
  obtain ⟨m, hleads⟩ := Host.Tree.leads_of_walkLinks htarget
  exact h.eq_append_of_leads hp hleads

theorem eq_append_of_vacant (h : Orderly v home t) (hs : (v i).Seated t (home i))
    (hc : (v i).confine t path = .ok p) {follow : Bool} {name : Name}
    (hfind : t.find follow ((v i).hostPath p) = .ok (.vacant loc name)) :
    loc ++ [name] = home i ++ p.names := by
  obtain ⟨k, hr⟩ := exists_rooted hs.target
  obtain ⟨above, last, m, hseg, rfl, habove, -⟩ := hr.vacant_inv hc hfind
  have hproper := isProper_of_confine hc
  obtain ⟨segments⟩ := p
  obtain rfl : segments = above ++ [last] := hseg
  rw [h.eq_append_of_leads (IsProper.of_append hproper) habove, names_append, List.append_assoc]
  rfl

theorem places_of_takes (h : Orderly v home t) (hs : (v i).Seated t (home i))
    (hc : (v i).confine t source = .ok p) (hc' : (v i).confine t target = .ok q)
    (hp : p ≠ VolumePath.top) (hq : q ≠ VolumePath.top) (ht : (v i).Takes t (home i) p q a b) :
    a = home i ++ p.names ∧ b = home i ++ q.names := by
  obtain ⟨node, hfind, -⟩ := ht.found
  refine ⟨h.eq_append_of_find hs (isProper_of_confine hc) (VolumePath.names_ne_nil hp) hfind, ?_⟩
  obtain ⟨dir, name, rfl, hvacant⟩ | ⟨existing, hfind'⟩ := ht.replaced
  · exact h.eq_append_of_vacant hs hc' hvacant
  · exact h.eq_append_of_find hs (isProper_of_confine hc') (VolumePath.names_ne_nil hq) hfind'

/-! ## Operations -/

theorem revises_of_adds (h : Orderly v home t) (hadds : Adds (v i) (home i) path t t') :
    Revises (home i) t t' where
  connected := hadds.connected
  workingDirectory := hadds.workingDirectory
  kept loc _ hd := hadds.kept loc _ hd
  entries loc node hn := by
    cases hold : t.node? loc with
    | some node' => exact .inl (hn ▸ hadds.kept loc node' hold).symm
    | none =>
      obtain ⟨hb, hkind, p, hparse, front, inner, dir, k, m, hpre, -, hleads, rfl⟩ :=
        hadds.added loc node hn hold
      have hproper := VolumePath.isProper_of_parse hparse
      -- The names in front lead to a directory that is there, the others are new.
      have hfront : ∀ name ∈ front, Host.IsEntryName name := fun name hmem =>
        hproper.isEntryName name (hpre.subset (List.mem_append_left _ hmem))
      have hdir := hleads.eq_append (fun loc' target hb => h.linkFree i loc' target hb) hfront
      obtain ⟨q, hq, hnames⟩ := VolumePath.IsWritten.of_isPrefix ⟨path, hparse⟩ hpre
      exact .inr ⟨hb, hkind, q, hq, by rw [hdir, List.append_assoc, hnames]⟩

theorem revises_of_drops (h : Orderly v home t) (hdrops : Drops (home i) t t') :
    Revises (home i) t t' where
  connected := h.connected.of_thinned hdrops.toThinned
  workingDirectory := hdrops.workingDirectory
  kept loc hout hd := (hdrops.outside loc hout).trans hd
  entries loc node hn := .inl ((hdrops.same loc (by simp [hn])).symm.trans hn)

theorem revises_of_writes (h : Orderly v home t) (hw : Writes (v i) t path t') :
    Revises (home i) t t' := by
  have hadds : ∀ {p}, (v i).confine t path = .ok p → Adds (v i) (home i) path t t' :=
    fun hc => (h.seated hc).adds_of_writes hw
  cases hw with
  | kept => exact .refl h.connected
  | written hc _ _ => exact h.revises_of_adds (hadds hc)
  | made hc _ _ => exact h.revises_of_adds (hadds hc)

theorem revises_of_removes (h : Orderly v home t) (hr : Removes (v i) t path t') :
    Revises (home i) t t' := by
  have hdrops : ∀ {p}, (v i).confine t path = .ok p → Drops (home i) t t' :=
    fun hc => (h.seated hc).drops_of_removes hr
  cases hr with
  | kept => exact .refl h.connected
  | vacant hc _ _ _ => exact h.revises_of_drops (hdrops hc)
  | emptied hc _ _ => exact h.revises_of_drops (hdrops hc)
  | removed hc _ _ _ => exact h.revises_of_drops (hdrops hc)

theorem revises_makeDirectories (h : Orderly v home t) (i : ι) (path : String) :
    Revises (home i) t ((v i).makeDirectories t path).2 := by
  obtain hsame | ⟨p, hc, -⟩ := makeDirectories_cases (v i) t path
  · rw [hsame]
    exact .refl h.connected
  · exact h.revises_of_adds ((h.seated hc).adds_makeDirectories path)

theorem revises_deleteFile (h : Orderly v home t) (i : ι) (path : String) :
    Revises (home i) t ((v i).deleteFile t path).2 := by
  obtain hsame | ⟨p, loc, node, hc, hentry, hnode, hremove⟩ := deleteFile_cases (v i) t path
  · rw [hsame]
    exact .refl h.connected
  have hs := h.seated hc
  obtain ⟨hne, -⟩ := hs.gone_of_entry hentry hnode
  have hview := Host.Tree.node?_remove t hne
  rw [hremove]
  refine ⟨h.connected.of_thinned (Host.Tree.thinned_remove t hne), rfl, fun loc' _ hd => ?_,
    fun loc' node' hn => ?_⟩
  · rw [hview, if_neg (hs.not_isPrefix_of_entry hentry hnode hd), hd]
  · rw [hview] at hn
    split at hn
    · cases hn
    · exact .inl hn

theorem revises_of_takes (h : Orderly v home t) (hp : p ≠ VolumePath.top)
    (hq : q ≠ VolumePath.top) (hwritten : q.IsWritten)
    (ht : (v i).Takes t (home i) p q (home i ++ p.names) (home i ++ q.names))
    (hdepth : ∀ inner, t.node? (home i ++ p.names ++ inner) ≠ none →
      q.segments.length + inner.length ≤ maxDepth) :
    Revises (home i) t (t.move (home i ++ p.names) (home i ++ q.names)) := by
  have hbelow : ∀ {r : VolumePath}, r ≠ VolumePath.top → Below (home i) (home i ++ r.names) :=
    fun hr => Host.below_append (VolumePath.names_ne_nil hr)
  have hview := Host.Tree.node?_move t ht.ne_nil ht.apart ht.apart'
  refine ⟨ht.connected h.connected, rfl, fun loc hout hd => ?_, fun loc node hn => ?_⟩
  · rw [hview, if_neg fun hpre => hout (Below.of_prefix (hbelow hq) hpre),
      if_neg fun hpre => hout (Below.of_prefix (hbelow hp) hpre), hd]
  rw [hview] at hn
  split at hn
  next hpre =>
    -- An entry at or below the target stood below the source, under the same names.
    obtain ⟨inner, rfl⟩ := hpre
    rw [List.drop_left] at hn
    have hb := Below.of_prefix (hbelow hp) (List.prefix_append (home i ++ p.names) inner)
    have hne : t.node? (home i ++ p.names ++ inner) ≠ none := hn ▸ Option.some_ne_none node
    obtain ⟨r, hr, hplace⟩ := h.written i _ hb hne
    rw [List.append_assoc] at hplace
    obtain ⟨rest, hseg, rfl⟩ :=
      VolumePath.exists_of_names_eq_append (List.append_cancel_left hplace).symm
    have hsegments := (VolumePath.isWritten_iff.1 hr).1
    rw [hseg] at hsegments
    refine .inr ⟨Below.of_prefix (hbelow hq) (List.prefix_append _ _), fun hkind => ?_,
      ⟨q.segments ++ rest⟩, VolumePath.isWritten_iff.2 ⟨fun segment hmem => ?_, ?_⟩, ?_⟩
    · cases node with
      | link link => exact h.linkFree i _ link hb hn
      | _ => cases hkind
    · obtain hmem | hmem := List.mem_append.1 hmem
      · exact (VolumePath.isWritten_iff.1 hwritten).1 segment hmem
      · exact hsegments segment (List.mem_append_right _ hmem)
    · have hlength := hdepth _ hne
      rwa [List.length_map, ← List.length_append] at hlength
    · rw [names_append, List.append_assoc]
  · split at hn
    · cases hn
    · exact .inl hn

theorem revises_rename (h : Orderly v home t) (hno : ¬ (v i).Buries t source target) :
    Revises (home i) t ((v i).rename t source target).2 := by
  cases hok : ((v i).rename t source target).1 with
  | error error =>
    rw [rename_eq_error hok]
    exact .refl h.connected
  | ok result =>
    obtain ⟨p, q, hc, hc', hp, hq, rfl, hrename⟩ := rename_eq_ok hok
    have hs := h.seated hc
    obtain ⟨-, hsame⟩ | ⟨a, b, ht, hmove⟩ := hs.takes_of_rename hc hc' hp hq hrename
    · rw [hsame]
      exact .refl h.connected
    · obtain ⟨rfl, rfl⟩ := h.places_of_takes hs hc hc' hp hq ht
      obtain ⟨k, hr⟩ := exists_rooted hs.target
      rw [hmove]
      refine h.revises_of_takes hp hq ⟨target, (confine_eq_ok hc').1⟩ ht fun inner hne => ?_
      by_contra hdeep
      exact hno ⟨home i, p, q, inner, hr.home_eq (canSpell_root_of_confine hc),
        (confine_eq_ok hc).1, (confine_eq_ok hc').1, hok, hne, Nat.not_le.1 hdeep⟩

/-! ## What is addressable -/

theorem addressable (h : Orderly v home t) (i : ι) : (v i).Addressable t (home i) := by
  refine ⟨h.written i, fun path listing hlist entry hmem fault => ?_⟩
  obtain ⟨p, loc, hc, htarget, rfl⟩ := listDirectory_eq_ok_iff.1 hlist
  obtain ⟨name, node, hchild, rfl⟩ := mem_listing_iff.1 hmem
  have hname : (listingEntry t loc name node).name = Text.decodeLossy name := rfl
  have hs := h.seated hc
  obtain rfl := h.eq_append_of_target hs (isProper_of_confine hc) htarget
  -- The entry has a written path, which ends in the name that is listed.
  have hbelow : Below (home i) (home i ++ p.names ++ [name]) :=
    Host.below_of_prefix_concat (List.prefix_append _ _)
  obtain ⟨r, hr, hplace⟩ := h.written i _ hbelow (Host.Tree.node?_of_mem_children hchild)
  rw [List.append_assoc] at hplace
  obtain ⟨rest, hseg, hrest⟩ :=
    VolumePath.exists_of_names_eq_append (List.append_cancel_left hplace).symm
  obtain ⟨last, rfl, rfl⟩ := List.map_eq_singleton_iff.1 hrest.symm
  rw [Text.decodeLossy_encode] at hname
  obtain ⟨hsegments, hdepth⟩ := VolumePath.isWritten_iff.1 hr
  rw [hseg] at hsegments hdepth
  rw [List.length_append, List.length_singleton] at hdepth
  have hparse := VolumePath.parse_append (confine_eq_ok hc).1 (hsegments last (by simp)) hdepth
  rw [hname]
  have hconfine := confine_ne_invalidPath hs (canSpell_root_of_confine hc) hparse fault
  exact ⟨stat_ne_invalidPath hconfine, deleteFile_ne_invalidPath hconfine,
    fun _ => removeDirectory_ne_invalidPath hconfine⟩

theorem not_addressable_of_buries (h : Orderly v home t) (hb : (v i).Buries t source target) :
    ¬ (v i).Addressable ((v i).rename t source target).2 (home i) := by
  obtain ⟨home', p, q, inner, hhome, hparse, hparse', hok, hne, hdeep⟩ := hb
  obtain ⟨p', q', hc, hc', hp, hq, -, hrename⟩ := rename_eq_ok hok
  cases hparse.symm.trans (confine_eq_ok hc).1
  cases hparse'.symm.trans (confine_eq_ok hc').1
  have hs := h.seated hc
  obtain ⟨k, hr⟩ := exists_rooted hs.target
  obtain rfl : home i = home' := Except.ok.inj
    ((hr.home_eq (canSpell_root_of_confine hc)).symm.trans hhome)
  have hbelow : ∀ {r : VolumePath}, r ≠ VolumePath.top →
      Below (home i) (home i ++ r.names ++ inner) := fun hr =>
    Below.of_prefix (Host.below_append (VolumePath.names_ne_nil hr)) (List.prefix_append _ _)
  have hunwritten : ∀ r : VolumePath, r.IsWritten →
      home i ++ q.names ++ inner ≠ home i ++ r.names := by
    intro r hr hplace
    have hlength := congrArg List.length hplace
    simp only [VolumePath.names, List.length_append, List.length_map] at hlength
    have hdepth := (VolumePath.isWritten_iff.1 hr).2
    omega
  obtain ⟨hnone, -⟩ | ⟨a, b, ht, hmove⟩ := hs.takes_of_rename hc hc' hp hq hrename
  · -- With one entry at both ends the paths are the same, and the entry was buried before.
    obtain ⟨loc, node, existing, hfind, hfind'⟩ := Host.Tree.renamePlaces?_eq_none hrename hnone
    have hsource := h.eq_append_of_find hs (isProper_of_confine hc) (VolumePath.names_ne_nil hp)
      hfind
    have htarget := h.eq_append_of_find hs (isProper_of_confine hc') (VolumePath.names_ne_nil hq)
      hfind'
    obtain rfl := VolumePath.names_injective (List.append_cancel_left (hsource.symm.trans htarget))
    obtain ⟨r, hr, hplace⟩ := h.written i _ (hbelow hp) hne
    exact absurd hplace (hunwritten r hr)
  · obtain ⟨rfl, rfl⟩ := h.places_of_takes hs hc hc' hp hq ht
    intro haddressable
    rw [hmove] at haddressable
    obtain ⟨r, hr, hplace⟩ := haddressable.entries _ (hbelow hq) (by
      rwa [Host.Tree.node?_move t ht.ne_nil ht.apart ht.apart', if_pos (List.prefix_append _ _),
        List.drop_left])
    exact hunwritten r hr hplace

end Orderly

end

end VolumeStore.Volume
