import VolumeStore.Proofs.Volume.Plain
import VolumeStore.Proofs.Volume.Refusals
import VolumeStore.Proofs.Volume.RootKept

/-!
# Removing directories

A directory that is removed takes with it what stands below it, and nothing else. With all that it
holds it is emptied first, and then its path is looked up once more to take its name away. When the
way there leads through an entry of the directory itself, the name is out of reach by then: it
stays, although the removal counts as done.
-/

namespace VolumeStore

open Host (Location Name Below maxLinks maxPathBytes)
open Host.Tree (Reads Leads find_eq_ok find_eq_of_leads pathFailure?_eq_none_of_find
  target_eq_ok_iff entry_eq_ok_iff isOk_entry_of_target target_of_entry)

namespace Host.Tree

/-- From one tree to the other, an entry has gone with all that stood below it, and nothing else has
changed. -/
structure DropsSubtree (t : Tree) (loc : Location) (t' : Tree) : Prop where
  nodes : ∀ other, t'.node? other = if loc <+: other then none else t.node? other
  contents : t'.contents = t.contents
  workingDirectory : t'.home = t.home

variable {t : Tree} {loc : Location}

theorem dropsSubtree_remove (t : Tree) (hne : loc ≠ []) : t.DropsSubtree loc (t.remove loc) :=
  ⟨node?_remove t hne, rfl, rfl⟩

theorem dropsSubtree_remove_clear (t : Tree) (hne : loc ≠ []) :
    t.DropsSubtree loc ((t.clear loc).remove loc) where
  nodes other := by
    rw [node?_remove _ hne, node?_clear]
    by_cases hp : loc <+: other
    · rw [if_pos hp, if_pos hp]
    · rw [if_neg hp, if_neg hp, if_neg fun hb => hp hb.1]
  contents := rfl
  workingDirectory := rfl

end Host.Tree

namespace Volume

variable {v : Volume} {t : Host.Tree} {p : VolumePath} {path written : String} {home loc : Location}
  {recursive : Bool}

/-- The path leads to a directory, and the way to it goes through an entry below that directory. -/
structure ThroughItself (v : Volume) (t : Host.Tree) (path : String) (p : VolumePath)
    (loc : Location) : Prop where
  confined : v.confine t path = .ok p
  notTop : p ≠ VolumePath.top
  entry : t.entry (v.hostPath p) = .ok (loc, .directory)
  through : ∃ place, Below loc place ∧ Reads t place maxLinks (v.start t) (v.base ++ p.names)

/-- Removing a directory is all or nothing. When it succeeds, the path has led to a directory in the
one of the volume, which held nothing unless all was to go, and exactly this one has gone with what
stood below it. When it is refused, the tree is as it was. -/
structure RemovesExactly (v : Volume) (t : Host.Tree) (home : Location) (path : String)
    (recursive : Bool) : Prop where
  removed : ∀ written, (v.removeDirectory t path recursive).1 = .ok written →
    ∃ p loc, v.confine t path = .ok p ∧ written = p.render ∧
      t.entry (v.hostPath p) = .ok (loc, .directory) ∧ Below home loc ∧
      (recursive = false → ∀ name, t.node? (loc ++ [name]) = none) ∧
      t.DropsSubtree loc (v.removeDirectory t path recursive).2
  refused : LeavesTree t (v.removeDirectory t path recursive)

/-! ## Looking for the emptied directory -/

theorem entry_clear_iff {r : Host.Path} (hentry : t.entry r = .ok (loc, .directory)) :
    (t.clear loc).entry r = .ok (loc, .directory) ↔
      ∀ place, Reads t place maxLinks (if r.isAbsolute then [] else t.home)
        (Host.Path.split r.bytes) → ¬ Below loc place := by
  have hu := pathFailure?_eq_none_of_find (entry_eq_ok_iff.1 hentry)
  constructor
  · -- Found again, the directory is where its way leads in the tree that is left.
    intro hfound place hreads hb
    have htarget := target_of_entry hfound nofun
    obtain ⟨k, hleads⟩ := find_eq_ok (target_eq_ok_iff.1 htarget)
    have hsub : ∀ loc' node, (t.clear loc).node? loc' = some node → t.node? loc' = some node := by
      intro loc' node hnode
      rwa [Host.Tree.node?_clear_of_ne_none t loc (by simp [hnode])] at hnode
    apply hleads.ne_none_of_reads hsub hreads
    rw [Host.Tree.node?_clear, if_pos hb]
  · intro hclear
    have htarget := target_of_entry hentry nofun
    obtain ⟨k, hleads⟩ := find_eq_ok (target_eq_ok_iff.1 htarget)
    have hsame : ∀ place, Reads t place maxLinks (if r.isAbsolute then [] else t.home)
        (Host.Path.split r.bytes) → (t.clear loc).node? place = t.node? place := by
      intro place hreads
      rw [Host.Tree.node?_clear, if_neg (hclear place hreads)]
    have hleads' := hleads.of_reads hsame
    have hok := isOk_entry_of_target (t := t.clear loc) (target_eq_ok_iff.2
      (find_eq_of_leads hu hleads'))
    -- Something is found, and then it is what was found before.
    obtain hsame | hgone := Host.Tree.findEntry_clear hentry loc
    · exact hsame
    · rw [Host.Tree.entry, hgone] at hok
      cases hok

theorem Seated.entry_clear_iff (h : v.Seated t home) (hp : p.IsProper) (hne : p.names ≠ [])
    (hentry : t.entry (v.hostPath p) = .ok (loc, .directory)) :
    (t.clear loc).entry (v.hostPath p) = .ok (loc, .directory) ↔
      ∀ place, Reads t place maxLinks (v.start t) (v.base ++ p.names) → ¬ Below loc place := by
  obtain ⟨k, hr⟩ := exists_rooted h.target
  rw [Volume.entry_clear_iff hentry, isAbsolute_hostPath hr.root_ne_nil hp,
    split_hostPath hr.root_ne_nil hp hne]
  rfl

/-! ## What a removal comes to -/

theorem exists_of_removeDirectory (hok : (v.removeDirectory t path recursive).1 = .ok written) :
    ∃ p loc, v.confine t path = .ok p ∧ p ≠ VolumePath.top ∧
      t.entry (v.hostPath p) = .ok (loc, .directory) ∧
      (recursive = false → t.isVacant loc = true) := by
  unfold removeDirectory at hok
  split at hok
  · cases hok
  next p hc =>
    split at hok
    · cases hok
    next htop =>
      split at hok
      next loc hentry =>
        refine ⟨p, loc, hc, htop, hentry, ?_⟩
        rintro rfl
        rw [if_neg (by decide)] at hok
        split at hok
        next t' hremove =>
          obtain ⟨loc', hentry', hvacant, -⟩ := Host.Tree.removeEmpty_eq_ok hremove
          cases hentry.symm.trans hentry'
          exact hvacant
        · cases hok
      · cases hok
      · cases hok

theorem removeDirectory_of_vacant (hc : v.confine t path = .ok p) (htop : p ≠ VolumePath.top)
    (hentry : t.entry (v.hostPath p) = .ok (loc, .directory)) (hvacant : t.isVacant loc = true) :
    v.removeDirectory t path false = (.ok p.render, t.remove loc) := by
  have hremove : t.removeEmpty (v.hostPath p) = .ok (t.remove loc) := by
    rw [Host.Tree.removeEmpty, hentry]
    exact if_pos hvacant
  rw [removeDirectory, hc]
  dsimp only
  rw [if_neg htop, hentry]
  dsimp only
  rw [if_neg (by decide), hremove]

theorem removeDirectory_of_removeAll {t' : Host.Tree} (hc : v.confine t path = .ok p)
    (htop : p ≠ VolumePath.top) (hentry : t.entry (v.hostPath p) = .ok (loc, .directory))
    (hremove : t.removeAll (v.hostPath p) = (.ok (), t')) :
    v.removeDirectory t path true = (.ok p.render, t') := by
  rw [removeDirectory, hc]
  dsimp only
  rw [if_neg htop, hentry]
  dsimp only
  rw [if_pos rfl, hremove]

theorem ThroughItself.removeDirectory_eq (h : v.Seated t home)
    (hthrough : v.ThroughItself t path p loc) :
    v.removeDirectory t path true = (.ok p.render, t.clear loc) := by
  obtain ⟨hc, htop, hentry, place, hb, hreads⟩ := hthrough
  refine removeDirectory_of_removeAll hc htop hentry (Host.Tree.removeAll_of_lost hentry ?_)
  obtain hfound | hlost := Host.Tree.findEntry_clear hentry loc
  · refine absurd hb ((h.entry_clear_iff (isProper_of_confine hc) (VolumePath.names_ne_nil htop)
      hentry).1 hfound place hreads)
  · exact hlost

theorem Seated.removesExactly (h : v.Seated t home)
    (hno : recursive = true → ∀ p loc, ¬ v.ThroughItself t path p loc) :
    v.RemovesExactly t home path recursive where
  refused := leavesTree_removeDirectory v t path recursive
  removed written hok := by
    obtain ⟨p, loc, hc, htop, hentry, hvacant⟩ := exists_of_removeDirectory hok
    have hne := VolumePath.names_ne_nil htop
    cases recursive with
    | false =>
      have hempty := hvacant rfl
      have hb := h.below_of_vacant hc hne hentry hempty
      rw [removeDirectory_of_vacant hc htop hentry hempty] at hok ⊢
      cases hok
      exact ⟨p, loc, hc, rfl, hentry, hb, fun _ => Host.Tree.isVacant_iff.1 hempty,
        Host.Tree.dropsSubtree_remove t hb.ne_nil⟩
    | true =>
      -- The second look-up finds the directory unless it goes through what was just emptied.
      have hfound := (h.entry_clear_iff (isProper_of_confine hc) hne hentry).2
        fun place hreads hb => hno rfl p loc ⟨hc, htop, hentry, place, hb, hreads⟩
      have hb := h.below_of_emptied hc hne hentry hfound
      rw [removeDirectory_of_removeAll hc htop hentry
        (Host.Tree.removeAll_of_found hentry hfound)] at hok ⊢
      cases hok
      exact ⟨p, loc, hc, rfl, hentry, hb, nofun, Host.Tree.dropsSubtree_remove_clear t hb.ne_nil⟩

theorem Plain.removeDirectory_eq_ok (h : v.Plain t home) (hparse : VolumePath.parse path = .ok p)
    (hp : v.Usable t home p) (htop : p ≠ VolumePath.top)
    (hdir : t.node? (home ++ p.names) = some .directory)
    (hall : recursive = true ∨ ∀ name, t.node? (home ++ p.names ++ [name]) = none) :
    (v.removeDirectory t path recursive).1 = .ok p.render := by
  have hc := h.confine_eq hparse hp.toSpellable
  have hentry : t.entry (v.hostPath p) = .ok (home ++ p.names, .directory) :=
    entry_eq_ok_iff.2 (h.find_of_node hp (.inr (VolumePath.names_ne_nil htop)) hdir)
  cases recursive with
  | false =>
    have hvacant := Host.Tree.isVacant_iff.2 (hall.resolve_left nofun)
    rw [removeDirectory_of_vacant hc htop hentry hvacant]
  | true =>
    obtain hfound | hlost := Host.Tree.findEntry_clear hentry (home ++ p.names)
    · rw [removeDirectory_of_removeAll hc htop hentry (Host.Tree.removeAll_of_found hentry hfound)]
    · rw [removeDirectory_of_removeAll hc htop hentry (Host.Tree.removeAll_of_lost hentry hlost)]

/-! ## The law -/

theorem ThroughItself.not_removesExactly (h : v.Seated t home)
    (hthrough : v.ThroughItself t path p loc) : ¬ v.RemovesExactly t home path true := by
  intro hexactly
  have hremove := hthrough.removeDirectory_eq h
  obtain ⟨p', loc', hc, -, hentry, hb, -, hdrops⟩ :=
    hexactly.removed p.render (congrArg Prod.fst hremove)
  cases hthrough.confined.symm.trans hc
  cases hthrough.entry.symm.trans hentry
  -- The directory should have gone, but emptying it has left it there.
  have hgone := hdrops.nodes loc
  rw [hremove, if_pos List.prefix_rfl, Host.Tree.node?_clear,
    if_neg (Host.not_below_self loc)] at hgone
  have hstood := h.node?_of_find (isProper_of_confine hthrough.confined)
    (VolumePath.names_ne_nil hthrough.notTop) (entry_eq_ok_iff.1 hthrough.entry)
  rw [hgone] at hstood
  cases hstood

/-- Removing a directory removes exactly that directory, or nothing, unless it is to go with all
that it holds and its path leads through something that it holds. Then it is emptied and stays, and
the removal is reported as done. And in a volume without links every directory but the top can be
removed, if it is empty or all is to go. -/
theorem removesExactly_iff (h : v.Seated t home) (path : String) (recursive : Bool) :
    (v.RemovesExactly t home path recursive ↔
      ¬ (recursive = true ∧ ∃ p loc, v.ThroughItself t path p loc)) ∧
    (∀ p loc, v.ThroughItself t path p loc →
      (v.removeDirectory t path true).1 = .ok p.render ∧
      (v.removeDirectory t path true).2.node? loc = some .directory ∧
      ∀ other, Below loc other → (v.removeDirectory t path true).2.node? other = none) ∧
    ((∀ loc target, Below home loc → t.node? loc ≠ some (.link target)) →
      ∀ p, VolumePath.parse path = .ok p → v.FitsHost t home p →
        p ≠ VolumePath.top → t.node? (home ++ p.names) = some .directory →
        (recursive = true ∨ ∀ name, t.node? (home ++ p.names ++ [name]) = none) →
        (v.removeDirectory t path recursive).1 = .ok p.render) := by
  refine ⟨⟨?_, fun hno => h.removesExactly fun hall p loc hthrough =>
    hno ⟨hall, p, loc, hthrough⟩⟩, fun p loc hthrough => ?_, fun hlinkless p hparse hfits => ?_⟩
  · rintro hexactly ⟨rfl, p, loc, hthrough⟩
    exact hthrough.not_removesExactly h hexactly
  · have hstood := h.node?_of_find (isProper_of_confine hthrough.confined)
      (VolumePath.names_ne_nil hthrough.notTop) (entry_eq_ok_iff.1 hthrough.entry)
    rw [hthrough.removeDirectory_eq h]
    refine ⟨rfl, ?_, fun other hb => ?_⟩
    · rw [Host.Tree.node?_clear, if_neg (Host.not_below_self loc), hstood]
    · rw [Host.Tree.node?_clear, if_pos hb]
  · have hplain : v.Plain t home := ⟨h, hlinkless⟩
    exact hplain.removeDirectory_eq_ok hparse (hplain.usable hparse hfits)

section TurningBack

open Text (encode)

def turningBack : Host.Tree where
  nodes :=
    [([encode "vol"], .directory),
      ([encode "vol", encode "d"], .directory),
      ([encode "vol", encode "d", encode "back"], .link (encode ".."))]

theorem seated_turningBack : Seated ⟨.ofString "vol"⟩ turningBack [encode "vol"] where
  connected := (Host.Tree.wellFormed_of_nodes (by decide +kernel) (by decide +kernel)).toConnected
  target := by decide +kernel
  directory := by decide +kernel

/-- The directory is not removed when only an empty one may go; with all that it holds it stays, if
its path goes through the link. -/
theorem removesExactly_iff_turningBack :
    RemovesExactly ⟨.ofString "vol"⟩ turningBack [encode "vol"] "/d" false ∧
      ¬ RemovesExactly ⟨.ofString "vol"⟩ turningBack [encode "vol"] "/d/back/d" true := by
  refine ⟨(removesExactly_iff seated_turningBack "/d" false).1.2 (fun h => nomatch h.1),
    fun h => ?_⟩
  refine (removesExactly_iff seated_turningBack "/d/back/d" true).1.1 h
    ⟨rfl, ⟨["d", "back", "d"]⟩, [encode "vol", encode "d"], by decide +kernel, by decide +kernel,
      by decide +kernel, [encode "vol", encode "d", encode "back"], by decide +kernel, ?_⟩
  -- The way goes down to the link, where it is read.
  have hbase : Volume.base ⟨.ofString "vol"⟩ ++ VolumePath.names ⟨["d", "back", "d"]⟩ =
      [encode "vol", encode "d", encode "back", encode "d"] := by
    decide +kernel
  rw [hbase]
  refine .enter (by decide +kernel) (by decide +kernel) ?_
  refine .enter (by decide +kernel) (by decide +kernel) ?_
  exact .first (by decide +kernel) (by decide +kernel)

/-- Not every removal that succeeds removes the directory: it can be there still, and empty. -/
theorem not_forall_removesExactly :
    ¬ ∀ (v : Volume) (t : Host.Tree) (home : Location) (path : String) (recursive : Bool),
      t.Connected → t.entry v.root = .ok (home, .directory) →
      v.RemovesExactly t home path recursive := by
  intro h
  obtain ⟨p, loc, hc, -, hentry, -, -, hdrops⟩ := (h ⟨.ofString "vol"⟩ turningBack [encode "vol"]
    "/d/back/d" true seated_turningBack.connected (by decide +kernel)).removed "/d/back/d"
    (by decide +kernel)
  have hc' : confine ⟨.ofString "vol"⟩ turningBack "/d/back/d" = .ok ⟨["d", "back", "d"]⟩ := by
    decide +kernel
  obtain rfl := Except.ok.inj (hc.symm.trans hc')
  have hentry' : turningBack.entry (hostPath ⟨.ofString "vol"⟩ ⟨["d", "back", "d"]⟩) =
      .ok ([encode "vol", encode "d"], .directory) := by
    decide +kernel
  obtain ⟨rfl, -⟩ := Prod.mk.inj (Except.ok.inj (hentry.symm.trans hentry'))
  have hgone := hdrops.nodes [encode "vol", encode "d"]
  rw [if_pos List.prefix_rfl] at hgone
  -- It is emptied, but it still stands.
  have hleft : (removeDirectory ⟨.ofString "vol"⟩ turningBack "/d/back/d" true).2.node?
      [encode "vol", encode "d"] = some .directory := by
    decide +kernel
  rw [hgone] at hleft
  cases hleft

end TurningBack

end Volume

end VolumeStore
