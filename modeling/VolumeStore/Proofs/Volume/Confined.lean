import VolumeStore.Proofs.Volume.Rooted

/-!
# What a confined path leads to

A confined path leads to a place inside the directory of the volume when all links are followed. So
does one that ends in a free name. The entry itself, when it is a link, may stand anywhere.
-/

namespace VolumeStore.Volume

open Host (Location Name IsEntryName maxLinks)
open Host.Tree (Leads isTelling pathFailure? find_eq_ok find_grow pathFailure?_eq_none_of_find
  target_eq_ok_iff entry_eq_ok_iff isOk_entry_of_target target_of_entry find_false_of_vacant)

variable {v : Volume} {t : Host.Tree} {p q : VolumePath} {path : String} {home loc dir : Location}
  {name : Name} {k m : Nat} {follow : Bool} {node : Host.Node}

/-! ## The directory above -/

theorem requireParent_eq_ok_iff {above : List String} {last : String} :
    v.requireParent t ⟨above ++ [last]⟩ = .ok () ↔
      ∃ dir, t.target (v.hostPath ⟨above⟩) = .ok (dir, .directory) := by
  have hparent : VolumePath.parent? ⟨above ++ [last]⟩ = some (⟨above⟩, last) :=
    VolumePath.parent?_eq_some_iff.2 rfl
  rw [requireParent, hparent]
  dsimp only
  constructor
  · intro hok
    split at hok
    next dir htarget => exact ⟨dir, htarget⟩
    · cases hok
    · split at hok <;> cases hok
  · rintro ⟨dir, htarget⟩
    rw [htarget]

/-! ## Look-ups with and without the last link -/

theorem canonical_grow {t' : Host.Tree} {r : Host.Path} (h : t.canonical r = .ok (loc, node))
    (hhome : t'.home = t.home)
    (hgrow : ∀ loc node, t.node? loc = some node → t'.node? loc = some node) :
    t'.canonical r = .ok (loc, node) := by
  obtain ⟨hspells, htarget⟩ := Host.Tree.canonical_eq_ok_iff.1 h
  have hfind := target_eq_ok_iff.1 htarget
  obtain ⟨k, hleads⟩ := find_eq_ok hfind
  refine Host.Tree.canonical_eq_ok_iff.2 ⟨?_, target_eq_ok_iff.2 (find_grow hfind hhome hgrow)⟩
  rw [Host.Tree.canSpell, hhome, hleads.spells_grow hgrow]
  exact hspells

/-! ## The lowest stage of a path to something new -/

theorem names_append (above rest : List String) :
    VolumePath.names ⟨above ++ rest⟩ = VolumePath.names ⟨above⟩ ++ rest.map Text.encode := by
  simp [VolumePath.names]

theorem IsProper.of_isPrefix (h : p.IsProper) (hq : q.segments <+: p.segments) : q.IsProper :=
  fun name hmem => h name ((VolumePath.names_isPrefix_iff.2 hq).subset hmem)

theorem IsProper.of_append {above rest : List String}
    (h : VolumePath.IsProper ⟨above ++ rest⟩) : VolumePath.IsProper ⟨above⟩ :=
  IsProper.of_isPrefix h (List.prefix_append _ _)

theorem Rooted.entry_of_free (h : v.Rooted t home .directory k) {above rest : List String}
    {first : String} (hp : VolumePath.IsProper ⟨above ++ first :: rest⟩)
    (hu : pathFailure? (v.hostPath ⟨above ++ first :: rest⟩) = none)
    (habove : Leads t true k home (VolumePath.names ⟨above⟩) m (.node dir .directory))
    (hfree : t.node? (dir ++ [Text.encode first]) = none) :
    (t.entry (v.hostPath ⟨above ++ first :: rest⟩)).isOk = false := by
  have hnames := names_append above (first :: rest)
  have hfirst : IsEntryName (Text.encode first) :=
    hp.isEntryName _ (by rw [hnames]; simp)
  have hfind : t.find false (v.hostPath ⟨above ++ first :: rest⟩) =
      t.walkLinks false m dir (Text.encode first :: rest.map Text.encode) := by
    rw [h.find_eq hp (by simp [hnames]) hu, hnames, habove.walkLinks_append (.inl (by simp))]
    rfl
  -- The walk stops at the first name that is free, whether more names follow or not.
  rw [Host.Tree.walkLinks_entry _ _ _ _ hfirst, hfree] at hfind
  rw [Host.Tree.entry, Host.Tree.findEntry, hfind]
  simp only
  split
  next heq =>
    split at heq
    · cases heq
    · cases heq
  · rfl
  · rfl

theorem Rooted.lowestStage?_of_free (h : v.Rooted t home .directory k) {above rest : List String}
    {first : String} (hp : VolumePath.IsProper ⟨above ++ first :: rest⟩)
    (hu : pathFailure? (v.hostPath ⟨above ++ first :: rest⟩) = none)
    (habove : Leads t true k home (VolumePath.names ⟨above⟩) m (.node dir .directory))
    (hfree : t.node? (dir ++ [Text.encode first]) = none) :
    v.lowestStage? t ⟨above ++ first :: rest⟩ = some ⟨above⟩ ∧
      t.target (v.hostPath ⟨above⟩) = .ok (dir, .directory) := by
  have hpa : VolumePath.IsProper ⟨above⟩ := IsProper.of_append hp
  have hua := usable_of_isPrefix h.root_ne_nil hp hpa
    (names_append above (first :: rest) ▸ List.prefix_append _ _) hu
  have htarget : t.target (v.hostPath ⟨above⟩) = .ok (dir, .directory) := by
    rw [target_eq_ok_iff, h.find_true_eq hpa hua]
    exact habove.walkLinks
  refine ⟨?_, htarget⟩
  -- From the last segment up, none of the stages below `above` exists.
  induction rest using List.reverseRecOn with
  | nil =>
    rw [lowestStage?_concat (h.entry_of_free hp hu habove hfree)]
    exact lowestStage?_eq_self (isOk_entry_of_target htarget)
  | append_singleton rest last ih =>
    have hfail := h.entry_of_free hp hu habove hfree
    have hsplit : above ++ first :: (rest ++ [last]) = (above ++ first :: rest) ++ [last] := by simp
    rw [hsplit] at hp hu hfail ⊢
    rw [lowestStage?_concat hfail]
    exact ih (IsProper.of_append hp) (usable_of_isPrefix h.root_ne_nil hp (IsProper.of_append hp)
      (names_append _ [last] ▸ List.prefix_append _ _) hu)

/-! ## Staying inside -/

theorem confine_eq_ok (h : v.confine t path = .ok p) :
    VolumePath.parse path = .ok p ∧
      ∃ home, v.home t = .ok home ∧ v.escape? t home p = none := by
  unfold confine at h
  split at h
  · cases h
  next q hparse =>
    split at h
    · cases h
    next home hhome =>
      split at h
      · cases h
      next hescape =>
        cases h
        exact ⟨hparse, home, hhome, hescape⟩

theorem home_eq_ok (h : v.home t = .ok home) : ∃ node, t.canonical v.root = .ok (home, node) := by
  unfold Volume.home at h
  split at h
  next loc node hcanonical =>
    cases h
    exact ⟨node, hcanonical⟩
  · cases h

theorem target_of_home (h : v.home t = .ok home) : ∃ node, t.target v.root = .ok (home, node) := by
  obtain ⟨node, hcanonical⟩ := home_eq_ok h
  exact ⟨node, (Host.Tree.canonical_eq_ok_iff.1 hcanonical).2⟩

theorem canSpell_root_of_confine (hc : v.confine t path = .ok p) : t.canSpell v.root = true := by
  obtain ⟨-, home, hhome, -⟩ := confine_eq_ok hc
  obtain ⟨node, hcanonical⟩ := home_eq_ok hhome
  exact (Host.Tree.canonical_eq_ok_iff.1 hcanonical).1

theorem exists_rooted_of_confine (hc : v.confine t path = .ok p) :
    p.IsProper ∧ ∃ home node k, v.Rooted t home node k := by
  obtain ⟨hparse, home, hhome, -⟩ := confine_eq_ok hc
  obtain ⟨node, htarget⟩ := target_of_home hhome
  exact ⟨VolumePath.isProper_of_parse hparse, home, node, exists_rooted htarget⟩

theorem Rooted.escape?_eq_none (h : v.Rooted t home .directory k)
    (hc : v.confine t path = .ok p) : v.escape? t home p = none := by
  obtain ⟨-, home', hhome, hescape⟩ := confine_eq_ok hc
  rw [h.home_eq (canSpell_root_of_confine hc)] at hhome
  cases hhome
  exact hescape

theorem isProper_of_confine (hc : v.confine t path = .ok p) : p.IsProper :=
  VolumePath.isProper_of_parse (confine_eq_ok hc).1

theorem inside_of_lowestStage? {stage : VolumePath} (hescape : v.escape? t home p = none)
    (hstage : v.lowestStage? t p = some stage) :
    ∃ loc node, t.canonical (v.hostPath stage) = .ok (loc, node) ∧ home <+: loc := by
  unfold escape? at hescape
  rw [hstage] at hescape
  simp only at hescape
  split at hescape
  next loc node hcanonical =>
    split at hescape
    next hinside => exact ⟨loc, node, hcanonical, hinside⟩
    · cases hescape
  · split at hescape <;> cases hescape

theorem Rooted.target_of_isOk_entry (h : v.Rooted t home .directory k)
    (hc : v.confine t path = .ok p) (hentry : (t.entry (v.hostPath p)).isOk = true) :
    ∃ loc node, t.target (v.hostPath p) = .ok (loc, node) ∧ home <+: loc := by
  obtain ⟨loc, node, hcanonical, hinside⟩ :=
    inside_of_lowestStage? (h.escape?_eq_none hc) (lowestStage?_eq_self hentry)
  exact ⟨loc, node, (Host.Tree.canonical_eq_ok_iff.1 hcanonical).2, hinside⟩

theorem Rooted.inside_of_target (h : v.Rooted t home .directory k) (hc : v.confine t path = .ok p)
    (htarget : t.target (v.hostPath p) = .ok (loc, node)) : home <+: loc := by
  obtain ⟨loc', node', htarget', hinside⟩ :=
    h.target_of_isOk_entry hc (isOk_entry_of_target htarget)
  rw [htarget] at htarget'
  cases htarget'
  exact hinside

theorem Rooted.inside_of_entry (h : v.Rooted t home .directory k) (hc : v.confine t path = .ok p)
    (hentry : t.entry (v.hostPath p) = .ok (loc, node)) (hnode : node.kind ≠ .link) :
    home <+: loc :=
  h.inside_of_target hc (target_of_entry hentry hnode)

theorem Rooted.inside_of_free (h : v.Rooted t home .directory k) (hc : v.confine t path = .ok p)
    (hu : pathFailure? (v.hostPath p) = none) {above rest : List String} {first : String}
    (hseg : p.segments = above ++ first :: rest)
    (habove : Leads t true k home (VolumePath.names ⟨above⟩) m (.node dir .directory))
    (hfree : t.node? (dir ++ [Text.encode first]) = none) : home <+: dir := by
  obtain ⟨segments⟩ := p
  obtain rfl : segments = above ++ first :: rest := hseg
  obtain ⟨hstage, htarget⟩ := h.lowestStage?_of_free (isProper_of_confine hc) hu habove hfree
  obtain ⟨loc, node, hcanonical, hinside⟩ := inside_of_lowestStage? (h.escape?_eq_none hc) hstage
  cases htarget.symm.trans (Host.Tree.canonical_eq_ok_iff.1 hcanonical).2
  exact hinside

theorem Rooted.find_false_inv (h : v.Rooted t home .directory k) {segments : List String}
    {last : String} (hp : VolumePath.IsProper ⟨segments ++ [last]⟩) {found : Host.Found}
    (hfind : t.find false (v.hostPath ⟨segments ++ [last]⟩) = .ok found) :
    ∃ m dir, Leads t true k home (VolumePath.names ⟨segments⟩) m (.node dir .directory) ∧
      ((t.node? (dir ++ [Text.encode last]) = none ∧ found = .vacant dir (Text.encode last)) ∨
        ∃ node, t.node? (dir ++ [Text.encode last]) = some node ∧
          found = .node (dir ++ [Text.encode last]) node) := by
  have hu := pathFailure?_eq_none_of_find hfind
  have hnames := names_append segments [last]
  have hlast : IsEntryName (Text.encode last) := hp.isEntryName _ (by rw [hnames]; simp)
  rw [h.find_eq hp (by simp [hnames]) hu, hnames] at hfind
  obtain ⟨m, hleads⟩ := Host.Tree.leads_of_walkLinks hfind
  obtain ⟨dir, habove, hfound⟩ := hleads.last_inv hlast
  exact ⟨m, dir, habove, hfound⟩

theorem Rooted.find_top (h : v.Rooted t home .directory k) (hp : p.segments = []) :
    ∃ loc node, t.find false (v.hostPath p) = .ok (.node loc node) := by
  have hroot := isOk_entry_of_target h.target_root
  rw [← hostPath_of_names_eq_nil (p := p) (by simp [VolumePath.names, hp])] at hroot
  cases hentry : t.entry (v.hostPath p) with
  | ok found => exact ⟨found.1, found.2, entry_eq_ok_iff.1 hentry⟩
  | error failure => simp [hentry, Except.isOk, Except.toBool] at hroot

theorem Rooted.vacant_inv (h : v.Rooted t home .directory k) (hc : v.confine t path = .ok p)
    (hfind : t.find follow (v.hostPath p) = .ok (.vacant dir name)) :
    ∃ above last m, p.segments = above ++ [last] ∧ name = Text.encode last ∧
      Leads t true k home (VolumePath.names ⟨above⟩) m (.node dir .directory) ∧
      t.node? (dir ++ [name]) = none := by
  have hfalse : t.find false (v.hostPath p) = .ok (.vacant dir name) := by
    cases follow with
    | false => exact hfind
    | true =>
      obtain hfalse | hentry := find_false_of_vacant hfind
      · exact hfalse
      · -- A link to nothing is not confined.
        obtain ⟨loc, node, htarget, -⟩ := h.target_of_isOk_entry hc hentry
        rw [target_eq_ok_iff, hfind] at htarget
        cases htarget
  have hproper := isProper_of_confine hc
  obtain ⟨segments⟩ := p
  obtain rfl | ⟨above, last, rfl⟩ := List.eq_nil_or_concat segments
  · obtain ⟨loc, node, htop⟩ := h.find_top (p := ⟨[]⟩) rfl
    rw [htop] at hfalse
    cases hfalse
  · rw [List.concat_eq_append] at *
    obtain ⟨m, dir', habove, ⟨hfree, hfound⟩ | ⟨node, -, hfound⟩⟩ := h.find_false_inv hproper hfalse
    · cases hfound
      exact ⟨above, last, m, rfl, rfl, habove, hfree⟩
    · cases hfound

theorem target_of_vacant {above : List String} {last : String}
    (hc : v.confine t path = .ok ⟨above ++ [last]⟩)
    (hfind : t.find follow (v.hostPath ⟨above ++ [last]⟩) = .ok (.vacant dir name)) :
    name = Text.encode last ∧ t.target (v.hostPath ⟨above⟩) = .ok (dir, .directory) ∧
      t.node? (dir ++ [name]) = none := by
  obtain ⟨hproper, _, _, _, hroot⟩ := exists_rooted_of_confine hc
  have hne : VolumePath.names ⟨above ++ [last]⟩ ≠ [] := by simp [names_append]
  obtain ⟨home, k, hr⟩ := exists_rooted_of_find hroot.usable hproper hne hfind
  obtain ⟨above', last', m, hseg, rfl, habove, hfree⟩ := hr.vacant_inv hc hfind
  obtain ⟨rfl, hlast⟩ := List.append_inj' hseg rfl
  cases hlast
  obtain ⟨-, htarget⟩ := hr.lowestStage?_of_free hproper (pathFailure?_eq_none_of_find hfind)
    habove hfree
  exact ⟨rfl, htarget, hfree⟩

theorem Rooted.inside_of_vacant (h : v.Rooted t home .directory k) (hc : v.confine t path = .ok p)
    (hfind : t.find follow (v.hostPath p) = .ok (.vacant dir name)) : home <+: dir := by
  -- The stage above the free name is the lowest one that is there.
  obtain ⟨above, last, m, hseg, rfl, habove, hfree⟩ := h.vacant_inv hc hfind
  exact h.inside_of_free hc (pathFailure?_eq_none_of_find hfind) hseg habove hfree

/-! ## New directories -/

/-- Making the directories of a path does nothing, or adds a row of directories under the last of
the segments that are there. -/
theorem Rooted.makeDirectories_cases (h : v.Rooted t home .directory k) (hwf : t.Connected)
    (hp : p.IsProper) :
    (t.makeDirectories (v.hostPath p)).2 = t ∨
      pathFailure? (v.hostPath p) = none ∧
      ∃ above first rest dir m, p.segments = above ++ first :: rest ∧
        Leads t true k home (VolumePath.names ⟨above⟩) m (.node dir .directory) ∧
        t.node? (dir ++ [Text.encode first]) = none ∧
        (t.makeDirectories (v.hostPath p)).2 =
          t.insertDirectories dir (Text.encode first :: rest.map Text.encode) := by
  cases hu : pathFailure? (v.hostPath p) with
  | some failure => exact .inl (by rw [makeDirectories_unusable h.root_ne_nil hp hu])
  | none =>
  have hext := h.extends_makeDirectories hwf hp
  generalize (t.makeDirectories (v.hostPath p)).1 = result at hext
  generalize (t.makeDirectories (v.hostPath p)).2 = t' at hext ⊢
  cases hext with
  | failed _ => exact .inl rfl
  | present _ => exact .inl rfl
  | @made above name rest dir m _ hnames habove hfree htree =>
    refine .inr ⟨rfl, ?_⟩
    obtain ⟨above', rest', hseg, rfl, hrest⟩ := List.map_eq_append_iff.1 hnames
    obtain ⟨first, rest'', rfl, rfl, rfl⟩ := List.map_eq_cons_iff.1 hrest
    -- The names in front lead to the volume, with or without those that say nothing.
    have hbase : Leads t true maxLinks (v.start t) (v.base.filter isTelling) k
        (.node home .directory) := h.leads.filter_telling
    have hwalk := habove.walkLinks
    rw [hbase.walkLinks_append (.inr rfl)] at hwalk
    obtain ⟨m', habove'⟩ := Host.Tree.leads_of_walkLinks hwalk
    exact ⟨above', first, rest'', dir, m', hseg, habove', hfree, htree⟩

end VolumeStore.Volume
