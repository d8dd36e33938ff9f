import VolumeStore.Proofs.Volume.Steps

/-!
# The directory of a volume

The root of a volume leads to a directory that stands in a connected tree. Then what a path of the
volume leads to stands there too, new entries come below that directory only, and the directory
itself is neither removed nor moved nor replaced by an operation of the volume.
-/

namespace VolumeStore.Volume

open Host (Location Name IsEntryName Below maxLinks)
open Host.Tree (Leads Thinned find_eq_ok pathFailure?_eq_none_of_find entry_eq_ok_iff)

/-- The root of a volume leads to a directory at `home` in a connected tree. -/
structure Seated (v : Volume) (t : Host.Tree) (home : Location) : Prop where
  connected : t.Connected
  target : t.target v.root = .ok (home, .directory)
  directory : t.node? home = some .directory

def Names (v : Volume) (t : Host.Tree) (home : Location) (p : VolumePath) (loc : Location) : Prop :=
  ∃ front inner dir k m, front ++ inner <+: p.names ∧ v.Rooted t home .directory k ∧
    Leads t true k home front m (.node dir .directory) ∧ loc = dir ++ inner

/-- From one tree to the other, entries were added below `home` under names of a path. -/
structure Adds (v : Volume) (home : Location) (path : String) (t t' : Host.Tree) : Prop where
  connected : t'.Connected
  workingDirectory : t'.home = t.home
  kept : ∀ loc node, t.node? loc = some node → t'.node? loc = some node
  added : ∀ loc node, t'.node? loc = some node → t.node? loc = none →
    Below home loc ∧ node.kind ≠ .link ∧
      ∃ p, VolumePath.parse path = .ok p ∧ v.Names t home p loc

/-- From one tree to the other, entries below `home` were taken away. -/
structure Drops (home : Location) (t t' : Host.Tree) : Prop extends Thinned t t' where
  workingDirectory : t'.home = t.home
  outside : ∀ loc, ¬ Below home loc → t'.node? loc = t.node? loc

/-- The places of a rename that moves something from `a` to `b`. Where one of them is not below the
directory of the volume, a link stands there. -/
structure Takes (v : Volume) (t : Host.Tree) (home : Location) (p q : VolumePath)
    (a b : Location) : Prop where
  places : t.renamePlaces? (v.hostPath p) (v.hostPath q) = some (a, b)
  found : ∃ node, t.find false (v.hostPath p) = .ok (.node a node) ∧ t.node? a = some node
  replaced : (∃ dir name, b = dir ++ [name] ∧
      t.find false (v.hostPath q) = .ok (.vacant dir name)) ∨
    ∃ existing, t.find false (v.hostPath q) = .ok (.node b existing)
  above : ∃ dir name, b = dir ++ [name] ∧ t.node? dir = some .directory
  apart : ¬ a <+: b
  apart' : ¬ b <+: a
  fits : ∀ node existing, t.node? a = some node → t.node? b = some existing →
    t.replaceFailure? node b existing = none
  source : ¬ Below home a → ∃ target, t.node? a = some (.link target)
  target : ¬ Below home b → ∃ target, t.node? b = some (.link target)

variable {v : Volume} {t t' : Host.Tree} {p q : VolumePath} {path : String}
  {home loc dir a b : Location} {name : Name} {node : Host.Node} {k m : Nat}

theorem names_of_segments {above rest : List String} (h : p.segments = above ++ rest) :
    p.names = VolumePath.names ⟨above⟩ ++ rest.map Text.encode := by
  rw [VolumePath.names, h, List.map_append]
  rfl

theorem Takes.ne_nil (h : v.Takes t home p q a b) : a ≠ [] :=
  fun hnil => h.apart (hnil ▸ List.nil_prefix)

theorem Takes.connected (h : v.Takes t home p q a b) (hconn : t.Connected) :
    (t.move a b).Connected := by
  obtain ⟨dir, name, rfl, hdir⟩ := h.above
  exact hconn.move h.ne_nil h.apart h.apart' hdir

theorem Takes.node?_below (h : v.Takes t home p q a b) (hconn : t.Connected)
    (hdirectory : t.node? a = some .directory) {names : List Name} (hne : names ≠ []) :
    t.node? (b ++ names) = none := by
  by_contra hstands
  have hb := hconn.directory_of_append hne hstands
  have hvacant : t.isVacant b = true := by
    simpa [Host.Tree.replaceFailure?] using h.fits _ _ hdirectory hb
  obtain ⟨name, rest, rfl⟩ := List.exists_cons_of_ne_nil hne
  exact hconn.ne_none_of_prefix (by simp) hstands
    (Host.Tree.node?_eq_none_of_isVacant hvacant name)

theorem Takes.directory_of_move (h : v.Takes t home p q a b) (hconn : t.Connected)
    (hstood : t.node? loc ≠ none) (hmoved : (t.move a b).node? loc = some .directory) :
    t.node? loc = some .directory := by
  rw [Host.Tree.node?_move t h.ne_nil h.apart h.apart'] at hmoved
  split at hmoved
  next hp =>
    -- At `b` itself one directory has replaced another; below it nothing stood before.
    obtain ⟨names, rfl⟩ := hp
    rw [List.drop_left] at hmoved
    by_cases hnames : names = []
    · subst hnames
      rw [List.append_nil] at *
      obtain ⟨existing, hexisting⟩ := Option.ne_none_iff_exists'.1 hstood
      rw [hexisting, (Host.Tree.directory_iff_of_replaceFailure?
        (h.fits _ _ hmoved hexisting)).1 rfl]
    · have hmoved' : t.node? (a ++ names) ≠ none := by simp [hmoved]
      have hdirectory := hconn.directory_of_append hnames hmoved'
      exact absurd (h.node?_below hconn hdirectory hnames) hstood
  · split at hmoved
    · cases hmoved
    · exact hmoved

theorem Adds.refl (h : t.Connected) : Adds v home path t t :=
  ⟨h, rfl, fun _ _ hn => hn, fun _ _ hn hnone => absurd (hnone ▸ hn) nofun⟩

theorem Adds.refilled {t'' : Host.Tree} {id : Host.FileId} (h : Adds v home path t t')
    (hfilled : t'.Refilled id t'') : Adds v home path t t'' :=
  hfilled.preserved (fun _ c hu => ⟨hu.connected.setContent id c, hu.workingDirectory, hu.kept,
    hu.added⟩) h

theorem Adds.outside (h : Adds v home path t t') (hloc : ¬ Below home loc) :
    t'.node? loc = t.node? loc := by
  cases hn : t'.node? loc with
  | none =>
    cases hn' : t.node? loc with
    | none => rfl
    | some node => rw [h.kept loc node hn'] at hn; cases hn
  | some node =>
    by_contra hne
    cases hn' : t.node? loc with
    | none => exact hloc (h.added loc node hn hn').1
    | some node' =>
      rw [h.kept loc node' hn'] at hn
      exact hne (hn' ▸ hn.symm)

theorem Drops.refl (home : Location) (t : Host.Tree) : Drops home t t :=
  ⟨.refl t, rfl, fun _ _ => rfl⟩

theorem drops_clear (t : Host.Tree) (h : home <+: loc) : Drops home t (t.clear loc) where
  toThinned := Host.Tree.thinned_clear t loc
  workingDirectory := rfl
  outside loc' hloc' := by
    rw [Host.Tree.node?_clear, if_neg fun hb => hloc' (hb.of_prefix_left h)]

theorem drops_remove (t : Host.Tree) (h : Below home loc) : Drops home t (t.remove loc) where
  toThinned := Host.Tree.thinned_remove t h.ne_nil
  workingDirectory := rfl
  outside loc' hloc' := by
    rw [Host.Tree.node?_remove t h.ne_nil, if_neg fun hp => hloc' (h.of_prefix hp)]

theorem Drops.trans {t'' : Host.Tree} (h : Drops home t t') (h' : Drops home t' t'') :
    Drops home t t'' :=
  ⟨h.toThinned.trans h'.toThinned, h'.workingDirectory.trans h.workingDirectory,
    fun loc hloc => (h'.outside loc hloc).trans (h.outside loc hloc)⟩

namespace Seated

/-! ## Looking up -/

theorem holds (h : v.Seated t home) (hp : p.IsProper) (hne : p.names ≠ []) {follow : Bool}
    {found : Host.Found} (hfind : t.find follow (v.hostPath p) = .ok found) : found.Holds t := by
  obtain ⟨k, hr⟩ := exists_rooted h.target
  rw [hr.find_eq hp hne (pathFailure?_eq_none_of_find hfind)] at hfind
  obtain ⟨m, hleads⟩ := Host.Tree.leads_of_walkLinks hfind
  exact hleads.holds h.connected h.directory

theorem node?_of_find (h : v.Seated t home) (hp : p.IsProper) (hne : p.names ≠ []) {follow : Bool}
    (hfind : t.find follow (v.hostPath p) = .ok (.node loc node)) : t.node? loc = some node :=
  h.holds hp hne hfind

theorem leads_directory (h : v.Seated t home) {names : List Name}
    (hentry : ∀ name ∈ names, IsEntryName name)
    (hdir : t.node? (home ++ names) = some .directory) (k : Nat) :
    ∃ m, Leads t true k home names m (.node (home ++ names) .directory) := by
  have hwalk : t.walkLinks true k home (names ++ []) = _ :=
    Host.Tree.walkLinks_descend hentry
      (fun loc _ hp => h.connected.directory_of_prefix hp hdir) []
  rw [List.append_nil, Host.Tree.walkLinks_nil] at hwalk
  exact Host.Tree.leads_of_walkLinks hwalk

theorem spellable_grow (h : v.Seated t home) (hs : v.Spellable t home p) (hhome : t'.home = t.home)
    (hgrow : ∀ loc node, t.node? loc = some node → t'.node? loc = some node) :
    v.Spellable t' home p := by
  have hroot := canonical_grow (Host.Tree.canonical_eq_ok_iff.2 ⟨hs.root, h.target⟩) hhome hgrow
  exact ⟨(Host.Tree.canonical_eq_ok_iff.1 hroot).1, hs.place⟩

theorem canSpell_stage (h : v.Seated t home) (hs : v.Spellable t home p) (hq : q.IsProper)
    (hqp : q.names <+: p.names) (hnode : t.node? (home ++ q.names) = some node)
    (hlink : node.kind ≠ .link) : t.canSpell (v.hostPath q) = true := by
  obtain ⟨k, hr⟩ := exists_rooted h.target
  refine hr.canSpell_of_spellable hs hq hqp fun front target hfront hlinked => ?_
  -- Above the entry there are directories only.
  by_cases hall : front = q.names
  · rw [hall, hnode] at hlinked
    cases hlinked
    exact hlink rfl
  · have hbelow : Below (home ++ front) (home ++ q.names) :=
      ⟨(List.prefix_append_right_inj _).2 hfront, by simpa using Ne.symm hall⟩
    rw [h.connected.directory_of_below hbelow (by simp [hnode])] at hlinked
    cases hlinked

theorem find_append (h : v.Seated t home) (follow : Bool) {above rest : List String}
    (hp : VolumePath.IsProper ⟨above ++ rest⟩) (hne : rest ≠ [])
    (hu : Host.Tree.pathFailure? (v.hostPath ⟨above ++ rest⟩) = none)
    (hdir : t.node? (home ++ VolumePath.names ⟨above⟩) = some .directory) :
    ∃ m, t.find follow (v.hostPath ⟨above ++ rest⟩) =
      t.walkLinks follow m (home ++ VolumePath.names ⟨above⟩) (rest.map Text.encode) := by
  obtain ⟨k, hr⟩ := exists_rooted h.target
  obtain ⟨m, hleads⟩ := h.leads_directory (IsProper.of_append hp).isEntryName hdir k
  have hrest : rest.map Text.encode ≠ [] := by simpa using hne
  refine ⟨m, ?_⟩
  rw [hr.find_eq hp (by simp [names_append, hne]) hu, names_append,
    hleads.walkLinks_append (.inl hrest)]

theorem vacant (h : v.Seated t home) (hc : v.confine t path = .ok p) {follow : Bool}
    (hfind : t.find follow (v.hostPath p) = .ok (.vacant dir name)) :
    home <+: dir ∧ t.node? dir = some .directory ∧ t.node? (dir ++ [name]) = none := by
  obtain ⟨k, hr⟩ := exists_rooted h.target
  obtain ⟨above, last, m, -, rfl, habove, hfree⟩ := hr.vacant_inv hc hfind
  exact ⟨hr.inside_of_vacant hc hfind, habove.holds h.connected h.directory, hfree⟩

theorem first_ne_none (h : v.Seated t home) (hp : p.IsProper) {first : Name} {rest : List Name}
    (hnames : p.names = first :: rest) {follow : Bool}
    (hfind : t.find follow (v.hostPath p) = .ok (.node loc node)) :
    t.node? (home ++ [first]) ≠ none := by
  intro hnone
  obtain ⟨k, hr⟩ := exists_rooted h.target
  rw [hr.find_eq hp (by simp [hnames]) (pathFailure?_eq_none_of_find hfind), hnames,
    Host.Tree.walkLinks_entry _ _ _ _ (hp.isEntryName first (by simp [hnames])), hnone] at hfind
  split at hfind
  · split at hfind <;> cases hfind
  all_goals simp_all

theorem entry_clear_home (h : v.Seated t home) (hp : p.IsProper) (hne : p.names ≠ []) :
    (t.clear home).entry (v.hostPath p) ≠ .ok (loc, node) := by
  intro hentry
  have hfind := entry_eq_ok_iff.1 hentry
  obtain ⟨k, hr⟩ := exists_rooted h.target
  obtain ⟨home', k', hr'⟩ := exists_rooted_of_find hr.usable hp hne hfind
  -- The root is still found, or the path could not be looked up behind it.
  have htarget : (t.clear home).target v.root = .ok (home, .directory) := by
    obtain hsame | hgone := Host.Tree.findEntry_clear h.target home
    · exact hsame
    · have hroot := hr'.target_root
      rw [Host.Tree.target, hgone] at hroot
      cases hroot
  have hseated : v.Seated (t.clear home) home :=
    ⟨h.connected.of_thinned (Host.Tree.thinned_clear t home), htarget, by
      rw [Host.Tree.node?_clear, if_neg (Host.not_below_self _), h.directory]⟩
  obtain ⟨first, rest, hnames⟩ := List.exists_cons_of_ne_nil hne
  refine hseated.first_ne_none hp hnames hfind ?_
  rw [Host.Tree.node?_clear, if_pos (Host.below_concat home first)]

theorem inside_of_not_link (h : v.Seated t home) (hc : v.confine t path = .ok p)
    (hfind : t.find false (v.hostPath p) = .ok (.node loc node))
    (hnode : ∀ target, node ≠ .link target) : home <+: loc := by
  obtain ⟨k, hr⟩ := exists_rooted h.target
  refine hr.inside_of_entry hc (entry_eq_ok_iff.2 hfind) fun hkind => ?_
  cases node <;> simp_all [Host.Node.kind]

/-! ## Making -/

theorem names_of_vacant (h : v.Seated t home) (hc : v.confine t path = .ok p) {follow : Bool}
    (hfind : t.find follow (v.hostPath p) = .ok (.vacant dir name)) :
    v.Names t home p (dir ++ [name]) := by
  obtain ⟨k, hr⟩ := exists_rooted h.target
  obtain ⟨above, last, m, hseg, rfl, habove, -⟩ := hr.vacant_inv hc hfind
  refine ⟨_, [Text.encode last], dir, k, m, ?_, hr, habove, rfl⟩
  rw [names_of_segments hseg]
  exact List.prefix_rfl

theorem adds_insertFile (h : v.Seated t home) (hc : v.confine t path = .ok p) {follow : Bool}
    (hfind : t.find follow (v.hostPath p) = .ok (.vacant dir name)) :
    Adds v home path t (t.insertFile (dir ++ [name])).2 := by
  obtain ⟨hinside, hdir, hfree⟩ := h.vacant hc hfind
  have hne : dir ++ [name] ≠ [] := by simp
  have hnode := Host.Tree.node?_insertFile t hne
  refine ⟨h.connected.insertFile hdir hfree, rfl,
    fun _ _ => Host.Tree.node?_insert_of_some t hne hfree, fun loc node hn hnone => ?_⟩
  rw [hnode] at hn
  split at hn
  next heq =>
    subst heq
    obtain rfl := Option.some.inj hn
    exact ⟨Host.below_of_prefix_concat hinside, nofun, p, (confine_eq_ok hc).1,
      h.names_of_vacant hc hfind⟩
  · rw [hnone] at hn
    cases hn

theorem adds_of_writes (h : v.Seated t home) (hw : Writes v t path t') :
    Adds v home path t t' := by
  cases hw with
  | kept => exact .refl h.connected
  | written _ _ hfilled => exact (Adds.refl h.connected).refilled hfilled
  | made hc hfind hfilled => exact (h.adds_insertFile hc hfind).refilled hfilled

theorem adds_makeDirectories (h : v.Seated t home) (path : String) :
    Adds v home path t (v.makeDirectories t path).2 := by
  obtain hsame | ⟨p, hc, hmake⟩ := makeDirectories_cases v t path
  · rw [hsame]
    exact .refl h.connected
  rw [hmake]
  obtain ⟨k, hr⟩ := exists_rooted h.target
  have hproper := isProper_of_confine hc
  obtain hsame | ⟨hu, above, first, rest, dir, m, hseg, habove, hfree, htree⟩ :=
    hr.makeDirectories_cases h.connected hproper
  · rw [hsame]
    exact .refl h.connected
  have hinside := hr.inside_of_free hc hu hseg habove hfree
  have hdir := habove.holds h.connected h.directory
  rw [htree]
  refine ⟨h.connected.insertDirectories hdir hfree _, ?_,
    fun _ _ => h.connected.node?_insertDirectories_of_some hfree _, fun loc node hn hnone => ?_⟩
  · have hrow : Host.Tree.ChangesOnly home (fun _ => True) t
        (t.insertDirectories dir (Text.encode first :: rest.map Text.encode)) :=
      Host.Tree.changesOnly_insertDirectories hinside _
    exact hrow.home
  · rw [Host.Tree.node?_insertDirectories] at hn
    split at hn
    next hrow =>
      -- The new directory is one of the row, under names of the path.
      obtain ⟨hb, hp⟩ := hrow
      obtain rfl := Option.some.inj hn
      obtain ⟨inner, rfl⟩ := hb.1
      refine ⟨hb.of_prefix_left hinside, nofun, p, (confine_eq_ok hc).1, _, inner, dir, k, m, ?_,
        hr, habove, rfl⟩
      rw [names_of_segments hseg]
      exact (List.prefix_append_right_inj _).2 ((List.prefix_append_right_inj _).1 hp)
    · rw [hnone] at hn
      cases hn

/-! ## Removing -/

theorem inside_of_directory (h : v.Seated t home) (hc : v.confine t path = .ok p)
    (hentry : t.entry (v.hostPath p) = .ok (loc, .directory)) : home <+: loc :=
  h.inside_of_not_link hc (entry_eq_ok_iff.1 hentry) nofun

theorem below_of_vacant (h : v.Seated t home) (hc : v.confine t path = .ok p) (hne : p.names ≠ [])
    (hentry : t.entry (v.hostPath p) = .ok (loc, .directory)) (hvacant : t.isVacant loc = true) :
    Below home loc := by
  refine ⟨h.inside_of_directory hc hentry, ?_⟩
  rintro rfl
  obtain ⟨first, rest, hnames⟩ := List.exists_cons_of_ne_nil hne
  exact h.first_ne_none (isProper_of_confine hc) hnames (entry_eq_ok_iff.1 hentry)
    (Host.Tree.node?_eq_none_of_isVacant hvacant first)

theorem below_of_emptied (h : v.Seated t home) (hc : v.confine t path = .ok p) (hne : p.names ≠ [])
    (hentry : t.entry (v.hostPath p) = .ok (loc, .directory))
    (hentry' : (t.clear loc).entry (v.hostPath p) = .ok (loc, .directory)) : Below home loc := by
  refine ⟨h.inside_of_directory hc hentry, ?_⟩
  rintro rfl
  exact h.entry_clear_home (isProper_of_confine hc) hne hentry'

theorem drops_of_removes (h : v.Seated t home) (hr : Removes v t path t') : Drops home t t' := by
  cases hr with
  | kept => exact .refl home t
  | vacant hc hne hentry hvacant => exact drops_remove t (h.below_of_vacant hc hne hentry hvacant)
  | emptied hc hne hentry => exact drops_clear t (h.inside_of_directory hc hentry)
  | removed hc hne hentry hentry' =>
    exact (drops_clear t (h.inside_of_directory hc hentry)).trans
      (drops_remove _ (h.below_of_emptied hc hne hentry hentry'))

theorem gone_of_entry (h : v.Seated t home) {node : Host.Node}
    (hentry : t.entry (v.hostPath p) = .ok (loc, node)) (hnode : node ≠ .directory) :
    loc ≠ [] ∧ ∀ loc', loc <+: loc' → t.node? loc' ≠ none → loc' = loc := by
  obtain ⟨k, hleads⟩ := find_eq_ok (entry_eq_ok_iff.1 hentry)
  have hstood := hleads.node?_of_ne_directory hnode
  refine ⟨?_, fun loc' hp hn => ?_⟩
  · rintro rfl
    rw [Host.Tree.node?_nil] at hstood
    exact hnode (Option.some.inj hstood).symm
  · by_contra hneq
    rw [h.connected.directory_of_below ⟨hp, hneq⟩ hn] at hstood
    exact hnode (Option.some.inj hstood).symm

theorem not_isPrefix_of_entry (h : v.Seated t home)
    (hentry : t.entry (v.hostPath p) = .ok (loc, node)) (hnode : node ≠ .directory)
    (hdirectory : t.node? dir = some .directory) : ¬ loc <+: dir := by
  intro hp
  obtain rfl := (h.gone_of_entry hentry hnode).2 dir hp (by simp [hdirectory])
  obtain ⟨k, hleads⟩ := find_eq_ok (entry_eq_ok_iff.1 hentry)
  have hstood := hleads.node?_of_ne_directory hnode
  rw [hdirectory] at hstood
  exact hnode (Option.some.inj hstood).symm

/-! ## Renaming -/

theorem takes_of_rename (h : v.Seated t home) {path' : String} (hc : v.confine t path = .ok p)
    (hc' : v.confine t path' = .ok q) (hp : p ≠ VolumePath.top) (hq : q ≠ VolumePath.top)
    (hrename : t.rename (v.hostPath p) (v.hostPath q) = .ok t') :
    (t.renamePlaces? (v.hostPath p) (v.hostPath q) = none ∧ t' = t) ∨
      ∃ a b, v.Takes t home p q a b ∧ t' = t.move a b := by
  refine (Host.Tree.rename_eq_ok hrename).imp id ?_
  rintro ⟨loc, node, hs, hcases⟩
  have hnode := h.node?_of_find (isProper_of_confine hc) (VolumePath.names_ne_nil hp) hs
  obtain ⟨dir, name, ht, hprefix, hplaces, rfl⟩ |
    ⟨loc', existing, ht, hprefix, hprefix', hreplace, hplaces, rfl⟩ := hcases
  · -- The target is a free name, so it is below the volume's directory.
    obtain ⟨hinside, hdir, hfree⟩ := h.vacant hc' ht
    have hb : Below home (dir ++ [name]) := Host.below_of_prefix_concat hinside
    have hneq : loc ≠ dir ++ [name] := by
      rintro rfl
      rw [hfree] at hnode
      cases hnode
    have hapart : ¬ loc <+: dir ++ [name] := fun hpre =>
      (List.prefix_concat_iff.1 hpre).elim (fun he => hneq (by simpa using he)) hprefix
    have hapart' : ¬ dir ++ [name] <+: loc := by
      intro hpre
      rw [h.connected.node?_below_eq_none (by simp [hfree]) ⟨hpre, hneq⟩] at hnode
      cases hnode
    refine ⟨loc, dir ++ [name], ⟨hplaces, ⟨node, hs, hnode⟩, .inl ⟨dir, name, rfl, ht⟩,
      ⟨dir, name, rfl, hdir⟩, hapart, hapart', fun _ _ _ he => ?_, fun hout => ?_,
      fun hout => absurd hb hout⟩, rfl⟩
    · rw [hfree] at he
      cases he
    · by_contra hlink
      have hin := h.inside_of_not_link hc hs fun target he => hlink ⟨target, he ▸ hnode⟩
      refine hout ⟨hin, ?_⟩
      rintro rfl
      exact hprefix hinside
  · -- The target is an entry that is replaced.
    have hnode' := h.node?_of_find (isProper_of_confine hc') (VolumePath.names_ne_nil hq) ht
    have hkind := Host.Tree.directory_iff_of_replaceFailure? hreplace
    have habove : ∃ dir name, loc' = dir ++ [name] ∧ t.node? dir = some .directory := by
      obtain rfl | ⟨dir, name, rfl⟩ := List.eq_nil_or_concat loc'
      · exact absurd List.nil_prefix hprefix'
      · rw [List.concat_eq_append] at *
        have hne : t.node? (dir ++ [name]) ≠ none := by simp [hnode']
        exact ⟨dir, name, rfl, h.connected.above hne⟩
    -- An end of the move at the directory itself would have the other end below it.
    refine ⟨loc, loc', ⟨hplaces, ⟨node, hs, hnode⟩, .inr ⟨existing, ht⟩, habove, hprefix,
      hprefix', fun _ _ he he' => ?_, fun hout => ?_, fun hout => ?_⟩, rfl⟩
    · rw [hnode] at he
      rw [hnode'] at he'
      cases he
      cases he'
      exact hreplace
    · by_contra hlink
      have hin := h.inside_of_not_link hc hs fun target he => hlink ⟨target, he ▸ hnode⟩
      refine hout ⟨hin, ?_⟩
      rintro rfl
      obtain rfl : node = .directory := by simpa [h.directory] using hnode.symm
      exact hprefix (h.inside_of_not_link hc' ht fun target he => by simp [hkind.1 rfl] at he)
    · by_contra hlink
      have hin := h.inside_of_not_link hc' ht fun target he => hlink ⟨target, he ▸ hnode'⟩
      refine hout ⟨hin, ?_⟩
      rintro rfl
      obtain rfl : existing = .directory := by simpa [h.directory] using hnode'.symm
      exact hprefix' (h.inside_of_not_link hc hs fun target he => by simp [hkind.2 rfl] at he)

theorem rename_cases (h : v.Seated t home) (source target : String) :
    (v.rename t source target).2 = t ∨
      ∃ p q a b, v.confine t source = .ok p ∧ v.confine t target = .ok q ∧
        (v.rename t source target).1 = .ok q.render ∧ v.Takes t home p q a b ∧
        (v.rename t source target).2 = t.move a b := by
  cases hok : (v.rename t source target).1 with
  | error error => exact .inl (rename_eq_error hok)
  | ok result =>
    obtain ⟨p, q, hc, hc', hp, hq, rfl, hrename⟩ := rename_eq_ok hok
    obtain ⟨-, hsame⟩ | ⟨a, b, htakes, hmove⟩ := h.takes_of_rename hc hc' hp hq hrename
    · exact .inl hsame
    · exact .inr ⟨p, q, a, b, hc, hc', rfl, htakes, hmove⟩

end Seated

end VolumeStore.Volume
