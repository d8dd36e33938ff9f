import VolumeStore.Proofs.Host.Lookup

/-!
# The way of a look-up

The entries that a look-up reads, one after the other, with all links followed. They decide what it
comes to: as long as they stay, it leads to the same place, and once one of them is gone, it leads
nowhere. Where one of them is another link now, it depends on where that one leads.
-/

namespace VolumeStore.Host.Tree

/-- The look-up of names from a directory reads the entry at a place. -/
inductive Reads (t : Tree) (place : Location) : Nat → Location → List Name → Prop where
  | skip {n loc name rest} (hname : name = [] ∨ name = selfName) (h : Reads t place n loc rest) :
      Reads t place n loc (name :: rest)
  | up {n loc rest} (h : Reads t place n loc.dropLast rest) :
      Reads t place n loc (parentName :: rest)
  | first {n loc name rest} (hname : IsEntryName name) (hplace : place = loc ++ [name]) :
      Reads t place n loc (name :: rest)
  | enter {n loc name rest} (hname : IsEntryName name)
      (hnode : t.node? (loc ++ [name]) = some .directory)
      (h : Reads t place n (loc ++ [name]) rest) : Reads t place n loc (name :: rest)
  | jump {n loc name rest target} (hname : IsEntryName name)
      (hnode : t.node? (loc ++ [name]) = some (.link target))
      (h : Reads t place n (linkStart loc target) (Path.split target ++ rest)) :
      Reads t place (n + 1) loc (name :: rest)

/-- Names that lead to `home` by the entries of one tree come to another entry in the second one: it
is gone, or no name can follow it, or it is another link, behind which the names lead elsewhere. -/
inductive Strays (t t' : Tree) (home : Location) : Nat → Location → List Name → Prop where
  | skip {n loc name rest} (hname : name = [] ∨ name = selfName)
      (h : Strays t t' home n loc rest) : Strays t t' home n loc (name :: rest)
  | up {n loc rest} (h : Strays t t' home n loc.dropLast rest) :
      Strays t t' home n loc (parentName :: rest)
  | enter {n loc name rest} (hname : IsEntryName name)
      (hnode : t.node? (loc ++ [name]) = some .directory)
      (hnode' : t'.node? (loc ++ [name]) = some .directory)
      (h : Strays t t' home n (loc ++ [name]) rest) : Strays t t' home n loc (name :: rest)
  | jump {n loc name rest target} (hname : IsEntryName name)
      (hnode : t.node? (loc ++ [name]) = some (.link target))
      (hnode' : t'.node? (loc ++ [name]) = some (.link target))
      (h : Strays t t' home n (linkStart loc target) (Path.split target ++ rest)) :
      Strays t t' home (n + 1) loc (name :: rest)
  | gone {n loc name rest} (hname : IsEntryName name) (hnode' : t'.node? (loc ++ [name]) = none) :
      Strays t t' home n loc (name :: rest)
  | blocked {n loc name rest node} (hname : IsEntryName name)
      (hnode' : t'.node? (loc ++ [name]) = some node) (hdir : node ≠ .directory)
      (hlink : node.kind ≠ .link) : Strays t t' home n loc (name :: rest)
  | astray {n loc name rest target} (hname : IsEntryName name)
      (hnode : t.node? (loc ++ [name]) ≠ some (.link target))
      (hnode' : t'.node? (loc ++ [name]) = some (.link target))
      (helsewhere : ∀ m k, n = m + 1 → ¬ Leads t' true m (linkStart loc target)
        (Path.split target ++ rest) k (.node home .directory)) :
      Strays t t' home n loc (name :: rest)

variable {t t' : Tree} {n k : Nat} {place loc dir : Location} {name : Name}
  {rest names : List Name} {found : Found} {node : Node}

theorem Reads.of_skip (h : Reads t place n loc (name :: rest))
    (hname : name = [] ∨ name = selfName) : Reads t place n loc rest := by
  have hno : ¬ IsEntryName name := fun he => hname.elim he.1 he.2.1
  cases h with
  | skip _ h => exact h
  | up _ => exact absurd hname (by decide)
  | first he _ => exact absurd he hno
  | enter he _ _ => exact absurd he hno
  | jump he _ _ => exact absurd he hno

theorem Reads.of_up (h : Reads t place n loc (parentName :: rest)) :
    Reads t place n loc.dropLast rest := by
  cases h with
  | skip hname _ => exact absurd hname (by decide)
  | up h => exact h
  | first he _ => exact absurd rfl he.2.2.1
  | enter he _ _ => exact absurd rfl he.2.2.1
  | jump he _ _ => exact absurd rfl he.2.2.1

theorem Reads.of_entry (h : Reads t place n loc (name :: rest)) (hname : IsEntryName name) :
    place = loc ++ [name] ∨
      (t.node? (loc ++ [name]) = some .directory ∧ Reads t place n (loc ++ [name]) rest) ∨
      ∃ target m, t.node? (loc ++ [name]) = some (.link target) ∧ n = m + 1 ∧
        Reads t place m (linkStart loc target) (Path.split target ++ rest) := by
  cases h with
  | skip hskip _ => exact absurd hskip (by simp [hname.1, hname.2.1])
  | up _ => exact absurd rfl hname.2.2.1
  | first _ hplace => exact .inl hplace
  | enter _ hnode h => exact .inr (.inl ⟨hnode, h⟩)
  | jump _ hnode h => exact .inr (.inr ⟨_, _, hnode, rfl, h⟩)

theorem Leads.of_reads (h : Leads t true n loc names k found)
    (hsame : ∀ place, Reads t place n loc names → t'.node? place = t.node? place) :
    Leads t' true n loc names k found := by
  induction h with
  | here => exact .here
  | skip hname _ ih => exact .skip hname (ih fun place h => hsame place (.skip hname h))
  | up _ ih => exact .up (ih fun place h => hsame place (.up h))
  | vacant hname hnode => exact .vacant hname (hsame _ (.first hname rfl) ▸ hnode)
  | enter hname hnode _ ih =>
    exact .enter hname (hsame _ (.first hname rfl) ▸ hnode)
      (ih fun place h => hsame place (.enter hname hnode h))
  | jump hname hnode hgo _ ih =>
    exact .jump hname (hsame _ (.first hname rfl) ▸ hnode) hgo
      (ih fun place h => hsame place (.jump hname hnode h))
  | stop hname hnode hdir hlink =>
    exact .stop hname (hsame _ (.first hname rfl) ▸ hnode) hdir hlink

theorem Leads.ne_none_of_reads (h : Leads t' true n loc names k (.node dir node))
    (hsub : ∀ loc node, t'.node? loc = some node → t.node? loc = some node)
    (hreads : Reads t place n loc names) : t'.node? place ≠ none := by
  generalize hfound : Found.node dir node = found at h
  -- The induction follows the look-up in the smaller tree; the way in the other one keeps to it.
  induction h with
  | here => cases hreads
  | skip hname _ ih => exact ih (hreads.of_skip hname) hfound
  | up _ ih => exact ih hreads.of_up hfound
  | vacant => cases hfound
  | enter hname hnode _ ih =>
    obtain rfl | ⟨-, hrest⟩ | ⟨target, m, hlink, -, -⟩ := hreads.of_entry hname
    · simp [hnode]
    · exact ih hrest hfound
    · exact absurd (hsub _ _ hnode) (by simp [hlink])
  | @jump n loc name rest k found target hname hnode _ _ ih =>
    obtain rfl | ⟨hdirectory, -⟩ | ⟨target', m, hlink, hm, hrest⟩ := hreads.of_entry hname
    · simp [hnode]
    · exact absurd (hsub _ _ hnode) (by simp [hdirectory])
    · obtain rfl : target = target' := by simpa [hlink] using (hsub _ _ hnode).symm
      obtain rfl := Nat.succ.inj hm
      exact ih hrest hfound
  | stop hname hnode hdir hkind =>
    obtain rfl | ⟨hdirectory, -⟩ | ⟨target, m, hlink, -, -⟩ := hreads.of_entry hname
    · simp [hnode]
    · cases hdirectory.symm.trans (hsub _ _ hnode)
      exact absurd rfl hdir
    · cases hlink.symm.trans (hsub _ _ hnode)
      exact absurd rfl (hkind rfl)

theorem Leads.of_entry (h : Leads t true n loc (name :: rest) k (.node dir .directory))
    (hname : IsEntryName name) :
    (t.node? (loc ++ [name]) = some .directory ∧
      Leads t true n (loc ++ [name]) rest k (.node dir .directory)) ∨
    ∃ target m, t.node? (loc ++ [name]) = some (.link target) ∧ n = m + 1 ∧
      Leads t true m (linkStart loc target) (Path.split target ++ rest) k
        (.node dir .directory) := by
  cases h with
  | skip hskip _ => exact absurd hskip (by simp [hname.1, hname.2.1])
  | up _ => exact absurd rfl hname.2.2.1
  | enter _ hnode h => exact .inl ⟨hnode, h⟩
  | jump _ hnode _ h => exact .inr ⟨_, _, hnode, rfl, h⟩
  | stop _ _ hdir _ => exact absurd rfl hdir

theorem Strays.not_leads (h : Strays t t' dir n loc names) (k : Nat) :
    ¬ Leads t' true n loc names k (.node dir .directory) := by
  intro hleads
  -- The other walk takes the same steps up to the entry where the two trees differ.
  induction h with
  | skip hname _ ih =>
    cases hleads with
    | skip _ hleads => exact ih hleads
    | up _ => exact absurd hname (by decide)
    | enter he _ _ | jump he _ _ _ | stop he _ _ _ =>
      exact absurd hname (not_or.2 ⟨he.1, he.2.1⟩)
  | up _ ih =>
    cases hleads with
    | skip hname _ => exact absurd hname (by decide)
    | up hleads => exact ih hleads
    | enter he _ _ | jump he _ _ _ | stop he _ _ _ => exact absurd rfl he.2.2.1
  | enter hname _ hnode' _ ih =>
    obtain ⟨-, hrest⟩ | ⟨target, m, hnode, -, -⟩ := hleads.of_entry hname
    · exact ih hrest
    · cases hnode.symm.trans hnode'
  | jump hname _ hnode' _ ih =>
    obtain ⟨hnode, -⟩ | ⟨target, m, hnode, hm, hrest⟩ := hleads.of_entry hname
    · cases hnode.symm.trans hnode'
    · cases hnode.symm.trans hnode'
      obtain rfl := Nat.succ.inj hm
      exact ih hrest
  | gone hname hnode' =>
    obtain ⟨hnode, -⟩ | ⟨target, m, hnode, -, -⟩ := hleads.of_entry hname <;>
      cases hnode.symm.trans hnode'
  | blocked hname hnode' hdir hlink =>
    obtain ⟨hnode, -⟩ | ⟨target, m, hnode, -, -⟩ := hleads.of_entry hname
    · cases hnode.symm.trans hnode'
      exact hdir rfl
    · cases hnode.symm.trans hnode'
      exact hlink rfl
  | astray hname _ hnode' helsewhere =>
    obtain ⟨hnode, -⟩ | ⟨target, m, hnode, hm, hrest⟩ := hleads.of_entry hname
    · cases hnode.symm.trans hnode'
    · cases hnode.symm.trans hnode'
      exact helsewhere m k hm hrest

theorem leads_or_astray {target : List UInt8} (hname : IsEntryName name)
    (hnode : t.node? (loc ++ [name]) ≠ some (.link target))
    (hnode' : t'.node? (loc ++ [name]) = some (.link target)) :
    (∃ k, Leads t' true n loc (name :: rest) k (.node dir .directory)) ∨
      Strays t t' dir n loc (name :: rest) := by
  by_cases hleads : ∃ m k, n = m + 1 ∧ Leads t' true m (linkStart loc target)
      (Path.split target ++ rest) k (.node dir .directory)
  · obtain ⟨m, k, rfl, h⟩ := hleads
    exact .inl ⟨k, .jump hname hnode' (.inr rfl) h⟩
  · exact .inr (.astray hname hnode hnode' fun m k hm h => hleads ⟨m, k, hm, h⟩)

/-- Names that led to a place lead there as long as they do not stray, if no other entry on the way
has become a directory. -/
theorem Leads.leads_or_strays (h : Leads t true n loc names k (.node dir .directory))
    (hdirectory : ∀ place, t.node? place ≠ none → t'.node? place = some .directory →
      t.node? place = some .directory) :
    (∃ k', Leads t' true n loc names k' (.node dir .directory)) ∨ Strays t t' dir n loc names := by
  generalize hfound : Found.node dir .directory = found at h
  induction h with
  | here =>
    cases hfound
    exact .inl ⟨_, .here⟩
  | skip hname _ ih => exact (ih hfound).imp (fun ⟨k', h⟩ => ⟨k', .skip hname h⟩) (.skip hname)
  | up _ ih => exact (ih hfound).imp (fun ⟨k', h⟩ => ⟨k', .up h⟩) .up
  | vacant => cases hfound
  | @enter n loc name rest k found hname hnode _ ih =>
    subst hfound
    cases hnode' : t'.node? (loc ++ [name]) with
    | none => exact .inr (.gone hname hnode')
    | some node =>
      cases node with
      | directory =>
        exact (ih rfl).imp (fun ⟨k', h⟩ => ⟨k', .enter hname hnode' h⟩)
          (.enter hname hnode hnode')
      | link target =>
        exact leads_or_astray hname (by simp [hnode]) hnode'
      | file id => exact .inr (.blocked hname hnode' nofun nofun)
      | socket => exact .inr (.blocked hname hnode' nofun nofun)
  | @jump n loc name rest k found target hname hnode hgo _ ih =>
    subst hfound
    cases hnode' : t'.node? (loc ++ [name]) with
    | none => exact .inr (.gone hname hnode')
    | some node =>
      cases node with
      -- `hdirectory` rules this out: no link has become a directory.
      | directory => exact absurd (hdirectory _ (by simp [hnode]) hnode') (by simp [hnode])
      | link target' =>
        by_cases hsame : target' = target
        · subst hsame
          exact (ih rfl).imp (fun ⟨k', h⟩ => ⟨k', .jump hname hnode' hgo h⟩)
            (.jump hname hnode hnode')
        · exact leads_or_astray hname (by simpa [hnode] using Ne.symm hsame) hnode'
      | file id => exact .inr (.blocked hname hnode' nofun nofun)
      | socket => exact .inr (.blocked hname hnode' nofun nofun)
  | stop _ _ hdir _ =>
    cases hfound
    exact absurd rfl hdir

end VolumeStore.Host.Tree
