import Mathlib.Data.List.Induction
import VolumeStore.Host.Directories
import VolumeStore.Proofs.Host.Lookup

/-!
# What making directories comes to

Making the directories of a path either leaves the tree as it is or adds one row of directories
below the last one that is there. It never stops midway: once the first directory can be made, so
can all others.
-/

namespace VolumeStore.Host.Tree

variable {t : Tree} {follow : Bool} {n k : Nat} {loc loc' dir start : Location} {name : Name}
  {rest names base : List Name} {found : Found}

/-! ## Rows of directories -/

theorem below_prefix_cons_iff :
    Below loc loc' ∧ loc' <+: loc ++ name :: names ↔
      loc' = loc ++ [name] ∨ Below (loc ++ [name]) loc' ∧ loc' <+: loc ++ [name] ++ names := by
  constructor
  · rintro ⟨⟨⟨inner, rfl⟩, hne⟩, hp⟩
    rw [List.prefix_append_right_inj] at hp
    cases inner with
    | nil => simp at hne
    | cons first inner =>
      obtain ⟨rfl, hp'⟩ := List.cons_prefix_cons.1 hp
      by_cases hinner : inner = []
      · subst hinner
        exact .inl rfl
      · rw [← List.singleton_append, ← List.append_assoc]
        exact .inr ⟨below_append hinner, (List.prefix_append_right_inj _).2 hp'⟩
  · rintro (rfl | ⟨hb, hp⟩)
    · exact ⟨below_concat _ _, (List.prefix_append_right_inj _).2 (by simp)⟩
    · exact ⟨hb.of_prefix_left (List.prefix_append _ _), by simpa using hp⟩

theorem node?_insertDirectories (t : Tree) (loc : Location) (names : List Name)
    (loc' : Location) :
    (t.insertDirectories loc names).node? loc' =
      if Below loc loc' ∧ loc' <+: loc ++ names then some .directory else t.node? loc' := by
  induction names generalizing t loc with
  | nil =>
    rw [insertDirectories, if_neg]
    rintro ⟨hb, hp⟩
    exact hb.2 ((List.append_nil loc ▸ hp).eq_of_length_le hb.1.length_le)
  | cons name names ih =>
    rw [insertDirectories, ih, node?_insert t (by simp)]
    by_cases hl : loc' = loc ++ [name]
    · rw [if_pos hl, if_pos (below_prefix_cons_iff.2 (.inl hl))]
      exact ite_self _
    · rw [if_neg hl]
      by_cases hb : Below (loc ++ [name]) loc' ∧ loc' <+: loc ++ [name] ++ names
      · rw [if_pos hb, if_pos (below_prefix_cons_iff.2 (.inr hb))]
      · rw [if_neg hb, if_neg]
        exact fun h => (below_prefix_cons_iff.1 h).elim hl hb

@[simp] theorem contents_insertDirectories (t : Tree) (loc : Location) (names : List Name) :
    (t.insertDirectories loc names).contents = t.contents := by
  induction names generalizing t loc with
  | nil => rfl
  | cons name names ih => rw [insertDirectories, ih, insert]

@[simp] theorem home_insertDirectories (t : Tree) (loc : Location) (names : List Name) :
    (t.insertDirectories loc names).home = t.home := by
  induction names generalizing t loc with
  | nil => rfl
  | cons name names ih => rw [insertDirectories, ih, insert]

theorem insertDirectories_concat (t : Tree) (loc : Location) (names : List Name) (name : Name) :
    t.insertDirectories loc (names ++ [name]) =
      (t.insertDirectories loc names).insert (loc ++ names ++ [name]) .directory := by
  induction names generalizing t loc with
  | nil => simp [insertDirectories]
  | cons first names ih =>
    rw [List.cons_append, insertDirectories, ih, insertDirectories]
    simp

theorem insertDirectories_induction {P : Tree → Prop} (h : P t)
    (hstep : ∀ {t : Tree} {dir : Location} {name : Name}, P t → t.node? dir = some .directory →
      t.node? (dir ++ [name]) = none → P (t.insert (dir ++ [name]) .directory))
    (hconn : ∀ {t : Tree}, P t → t.Connected) (hd : t.node? dir = some .directory)
    (hfree : t.node? (dir ++ [name]) = none) (names : List Name) :
    P (t.insertDirectories dir (name :: names)) := by
  induction names generalizing t dir name with
  | nil => exact hstep h hd hfree
  | cons next names ih =>
    have hne : dir ++ [name] ≠ [] := by simp
    rw [insertDirectories]
    refine ih (hstep h hd hfree) ?_ ?_
    · rw [node?_insert t hne, if_pos rfl]
    · rw [node?_insert t hne, if_neg (by simp)]
      exact (hconn h).node?_below_eq_none (by simp [hfree]) (below_concat _ _)

theorem Connected.insertDirectories (h : t.Connected) (hd : t.node? dir = some .directory)
    (hfree : t.node? (dir ++ [name]) = none) (names : List Name) :
    (t.insertDirectories dir (name :: names)).Connected :=
  insertDirectories_induction h (fun h hd hfree => h.insert hd hfree _) id hd hfree names

theorem WellFormed.insertDirectories (h : t.WellFormed) (hd : t.node? dir = some .directory)
    (hfree : t.node? (dir ++ [name]) = none) (names : List Name) :
    (t.insertDirectories dir (name :: names)).WellFormed :=
  insertDirectories_induction h (fun h hd hfree => h.insert_directory hd hfree)
    WellFormed.toConnected hd hfree names

theorem Connected.node?_insertDirectories_of_some (h : t.Connected)
    (hfree : t.node? (dir ++ [name]) = none) (names : List Name) {node : Node}
    (hn : t.node? loc = some node) :
    (t.insertDirectories dir (name :: names)).node? loc = some node := by
  rw [node?_insertDirectories, if_neg, hn]
  rw [below_prefix_cons_iff]
  rintro (rfl | ⟨hb, -⟩)
  · simp [hfree] at hn
  · rw [h.node?_below_eq_none (by simp [hfree]) hb] at hn
    cases hn

/-! ## Walking down directories -/

theorem walkLinks_descend (hentry : ∀ name ∈ names, IsEntryName name)
    (hdir : ∀ loc', Below loc loc' → loc' <+: loc ++ names → t.node? loc' = some .directory)
    (rest : List Name) :
    t.walkLinks follow n loc (names ++ rest) = t.walkLinks follow n (loc ++ names) rest := by
  induction names generalizing loc with
  | nil => simp
  | cons name names ih =>
    have hname : t.node? (loc ++ [name]) = some .directory :=
      hdir _ (below_concat _ _) ((List.prefix_append_right_inj _).2 (by simp))
    rw [List.cons_append, walkLinks_entry _ _ _ _ (hentry name (by simp)), hname]
    simp only
    rw [ih (fun name' hmem => hentry name' (by simp [hmem]))]
    · simp
    · intro loc' hb hp
      exact hdir loc' (hb.of_prefix_left (List.prefix_append _ _)) (by simpa using hp)

/-! ## Names that say nothing -/

def isTelling (name : Name) : Bool :=
  name ≠ [] ∧ name ≠ selfName

theorem components_eq (p : Path) : p.components = (Path.split p.bytes).filter isTelling := rfl

theorem isTelling_of_isEntryName (h : IsEntryName name) : isTelling name = true := by
  simp [isTelling, h.1, h.2.1]

theorem Leads.filter_telling_append (h : Leads t true n loc (names ++ rest) k found) :
    Leads t true n loc (names ++ rest.filter isTelling) k found := by
  -- Names that a link adds are kept in front of the ones to be sifted.
  generalize hall : names ++ rest = all at h
  induction h generalizing names rest with
  | here =>
    obtain ⟨rfl, rfl⟩ := List.append_eq_nil_iff.1 hall
    exact .here
  | skip hname h ih =>
    obtain ⟨rfl, rfl⟩ | ⟨names, rfl, rfl⟩ := List.append_eq_cons_iff.1 hall
    · rw [List.filter_cons_of_neg (by simpa [isTelling, or_iff_not_imp_left] using hname)]
      exact ih rfl
    · exact .skip hname (ih rfl)
  | up h ih =>
    obtain ⟨rfl, rfl⟩ | ⟨names, rfl, rfl⟩ := List.append_eq_cons_iff.1 hall
    · rw [List.filter_cons_of_pos (by decide)]
      exact .up (ih (List.nil_append _))
    · exact .up (ih rfl)
  | vacant hname hnode =>
    obtain ⟨rfl, rfl⟩ | ⟨names, rfl, hnil⟩ := List.append_eq_cons_iff.1 hall
    · rw [List.filter_cons_of_pos (isTelling_of_isEntryName hname)]
      exact .vacant hname hnode
    · obtain ⟨rfl, rfl⟩ := List.append_eq_nil_iff.1 hnil.symm
      exact .vacant hname hnode
  | enter hname hnode h ih =>
    obtain ⟨rfl, rfl⟩ | ⟨names, rfl, rfl⟩ := List.append_eq_cons_iff.1 hall
    · rw [List.filter_cons_of_pos (isTelling_of_isEntryName hname)]
      exact .enter hname hnode (ih (List.nil_append _))
    · exact .enter hname hnode (ih rfl)
  | jump hname hnode hgo h ih =>
    obtain ⟨rfl, rfl⟩ | ⟨names, rfl, rfl⟩ := List.append_eq_cons_iff.1 hall
    · rw [List.filter_cons_of_pos (isTelling_of_isEntryName hname)]
      exact .jump hname hnode (.inr rfl) (ih rfl)
    · rw [List.cons_append]
      refine .jump hname hnode (.inr rfl) ?_
      rw [← List.append_assoc]
      exact ih (List.append_assoc _ _ _)
  | stop hname hnode hdir hlink =>
    obtain ⟨rfl, rfl⟩ | ⟨names, rfl, hnil⟩ := List.append_eq_cons_iff.1 hall
    · rw [List.filter_cons_of_pos (isTelling_of_isEntryName hname)]
      exact .stop hname hnode hdir hlink
    · obtain ⟨rfl, rfl⟩ := List.append_eq_nil_iff.1 hnil.symm
      exact .stop hname hnode hdir hlink

theorem Leads.filter_telling (h : Leads t true n loc names k found) :
    Leads t true n loc (names.filter isTelling) k found := by
  rw [← List.nil_append names] at h
  exact h.filter_telling_append

/-! ## Making -/

/-- What making the directories under `names` comes to, if those under `base` are there: a failure
or nothing to do, or new directories under the last of the names. -/
inductive Extends (t : Tree) (start : Location) (base names : List Name) :
    Except Failure Unit → Tree → Prop where
  | failed (failure : Failure) : Extends t start base names (.error failure) t
  | present (h : t.isDirectoryAt start (base ++ names) = true) :
      Extends t start base names (.ok ()) t
  | made {above name rest dir k t'} (hnames : names = above ++ name :: rest)
      (habove : Leads t true maxLinks start (base ++ above) k (.node dir .directory))
      (hfree : t.node? (dir ++ [name]) = none)
      (htree : t' = t.insertDirectories dir (name :: rest)) : Extends t start base names (.ok ()) t'

theorem Extends.refused (t : Tree) (start : Location) (base names : List Name) (failure : Failure) :
    Extends t start base names
      (if t.isDirectoryAt start (base ++ names) then .ok () else .error failure) t := by
  by_cases h : t.isDirectoryAt start (base ++ names) = true
  · rw [if_pos h]
    exact .present h
  · rw [if_neg h]
    exact .failed failure

theorem makeDirectory_of_node {node : Node}
    (h : t.walkLinks false maxLinks start names = .ok (.node loc node)) :
    t.makeDirectory start names = .error .alreadyExists := by
  simp [makeDirectory, h]

theorem Leads.makeDirectory {node : Node}
    (h : Leads t true maxLinks start names k (.node loc node)) :
    t.makeDirectory start names = .error .alreadyExists := by
  obtain h | ⟨m, loc', target, h⟩ := h.nofollow
  · exact makeDirectory_of_node h.walkLinks
  · exact makeDirectory_of_node h.walkLinks

theorem Connected.makeDirectory_insertDirectories (hwf : t.Connected)
    (habove : Leads t true maxLinks start base k (.node dir .directory))
    (hfree : t.node? (dir ++ [name]) = none) (hentry : ∀ name' ∈ name :: names, IsEntryName name')
    {last : Name} (hlast : IsEntryName last) :
    (t.insertDirectories dir (name :: names)).makeDirectory start
        (base ++ (name :: names ++ [last])) =
      .ok (t.insertDirectories dir (name :: names ++ [last])) := by
  -- The new row does not hide what led to the directory above it.
  have habove' := habove.grow fun _ _ => hwf.node?_insertDirectories_of_some hfree names
  have hmade : ∀ loc, Below dir loc → loc <+: dir ++ name :: names →
      (t.insertDirectories dir (name :: names)).node? loc = some .directory := by
    intro loc hb hp
    rw [node?_insertDirectories, if_pos ⟨hb, hp⟩]
  have hnode : (t.insertDirectories dir (name :: names)).node? (dir ++ name :: names ++ [last]) =
      none := by
    rw [node?_insertDirectories, if_neg]
    · refine hwf.node?_below_eq_none (by simp [hfree] : t.node? (dir ++ [name]) ≠ _) ?_
      refine ⟨⟨names ++ [last], by simp⟩, by simp⟩
    · rintro ⟨-, hp⟩
      have hlen := hp.length_le
      simp only [List.length_append, List.length_cons, List.length_nil] at hlen
      omega
  rw [insertDirectories_concat, Tree.makeDirectory, habove'.walkLinks_append (.inl (by simp)),
    walkLinks_descend hentry hmade,
    walkLinks_entry _ _ _ _ hlast, hnode]
  rfl

theorem Leads.makeUpwards_eq (h : Leads t true maxLinks start names k (.node loc .directory)) :
    t.makeUpwards start names.reverse = (.ok (), t) := by
  have hthere : t.isDirectoryAt start names = true := by
    rw [isDirectoryAt, h.walkLinks]
  cases hrev : names.reverse with
  | nil => rfl
  | cons last above =>
    have hnames : (last :: above).reverse = names := by rw [← hrev, List.reverse_reverse]
    simp only [makeUpwards, hnames, h.makeDirectory, if_pos hthere]
    exact if_neg (by decide)

/-- Names of which the first ones lead to a directory and the next one is free there: the
directories under that name and the ones behind it are made, each in the one before. -/
theorem Connected.makeUpwards_of_free (hwf : t.Connected)
    (hbase : Leads t true maxLinks start base k (.node dir .directory))
    (hfree : t.node? (dir ++ [name]) = none)
    (hentry : ∀ name' ∈ name :: names, IsEntryName name') :
    t.makeUpwards start (base ++ name :: names).reverse =
      (.ok (), t.insertDirectories dir (name :: names)) := by
  -- All names but those in `base` are tried from the last one up, until the first can be made.
  induction names using List.reverseRecOn with
  | nil =>
    have hmake : t.makeDirectory start (base ++ [name]) =
        .ok (t.insert (dir ++ [name]) .directory) := by
      rw [makeDirectory, hbase.walkLinks_append (.inl (by simp)),
        walkLinks_entry _ _ _ _ (hentry name (by simp)), hfree]
      rfl
    have hnames : (name :: base.reverse).reverse = base ++ [name] := by simp
    rw [List.reverse_append, List.reverse_singleton, List.singleton_append]
    simp only [makeUpwards, hnames, hmake]
    rfl
  | append_singleton names last ih =>
    have hentry' : ∀ name' ∈ name :: names, IsEntryName name' := by
      intro name' hmem
      apply hentry
      obtain rfl | hmem := List.mem_cons.1 hmem
      · exact List.mem_cons_self
      · exact List.mem_cons_of_mem _ (List.mem_append_left _ hmem)
    -- The directory above the last one is missing, so the last one has to wait.
    have hfail : t.makeDirectory start (base ++ (name :: names ++ [last])) = .error .noEntry := by
      rw [makeDirectory, hbase.walkLinks_append (.inl (by simp)), List.cons_append,
        walkLinks_entry _ _ _ _ (hentry name (by simp)), hfree]
      dsimp only
      rw [if_neg (by simp)]
    have hmake := hwf.makeDirectory_insertDirectories hbase hfree hentry' (hentry last (by simp))
    have hsplit : base ++ name :: (names ++ [last]) = (base ++ name :: names) ++ [last] := by simp
    have hnames : (last :: (base ++ name :: names).reverse).reverse =
        base ++ (name :: names ++ [last]) := by simp
    rw [hsplit, List.reverse_append, List.reverse_singleton, List.singleton_append]
    simp only [makeUpwards, hnames, hfail, ih hentry', hmake]
    exact if_pos (by decide)

theorem Extends.of_makeDirectory {last : Name} {t' : Tree} (hlast : IsEntryName last)
    (h : t.makeDirectory start (base ++ (names ++ [last])) = .ok t') :
    Extends t start base (names ++ [last]) (.ok ()) t' := by
  unfold Tree.makeDirectory at h
  split at h
  next dir free hwalk =>
    cases h
    obtain ⟨m, hleads⟩ := leads_of_walkLinks hwalk
    rw [← List.append_assoc] at hleads
    obtain ⟨dir', habove, ⟨hfree, hfound⟩ | ⟨node, -, hfound⟩⟩ := hleads.last_inv hlast
    · cases hfound
      exact .made rfl habove hfree rfl
    · cases hfound
  · cases h
  · cases h

theorem Leads.extends_base {node : Node}
    (hbase : Leads t true maxLinks start base k (.node loc node)) :
    Extends t start base [] (t.makeUpwards start base.reverse).1
      (t.makeUpwards start base.reverse).2 := by
  cases hrev : base.reverse with
  | nil =>
    obtain rfl := List.reverse_eq_nil_iff.1 hrev
    exact .present (by simp [isDirectoryAt])
  | cons last above =>
    have hnames : (last :: above).reverse = base := by rw [← hrev, List.reverse_reverse]
    have hfail := hbase.makeDirectory
    simp only [makeUpwards, hnames, hfail]
    exact (List.append_nil base ▸ Extends.refused t start base [] .alreadyExists :)

theorem Connected.extends_makeUpwards (hwf : t.Connected) {node : Node}
    (hbase : Leads t true maxLinks start base k (.node loc node))
    (hentry : ∀ name ∈ names, IsEntryName name) :
    Extends t start base names (t.makeUpwards start (base ++ names).reverse).1
      (t.makeUpwards start (base ++ names).reverse).2 := by
  -- The last directory is tried first, so the rows get shorter from their end.
  induction names using List.reverseRecOn with
  | nil =>
    rw [List.append_nil]
    exact hbase.extends_base
  | append_singleton names last ih =>
    have hlast : IsEntryName last := hentry last (by simp)
    have hentry' : ∀ name ∈ names, IsEntryName name := fun name h => hentry name (by simp [h])
    rw [← List.append_assoc, List.reverse_append, List.reverse_singleton, List.singleton_append]
    have hnames : (last :: (base ++ names).reverse).reverse = base ++ (names ++ [last]) := by simp
    simp only [makeUpwards, hnames]
    cases hmake : t.makeDirectory start (base ++ (names ++ [last])) with
    | ok t' => exact .of_makeDirectory hlast hmake
    | error failure =>
      by_cases hkind : failure.kind = .notFound
      · simp only [hkind, if_true]
        have hrec := ih hentry'
        generalize t.makeUpwards start (base ++ names).reverse = result at hrec ⊢
        obtain ⟨result, t'⟩ := result
        cases hrec with
        | failed failure => exact .failed failure
        | present _ =>
          -- Nothing was made, so the second try fails like the first one.
          simp only [hmake]
          exact .refused _ start base _ failure
        | @made above name rest dir m _ hnames' habove hfree htree =>
          -- The second try finds the row that was just made, and adds to it.
          subst hnames' htree
          have hmake' := hwf.makeDirectory_insertDirectories habove hfree
            (fun name' h => hentry' name' (List.mem_append_right _ h)) hlast
          rw [List.append_assoc, ← List.append_assoc above] at hmake'
          simp only [hmake']
          exact .made (by simp) habove hfree rfl
      · simp only [hkind, if_false]
        exact .refused t start base _ failure

end VolumeStore.Host.Tree
