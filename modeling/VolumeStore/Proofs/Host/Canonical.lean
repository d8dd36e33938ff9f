import VolumeStore.Proofs.Host.LinkFree

/-!
# Spelling out where names lead

Whether the places that a look-up passes can be spelled. As a look-up does, the check can be cut in
two where names lead to a directory, and without links below it only the length of the last place
counts.
-/

namespace VolumeStore.Host.Tree

variable {t t' : Tree} {n n' k k' : Nat} {loc dir dir' : Location} {name : Name}
  {rest names names' : List Name} {p : Path}

/-! ## Lengths -/

theorem pathLength_append (loc loc' : Location) :
    pathLength (loc ++ loc') = pathLength loc + pathLength loc' := by
  induction loc with
  | nil => exact (Nat.zero_add _).symm
  | cons name loc ih => exact (congrArg (name.length + 1 + ·) ih).trans (Nat.add_assoc _ _ _).symm

theorem pathLength_le_append (loc loc' : Location) : pathLength loc ≤ pathLength (loc ++ loc') := by
  rw [pathLength_append]
  exact Nat.le_add_right _ _

theorem asksDirectory_entry (h : IsEntryName name) (rest : List Name) :
    asksDirectory (name :: rest) = false := by
  simp [asksDirectory, h.1, h.2.1, h.2.2.1]

theorem asksDirectory_of_entries (h : ∀ name ∈ names, IsEntryName name) :
    asksDirectory names = false := by
  cases names with
  | nil => rfl
  | cons name rest => exact asksDirectory_entry (h name List.mem_cons_self) rest

theorem asksDirectory_of_append (h : asksDirectory names = false) {front : List Name}
    (happend : asksDirectory (front ++ names) = true) : asksDirectory front = true := by
  induction front with
  | nil =>
    rw [List.nil_append, h] at happend
    cases happend
  | cons name front ih =>
    simp only [asksDirectory, List.cons_append, Bool.or_eq_true, Bool.and_eq_true,
      decide_eq_true_eq, List.append_eq_nil_iff] at happend ⊢
    exact happend.imp id (And.imp id (Or.imp And.left ih))

theorem asksDirectory_append_nil {front : List Name} (h : asksDirectory front = true) :
    asksDirectory (front ++ [[]]) = true := by
  induction front with
  | nil => cases h
  | cons name front ih =>
    simp only [asksDirectory, List.cons_append, Bool.or_eq_true, Bool.and_eq_true,
      decide_eq_true_eq, List.append_eq_nil_iff] at h ⊢
    refine h.imp id (And.imp id ?_)
    rintro (rfl | hfront)
    · exact .inr rfl
    · exact .inr (ih hfront)

theorem isSpellable_mono (hasks : asksDirectory names' = true → asksDirectory names = true)
    (h : isSpellable loc names = true) : isSpellable loc names' = true := by
  unfold isSpellable at h ⊢
  rw [decide_eq_true_eq] at h ⊢
  split
  next hnames' => rwa [if_pos (hasks hnames')] at h
  · exact Nat.lt_of_le_of_lt (Nat.add_le_add_left (Nat.zero_le _) _) h

theorem isSpellable_of_not_asks (h : asksDirectory names = false) :
    isSpellable loc names = decide (pathLength loc < maxPathBytes) := by
  simp [isSpellable, h]

/-! ## The check, name by name -/

def spellsOn (t : Tree) : (links : Nat) → Location → List Name → Bool
  | 0 => fun _ _ => true
  | links + 1 => t.spells links

theorem spells_eq (t : Tree) (n : Nat) : t.spells n = t.walkSpells (t.spellsOn n) := by
  cases n <;> rfl

@[simp] theorem spells_nil (t : Tree) (n : Nat) (loc : Location) : t.spells n loc [] = true := by
  rw [spells_eq]
  rfl

theorem spells_skip (t : Tree) (n : Nat) (loc : Location) (h : name = [] ∨ name = selfName)
    (rest : List Name) : t.spells n loc (name :: rest) = t.spells n loc rest := by
  simp only [spells_eq]
  rw [walkSpells, if_pos h]

theorem spells_up (t : Tree) (n : Nat) (loc : Location) (rest : List Name) :
    t.spells n loc (parentName :: rest) = t.spells n loc.dropLast rest := by
  simp only [spells_eq]
  rw [walkSpells, if_neg (by decide), if_pos rfl]

theorem spells_entry (t : Tree) (n : Nat) (loc : Location) (h : IsEntryName name)
    (rest : List Name) :
    t.spells n loc (name :: rest) =
      match t.node? (loc ++ [name]) with
      | some .directory => isSpellable (loc ++ [name]) rest && t.spells n (loc ++ [name]) rest
      | some (.link target) =>
        isSpellable (loc ++ [name]) [] &&
          t.spellsOn n (linkStart loc target) (Path.split target ++ rest)
      | _ => isSpellable (loc ++ [name]) rest := by
  simp only [spells_eq]
  rw [walkSpells, if_neg (by simp [h.1, h.2.1]), if_neg h.2.2.1]
  rfl

/-- Behind names that lead to a directory and can be spelled, the check starts again from there. The
names in front may have been spelled with others behind them, if those ask for as much. -/
theorem Leads.spells_append (h : Leads t true n loc names k (.node dir .directory))
    (hasks : ∀ front, asksDirectory (front ++ rest) = true → asksDirectory (front ++ names') = true)
    (hspells : t.spells n loc (names ++ names') = true) :
    t.spells n loc (names ++ rest) = t.spells k dir rest := by
  generalize hfound : Found.node dir .directory = found at h
  -- Both rests make the check pass the same places; `hspells` says of each that it is short.
  induction h with
  | here =>
    cases hfound
    rfl
  | skip hname _ ih =>
    rw [List.cons_append, spells_skip _ _ _ hname] at hspells ⊢
    exact ih hspells hfound
  | up _ ih =>
    rw [List.cons_append, spells_up] at hspells ⊢
    exact ih hspells hfound
  | vacant => cases hfound
  | @enter n loc name names k found hname hnode _ ih =>
    rw [List.cons_append, spells_entry _ _ _ hname, hnode] at hspells ⊢
    obtain ⟨hshort, hrest⟩ := Bool.and_eq_true_iff.1 hspells
    simp only [isSpellable_mono (hasks names) hshort, Bool.true_and]
    exact ih hrest hfound
  | jump hname hnode _ _ ih =>
    rw [List.cons_append, spells_entry _ _ _ hname, hnode] at hspells ⊢
    obtain ⟨hshort, hrest⟩ := Bool.and_eq_true_iff.1 hspells
    rw [← List.append_assoc] at hrest
    simp only [hshort, Bool.true_and, ← List.append_assoc]
    exact ih hrest hfound
  | stop _ _ hdir _ =>
    cases hfound
    exact absurd rfl hdir

theorem spells_of_short (hentry : ∀ name ∈ names, IsEntryName name)
    (hlinks : ∀ front target, front <+: names → t.node? (loc ++ front) ≠ some (.link target))
    (hshort : pathLength (loc ++ names) < maxPathBytes) : t.spells n loc names = true := by
  induction names generalizing loc with
  | nil => exact spells_nil t n loc
  | cons name rest ih =>
    have hname := hentry name List.mem_cons_self
    have hrest := fun name' hmem => hentry name' (List.mem_cons_of_mem _ hmem)
    have hplace : loc ++ name :: rest = loc ++ [name] ++ rest := by simp
    rw [hplace] at hshort
    have hspellable : isSpellable (loc ++ [name]) rest = true := by
      rw [isSpellable_of_not_asks (asksDirectory_of_entries hrest)]
      exact decide_eq_true (Nat.lt_of_le_of_lt (pathLength_le_append _ _) hshort)
    have hdown := ih hrest (fun front target hfront => by
      rw [List.append_assoc]
      exact hlinks (name :: front) target (List.cons_prefix_cons.2 ⟨rfl, hfront⟩)) hshort
    rw [spells_entry _ _ _ hname]
    split
    · rw [hspellable, hdown]
      rfl
    next target hnode => exact absurd hnode (hlinks [name] target (by simp))
    · exact hspellable

/-! ## The check in another tree -/

theorem Leads.spells_grow {node : Node} (h : Leads t true n loc names k (.node dir node))
    (hgrow : ∀ loc node, t.node? loc = some node → t'.node? loc = some node) :
    t'.spells n loc names = t.spells n loc names := by
  generalize hfound : Found.node dir node = found at h
  -- What the names pass stands in both trees.
  induction h with
  | here => rw [spells_nil, spells_nil]
  | skip hname _ ih => rw [spells_skip _ _ _ hname, spells_skip _ _ _ hname, ih hfound]
  | up _ ih => rw [spells_up, spells_up, ih hfound]
  | vacant => cases hfound
  | enter hname hnode _ ih =>
    rw [spells_entry _ _ _ hname, spells_entry _ _ _ hname, hnode, hgrow _ _ hnode, ih hfound]
  | @jump n loc name _ _ _ _ hname hnode _ _ ih =>
    rw [spells_entry _ _ _ hname, spells_entry _ _ _ hname, hnode, hgrow _ _ hnode]
    exact congrArg (isSpellable (loc ++ [name]) [] && ·) (ih hfound)
  | @stop _ _ _ node hname hnode hdir hlink =>
    rw [spells_entry _ _ _ hname, spells_entry _ _ _ hname, hnode, hgrow _ _ hnode]
    cases node with
    | directory => exact absurd rfl hdir
    | link target => exact absurd rfl (hlink rfl)
    | file id => rfl
    | socket => rfl

theorem LinkFree.spells_append_eq (hlinks : t.LinkFree) (hlinks' : t'.LinkFree)
    (h : Leads t true n loc names k (.node dir .directory))
    (h' : Leads t' true n' loc names k' (.node dir' .directory))
    (hrest : t'.spells k' dir' rest = t.spells k dir rest) :
    t'.spells n' loc (names ++ rest) = t.spells n loc (names ++ rest) := by
  generalize hfound : Found.node dir .directory = found at h
  -- Without links the names take the same steps in both trees, so any other two steps are absurd.
  induction h generalizing n' k' with
  | here =>
    cases hfound
    cases h'
    exact hrest
  | skip hname _ ih =>
    rw [List.cons_append, spells_skip _ _ _ hname, spells_skip _ _ _ hname]
    cases h' with
    | skip _ h' => exact ih h' hrest hfound
    | up _ => exact absurd hname (by decide)
    | enter hname' _ _ => exact absurd hname (not_or.2 ⟨hname'.1, hname'.2.1⟩)
    | jump _ hnode' _ _ => exact absurd hnode' (hlinks' _ _)
    | stop hname' _ _ _ => exact absurd hname (not_or.2 ⟨hname'.1, hname'.2.1⟩)
  | up _ ih =>
    rw [List.cons_append, spells_up, spells_up]
    cases h' with
    | skip hname' _ => exact absurd hname' (by decide)
    | up h' => exact ih h' hrest hfound
    | enter hname' _ _ => exact absurd rfl hname'.2.2.1
    | jump _ hnode' _ _ => exact absurd hnode' (hlinks' _ _)
    | stop hname' _ _ _ => exact absurd rfl hname'.2.2.1
  | vacant => cases hfound
  | enter hname hnode _ ih =>
    rw [List.cons_append, spells_entry _ _ _ hname, spells_entry _ _ _ hname, hnode]
    cases h' with
    | skip hname' _ => exact absurd hname' (not_or.2 ⟨hname.1, hname.2.1⟩)
    | up _ => exact absurd rfl hname.2.2.1
    | enter _ hnode' h' => rw [hnode', ih h' hrest hfound]
    | jump _ hnode' _ _ => exact absurd hnode' (hlinks' _ _)
    | stop _ _ hdir _ => exact absurd rfl hdir
  | jump _ hnode _ _ _ => exact absurd hnode (hlinks _ _)
  | stop _ _ hdir _ =>
    cases hfound
    exact absurd rfl hdir

/-! ## Paths -/

theorem canonical_eq_ok_iff {found : Location × Node} :
    t.canonical p = .ok found ↔ t.canSpell p = true ∧ t.target p = .ok found := by
  unfold canonical
  split
  next h => exact ⟨fun htarget => ⟨h, htarget⟩, And.right⟩
  next h => exact ⟨nofun, fun hboth => absurd hboth.1 h⟩

end VolumeStore.Host.Tree
