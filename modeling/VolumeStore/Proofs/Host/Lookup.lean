import VolumeStore.Proofs.Host.WellFormed

/-!
# Where names lead

A look-up that succeeds, as a relation between the names and what they lead to. It also counts the
links that are left, so that a look-up can be cut in two: the first names lead to a directory, and
the look-up of the others starts from there.
-/

namespace VolumeStore.Host

def IsEntryName (name : Name) : Prop :=
  name ≠ [] ∧ name ≠ selfName ∧ name ≠ parentName ∧ name.length ≤ maxEntryBytes

instance (name : Name) : Decidable (IsEntryName name) :=
  inferInstanceAs (Decidable (_ ∧ _))

def linkStart (loc : Location) (target : List UInt8) : Location :=
  if (Path.mk target).isAbsolute then [] else loc

/-- What is found stands there; a name that is free is one of an entry, and its directory is there.
-/
def Found.Holds (t : Tree) : Found → Prop
  | .node loc entry => t.node? loc = some entry
  | .vacant dir name =>
    t.node? dir = some .directory ∧ IsEntryName name ∧ t.node? (dir ++ [name]) = none

namespace Tree

def walkOn (t : Tree) (follow : Bool) : (links : Nat) → Location → List Name → Except Failure Found
  | 0 => fun _ _ => .error .tooManyLinks
  | links + 1 => t.walkLinks follow links

/-- Names lead from a directory to something. The numbers are the links that may be followed, and
those of them that are left. -/
inductive Leads (t : Tree) (follow : Bool) : Nat → Location → List Name → Nat → Found → Prop where
  | here {n loc} : Leads t follow n loc [] n (.node loc .directory)
  | skip {n loc name rest k found} (hname : name = [] ∨ name = selfName)
      (h : Leads t follow n loc rest k found) : Leads t follow n loc (name :: rest) k found
  | up {n loc rest k found} (h : Leads t follow n loc.dropLast rest k found) :
      Leads t follow n loc (parentName :: rest) k found
  | vacant {n loc name} (hname : IsEntryName name) (hnode : t.node? (loc ++ [name]) = none) :
      Leads t follow n loc [name] n (.vacant loc name)
  | enter {n loc name rest k found} (hname : IsEntryName name)
      (hnode : t.node? (loc ++ [name]) = some .directory)
      (h : Leads t follow n (loc ++ [name]) rest k found) :
      Leads t follow n loc (name :: rest) k found
  | jump {n loc name rest k found target} (hname : IsEntryName name)
      (hnode : t.node? (loc ++ [name]) = some (.link target)) (hgo : rest ≠ [] ∨ follow = true)
      (h : Leads t follow n (linkStart loc target) (Path.split target ++ rest) k found) :
      Leads t follow (n + 1) loc (name :: rest) k found
  | stop {n loc name node} (hname : IsEntryName name)
      (hnode : t.node? (loc ++ [name]) = some node) (hdir : node ≠ .directory)
      (hlink : follow = true → node.kind ≠ .link) :
      Leads t follow n loc [name] n (.node (loc ++ [name]) node)

variable {t t' : Tree} {follow : Bool} {n k : Nat} {loc dir : Location} {name : Name}
  {rest names : List Name} {found : Found} {p : Path} {node : Node}

theorem walkLinks_eq (t : Tree) (follow : Bool) (n : Nat) :
    t.walkLinks follow n = t.walk follow (t.walkOn follow n) := by
  cases n <;> rfl

@[simp] theorem walkLinks_nil (t : Tree) (follow : Bool) (n : Nat) (loc : Location) :
    t.walkLinks follow n loc [] = .ok (.node loc .directory) := by
  rw [walkLinks_eq]
  rfl

theorem walkLinks_skip (t : Tree) (follow : Bool) (n : Nat) (loc : Location)
    (h : name = [] ∨ name = selfName) (rest : List Name) :
    t.walkLinks follow n loc (name :: rest) = t.walkLinks follow n loc rest := by
  simp only [walkLinks_eq]
  rw [walk, if_pos h]

theorem walkLinks_up (t : Tree) (follow : Bool) (n : Nat) (loc : Location) (rest : List Name) :
    t.walkLinks follow n loc (parentName :: rest) = t.walkLinks follow n loc.dropLast rest := by
  simp only [walkLinks_eq]
  rw [walk, if_neg (by decide), if_pos rfl]

theorem walkLinks_long (t : Tree) (follow : Bool) (n : Nat) (loc : Location)
    (h : maxEntryBytes < name.length) (rest : List Name) :
    t.walkLinks follow n loc (name :: rest) = .error .nameTooLong := by
  rw [walkLinks_eq, walk, if_neg, if_neg, if_pos h]
  · rintro rfl
    exact absurd h (by decide)
  · rintro (rfl | rfl) <;> exact absurd h (by decide)

theorem walkLinks_entry (t : Tree) (follow : Bool) (n : Nat) (loc : Location)
    (h : IsEntryName name) (rest : List Name) :
    t.walkLinks follow n loc (name :: rest) =
      match t.node? (loc ++ [name]) with
      | none => if rest = [] then .ok (.vacant loc name) else .error .noEntry
      | some .directory => t.walkLinks follow n (loc ++ [name]) rest
      | some (.link target) =>
        if rest = [] ∧ follow = false then .ok (.node (loc ++ [name]) (.link target))
        else t.walkOn follow n (linkStart loc target) (Path.split target ++ rest)
      | some node =>
        if rest = [] then .ok (.node (loc ++ [name]) node) else .error .notDirectory := by
  obtain ⟨h₁, h₂, h₃, h₄⟩ := h
  simp only [walkLinks_eq]
  rw [walk, if_neg (by simp [h₁, h₂]), if_neg h₃, if_neg (Nat.not_lt.2 h₄)]
  rfl

theorem name_cases (name : Name) :
    (name = [] ∨ name = selfName) ∨ name = parentName ∨ maxEntryBytes < name.length ∨
      IsEntryName name := by
  by_cases h₁ : name = []
  · exact .inl (.inl h₁)
  by_cases h₂ : name = selfName
  · exact .inl (.inr h₂)
  by_cases h₃ : name = parentName
  · exact .inr (.inl h₃)
  by_cases h₄ : maxEntryBytes < name.length
  · exact .inr (.inr (.inl h₄))
  · exact .inr (.inr (.inr ⟨h₁, h₂, h₃, Nat.not_lt.1 h₄⟩))

theorem Leads.walkLinks (h : Leads t follow n loc names k found) :
    t.walkLinks follow n loc names = .ok found := by
  induction h with
  | here => rw [walkLinks_nil]
  | skip hname _ ih => rw [walkLinks_skip _ _ _ _ hname, ih]
  | up _ ih => rw [walkLinks_up, ih]
  | vacant hname hnode => simp [walkLinks_entry _ _ _ _ hname, hnode]
  | enter hname hnode _ ih => simp [walkLinks_entry _ _ _ _ hname, hnode, ih]
  | @jump n loc name rest k found target hname hnode hgo _ ih =>
    -- The link is followed: names come behind it, or the last one is followed as well.
    have hgo' : ¬ (rest = [] ∧ follow = false) := by
      rintro ⟨rfl, rfl⟩
      simp at hgo
    simp only [walkLinks_entry _ _ _ _ hname, hnode, if_neg hgo', walkOn]
    exact ih
  | @stop n loc name node hname hnode hdir hlink =>
    rw [walkLinks_entry _ _ _ _ hname, hnode]
    cases node with
    | directory => exact absurd rfl hdir
    | link target =>
      cases follow with
      | false => simp
      | true => exact absurd rfl (hlink rfl)
    | file id => simp
    | socket => simp

theorem leads_of_last {node : Node} (hname : IsEntryName name)
    (hnode : t.node? (loc ++ [name]) = some node) (hdir : node ≠ .directory)
    (hlink : node.kind ≠ .link)
    (h : (if rest = [] then .ok (.node (loc ++ [name]) node) else .error .notDirectory :
      Except Failure Found) = .ok found) : Leads t follow n loc (name :: rest) n found := by
  split at h
  next hrest =>
    subst hrest
    cases h
    exact .stop hname hnode hdir fun _ => hlink
  · cases h

theorem leads_of_walkLinks (h : t.walkLinks follow n loc names = .ok found) :
    ∃ k, Leads t follow n loc names k found := by
  -- The links come first: behind a link there are more names, but fewer links.
  induction n using Nat.strongRecOn generalizing loc names with
  | _ n ihn =>
  induction names generalizing loc with
  | nil =>
    rw [walkLinks_nil] at h
    cases h
    exact ⟨n, .here⟩
  | cons name rest ih =>
    obtain hname | rfl | hlong | hname := name_cases name
    · rw [walkLinks_skip _ _ _ _ hname] at h
      obtain ⟨k, hk⟩ := ih h
      exact ⟨k, .skip hname hk⟩
    · rw [walkLinks_up] at h
      obtain ⟨k, hk⟩ := ih h
      exact ⟨k, .up hk⟩
    · rw [walkLinks_long _ _ _ _ hlong] at h
      cases h
    · rw [walkLinks_entry _ _ _ _ hname] at h
      cases hnode : t.node? (loc ++ [name]) with
      | none =>
        simp only [hnode] at h
        split at h
        next hrest =>
          subst hrest
          cases h
          exact ⟨n, .vacant hname hnode⟩
        · cases h
      | some node =>
        simp only [hnode] at h
        cases node with
        | directory =>
          obtain ⟨k, hk⟩ := ih h
          exact ⟨k, .enter hname hnode hk⟩
        | link target =>
          simp only at h
          split at h
          next hstop =>
            obtain ⟨rfl, rfl⟩ := hstop
            cases h
            exact ⟨n, .stop hname hnode (by simp) (by simp)⟩
          next hgo =>
            cases n with
            | zero => cases h
            | succ n =>
              obtain ⟨k, hk⟩ := ihn n (Nat.lt_succ_self n) h
              refine ⟨k, .jump hname hnode ?_ hk⟩
              cases follow <;> simp_all
        | file id => exact ⟨n, leads_of_last hname hnode nofun nofun h⟩
        | socket => exact ⟨n, leads_of_last hname hnode nofun nofun h⟩

/-! ## Cutting a look-up in two -/

theorem Leads.walkLinks_append (h : Leads t true n loc names k (.node dir .directory))
    (hrest : rest ≠ [] ∨ follow = true) :
    t.walkLinks follow n loc (names ++ rest) = t.walkLinks follow k dir rest := by
  -- The induction follows the names in front; the others stay behind them, also when a link adds
  -- names.
  generalize hfound : Found.node dir .directory = found at h
  induction h with
  | here =>
    cases hfound
    rfl
  | skip hname _ ih => rw [List.cons_append, walkLinks_skip _ _ _ _ hname, ih hfound]
  | up _ ih => rw [List.cons_append, walkLinks_up, ih hfound]
  | vacant => cases hfound
  | enter hname hnode _ ih =>
    rw [List.cons_append, walkLinks_entry _ _ _ _ hname, hnode]
    exact ih hfound
  | @jump n loc name names' k found target hname hnode hgo _ ih =>
    have hgo' : ¬ (names' ++ rest = [] ∧ follow = false) := by
      rintro ⟨hnil, rfl⟩
      simp [(List.append_eq_nil_iff.1 hnil).2] at hrest
    rw [List.cons_append, walkLinks_entry _ _ _ _ hname, hnode]
    simp only [if_neg hgo', ← List.append_assoc]
    exact ih hfound
  | stop _ _ hdir _ =>
    cases hfound
    exact absurd rfl hdir

theorem Leads.append_inv (h : Leads t follow n loc (names ++ rest) k found) (hrest : rest ≠ []) :
    ∃ m dir, Leads t true n loc names m (.node dir .directory) ∧
      Leads t follow m dir rest k found := by
  -- Each step uses up a name in front, until there is none.
  generalize hall : names ++ rest = all at h
  induction h generalizing names with
  | here => exact absurd (List.append_eq_nil_iff.1 hall).2 hrest
  | skip hname h ih =>
    obtain ⟨rfl, rfl⟩ | ⟨names, rfl, rfl⟩ := List.append_eq_cons_iff.1 hall
    · exact ⟨_, _, .here, .skip hname h⟩
    · obtain ⟨m, dir, h₁, h₂⟩ := ih rfl
      exact ⟨m, dir, .skip hname h₁, h₂⟩
  | up h ih =>
    obtain ⟨rfl, rfl⟩ | ⟨names, rfl, rfl⟩ := List.append_eq_cons_iff.1 hall
    · exact ⟨_, _, .here, .up h⟩
    · obtain ⟨m, dir, h₁, h₂⟩ := ih rfl
      exact ⟨m, dir, .up h₁, h₂⟩
  | vacant hname hnode =>
    obtain ⟨rfl, rfl⟩ | ⟨names, rfl, hnil⟩ := List.append_eq_cons_iff.1 hall
    · exact ⟨_, _, .here, .vacant hname hnode⟩
    · exact absurd (List.append_eq_nil_iff.1 hnil.symm).2 hrest
  | enter hname hnode h ih =>
    obtain ⟨rfl, rfl⟩ | ⟨names, rfl, rfl⟩ := List.append_eq_cons_iff.1 hall
    · exact ⟨_, _, .here, .enter hname hnode h⟩
    · obtain ⟨m, dir, h₁, h₂⟩ := ih rfl
      exact ⟨m, dir, .enter hname hnode h₁, h₂⟩
  | jump hname hnode hgo h ih =>
    obtain ⟨rfl, rfl⟩ | ⟨names, rfl, rfl⟩ := List.append_eq_cons_iff.1 hall
    · exact ⟨_, _, .here, .jump hname hnode hgo h⟩
    · obtain ⟨m, dir, h₁, h₂⟩ := ih (List.append_assoc _ _ _)
      exact ⟨m, dir, .jump hname hnode (.inr rfl) h₁, h₂⟩
  | stop hname hnode hdir hlink =>
    obtain ⟨rfl, rfl⟩ | ⟨names, rfl, hnil⟩ := List.append_eq_cons_iff.1 hall
    · exact ⟨_, _, .here, .stop hname hnode hdir hlink⟩
    · exact absurd (List.append_eq_nil_iff.1 hnil.symm).2 hrest

theorem Leads.last_inv (h : Leads t false n loc (names ++ [name]) k found)
    (hname : IsEntryName name) :
    ∃ dir, Leads t true n loc names k (.node dir .directory) ∧
      ((t.node? (dir ++ [name]) = none ∧ found = .vacant dir name) ∨
        ∃ node, t.node? (dir ++ [name]) = some node ∧ found = .node (dir ++ [name]) node) := by
  obtain ⟨m, dir, h₁, h₂⟩ := h.append_inv (by simp)
  cases h₂ with
  | skip htrivial _ => exact absurd htrivial (by simp [hname.1, hname.2.1])
  | up _ => exact absurd rfl hname.2.2.1
  | vacant _ hnode => exact ⟨dir, h₁, .inl ⟨hnode, rfl⟩⟩
  | enter _ hnode h =>
    cases h
    exact ⟨dir, h₁, .inr ⟨_, hnode, rfl⟩⟩
  | jump _ _ hgo _ => simp at hgo
  | stop _ hnode _ _ => exact ⟨dir, h₁, .inr ⟨_, hnode, rfl⟩⟩

/-! ## What a look-up finds -/

theorem Connected.dropLast (h : t.Connected) (hd : t.node? loc = some .directory) :
    t.node? loc.dropLast = some .directory := by
  obtain rfl | ⟨above, name, rfl⟩ := List.eq_nil_or_concat loc
  · simp
  · rw [List.concat_eq_append] at hd ⊢
    rw [List.dropLast_concat]
    have hne : t.node? (above ++ [name]) ≠ none := by simp [hd]
    exact h.above hne

theorem node?_linkStart (hd : t.node? loc = some .directory) (target : List UInt8) :
    t.node? (linkStart loc target) = some .directory := by
  unfold linkStart
  split
  · exact node?_nil t
  · exact hd

theorem Leads.holds (h : Leads t follow n loc names k found) (hwf : t.Connected)
    (hd : t.node? loc = some .directory) : found.Holds t := by
  induction h with
  | here => exact hd
  | skip _ _ ih => exact ih hd
  | up _ ih => exact ih (hwf.dropLast hd)
  | vacant hname hnode => exact ⟨hd, hname, hnode⟩
  | enter _ hnode _ ih => exact ih hnode
  | jump _ _ _ _ ih => exact ih (node?_linkStart hd _)
  | stop _ hnode _ _ => exact hnode

theorem Leads.node?_of_ne_directory {node : Node}
    (h : Leads t follow n loc names k (.node dir node))
    (hnode : node ≠ .directory) : t.node? dir = some node := by
  generalize hfound : Found.node dir node = found at h
  induction h with
  | here =>
    cases hfound
    exact absurd rfl hnode
  | skip _ _ ih => exact ih hfound
  | up _ ih => exact ih hfound
  | vacant => cases hfound
  | enter _ _ _ ih => exact ih hfound
  | jump _ _ _ _ ih => exact ih hfound
  | stop _ hstands _ _ =>
    cases hfound
    exact hstands

/-! ## Following the last link or not -/

theorem Leads.following (h : Leads t false n loc names k found)
    (hlink : ∀ loc target, found ≠ .node loc (.link target)) :
    Leads t true n loc names k found := by
  induction h with
  | here => exact .here
  | skip hname _ ih => exact .skip hname (ih hlink)
  | up _ ih => exact .up (ih hlink)
  | vacant hname hnode => exact .vacant hname hnode
  | enter hname hnode _ ih => exact .enter hname hnode (ih hlink)
  | jump hname hnode _ _ ih => exact .jump hname hnode (.inr rfl) (ih hlink)
  | @stop n loc name node hname hnode hdir _ =>
    refine .stop hname hnode hdir fun _ hkind => ?_
    cases node <;> simp_all [Node.kind]

theorem Leads.nofollow (h : Leads t true n loc names k found) :
    Leads t false n loc names k found ∨
      ∃ m loc' target, Leads t false n loc names m (.node loc' (.link target)) := by
  induction h with
  | here => exact .inl .here
  | skip hname _ ih =>
    exact ih.imp (.skip hname) fun ⟨m, loc', target, h⟩ => ⟨m, loc', target, .skip hname h⟩
  | up _ ih => exact ih.imp .up fun ⟨m, loc', target, h⟩ => ⟨m, loc', target, .up h⟩
  | vacant hname hnode => exact .inl (.vacant hname hnode)
  | enter hname hnode _ ih =>
    exact ih.imp (.enter hname hnode) fun ⟨m, loc', target, h⟩ =>
      ⟨m, loc', target, .enter hname hnode h⟩
  | @jump n loc name rest k found target hname hnode _ _ ih =>
    by_cases hrest : rest = []
    · subst hrest
      exact .inr ⟨_, _, _, .stop hname hnode (by simp) (by simp)⟩
    · exact ih.imp (.jump hname hnode (.inl hrest)) fun ⟨m, loc', target', h⟩ =>
        ⟨m, loc', target', .jump hname hnode (.inl hrest) h⟩
  | stop hname hnode hdir _ => exact .inl (.stop hname hnode hdir (by simp))

/-! ## Looking up in a changed tree -/

theorem Leads.grow {node : Node} (h : Leads t follow n loc names k (.node dir node))
    (hgrow : ∀ loc node, t.node? loc = some node → t'.node? loc = some node) :
    Leads t' follow n loc names k (.node dir node) := by
  generalize hfound : Found.node dir node = found at h
  induction h with
  | here =>
    cases hfound
    exact .here
  | skip hname _ ih => exact .skip hname (ih hfound)
  | up _ ih => exact .up (ih hfound)
  | vacant => cases hfound
  | enter hname hnode _ ih => exact .enter hname (hgrow _ _ hnode) (ih hfound)
  | jump hname hnode hgo _ ih => exact .jump hname (hgrow _ _ hnode) hgo (ih hfound)
  | stop hname hnode hdir hlink =>
    cases hfound
    exact .stop hname (hgrow _ _ hnode) hdir hlink

/-- A name that was free leads to what is put there, unless that is a link to be followed. -/
theorem Leads.fill {node : Node} (h : Leads t follow n loc names k (.vacant dir name))
    (hgrow : ∀ loc node, t.node? loc = some node → t'.node? loc = some node)
    (hnode : t'.node? (dir ++ [name]) = some node) (hlink : follow = true → node.kind ≠ .link) :
    Leads t' follow n loc names k (.node (dir ++ [name]) node) := by
  generalize hfound : Found.vacant dir name = found at h
  induction h with
  | here => cases hfound
  | skip hname _ ih => exact .skip hname (ih hfound)
  | up _ ih => exact .up (ih hfound)
  | vacant hname _ =>
    cases hfound
    by_cases hdir : node = .directory
    · subst hdir
      exact .enter hname hnode .here
    · exact .stop hname hnode hdir hlink
  | enter hname hnode' _ ih => exact .enter hname (hgrow _ _ hnode') (ih hfound)
  | jump hname hnode' hgo _ ih => exact .jump hname (hgrow _ _ hnode') hgo (ih hfound)
  | stop _ _ _ _ => cases hfound

theorem Leads.node?_vacant (h : Leads t follow n loc names k (.vacant dir name)) :
    t.node? (dir ++ [name]) = none := by
  generalize hfound : Found.vacant dir name = found at h
  induction h with
  | vacant _ hnode =>
    cases hfound
    exact hnode
  | skip _ _ ih | up _ ih | enter _ _ _ ih | jump _ _ _ _ ih => exact ih hfound
  | here | stop _ _ _ _ => cases hfound

theorem walkLinks_of_gone (hname : IsEntryName name) (hnode : t.node? (loc ++ [name]) = none)
    (rest : List Name) :
    t.walkLinks follow n loc (name :: rest) = .error .noEntry ∨
      ∃ m dir free, Leads t follow n loc (name :: rest) m (.vacant dir free) := by
  cases rest with
  | nil => exact .inr ⟨n, loc, name, .vacant hname hnode⟩
  | cons next rest =>
    left
    simp [walkLinks_entry _ _ _ _ hname, hnode]

/-- With fewer of the entries that were there, a look-up leads to the same place or nowhere. New
entries do not matter, since it passes none of them. -/
theorem Leads.shrink {node : Node} (h : Leads t follow n loc names k (.node dir node))
    (hsub : ∀ loc, t.node? loc ≠ none → t'.node? loc ≠ none → t'.node? loc = t.node? loc) :
    Leads t' follow n loc names k (.node dir node) ∨
      t'.walkLinks follow n loc names = .error .noEntry ∨
      ∃ m dir name, Leads t' follow n loc names m (.vacant dir name) := by
  have hsame : ∀ {loc node}, t.node? loc = some node → t'.node? loc ≠ none →
      t'.node? loc = some node := fun hnode hne => (hsub _ (by simp [hnode]) hne).trans hnode
  generalize hfound : Found.node dir node = found at h
  -- The induction follows the look-up. It goes on as before where the entry is still there, and
  -- ends where the entry is gone.
  induction h with
  | here => exact .inl .here
  | skip hname _ ih =>
    rw [walkLinks_skip _ _ _ _ hname]
    exact (ih hfound).imp (.skip hname)
      (.imp id fun ⟨m, dir, free, h⟩ => ⟨m, dir, free, .skip hname h⟩)
  | up _ ih =>
    rw [walkLinks_up]
    exact (ih hfound).imp .up (.imp id fun ⟨m, dir, free, h⟩ => ⟨m, dir, free, .up h⟩)
  | vacant => cases hfound
  | @enter n loc name rest k found hname hnode _ ih =>
    by_cases hne : t'.node? (loc ++ [name]) = none
    · exact .inr (walkLinks_of_gone hname hne rest)
    · have hnode' := hsame hnode hne
      rw [walkLinks_entry _ _ _ _ hname, hnode']
      exact (ih hfound).imp (.enter hname hnode')
        (.imp id fun ⟨m, dir, free, h⟩ => ⟨m, dir, free, .enter hname hnode' h⟩)
  | @jump n loc name rest k found target hname hnode hgo _ ih =>
    by_cases hne : t'.node? (loc ++ [name]) = none
    · exact .inr (walkLinks_of_gone hname hne rest)
    · have hnode' := hsame hnode hne
      have hgo' : ¬ (rest = [] ∧ follow = false) := by
        rintro ⟨rfl, rfl⟩
        simp at hgo
      rw [walkLinks_entry _ _ _ _ hname, hnode']
      simp only [if_neg hgo']
      exact (ih hfound).imp (.jump hname hnode' hgo)
        (.imp id fun ⟨m, dir, free, h⟩ => ⟨m, dir, free, .jump hname hnode' hgo h⟩)
  | @stop n loc name node hname hnode hdir hlink =>
    by_cases hne : t'.node? (loc ++ [name]) = none
    · exact .inr (walkLinks_of_gone hname hne [])
    · exact .inl (.stop hname (hsame hnode hne) hdir hlink)

/-! ## Looking up a path -/

theorem pathFailure?_eq_none_of_find (h : t.find follow p = .ok found) :
    pathFailure? p = none := by
  unfold find at h
  split at h
  · cases h
  · assumption

theorem find_eq_ok (h : t.find follow p = .ok found) :
    ∃ k, Leads t follow maxLinks (if p.isAbsolute then [] else t.home) (Path.split p.bytes) k
      found := by
  have hu := pathFailure?_eq_none_of_find h
  rw [find, hu] at h
  exact leads_of_walkLinks h

theorem find_eq_of_leads (hu : pathFailure? p = none)
    (h : Leads t follow maxLinks (if p.isAbsolute then [] else t.home) (Path.split p.bytes) k
      found) : t.find follow p = .ok found := by
  rw [find, hu]
  exact h.walkLinks

theorem target_eq_ok_iff :
    t.target p = .ok (loc, node) ↔ t.find true p = .ok (.node loc node) := by
  unfold target findEntry
  split <;> simp_all

theorem entry_eq_ok_iff :
    t.entry p = .ok (loc, node) ↔ t.find false p = .ok (.node loc node) := by
  unfold entry findEntry
  split <;> simp_all

theorem isOk_entry_of_target (h : t.target p = .ok (loc, node)) : (t.entry p).isOk = true := by
  rw [target_eq_ok_iff] at h
  have hu := pathFailure?_eq_none_of_find h
  obtain ⟨k, hleads⟩ := find_eq_ok h
  -- With the last link not followed, the look-up ends there or at that link.
  obtain hsame | ⟨m, loc', link, hlink⟩ := hleads.nofollow
  · rw [entry_eq_ok_iff.2 (find_eq_of_leads hu hsame)]
    rfl
  · rw [entry_eq_ok_iff.2 (find_eq_of_leads hu hlink)]
    rfl

theorem target_of_entry (h : t.entry p = .ok (loc, node)) (hnode : node.kind ≠ .link) :
    t.target p = .ok (loc, node) := by
  rw [entry_eq_ok_iff] at h
  rw [target_eq_ok_iff]
  obtain ⟨k, hleads⟩ := find_eq_ok h
  refine find_eq_of_leads (pathFailure?_eq_none_of_find h) (hleads.following ?_)
  rintro loc' target hfound
  cases hfound
  exact hnode rfl

theorem find_false_of_vacant (h : t.find true p = .ok (.vacant dir name)) :
    t.find false p = .ok (.vacant dir name) ∨ (t.entry p).isOk = true := by
  have hu := pathFailure?_eq_none_of_find h
  obtain ⟨k, hleads⟩ := find_eq_ok h
  obtain hsame | ⟨m, loc', link, hlink⟩ := hleads.nofollow
  · exact .inl (find_eq_of_leads hu hsame)
  · right
    rw [entry_eq_ok_iff.2 (find_eq_of_leads hu hlink)]
    rfl

theorem find_grow (h : t.find follow p = .ok (.node loc node)) (hhome : t'.home = t.home)
    (hgrow : ∀ loc node, t.node? loc = some node → t'.node? loc = some node) :
    t'.find follow p = .ok (.node loc node) := by
  obtain ⟨k, hleads⟩ := find_eq_ok h
  rw [← hhome] at hleads
  exact find_eq_of_leads (pathFailure?_eq_none_of_find h) (hleads.grow hgrow)

theorem find_fill (h : t.find follow p = .ok (.vacant dir name)) (hhome : t'.home = t.home)
    (hgrow : ∀ loc node, t.node? loc = some node → t'.node? loc = some node)
    (hnode : t'.node? (dir ++ [name]) = some node) (hlink : follow = true → node.kind ≠ .link) :
    t'.find follow p = .ok (.node (dir ++ [name]) node) := by
  obtain ⟨k, hleads⟩ := find_eq_ok h
  rw [← hhome] at hleads
  exact find_eq_of_leads (pathFailure?_eq_none_of_find h) (hleads.fill hgrow hnode hlink)

theorem node?_of_vacant (h : t.find follow p = .ok (.vacant dir name)) :
    t.node? (dir ++ [name]) = none :=
  (find_eq_ok h).elim fun _ hleads => hleads.node?_vacant

end Tree

end VolumeStore.Host
