import VolumeStore.Proofs.Host.Frame

/-!
# Look-ups without links

In a tree without links names lead one down, one up or nowhere. So a look-up passes only places that
the names spell, and what it comes to depends on the entries there and on nothing else.
-/

namespace VolumeStore.Host

def Found.place : Found → Location
  | .node loc _ => loc
  | .vacant dir _ => dir

namespace Tree

def stepTo (loc : Location) (name : Name) : Location :=
  if name = [] ∨ name = selfName then loc
  else if name = parentName then loc.dropLast
  else loc ++ [name]

def route (loc : Location) (names : List Name) : List Location :=
  names.scanl stepTo loc

variable {t t' : Tree} {follow : Bool} {n k : Nat} {loc dir : Location} {name : Name}
  {rest names : List Name} {found : Found}

theorem stepTo_entry (loc : Location) (h : IsEntryName name) : stepTo loc name = loc ++ [name] := by
  unfold stepTo
  rw [if_neg (not_or.2 ⟨h.1, h.2.1⟩), if_neg h.2.2.1]

theorem route_cons (loc : Location) (name : Name) (rest : List Name) :
    route loc (name :: rest) = loc :: route (stepTo loc name) rest :=
  List.scanl_cons

theorem mem_route (loc : Location) (names : List Name) : loc ∈ route loc names :=
  List.mem_of_mem_head? List.head?_scanl

theorem route_concat (loc : Location) (names : List Name) (name : Name) :
    route loc (names ++ [name]) = route loc names ++ [stepTo (names.foldl stepTo loc) name] := by
  unfold route
  rw [List.scanl_append, List.scanl_singleton, List.tail_cons]

theorem LinkFree.walkLinks_eq (h : t.LinkFree) (follow follow' : Bool) (n n' : Nat)
    (hsame : ∀ loc' ∈ route loc names, t'.node? loc' = t.node? loc') :
    t'.walkLinks follow' n' loc names = t.walkLinks follow n loc names := by
  -- Both walks take the same names from the same place, and neither uses up a link.
  induction names generalizing loc with
  | nil => rw [walkLinks_nil, walkLinks_nil]
  | cons name rest ih =>
    have hrest : ∀ loc' ∈ route (stepTo loc name) rest, t'.node? loc' = t.node? loc' :=
      fun loc' hmem => hsame loc' (route_cons loc name rest ▸ List.mem_cons_of_mem _ hmem)
    obtain hname | rfl | hlong | hname := name_cases name
    · rw [walkLinks_skip _ _ _ _ hname, walkLinks_skip _ _ _ _ hname]
      exact ih (by simpa only [stepTo, if_pos hname] using hrest)
    · rw [walkLinks_up, walkLinks_up]
      exact ih hrest
    · rw [walkLinks_long _ _ _ _ hlong, walkLinks_long _ _ _ _ hlong]
    · rw [stepTo_entry loc hname] at hrest
      rw [walkLinks_entry _ _ _ _ hname, walkLinks_entry _ _ _ _ hname,
        hrest _ (mem_route _ rest)]
      cases hnode : t.node? (loc ++ [name]) with
      | none => rfl
      | some node =>
        cases node with
        | directory => exact ih hrest
        | link target => exact absurd hnode (h _ target)
        | file id => rfl
        | socket => rfl

theorem LinkFree.find_eq (h : t.LinkFree) (follow follow' : Bool) (p : Path) :
    t.find follow p = t.find follow' p := by
  unfold find
  split
  · rfl
  · exact h.walkLinks_eq follow' follow maxLinks maxLinks fun _ _ => rfl

theorem LinkFree.below_of_leads (h : t.LinkFree) (hleads : Leads t follow n loc names k found)
    (hentry : ∀ name ∈ names, IsEntryName name) (hd : t.node? loc = some .directory) :
    loc <+: found.place ∧ found.Holds t := by
  induction hleads with
  | here => exact ⟨List.prefix_refl _, hd⟩
  | skip hname _ _ =>
    have hfirst := hentry _ List.mem_cons_self
    exact absurd hname (by simp [hfirst.1, hfirst.2.1])
  | up _ _ => exact absurd rfl (hentry _ List.mem_cons_self).2.2.1
  | vacant hname hnode => exact ⟨List.prefix_refl _, hd, hname, hnode⟩
  | enter _ hnode _ ih =>
    obtain ⟨hp, hholds⟩ := ih (fun name hmem => hentry name (List.mem_cons_of_mem _ hmem)) hnode
    exact ⟨(List.prefix_append _ _).trans hp, hholds⟩
  | jump _ hnode _ _ _ => exact absurd hnode (h _ _)
  | stop _ hnode _ _ => exact ⟨List.prefix_append _ _, hnode⟩

theorem LinkFree.below_of_walkLinks (h : t.LinkFree) (hentry : ∀ name ∈ names, IsEntryName name)
    (hd : t.node? loc = some .directory) (hwalk : t.walkLinks follow n loc names = .ok found) :
    loc <+: found.place ∧ found.Holds t := by
  obtain ⟨k, hleads⟩ := leads_of_walkLinks hwalk
  exact h.below_of_leads hleads hentry hd

theorem LinkFree.eq_foldl_stepTo (h : t.LinkFree) {node : Node}
    (hleads : Leads t follow n loc names k (.node dir node)) : dir = names.foldl stepTo loc := by
  generalize hfound : Found.node dir node = found at hleads
  induction hleads with
  | here =>
    cases hfound
    rfl
  | skip hname _ ih => rw [List.foldl_cons, stepTo, if_pos hname, ih hfound]
  | up _ ih => exact ih hfound
  | vacant _ _ => cases hfound
  | enter hname _ _ ih => rw [List.foldl_cons, stepTo_entry _ hname, ih hfound]
  | jump _ hnode _ _ _ => exact absurd hnode (h _ _)
  | stop hname _ _ _ =>
    cases hfound
    rw [List.foldl_cons, List.foldl_nil, stepTo_entry _ hname]

theorem LinkFree.directory_of_concat (h : t.LinkFree) (hname : IsEntryName name)
    (hleads : Leads t follow n loc (names ++ [name]) k (.node dir .directory)) :
    t.node? dir = some .directory := by
  obtain ⟨m, above, -, hlast⟩ := hleads.append_inv (by simp)
  cases hlast with
  | skip htrivial _ => exact absurd htrivial (by simp [hname.1, hname.2.1])
  | up _ => exact absurd rfl hname.2.2.1
  | enter _ hnode hrest =>
    cases hrest
    exact hnode
  | jump _ hnode _ _ => exact absurd hnode (h _ _)
  | stop _ _ hdirectory _ => exact absurd rfl hdirectory

theorem Leads.eq_append {node : Node} (hleads : Leads t follow n loc names k (.node dir node))
    (hlinks : ∀ loc' target, Below loc loc' → t.node? loc' ≠ some (.link target))
    (hentry : ∀ name ∈ names, IsEntryName name) : dir = loc ++ names := by
  generalize hfound : Found.node dir node = found at hleads
  -- Every name goes one step down: there are no links to follow, and no `..`.
  induction hleads with
  | here =>
    cases hfound
    rw [List.append_nil]
  | skip hname _ _ =>
    have hfirst := hentry _ List.mem_cons_self
    exact absurd hname (by simp [hfirst.1, hfirst.2.1])
  | up _ _ => exact absurd rfl (hentry _ List.mem_cons_self).2.2.1
  | vacant _ _ => cases hfound
  | @enter n loc name rest k found _ _ _ ih =>
    rw [ih (fun loc' target hb => hlinks loc' target (hb.of_prefix_left (List.prefix_append _ _)))
      (fun name hmem => hentry name (List.mem_cons_of_mem _ hmem)) hfound, List.append_assoc,
      List.singleton_append]
  | jump _ hnode _ _ _ => exact absurd hnode (hlinks _ _ (below_concat _ _))
  | stop _ _ _ _ =>
    cases hfound
    rfl

theorem linkFree_of_nodes (h : ∀ entry ∈ t.nodes, entry.2.kind ≠ .link) : t.LinkFree := by
  intro loc target hlink
  by_cases hnil : loc = []
  · rw [hnil, node?_nil] at hlink
    cases hlink
  · exact h _ (mem_nodes_of_node? hnil hlink) rfl

end Tree

end VolumeStore.Host
