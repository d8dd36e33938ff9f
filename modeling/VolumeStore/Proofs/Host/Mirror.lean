import VolumeStore.Proofs.Host.FileChanges
import VolumeStore.Proofs.Host.LinkFree

/-!
# Trees that mirror each other

Two trees mirror each other below a place when the same entries stand there in the same order, and
the files among them have the same bytes under other numbers. A look-up that starts there leads to
the same in both, and the same change of both leaves trees that mirror each other again. What the
host's clock and its numbering make of an entry may differ all the time.
-/

namespace VolumeStore.Host

/-- The files of one tree that are known in another one, and their numbers there. -/
structure Numbering where
  known : FileId → Prop
  image : FileId → FileId

def Node.renumber (N : Numbering) : Node → Node
  | .file id => .file (N.image id)
  | node => node

def Found.renumber (N : Numbering) : Found → Found
  | .node loc entry => .node loc (entry.renumber N)
  | .vacant dir name => .vacant dir name

def Handle.renumber (N : Numbering) (handle : Handle) : Handle :=
  { handle with file := N.image handle.file }

@[simp] theorem Node.renumber_directory (N : Numbering) :
    Node.directory.renumber N = .directory := rfl

@[simp] theorem Node.renumber_eq_directory_iff {N : Numbering} {node : Node} :
    node.renumber N = .directory ↔ node = .directory := by
  cases node <;> simp [renumber]

@[simp] theorem Node.kind_renumber (N : Numbering) (node : Node) :
    (node.renumber N).kind = node.kind := by
  cases node <;> rfl

namespace Numbering

def insert (N : Numbering) (id id' : FileId) : Numbering where
  known := fun i => N.known i ∨ i = id
  image := fun i => if i = id then id' else N.image i

/-- The second numbering agrees with the first one, and knows only new files besides. -/
structure Extends (N N' : Numbering) (bound : Nat) : Prop where
  known : ∀ id, N.known id → N'.known id
  image : ∀ id, N.known id → N'.image id = N.image id
  fresh : ∀ id, N'.known id → N.known id ∨ bound ≤ id

theorem Extends.refl (N : Numbering) (bound : Nat) : N.Extends N bound :=
  ⟨fun _ h => h, fun _ _ => rfl, fun _ h => .inl h⟩

theorem extends_insert {N : Numbering} {id id' : FileId} (h : ¬ N.known id) :
    N.Extends (N.insert id id') id where
  known _ hknown := .inl hknown
  image i hknown := if_neg fun he : i = id => h (he ▸ hknown)
  fresh _ hknown := hknown.imp (fun hold => hold) fun he => Nat.le_of_eq he.symm

end Numbering

end Host

def StatRecord.unstamped (r : StatRecord) : StatRecord :=
  { r with ino := 0, atime := {}, mtime := {}, ctime := {} }

namespace Host.Tree

def inside (t : Tree) (top : Location) : List (Location × Node) :=
  t.nodes.filter fun entry => Below top entry.1

def renumberEntries (N : Numbering) (entries : List (Location × Node)) : List (Location × Node) :=
  entries.map fun entry => (entry.1, entry.2.renumber N)

/-- Below `top`, the trees are the same but for the numbers of the files, of which none is unknown,
and for the stamps. The bytes of all known files are the same, whether they still have a name or
not. -/
structure Mirrors (top : Location) (N : Numbering) (t t' : Tree) : Prop where
  inside : t'.inside top = renumberEntries N (t.inside top)
  user : t'.user = t.user
  owners : ∀ loc, top <+: loc → t'.owners loc = t.owners loc
  named : ∀ loc id, (loc, Node.file id) ∈ t.inside top → N.known id
  stored : ∀ id, N.known id → id < t.contents.length
  stored' : ∀ id, N.known id → N.image id < t'.contents.length
  injective : ∀ id id', N.known id → N.known id' → N.image id = N.image id' → id = id'
  content : ∀ id, N.known id → t'.content (N.image id) = t.content id

variable {t t' : Tree} {top loc dir source target : Location} {name : Name} {N : Numbering}
  {node : Node} {id : FileId}

theorem lookup_inside (t : Tree) (h : Below top loc) : (t.inside top).lookup loc = t.node? loc := by
  rw [node?_eq_lookup t h.ne_nil, inside, lookup_filter (p := fun key => decide (Below top key))]
  simp [h]

theorem mem_inside_of_node? (h : Below top loc) (hnode : t.node? loc = some node) :
    (loc, node) ∈ t.inside top :=
  List.mem_filter.2 ⟨mem_nodes_of_node? h.ne_nil hnode, by simpa using h⟩

theorem node?_eq_of_mem_nodes (hunique : (t.nodes.map (·.1)).Nodup) (hne : loc ≠ [])
    (hmem : (loc, node) ∈ t.nodes) : t.node? loc = some node := by
  rw [node?_eq_lookup t hne]
  generalize t.nodes = nodes at hunique hmem
  induction nodes with
  | nil => cases hmem
  | cons entry nodes ih =>
    rw [List.map_cons, List.nodup_cons] at hunique
    obtain rfl | hmem := List.mem_cons.1 hmem
    · exact List.lookup_cons_self
    · have hkey : loc ≠ entry.1 := by
        rintro rfl
        exact hunique.1 (List.mem_map.2 ⟨_, hmem, rfl⟩)
      rw [List.lookup_cons, beq_false_of_ne hkey]
      exact ih hunique.2 hmem

theorem lookup_renumberEntries (N : Numbering) (entries : List (Location × Node))
    (loc : Location) :
    (renumberEntries N entries).lookup loc = (entries.lookup loc).map (Node.renumber N) :=
  lookup_map_snd (fun _ => Node.renumber N) entries loc

theorem filter_renumberEntries (N : Numbering) (p : Location → Bool)
    (entries : List (Location × Node)) :
    (renumberEntries N entries).filter (fun entry => p entry.1) =
      renumberEntries N (entries.filter fun entry => p entry.1) := by
  unfold renumberEntries
  rw [List.filter_map]
  rfl

theorem children_eq_inside (t : Tree) (h : top <+: loc) :
    t.children loc = { t with nodes := t.inside top : Tree }.children loc := by
  unfold children inside
  dsimp only
  induction t.nodes with
  | nil => rfl
  | cons entry nodes ih =>
    by_cases hb : Below top entry.1
    · rw [List.filter_cons_of_pos (by simpa using hb), List.filterMap_cons, List.filterMap_cons, ih]
    · rw [List.filter_cons_of_neg (by simpa using hb), List.filterMap_cons_none, ih]
      split
      next name hlast =>
        rw [if_neg]
        rintro rfl
        have hkey := List.dropLast_append_getLast? _ hlast
        exact hb (hkey ▸ below_of_prefix_concat h)
      · rfl

namespace Mirrors

theorem node?_eq (h : Mirrors top N t t') (hb : Below top loc) :
    t'.node? loc = (t.node? loc).map (Node.renumber N) := by
  rw [← lookup_inside t' hb, h.inside, lookup_renumberEntries, lookup_inside t hb]

theorem known_of_node? (h : Mirrors top N t t') (hb : Below top loc)
    (hnode : t.node? loc = some (.file id)) : N.known id :=
  h.named loc id (mem_inside_of_node? hb hnode)

/-! ## What is reported -/

theorem children_eq (h : Mirrors top N t t') (hp : top <+: loc) :
    t'.children loc = (t.children loc).map fun child => (child.1, child.2.renumber N) := by
  rw [children_eq_inside t' hp, children_eq_inside t hp, h.inside]
  unfold children renumberEntries
  dsimp only
  rw [List.filterMap_map, List.map_filterMap]
  refine List.filterMap_congr fun entry _ => ?_
  simp only [Function.comp_apply]
  split
  · split <;> rfl
  · rfl

theorem known_of_child (h : Mirrors top N t t') (hp : top <+: loc)
    (hmem : (name, Node.file id) ∈ t.children loc) : N.known id := by
  have hb : Below top (loc ++ [name]) := below_of_prefix_concat hp
  exact h.named _ id (List.mem_filter.2 ⟨mem_children_iff.1 hmem, by simpa using hb⟩)

theorem isVacant_eq (h : Mirrors top N t t') (hp : top <+: loc) :
    t'.isVacant loc = t.isVacant loc := by
  unfold isVacant
  rw [h.children_eq hp, List.isEmpty_map]

theorem describe_eq (h : Mirrors top N t t') (hp : top <+: loc)
    (hknown : ∀ id, node = .file id → N.known id) :
    (t'.describe loc (node.renumber N)).unstamped = (t.describe loc node).unstamped := by
  -- Sizes come from the contents, and links are counted by the directories below; both are
  -- mirrored.
  have hsize : t'.sizeOf (node.renumber N) = t.sizeOf node := by
    cases node with
    | file id => exact congrArg Content.size (h.content id (hknown id rfl))
    | directory => rfl
    | link target => rfl
    | socket => rfl
  have hlinks : t'.linksOf loc (node.renumber N) = t.linksOf loc node := by
    cases node with
    | directory =>
      simp only [Node.renumber, linksOf, h.children_eq hp, List.filter_map, List.length_map]
      congr 3
      funext child
      simp only [Function.comp_apply]
      rw [decide_eq_decide]
      exact Node.renumber_eq_directory_iff
    | file id => rfl
    | link target => rfl
    | socket => rfl
  have hpermissions : permissionsOf (node.renumber N) = permissionsOf node := by cases node <;> rfl
  simp only [describe, StatRecord.unstamped, h.owners loc hp, hsize, hlinks, hpermissions,
    Node.kind_renumber]

/-! ## Looking up -/

theorem walkLinks_eq (h : Mirrors top N t t') (hlinks : t.LinkFree) (hp : top <+: loc)
    {names : List Name} (hentry : ∀ name ∈ names, IsEntryName name) (follow : Bool) (n n' : Nat) :
    t'.walkLinks follow n' loc names =
      (t.walkLinks follow n loc names).map (Found.renumber N) := by
  -- Name by name. No link is followed, so it does not matter how many may be.
  induction names generalizing loc with
  | nil =>
    rw [walkLinks_nil, walkLinks_nil]
    rfl
  | cons name rest ih =>
    have hname := hentry name List.mem_cons_self
    rw [walkLinks_entry _ _ _ _ hname, walkLinks_entry _ _ _ _ hname,
      h.node?_eq (below_of_prefix_concat hp)]
    cases hnode : t.node? (loc ++ [name]) with
    | none =>
      simp only [Option.map_none]
      split <;> rfl
    | some node =>
      cases node with
      | directory =>
        exact ih (hp.trans (List.prefix_append _ _))
          fun name' hmem => hentry name' (List.mem_cons_of_mem _ hmem)
      | link target => exact absurd hnode (hlinks _ target)
      | file id =>
        simp only [Option.map_some, Node.renumber]
        split <;> rfl
      | socket =>
        simp only [Option.map_some, Node.renumber]
        split <;> rfl

/-! ## Changes -/

theorem of_unique {known : FileId → Prop} (hunique : (t.nodes.map (·.1)).Nodup)
    (hheld : ∀ id, t.Holds top id → known id) (hstored : ∀ id, known id → id < t.contents.length) :
    Mirrors top ⟨known, fun id => id⟩ t t where
  inside := by
    have hsame : ∀ node : Node, node.renumber ⟨known, fun id => id⟩ = node := by
      intro node
      cases node <;> rfl
    unfold renumberEntries
    simp only [hsame, List.map_id']
  user := rfl
  owners _ _ := rfl
  named loc id hmem := by
    obtain ⟨hentry, hb⟩ := List.mem_filter.1 hmem
    have hb : Below top loc := of_decide_eq_true hb
    exact hheld id ⟨loc, hb, node?_eq_of_mem_nodes hunique hb.ne_nil hentry⟩
  stored := hstored
  stored' := hstored
  injective _ _ _ _ he := he
  content _ _ := rfl

theorem of_changesOnly (h : Mirrors top N t t') {top' : Location} {ids : FileId → Prop} {u : Tree}
    (hchange : ChangesOnly top' ids t u) (hplace : ∀ loc, top <+: loc → ¬ Below top' loc)
    (hids : ∀ id, N.known id → ¬ ids id) : Mirrors top N u t' := by
  have hinside : ∀ t : Tree, t.inside top = (t.outside top').filter fun e => Below top e.1 := by
    intro t
    unfold Tree.inside Tree.outside
    rw [List.filter_filter]
    refine List.filter_congr fun entry _ => ?_
    by_cases hb : Below top entry.1
    · simp [hb, hplace _ hb.1]
    · simp [hb]
  -- What stands below `top` is among what stands outside the other place.
  have hsame : u.inside top = t.inside top := by rw [hinside u, hinside t, hchange.outside]
  refine ⟨?_, h.user.trans hchange.user.symm,
    fun loc hp => (h.owners loc hp).trans (hchange.owners loc (hplace loc hp)).symm, ?_,
    fun id hid => ?_, h.stored', h.injective, fun id hid => ?_⟩
  · rw [hsame]
    exact h.inside
  · rw [hsame]
    exact h.named
  · exact Nat.lt_of_lt_of_le (h.stored id hid) hchange.stored
  · rw [hchange.content id (h.stored id hid) (hids id hid)]
    exact h.content id hid

theorem of_entries (h : Mirrors top N t t') {u u' : Tree} (hc : u.contents = t.contents)
    (hc' : u'.contents = t'.contents) (hu : u.user = t.user) (hu' : u'.user = t'.user)
    (howners : ∀ loc, top <+: loc → u'.owners loc = u.owners loc)
    (hinside : u'.inside top = renumberEntries N (u.inside top))
    (hnamed : ∀ loc id, (loc, Node.file id) ∈ u.inside top →
      ∃ loc', (loc', Node.file id) ∈ t.inside top) : Mirrors top N u u' where
  inside := hinside
  user := by rw [hu, hu', h.user]
  owners := howners
  named loc id hmem := by
    obtain ⟨loc', hmem'⟩ := hnamed loc id hmem
    exact h.named loc' id hmem'
  stored id hid := hc ▸ h.stored id hid
  stored' id hid := hc' ▸ h.stored' id hid
  injective := h.injective
  content id hid := by
    unfold Tree.content
    rw [hc, hc']
    exact h.content id hid

theorem inside_insert (t : Tree) (h : Below top loc) (node : Node) :
    (t.insert loc node).inside top = (loc, node) :: (t.inside top).filter (·.1 ≠ loc) := by
  unfold Tree.inside Tree.insert
  rw [List.filter_cons_of_pos (by simpa using h), List.filter_filter, List.filter_filter]
  congr 2
  funext entry
  exact Bool.and_comm _ _

theorem owners_insert (h : Mirrors top N t t') (loc : Location) (node node' : Node)
    {loc' : Location} (hp : top <+: loc') :
    (t'.insert loc node').owners loc' = (t.insert loc node).owners loc' := by
  simp only [insert, h.user, h.owners loc' hp]

theorem insert_directory (h : Mirrors top N t t') (hb : Below top loc) :
    Mirrors top N (t.insert loc .directory) (t'.insert loc .directory) := by
  refine h.of_entries rfl rfl rfl rfl (fun _ => h.owners_insert loc .directory .directory) ?_
    fun loc' id hmem => ?_
  · rw [inside_insert t' hb, inside_insert t hb, h.inside,
      filter_renumberEntries N fun key => decide (key ≠ loc)]
    rfl
  · rw [inside_insert t hb, List.mem_cons] at hmem
    obtain he | hmem := hmem
    · cases he
    · exact ⟨loc', (List.mem_filter.1 hmem).1⟩

theorem keep (h : Mirrors top N t t') (p : Location → Bool) :
    Mirrors top N (t.keep p) (t'.keep p) := by
  have hinside : ∀ t : Tree, (t.keep p).inside top = (t.inside top).filter fun e => p e.1 := by
    intro t
    unfold Tree.inside Tree.keep
    rw [List.filter_filter, List.filter_filter]
    congr 1
    funext entry
    exact Bool.and_comm _ _
  refine h.of_entries rfl rfl rfl rfl h.owners ?_ fun loc id hmem => ?_
  · rw [hinside, hinside, h.inside, filter_renumberEntries]
  · rw [hinside] at hmem
    exact ⟨loc, (List.mem_filter.1 hmem).1⟩

theorem remove (h : Mirrors top N t t') (loc : Location) :
    Mirrors top N (t.remove loc) (t'.remove loc) :=
  h.keep _

theorem clear (h : Mirrors top N t t') (loc : Location) :
    Mirrors top N (t.clear loc) (t'.clear loc) :=
  h.keep _

theorem inside_move (t : Tree) (hs : Below top source) (ht : Below top target) :
    (t.move source target).inside top = movedNodes source target (t.inside top) := by
  unfold Tree.inside
  rw [nodes_move]
  -- Entry by entry: both ends of the move are below `top`, so each entry stays on its side.
  induction t.nodes with
  | nil => rfl
  | cons entry nodes ih =>
    obtain ⟨key, node⟩ := entry
    unfold movedNodes at ih ⊢
    by_cases hsk : source <+: key
    · have hb : Below top key := hs.of_prefix hsk
      have hb' : Below top (target ++ key.drop source.length) :=
        ht.of_prefix (List.prefix_append _ _)
      rw [List.filter_cons_of_pos (by simp [hsk]), List.map_cons, if_pos hsk,
        List.filter_cons_of_pos (by simpa using hb'), List.filter_cons_of_pos (by simpa using hb),
        List.filter_cons_of_pos (by simp [hsk]), List.map_cons, if_pos hsk, ih]
    · by_cases htk : target <+: key
      · have hb : Below top key := ht.of_prefix htk
        rw [List.filter_cons_of_neg (by simp [hsk, htk]),
          List.filter_cons_of_pos (by simpa using hb),
          List.filter_cons_of_neg (by simp [hsk, htk]), ih]
      · rw [List.filter_cons_of_pos (by simp [htk]), List.map_cons, if_neg hsk]
        by_cases hb : Below top key
        · rw [List.filter_cons_of_pos (by simpa using hb),
            List.filter_cons_of_pos (by simpa using hb), List.filter_cons_of_pos (by simp [htk]),
            List.map_cons, if_neg hsk, ih]
        · rw [List.filter_cons_of_neg (by simpa using hb),
            List.filter_cons_of_neg (by simpa using hb), ih]

theorem movedNodes_renumberEntries (N : Numbering) (source target : Location)
    (entries : List (Location × Node)) :
    movedNodes source target (renumberEntries N entries) =
      renumberEntries N (movedNodes source target entries) := by
  unfold movedNodes
  rw [filter_renumberEntries N fun key => decide (source <+: key ∨ ¬ target <+: key)]
  unfold renumberEntries
  rw [List.map_map, List.map_map]
  refine List.map_congr_left fun entry _ => ?_
  simp only [Function.comp_apply]
  split <;> rfl

theorem move (h : Mirrors top N t t') (hs : Below top source) (ht : Below top target) :
    Mirrors top N (t.move source target) (t'.move source target) := by
  have howners : ∀ loc, top <+: loc →
      (t'.move source target).owners loc = (t.move source target).owners loc := by
    intro loc hp
    have hmoved := h.owners _ (hs.of_prefix (List.prefix_append source (loc.drop target.length))).1
    simp only [Tree.move, hmoved, h.owners loc hp]
  refine h.of_entries rfl rfl rfl rfl howners ?_ fun loc id hmem => ?_
  · rw [inside_move t' hs ht, inside_move t hs ht, h.inside, movedNodes_renumberEntries]
  · rw [inside_move t hs ht] at hmem
    obtain ⟨⟨key, node⟩, hentry, he⟩ := List.mem_map.1 hmem
    have hold := (List.mem_filter.1 hentry).1
    split at he <;> cases he <;> exact ⟨_, hold⟩

theorem setContent (h : Mirrors top N t t') (hid : N.known id) (c : Content) :
    Mirrors top N (t.setContent id c) (t'.setContent (N.image id) c) where
  inside := h.inside
  user := h.user
  owners := h.owners
  named := h.named
  stored i hi := by
    rw [length_contents_setContent]
    exact h.stored i hi
  stored' i hi := by
    rw [length_contents_setContent]
    exact h.stored' i hi
  injective := h.injective
  content i hi := by
    rw [content_setContent t (h.stored id hid), content_setContent t' (h.stored' id hid)]
    by_cases he : i = id
    · rw [if_pos he, if_pos (by rw [he])]
    · rw [if_neg he, if_neg fun heq => he (h.injective i id hi hid heq)]
      exact h.content i hi

theorem insertFile (h : Mirrors top N t t') (hb : Below top loc) :
    Mirrors top (N.insert t.contents.length t'.contents.length) (t.insertFile loc).2
      (t'.insertFile loc).2 where
  inside := by
    -- The number of the new file is not among the old entries.
    have hold : renumberEntries (N.insert t.contents.length t'.contents.length) (t.inside top) =
        renumberEntries N (t.inside top) := by
      refine List.map_congr_left fun entry hmem => ?_
      obtain ⟨key, node⟩ := entry
      cases node with
      | file id =>
        have hne := Nat.ne_of_lt (h.stored id (h.named key id hmem))
        simp only [Node.renumber, Numbering.insert, if_neg hne]
      | directory => rfl
      | link target => rfl
      | socket => rfl
    show (t'.insert loc _).inside top = renumberEntries _ ((t.insert loc _).inside top)
    rw [inside_insert t' hb, inside_insert t hb, h.inside, ← hold,
      filter_renumberEntries _ fun key => decide (key ≠ loc)]
    simp [renumberEntries, Node.renumber, Numbering.insert]
  user := h.user
  owners _ := h.owners_insert loc (.file t.contents.length) (.file t'.contents.length)
  named loc' id hmem := by
    have hmem' : (loc', Node.file id) ∈ (t.insert loc (.file t.contents.length)).inside top := hmem
    rw [inside_insert t hb, List.mem_cons] at hmem'
    obtain he | hold := hmem'
    · cases he
      exact .inr rfl
    · exact .inl (h.named loc' id (List.mem_filter.1 hold).1)
  stored id hid := by
    rw [length_contents_insertFile]
    obtain hid | rfl := hid
    · exact Nat.lt_succ_of_lt (h.stored id hid)
    · exact Nat.lt_succ_self _
  stored' id hid := by
    rw [length_contents_insertFile]
    simp only [Numbering.insert]
    split
    · exact Nat.lt_succ_self _
    next hne => exact Nat.lt_succ_of_lt (h.stored' id (hid.resolve_right hne))
  injective id id' hid hid' heq := by
    -- The image of the new file is greater than all others.
    simp only [Numbering.insert] at heq
    split at heq <;> split at heq
    next he he' => rw [he, he']
    next hne =>
      exact absurd (h.stored' id' (hid'.resolve_right hne)) (heq ▸ Nat.lt_irrefl _)
    next hne _ =>
      exact absurd (h.stored' id (hid.resolve_right hne)) (heq ▸ Nat.lt_irrefl _)
    next hne hne' => exact h.injective id id' (hid.resolve_right hne) (hid'.resolve_right hne') heq
  content id hid := by
    rw [content_insertFile, content_insertFile]
    simp only [Numbering.insert]
    split
    next he =>
      rw [he, content_of_length_le t (Nat.le_refl _), content_of_length_le t' (Nat.le_refl _)]
    next hne => exact h.content id (hid.resolve_right hne)

end Mirrors

end Tree

/-! ## Open files -/

/-- Two calls fail alike, or both succeed with related results. -/
inductive Alike {ε α β : Type} (R : α → β → Prop) : Except ε α → Except ε β → Prop where
  | error (e : ε) : Alike R (.error e) (.error e)
  | ok {a : α} {b : β} (h : R a b) : Alike R (.ok a) (.ok b)

namespace Handle

open Host.Tree (Mirrors)

variable {t t' : Tree} {top : Location} {N : Numbering} {handle : Handle}

@[simp] theorem file_renumber (N : Numbering) (handle : Handle) :
    (handle.renumber N).file = N.image handle.file := rfl

@[simp] theorem access_renumber (N : Numbering) (handle : Handle) :
    (handle.renumber N).access = handle.access := rfl

@[simp] theorem position_renumber (N : Numbering) (handle : Handle) :
    (handle.renumber N).position = handle.position := rfl

theorem alike_setSize (h : Mirrors top N t t') (hid : N.known handle.file) (size : Nat) :
    Alike (Mirrors top N) (handle.setSize t size) ((handle.renumber N).setSize t' size) := by
  unfold setSize
  rw [access_renumber, file_renumber, h.content _ hid]
  split
  · exact .error _
  · split
    · exact .error _
    · exact .ok (h.setContent hid _)

/-- Two writes come to the same, in trees that mirror each other. -/
structure WritesAlike {α : Type} (top : Location) (N : Numbering) (r r' : α × Handle × Tree) :
    Prop where
  answer : r'.1 = r.1
  handle : r'.2.1 = r.2.1.renumber N
  mirrors : Mirrors top N r.2.2 r'.2.2

theorem writePosition_renumber (h : Mirrors top N t t') (hid : N.known handle.file) :
    (handle.renumber N).writePosition t' = handle.writePosition t := by
  unfold writePosition
  rw [access_renumber, file_renumber, position_renumber, h.content _ hid]

theorem writeSome_renumber (h : Mirrors top N t t') (hid : N.known handle.file)
    (data : List UInt8) :
    WritesAlike top N (handle.writeSome t data) ((handle.renumber N).writeSome t' data) := by
  unfold writeSome taken
  rw [writePosition_renumber h hid, access_renumber, file_renumber, position_renumber,
    h.content _ hid]
  split
  · exact ⟨rfl, rfl, h⟩
  · split
    · exact ⟨rfl, rfl, h⟩
    · split
      · exact ⟨rfl, rfl, h⟩
      · exact ⟨rfl, rfl, h.setContent hid _⟩

theorem write_renumber {t t' : Tree} {handle : Handle} (h : Mirrors top N t t')
    (hid : N.known handle.file) (data : List UInt8) :
    WritesAlike top N (handle.write t data) ((handle.renumber N).write t' data) := by
  -- Call by call, in both trees at once.
  unfold write
  by_cases hne : data = []
  · rw [if_pos hne, if_pos hne]
    exact ⟨rfl, rfl, h⟩
  rw [if_neg hne, if_neg hne]
  have hstep := writeSome_renumber h hid data
  have hfile := file_writeSome handle t data
  generalize handle.writeSome t data = result at hstep hfile ⊢
  generalize (handle.renumber N).writeSome t' data = result' at hstep ⊢
  obtain ⟨answer, handle₁, u⟩ := result
  obtain ⟨answer', handle₁', u'⟩ := result'
  obtain rfl : answer' = answer := hstep.answer
  obtain rfl : handle₁' = handle₁.renumber N := hstep.handle
  have hmirrors : Mirrors top N u u' := hstep.mirrors
  match answer' with
  | .error failure => exact ⟨rfl, rfl, hmirrors⟩
  | .ok 0 => exact ⟨rfl, rfl, hmirrors⟩
  | .ok (n + 1) => exact write_renumber hmirrors (hfile ▸ hid) (data.drop (n + 1))
termination_by data.length
decreasing_by
  have := List.length_pos_iff.2 hne
  simp only [List.length_drop]
  omega

theorem read_renumber (h : Mirrors top N t t') (hid : N.known handle.file) (len : Nat) :
    (handle.renumber N).read t' len =
      (handle.read t len).map fun r => (r.1.renumber N, r.2) := by
  unfold read
  rw [access_renumber, file_renumber, position_renumber, h.content _ hid]
  split
  · rfl
  · split
    · rfl
    · split <;> rfl

theorem seek_renumber (N : Numbering) (handle : Handle) (offset : Nat) :
    (handle.renumber N).seek offset = (handle.seek offset).map (Handle.renumber N) := by
  unfold seek
  split <;> rfl

theorem file_of_seek {offset : Nat} {handle' : Handle} (h : handle.seek offset = .ok handle') :
    handle'.file = handle.file := by
  unfold seek at h
  split at h
  · cases h
  · cases h
    rfl

theorem readAt_renumber (h : Mirrors top N t t') (hid : N.known handle.file) (offset len : Nat) :
    (handle.renumber N).readAt t' offset len =
      ((handle.readAt t offset len).1.renumber N, (handle.readAt t offset len).2) := by
  unfold readAt
  rw [seek_renumber]
  cases hseek : handle.seek offset with
  | error failure => rfl
  | ok handle₁ =>
    have hfile : handle₁.file = handle.file := file_of_seek hseek
    simp only [Except.map, read_renumber h (hfile ▸ hid)]
    cases handle₁.read t len <;> rfl

theorem writeAt_renumber (h : Mirrors top N t t') (hid : N.known handle.file) (offset : Nat)
    (data : List UInt8) :
    WritesAlike top N (handle.writeAt t offset data)
      ((handle.renumber N).writeAt t' offset data) := by
  unfold writeAt
  rw [seek_renumber]
  cases hseek : handle.seek offset with
  | error failure => exact ⟨rfl, rfl, h⟩
  | ok handle₁ => exact write_renumber h (file_of_seek hseek ▸ hid) data

end Handle

end VolumeStore.Host
