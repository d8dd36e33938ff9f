import VolumeStore.Proofs.Host.MakeDirectories

/-!
# Changes below a place

A change of a tree is confined to a place when the entries that do not stand below it stay, in their
order, and only files that stand below it, or are told of otherwise, get other bytes. Every change
the host makes below a place is confined to it.
-/

namespace VolumeStore.Host.Tree

variable {t t' t'' : Tree} {top loc dir source target : Location} {name : Name}
  {ids ids' : FileId → Prop}

def outside (t : Tree) (top : Location) : List (Location × Node) :=
  t.nodes.filter fun entry => ¬ Below top entry.1

def Holds (t : Tree) (top : Location) (id : FileId) : Prop :=
  ∃ loc, Below top loc ∧ t.node? loc = some (.file id)

def LinkFree (t : Tree) : Prop :=
  ∀ loc target, t.node? loc ≠ some (.link target)

/-- From one tree to the other, only what stands below `top` has changed, and of the contents only
those of `ids` and new ones. There are no new links. -/
structure ChangesOnly (top : Location) (ids : FileId → Prop) (t t' : Tree) : Prop where
  outside : t'.outside top = t.outside top
  home : t'.home = t.home
  user : t'.user = t.user
  owners : ∀ loc, ¬ Below top loc → t'.owners loc = t.owners loc
  stored : t.contents.length ≤ t'.contents.length
  content : ∀ id < t.contents.length, ¬ ids id → t'.content id = t.content id
  holds : ∀ id < t.contents.length, t'.Holds top id → t.Holds top id
  links : ∀ loc target, t'.node? loc = some (.link target) →
    ∃ loc', t.node? loc' = some (.link target)

theorem node?_of_outside_eq (h : t'.outside top = t.outside top) (hloc : ¬ Below top loc) :
    t'.node? loc = t.node? loc := by
  by_cases hnil : loc = []
  · simp [hnil]
  · have hlookup : ∀ t : Tree, (t.outside top).lookup loc = t.nodes.lookup loc := by
      intro t
      unfold Tree.outside
      rw [lookup_filter (p := fun key => decide (¬ Below top key)) t.nodes loc]
      simp [hloc]
    rw [node?_eq_lookup _ hnil, node?_eq_lookup _ hnil, ← hlookup, ← hlookup, h]

namespace ChangesOnly

theorem refl (top : Location) (ids : FileId → Prop) (t : Tree) : ChangesOnly top ids t t :=
  ⟨rfl, rfl, rfl, fun _ _ => rfl, Nat.le_refl _, fun _ _ _ => rfl, fun _ _ h => h,
    fun loc _ h => ⟨loc, h⟩⟩

theorem trans (h : ChangesOnly top ids t t') (h' : ChangesOnly top ids' t' t'')
    (hids : ∀ id < t.contents.length, ids' id → ids id) : ChangesOnly top ids t t'' where
  outside := h'.outside.trans h.outside
  home := h'.home.trans h.home
  user := h'.user.trans h.user
  owners loc hloc := (h'.owners loc hloc).trans (h.owners loc hloc)
  stored := Nat.le_trans h.stored h'.stored
  content id hlt hid := by
    rw [h'.content id (Nat.lt_of_lt_of_le hlt h.stored) fun hid' => hid (hids id hlt hid'),
      h.content id hlt hid]
  holds id hlt hid := h.holds id hlt (h'.holds id (Nat.lt_of_lt_of_le hlt h.stored) hid)
  links loc target hlink := by
    obtain ⟨loc', hlink'⟩ := h'.links loc target hlink
    exact h.links loc' target hlink'

theorem mono (h : ChangesOnly top ids t t') (hids : ∀ id, ids id → ids' id) :
    ChangesOnly top ids' t t' :=
  (refl top ids' t).trans h fun id _ => hids id

theorem node?_eq (h : ChangesOnly top ids t t') (hloc : ¬ Below top loc) :
    t'.node? loc = t.node? loc :=
  node?_of_outside_eq h.outside hloc

theorem linkFree (h : ChangesOnly top ids t t') (hlinks : t.LinkFree) : t'.LinkFree := by
  intro loc target hlink
  obtain ⟨loc', hlink'⟩ := h.links loc target hlink
  exact hlinks loc' target hlink'

end ChangesOnly

structure StaysWithin (top : Location) (ids : FileId → Prop) (t t' : Tree) : Prop
    extends ChangesOnly top ids t t' where
  wellFormed : t'.WellFormed

theorem StaysWithin.trans (h : StaysWithin top ids t t') (h' : StaysWithin top ids' t' t'')
    (hids : ∀ id < t.contents.length, ids' id → ids id) : StaysWithin top ids t t'' :=
  ⟨h.toChangesOnly.trans h'.toChangesOnly hids, h'.wellFormed⟩

/-! ## The changes of the host -/

/-- Where only the entries change, every entry below `top` that is no directory has been there
before, below `top`, under the same name or another one. -/
theorem ChangesOnly.of_contents_eq (houtside : t'.outside top = t.outside top)
    (hhome : t'.home = t.home) (huser : t'.user = t.user)
    (howners : ∀ loc, ¬ Below top loc → t'.owners loc = t.owners loc)
    (hcontents : t'.contents = t.contents)
    (hold : ∀ loc node, t'.node? loc = some node → Below top loc → node ≠ .directory →
      ∃ loc', Below top loc' ∧ t.node? loc' = some node) :
    ChangesOnly top ids t t' where
  outside := houtside
  home := hhome
  user := huser
  owners := howners
  stored := Nat.le_of_eq (by rw [hcontents])
  content id _ _ := by unfold Tree.content; rw [hcontents]
  holds id _ := fun ⟨loc, hb, hn⟩ => hold loc _ hn hb nofun
  links loc target hlink := by
    by_cases hb : Below top loc
    · obtain ⟨loc', -, hlink'⟩ := hold loc _ hlink hb nofun
      exact ⟨loc', hlink'⟩
    · exact ⟨loc, node?_of_outside_eq houtside hb ▸ hlink⟩

theorem outside_insert (t : Tree) (h : Below top loc) (node : Node) :
    (t.insert loc node).outside top = t.outside top := by
  unfold Tree.outside Tree.insert
  rw [List.filter_cons_of_neg (by simp [h]), List.filter_filter]
  refine List.filter_congr fun entry _ => ?_
  by_cases he : entry.1 = loc
  · simp [he, h]
  · simp [he]

theorem owners_insert_of_not_below (t : Tree) (h : Below top loc) (node : Node) {loc' : Location}
    (hloc : ¬ Below top loc') : (t.insert loc node).owners loc' = t.owners loc' := by
  refine if_neg ?_
  rintro rfl
  exact hloc h

theorem changesOnly_insert_directory (h : Below top loc) :
    ChangesOnly top ids t (t.insert loc .directory) := by
  refine .of_contents_eq (outside_insert t h _) rfl rfl
    (fun _ => owners_insert_of_not_below t h .directory) rfl fun loc' node hn hb hnode => ?_
  rw [node?_insert t h.ne_nil] at hn
  split at hn
  · exact absurd (Option.some.inj hn).symm hnode
  · exact ⟨loc', hb, hn⟩

theorem changesOnly_insertDirectories (h : top <+: dir) (names : List Name) :
    ChangesOnly top ids t (t.insertDirectories dir names) := by
  induction names generalizing t dir with
  | nil => exact .refl top ids t
  | cons name names ih =>
    have hinsert : ChangesOnly top ids t (t.insert (dir ++ [name]) .directory) :=
      changesOnly_insert_directory (below_of_prefix_concat h)
    exact hinsert.trans (ih (h.trans (List.prefix_append _ _))) fun _ _ hid => hid

theorem changesOnly_insertFile (h : Below top loc) :
    ChangesOnly top ids t (t.insertFile loc).2 where
  outside := outside_insert t h _
  home := rfl
  user := rfl
  owners _ := owners_insert_of_not_below t h (.file t.contents.length)
  stored := by rw [length_contents_insertFile]; exact Nat.le_succ _
  content id _ _ := content_insertFile t loc id
  holds id hlt := by
    rintro ⟨loc', hb, hn⟩
    rw [node?_insertFile t h.ne_nil] at hn
    split at hn
    · -- The number of the new file is none of the old ones.
      cases hn
      exact absurd hlt (Nat.lt_irrefl _)
    · exact ⟨loc', hb, hn⟩
  links loc' target hlink := by
    rw [node?_insertFile t h.ne_nil] at hlink
    split at hlink
    · cases hlink
    · exact ⟨loc', hlink⟩

theorem changesOnly_setContent (t : Tree) (top : Location) (id : FileId) (c : Content) :
    ChangesOnly top (· = id) t (t.setContent id c) where
  outside := rfl
  home := rfl
  user := rfl
  owners _ _ := rfl
  stored := Nat.le_of_eq (length_contents_setContent t id c).symm
  content _ _ hid := content_setContent_of_ne t hid c
  holds _ _ h := h
  links loc _ h := ⟨loc, h⟩

theorem Refilled.changesOnly {id : FileId} (h : Refilled id t t') (top : Location) :
    ChangesOnly top (· = id) t t' :=
  h.preserved (fun u c hu => hu.trans (changesOnly_setContent u top id c) fun _ _ he => he)
    (.refl top _ t)

theorem changesOnly_keep {p : Location → Bool} (h : ∀ loc, ¬ Below top loc → p loc = true) :
    ChangesOnly top ids t (t.keep p) := by
  refine .of_contents_eq ?_ rfl rfl (fun _ _ => rfl) rfl fun loc node hn hb _ => ⟨loc, hb, ?_⟩
  · unfold Tree.outside keep
    rw [List.filter_filter]
    refine List.filter_congr fun entry _ => ?_
    by_cases hb : Below top entry.1
    · simp [hb]
    · simp [hb, h _ hb]
  · rw [node?_keep t (h [] fun hb' => hb'.ne_nil rfl)] at hn
    split at hn
    · exact hn
    · cases hn

theorem changesOnly_remove (h : Below top loc) : ChangesOnly top ids t (t.remove loc) :=
  changesOnly_keep fun _ hb => decide_eq_true fun hp => hb (h.of_prefix hp)

theorem changesOnly_clear (h : top <+: loc) : ChangesOnly top ids t (t.clear loc) :=
  changesOnly_keep fun _ hb => decide_eq_true fun hbelow => hb (Below.of_prefix_left hbelow h)

theorem outside_move (t : Tree) (hs : Below top source) (ht : Below top target) :
    (t.move source target).outside top = t.outside top := by
  unfold Tree.outside
  rw [nodes_move]
  -- Entry by entry: what is moved or replaced stands below `top`, before and afterwards.
  induction t.nodes with
  | nil => rfl
  | cons entry nodes ih =>
    obtain ⟨key, node⟩ := entry
    unfold movedNodes at ih ⊢
    by_cases hsk : source <+: key
    · have hb : Below top key := hs.of_prefix hsk
      have hb' : Below top (target ++ key.drop source.length) :=
        ht.of_prefix (List.prefix_append _ _)
      rw [List.filter_cons_of_pos (by simp [hsk]), List.map_cons, if_pos hsk,
        List.filter_cons_of_neg (by simpa using hb'), List.filter_cons_of_neg (by simpa using hb)]
      exact ih
    · by_cases htk : target <+: key
      · have hb : Below top key := ht.of_prefix htk
        rw [List.filter_cons_of_neg (by simp [hsk, htk]),
          List.filter_cons_of_neg (by simpa using hb)]
        exact ih
      · rw [List.filter_cons_of_pos (by simp [htk]), List.map_cons, if_neg hsk, List.filter_cons,
          List.filter_cons, ih]

theorem changesOnly_move (hs : Below top source) (ht : Below top target)
    (hst : ¬ source <+: target) (hts : ¬ target <+: source) :
    ChangesOnly top ids t (t.move source target) := by
  refine .of_contents_eq (outside_move t hs ht) rfl rfl
    (fun loc hb => if_neg fun hp => hb (ht.of_prefix hp)) rfl fun loc node hn hb _ => ?_
  rw [node?_move t hs.ne_nil hst hts] at hn
  split at hn
  · exact ⟨_, hs.of_prefix (List.prefix_append _ _), hn⟩
  · split at hn
    · cases hn
    · exact ⟨loc, hb, hn⟩

end VolumeStore.Host.Tree
