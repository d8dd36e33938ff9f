import Mathlib.Data.List.Basic
import VolumeStore.Host.Entries
import VolumeStore.Host.Handle

/-!
# The view of a changed tree

What `node?` and `content` show after each change of a tree. A tree is well formed when every entry
stands in a directory and no two entries share a content; the changes keep it so.
-/

namespace VolumeStore.Host

theorem lookup_map_snd {α β γ : Type} [BEq α] [LawfulBEq α] (g : α → β → γ)
    (entries : List (α × β)) (key : α) :
    (entries.map fun entry => (entry.1, g entry.1 entry.2)).lookup key =
      (entries.lookup key).map (g key) := by
  induction entries with
  | nil => rfl
  | cons entry entries ih =>
    rw [List.map_cons, List.lookup_cons, List.lookup_cons, ih]
    cases hkey : key == entry.1 with
    | true => simp [eq_of_beq hkey]
    | false => rfl

def Below (top loc : Location) : Prop :=
  top <+: loc ∧ loc ≠ top

instance (top loc : Location) : Decidable (Below top loc) :=
  inferInstanceAs (Decidable (_ ∧ _))

theorem not_below_self (loc : Location) : ¬ Below loc loc :=
  fun h => h.2 rfl

theorem below_concat (loc : Location) (name : Name) : Below loc (loc ++ [name]) :=
  ⟨List.prefix_append _ _, by simp⟩

theorem below_append {loc : Location} {names : List Name} (h : names ≠ []) :
    Below loc (loc ++ names) :=
  ⟨List.prefix_append _ _, by simpa using h⟩

theorem Below.of_prefix {top loc loc' : Location} (h : Below top loc) (h' : loc <+: loc') :
    Below top loc' := by
  refine ⟨h.1.trans h', ?_⟩
  rintro rfl
  exact h.2 (h'.eq_of_length_le h.1.length_le)

theorem Below.of_prefix_left {top top' loc : Location} (h : Below top' loc) (h' : top <+: top') :
    Below top loc := by
  refine ⟨h'.trans h.1, ?_⟩
  rintro rfl
  exact h.2 (h'.eq_of_length_le h.1.length_le)

theorem Below.ne_nil {top loc : Location} (h : Below top loc) : loc ≠ [] := by
  rintro rfl
  exact h.2 (List.prefix_nil.1 h.1).symm

theorem below_of_prefix_concat {top loc : Location} {name : Name} (h : top <+: loc) :
    Below top (loc ++ [name]) :=
  (below_concat loc name).of_prefix_left h

namespace Tree

/-! ## Single changes -/

theorem node?_eq_lookup (t : Tree) {loc : Location} (h : loc ≠ []) :
    t.node? loc = t.nodes.lookup loc := by
  simp [node?, h]

theorem mem_children_iff {t : Tree} {loc : Location} {name : Name} {node : Node} :
    (name, node) ∈ t.children loc ↔ (loc ++ [name], node) ∈ t.nodes := by
  unfold children
  rw [List.mem_filterMap]
  constructor
  · rintro ⟨⟨key, node'⟩, hentry, he⟩
    cases hlast : key.getLast? with
    | none =>
      simp only [hlast] at he
      cases he
    | some last =>
      simp only [hlast, Option.ite_none_right_eq_some, Option.some.injEq, Prod.mk.injEq] at he
      obtain ⟨rfl, rfl, rfl⟩ := he
      rwa [List.dropLast_append_getLast? _ hlast]
  · exact fun hentry => ⟨_, hentry, by simp⟩

theorem node?_of_mem_children {t : Tree} {loc : Location} {name : Name} {node : Node}
    (h : (name, node) ∈ t.children loc) : t.node? (loc ++ [name]) ≠ none := by
  rw [node?_eq_lookup t (by simp), Ne, List.lookup_eq_none_iff]
  intro hnone
  simpa using hnone _ (mem_children_iff.1 h)

theorem node?_clear (t : Tree) (loc loc' : Location) :
    (t.clear loc).node? loc' = if Below loc loc' then none else t.node? loc' := by
  have hnil : ¬ Below loc [] := fun h => h.ne_nil rfl
  rw [clear, node?_keep t (decide_eq_true hnil)]
  by_cases hp : Below loc loc'
  · rw [if_pos hp, if_neg]
    simpa [Below] using hp
  · rw [if_neg hp, if_pos]
    exact decide_eq_true hp

theorem node?_clear_of_ne_none (t : Tree) (loc : Location) {loc' : Location}
    (h : (t.clear loc).node? loc' ≠ none) : (t.clear loc).node? loc' = t.node? loc' := by
  rw [node?_clear] at h ⊢
  split at h
  · exact absurd rfl h
  next hb => rw [if_neg hb]

theorem node?_insert_of_some (t : Tree) {loc loc' : Location} (hne : loc ≠ [])
    (hfree : t.node? loc = none) {node node' : Node} (h : t.node? loc' = some node') :
    (t.insert loc node).node? loc' = some node' := by
  rw [node?_insert t hne, if_neg, h]
  rintro rfl
  rw [hfree] at h
  cases h

theorem node?_insertFile (t : Tree) {loc : Location} (h : loc ≠ []) (loc' : Location) :
    (t.insertFile loc).2.node? loc' =
      if loc' = loc then some (.file t.contents.length) else t.node? loc' :=
  node?_insert t h _ loc'

theorem content_of_length_le (t : Tree) {id : FileId} (h : t.contents.length ≤ id) :
    t.content id = {} := by
  rw [content, List.getD_eq_getElem?_getD, List.getElem?_eq_none h]
  rfl

@[simp] theorem content_insertFile (t : Tree) (loc : Location) (id : FileId) :
    (t.insertFile loc).2.content id = t.content id := by
  simp only [content, insertFile, List.getD_eq_getElem?_getD]
  obtain h | h | h := Nat.lt_trichotomy id t.contents.length
  · rw [List.getElem?_append_left h]
  · subst h
    simp
  · rw [List.getElem?_eq_none (Nat.le_of_lt h),
      List.getElem?_eq_none (by simpa using Nat.succ_le_of_lt h)]

theorem content_setContent_of_ne (t : Tree) {id id' : FileId} (h : id' ≠ id) (c : Content) :
    (t.setContent id c).content id' = t.content id' := by
  simp [content, setContent, List.getD_eq_getElem?_getD, Ne.symm h]

@[simp] theorem length_contents_setContent (t : Tree) (id : FileId) (c : Content) :
    (t.setContent id c).contents.length = t.contents.length := by
  simp [setContent]

@[simp] theorem length_contents_insertFile (t : Tree) (loc : Location) :
    (t.insertFile loc).2.contents.length = t.contents.length + 1 := by
  simp [insertFile]

/-! ## Filling files -/

/-- One tree has become the other while only the content of a file was changed, any number of
times. -/
inductive Refilled (id : FileId) (t : Tree) : Tree → Prop where
  | kept : Refilled id t t
  | filled {t' : Tree} (h : Refilled id t t') (c : Content) : Refilled id t (t'.setContent id c)

namespace Refilled

variable {t t' t'' : Tree} {id : FileId}

theorem preserved {P : Tree → Prop} (h : Refilled id t t')
    (hstep : ∀ u c, P u → P (u.setContent id c)) (ht : P t) : P t' := by
  induction h with
  | kept => exact ht
  | filled _ c ih => exact hstep _ c ih

theorem trans (h : Refilled id t t') (h' : Refilled id t' t'') : Refilled id t t'' :=
  h'.preserved (fun _ c hu => hu.filled c) h

theorem of_setContent (t : Tree) (id : FileId) (c : Content) : Refilled id t (t.setContent id c) :=
  kept.filled c

theorem node?_eq (h : Refilled id t t') (loc : Location) : t'.node? loc = t.node? loc :=
  h.preserved (P := fun u => u.node? loc = t.node? loc) (fun _ _ hu => hu) rfl

theorem length_contents (h : Refilled id t t') : t'.contents.length = t.contents.length :=
  h.preserved (P := fun u => u.contents.length = t.contents.length)
    (fun u c hu => (length_contents_setContent u id c).trans hu) rfl

end Refilled

/-! ## Moving -/

def movedNodes (source target : Location) (nodes : List (Location × Node)) :
    List (Location × Node) :=
  (nodes.filter fun entry => source <+: entry.1 ∨ ¬ target <+: entry.1).map fun entry =>
    if source <+: entry.1 then (target ++ entry.1.drop source.length, entry.2) else entry

theorem nodes_move (t : Tree) (source target : Location) :
    (t.move source target).nodes = movedNodes source target t.nodes := rfl

theorem lookup_movedNodes_append (source target : Location) (nodes : List (Location × Node))
    (names : List Name) :
    (movedNodes source target nodes).lookup (target ++ names) = nodes.lookup (source ++ names) := by
  induction nodes with
  | nil => rfl
  | cons entry nodes ih =>
    obtain ⟨key, node⟩ := entry
    simp only [movedNodes] at ih ⊢
    -- Below the target there are only entries that were moved there: those from before are dropped.
    by_cases hs : source <+: key
    · obtain ⟨rest, rfl⟩ := hs
      rw [List.filter_cons_of_pos (by simp)]
      by_cases hr : names = rest
      · subst hr
        simp
      · have ht : (target ++ names == target ++ rest) = false := by simpa using hr
        have hn : (source ++ names == source ++ rest) = false := by simpa using hr
        simp only [List.map_cons, List.prefix_append, ↓reduceIte, List.drop_left,
          List.lookup_cons, ht, hn]
        exact ih
    · have hn : (source ++ names == key) = false := by
        rw [beq_eq_false_iff_ne]
        rintro rfl
        exact hs (List.prefix_append _ _)
      rw [List.lookup_cons, hn]
      by_cases ht : target <+: key
      · rw [List.filter_cons_of_neg (by simp [hs, ht])]
        exact ih
      · have hk : (target ++ names == key) = false := by
          rw [beq_eq_false_iff_ne]
          rintro rfl
          exact ht (List.prefix_append _ _)
        rw [List.filter_cons_of_pos (by simp [ht])]
        simp only [List.map_cons, hs, ↓reduceIte, List.lookup_cons, hk]
        exact ih

theorem lookup_movedNodes_of_not_prefix {source target loc : Location}
    (nodes : List (Location × Node)) (ht : ¬ target <+: loc) :
    (movedNodes source target nodes).lookup loc =
      if source <+: loc then none else nodes.lookup loc := by
  induction nodes with
  | nil => simp [movedNodes]
  | cons entry nodes ih =>
    obtain ⟨key, node⟩ := entry
    simp only [movedNodes] at ih ⊢
    -- The entry is moved, taken out of the way of the moved ones, or kept.
    by_cases hs : source <+: key
    · have hl : (loc == target ++ key.drop source.length) = false := by
        rw [beq_eq_false_iff_ne]
        rintro rfl
        exact ht (List.prefix_append _ _)
      rw [List.filter_cons_of_pos (by simp [hs])]
      simp only [List.map_cons, hs, ↓reduceIte, List.lookup_cons, hl, ih]
      by_cases hsl : source <+: loc
      · simp [hsl]
      · have hk : (loc == key) = false := by
          rw [beq_eq_false_iff_ne]
          rintro rfl
          exact hsl hs
        simp [hsl, hk]
    · by_cases htk : target <+: key
      · have hk : (loc == key) = false := by
          rw [beq_eq_false_iff_ne]
          rintro rfl
          exact ht htk
        rw [List.filter_cons_of_neg (by simp [hs, htk]), ih, List.lookup_cons, hk]
      · rw [List.filter_cons_of_pos (by simp [htk])]
        simp only [List.map_cons, hs, ↓reduceIte, List.lookup_cons, ih]
        by_cases hk : loc = key
        · subst hk
          simp [hs]
        · have hk' : (loc == key) = false := by simpa using hk
          simp [hk']

/-- After a move, everything at and below `source` stands at `target` and nowhere else, and the rest
of the tree stays. -/
theorem node?_move (t : Tree) {source target : Location} (hs : source ≠ [])
    (hst : ¬ source <+: target) (hts : ¬ target <+: source) (loc : Location) :
    (t.move source target).node? loc =
      if target <+: loc then t.node? (source ++ loc.drop target.length)
      else if source <+: loc then none else t.node? loc := by
  have htarget : target ≠ [] := by
    rintro rfl
    exact hts List.nil_prefix
  -- Whatever stood at `target` has gone, so what is there now has come from `source`.
  by_cases ht : target <+: loc
  · obtain ⟨names, rfl⟩ := ht
    rw [if_pos (List.prefix_append _ _), List.drop_left, node?_eq_lookup _ (by simp [htarget]),
      node?_eq_lookup _ (by simp [hs]), nodes_move, lookup_movedNodes_append]
  · rw [if_neg ht]
    by_cases hl : loc = []
    · subst hl
      simp [hs]
    · rw [node?_eq_lookup _ hl, node?_eq_lookup _ hl, nodes_move,
        lookup_movedNodes_of_not_prefix _ ht]

end Tree

end VolumeStore.Host
