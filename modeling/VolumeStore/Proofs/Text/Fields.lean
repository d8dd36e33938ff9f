import Mathlib.Data.List.Induction
import VolumeStore.Text.Fields

/-!
# Fields between separators

A text that is taken apart at each separator falls into fields without one, and is put together
again with a separator between each two of them. The first field reaches up to the first separator.
-/

namespace VolumeStore.Text

theorem not_mem_of_mem_splitOn {α : Type} [BEq α] [LawfulBEq α] {sep : α} {xs field : List α}
    (h : field ∈ xs.splitOn sep) : sep ∉ field := by
  induction xs generalizing field with
  | nil =>
    rw [List.splitOn_nil] at h
    simp [List.mem_singleton.1 h]
  | cons x xs ih =>
    rw [List.splitOn_cons_eq_if_modifyHead] at h
    split at h
    · rcases List.mem_cons.1 h with rfl | h
      · simp
      · exact ih h
    next hx =>
      cases hxs : xs.splitOn sep with
      | nil => exact absurd hxs (List.splitOn_ne_nil _ _)
      | cons first fields =>
        rw [hxs, List.modifyHead_cons] at h
        rcases List.mem_cons.1 h with rfl | h
        · have hfirst := ih (hxs ▸ List.mem_cons_self)
          simp only [List.mem_cons, not_or]
          exact ⟨fun he => hx (by simp [he]), hfirst⟩
        · exact ih (hxs ▸ List.mem_cons_of_mem _ h)

theorem subset_intercalate {α : Type} (sep : List α) {fields : List (List α)} {field : List α}
    (h : field ∈ fields) : field ⊆ List.intercalate sep fields := by
  induction fields with
  | nil => cases h
  | cons first fields ih =>
    cases fields with
    | nil =>
      rw [List.mem_singleton.1 h, List.intercalate_singleton]
      exact List.Subset.refl first
    | cons next fields =>
      rw [List.intercalate_cons_cons]
      rcases List.mem_cons.1 h with rfl | h
      · exact fun c hc => List.mem_append_left _ (List.mem_append_left _ hc)
      · exact fun c hc => List.mem_append_right _ (ih h hc)

theorem mem_intercalate {α : Type} {sep x : α} {fields : List (List α)}
    (h : x ∈ List.intercalate [sep] fields) : x = sep ∨ ∃ field ∈ fields, x ∈ field := by
  induction fields with
  | nil => cases h
  | cons first fields ih =>
    cases fields with
    | nil =>
      rw [List.intercalate_singleton] at h
      exact .inr ⟨first, List.mem_cons_self, h⟩
    | cons next fields =>
      rw [List.intercalate_cons_cons, List.append_assoc] at h
      rcases List.mem_append.1 h with h | h
      · exact .inr ⟨first, List.mem_cons_self, h⟩
      rcases List.mem_append.1 h with h | h
      · exact .inl (List.mem_singleton.1 h)
      rcases ih h with h | ⟨field, hmem, h⟩
      · exact .inl h
      · exact .inr ⟨field, List.mem_cons_of_mem _ hmem, h⟩

theorem subset_of_mem_splitOn {α : Type} [BEq α] [LawfulBEq α] {sep : α} {xs field : List α}
    (h : field ∈ xs.splitOn sep) : field ⊆ xs := by
  have hfield := subset_intercalate [sep] h
  rwa [List.intercalate_splitOn] at hfield

theorem length_splitOn {α : Type} [BEq α] (sep : α) (xs : List α) :
    (xs.splitOn sep).length = xs.count sep + 1 := by
  induction xs with
  | nil => rfl
  | cons x xs ih =>
    rw [List.splitOn_cons_eq_if_modifyHead, List.count_cons]
    split
    · rw [List.length_cons, ih]
    · rw [List.length_modifyHead, ih]

/-! ## The first field -/

variable {sep : Char} {cs a b p : List Char}

theorem eq_append_of_firstField (h : firstField sep cs = (a, some b)) : cs = a ++ sep :: b := by
  unfold firstField at h
  split at h
  next hcut =>
    cases h
    exact (cut?_eq_some_iff.1 hcut).2
  · cases h

theorem isPrefix_append (h : p <+: a ++ b) : p <+: a ∨ ∃ q, q <+: b ∧ p = a ++ q := by
  obtain hle | ⟨q, rfl⟩ := List.prefix_or_prefix_of_prefix h (List.prefix_append a b)
  · exact .inl hle
  · exact .inr ⟨q, (List.prefix_append_right_inj a).1 h, rfl⟩

theorem firstField_isPrefix (sep : Char) (cs : List Char) : (firstField sep cs).1 <+: cs := by
  unfold firstField
  split
  next x y hcut =>
    rw [(cut?_eq_some_iff.1 hcut).2]
    exact List.prefix_append x _
  · exact List.prefix_refl cs

theorem notMem_firstField (sep : Char) (cs : List Char) : sep ∉ (firstField sep cs).1 := by
  unfold firstField
  split
  next hcut => exact (cut?_eq_some_iff.1 hcut).1
  next hcut => exact cut?_eq_none_iff.1 hcut

theorem isPrefix_firstField (h : a <+: cs) (hsep : sep ∉ a) : a <+: (firstField sep cs).1 := by
  unfold firstField
  split
  next x y hcut =>
    obtain ⟨-, rfl⟩ := cut?_eq_some_iff.1 hcut
    obtain hle | ⟨q, hq, rfl⟩ := isPrefix_append h
    · exact hle
    · obtain rfl | ⟨tail, rfl, -⟩ := List.prefix_cons_iff.1 hq
      · simp
      · exact absurd (List.mem_append_right x List.mem_cons_self) hsep
  · exact h

theorem head?_splitOn (sep : Char) (cs : List Char) :
    (cs.splitOn sep).head? = some (firstField sep cs).1 := by
  cases h : cut? sep cs with
  | none =>
    rw [List.splitOn_eq_singleton (cut?_eq_none_iff.1 h), firstField, h]
    rfl
  | some fields =>
    obtain ⟨a, b⟩ := fields
    obtain ⟨ha, rfl⟩ := cut?_eq_some_iff.1 h
    rw [List.splitOn_append_cons_self_of_not_mem ha, firstField_append_cons ha]
    rfl

end VolumeStore.Text
