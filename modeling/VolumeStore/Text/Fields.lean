/-!
# Fields of a text

Taking a text apart at one occurrence of a separator. `cut?` divides at the first occurrence,
`cutLast?` at the last; both say exactly what stands before and after it. Taking a text apart at
every occurrence is `List.splitOn`.
-/

namespace VolumeStore.Text

def cut? (sep : Char) : List Char → Option (List Char × List Char)
  | [] => none
  | c :: cs => if c = sep then some ([], cs) else (cut? sep cs).map fun (a, b) => (c :: a, b)

def cutLast? (sep : Char) (cs : List Char) : Option (List Char × List Char) :=
  (cut? sep cs.reverse).map fun (a, b) => (b.reverse, a.reverse)

def firstField (sep : Char) (cs : List Char) : List Char × Option (List Char) :=
  match cut? sep cs with
  | some (a, b) => (a, some b)
  | none => (cs, none)

theorem cut?_append_cons {sep : Char} {a : List Char} (h : sep ∉ a) (b : List Char) :
    cut? sep (a ++ sep :: b) = some (a, b) := by
  induction a with
  | nil => simp [cut?]
  | cons c a ih =>
    simp only [List.mem_cons, not_or] at h
    simp [cut?, Ne.symm h.1, ih h.2]

theorem cut?_eq_some_iff {sep : Char} {cs a b : List Char} :
    cut? sep cs = some (a, b) ↔ sep ∉ a ∧ cs = a ++ sep :: b := by
  constructor
  · induction cs generalizing a b with
    | nil => simp [cut?]
    | cons c cs ih =>
      by_cases hc : c = sep
      · rintro h
        simp only [cut?, hc, ↓reduceIte, Option.some.injEq, Prod.mk.injEq] at h
        obtain ⟨rfl, rfl⟩ := h
        simp [hc]
      · intro h
        simp only [cut?, hc, ↓reduceIte, Option.map_eq_some_iff, Prod.exists, Prod.mk.injEq] at h
        obtain ⟨a', b', h', rfl, rfl⟩ := h
        obtain ⟨hmem, rfl⟩ := ih h'
        exact ⟨by simp [Ne.symm hc, hmem], rfl⟩
  · rintro ⟨h, rfl⟩
    exact cut?_append_cons h b

theorem cut?_eq_none_iff {sep : Char} {cs : List Char} : cut? sep cs = none ↔ sep ∉ cs := by
  induction cs with
  | nil => simp [cut?]
  | cons c cs ih =>
    by_cases hc : c = sep
    · simp [cut?, hc]
    · simp [cut?, hc, ih, Ne.symm hc]

theorem cutLast?_append_cons {sep : Char} (a : List Char) {b : List Char} (h : sep ∉ b) :
    cutLast? sep (a ++ sep :: b) = some (a, b) := by
  have hb : sep ∉ b.reverse := by simpa using h
  simp [cutLast?, cut?_append_cons hb]

theorem firstField_of_not_mem {sep : Char} {cs : List Char} (h : sep ∉ cs) :
    firstField sep cs = (cs, none) := by
  simp [firstField, cut?_eq_none_iff.2 h]

theorem firstField_append_cons {sep : Char} {a : List Char} (h : sep ∉ a) (b : List Char) :
    firstField sep (a ++ sep :: b) = (a, some b) := by
  simp [firstField, cut?_append_cons h]

end VolumeStore.Text
