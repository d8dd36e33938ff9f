import VolumeStore.Text.Blank

/-!
# Words

A text falls into words at its blanks. More blanks than one between two words, or in front of the
first one, make no difference.
-/

namespace VolumeStore.Text

variable {word blanks : List Char}

theorem words_singleton (hne : word ≠ []) (hword : ∀ c ∈ word, isBlank c = false) :
    words word = [word] := by
  unfold words
  rw [List.splitOnP_eq_singleton hword, List.filter_cons_of_pos (by simpa using hne),
    List.filter_nil]

theorem words_append_cons (hne : word ≠ []) (hword : ∀ c ∈ word, isBlank c = false)
    {blank : Char} (hblank : isBlank blank = true) (rest : List Char) :
    words (word ++ blank :: rest) = word :: words rest := by
  unfold words
  rw [List.splitOnP_append_cons_of_forall_mem hword blank hblank,
    List.filter_cons_of_pos (by simpa using hne)]

theorem words_blanks_append (hblanks : ∀ c ∈ blanks, isBlank c = true) (cs : List Char) :
    words (blanks ++ cs) = words cs := by
  induction blanks with
  | nil => rfl
  | cons blank blanks ih =>
    have hnone : ∀ c ∈ ([] : List Char), isBlank c = false :=
      fun c hc => absurd hc List.not_mem_nil
    have hsplit : (blank :: (blanks ++ cs)).splitOnP isBlank =
        [] :: (blanks ++ cs).splitOnP isBlank :=
      List.splitOnP_append_cons_of_forall_mem hnone
        blank (hblanks blank List.mem_cons_self) (blanks ++ cs)
    rw [List.cons_append, words, hsplit, List.filter_cons_of_neg (by simp)]
    exact ih fun c hc => hblanks c (List.mem_cons_of_mem _ hc)

theorem words_intercalate {blank : Char} (hblank : isBlank blank = true) {fields : List (List Char)}
    (h : ∀ word ∈ fields, word ≠ [] ∧ ∀ c ∈ word, isBlank c = false) :
    words ([blank].intercalate fields) = fields := by
  induction fields with
  | nil => rfl
  | cons word fields ih =>
    obtain ⟨hne, hword⟩ := h word List.mem_cons_self
    cases fields with
    | nil =>
      rw [List.intercalate_singleton]
      exact words_singleton hne hword
    | cons next fields =>
      have hrest := ih fun word hmem => h word (List.mem_cons_of_mem _ hmem)
      rw [List.intercalate_cons_cons, List.append_assoc, List.singleton_append,
        words_append_cons hne hword hblank, hrest]

end VolumeStore.Text
