import Mathlib.Data.List.DropRight
import VolumeStore.Proofs.Text.Ascii
import VolumeStore.Text.Blank
import VolumeStore.Wire.Reply

/-!
# Ends of lines

A text that ends in neither of the two characters that close a line is left as it is when the end of
its line is taken away, and such texts are what that leaves.
-/

namespace VolumeStore.Text

variable {p : Char → Bool} {cs : List Char}

theorem dropTrailing_eq_rdropWhile (p : Char → Bool) (cs : List Char) :
    dropTrailing p cs = cs.rdropWhile p :=
  rfl

theorem dropTrailing_append_cons (a : List Char) {c : Char} (b : List Char) (h : p c = false) :
    dropTrailing p (a ++ c :: b) = a ++ c :: dropTrailing p b := by
  show ((a ++ c :: b).reverse.dropWhile p).reverse = a ++ c :: (b.reverse.dropWhile p).reverse
  rw [List.reverse_append, List.reverse_cons, List.append_assoc, List.dropWhile_append]
  split
  · simp_all
  · simp

def EndsOpen (cs : List Char) : Prop :=
  ∀ last ∈ cs.getLast?, isLineEnd last = false

instance (cs : List Char) : Decidable (EndsOpen cs) :=
  inferInstanceAs (Decidable (∀ last ∈ cs.getLast?, isLineEnd last = false))

theorem endsOpen_trimLineEnd (cs : List Char) : EndsOpen (trimLineEnd cs) := by
  intro last hlast
  have hne : cs.rdropWhile isLineEnd ≠ [] := by
    intro hnil
    rw [trimLineEnd, dropTrailing_eq_rdropWhile, hnil] at hlast
    cases hlast
  have hlast' : (cs.rdropWhile isLineEnd).getLast hne = last :=
    Option.some.inj ((List.getLast?_eq_some_getLast hne).symm.trans hlast)
  have hnot := List.rdropWhile_last_not isLineEnd cs hne
  rw [hlast'] at hnot
  simpa using hnot

theorem trimLineEnd_eq_self_iff : trimLineEnd cs = cs ↔ EndsOpen cs := by
  constructor
  · intro h
    exact h ▸ endsOpen_trimLineEnd cs
  · intro h
    rw [trimLineEnd, dropTrailing_eq_rdropWhile, List.rdropWhile_eq_self_iff]
    intro hne
    rw [h _ (List.getLast?_eq_some_getLast hne)]
    decide

theorem EndsOpen.of_append {a b : List Char} (h : EndsOpen (a ++ b)) : EndsOpen b := by
  intro last hlast
  apply h
  rw [List.getLast?_append, Option.mem_def.1 hlast]
  rfl

theorem endsOpen_of_forall (h : ∀ c ∈ cs, isLineEnd c = false) : EndsOpen cs :=
  fun last hlast => h last (List.mem_of_getLast? hlast)

theorem isLineEnd_of_all {c : Char} (h : (cs.all fun c => !isLineEnd c) = true) (hc : c ∈ cs) :
    isLineEnd c = false := by
  simpa using List.all_eq_true.1 h c hc

theorem trimLineEnd_concat (cs : List Char) {c : Char} (h : isLineEnd c = true) :
    trimLineEnd (cs ++ [c]) = trimLineEnd cs := by
  apply dropTrailing_append_of_all
  intro last hlast
  rwa [List.mem_singleton.1 hlast]

theorem trimLineEnd_append_lineEnd (cs : List Char) :
    trimLineEnd (cs ++ Reply.lineEnd.toList) = trimLineEnd cs := by
  apply dropTrailing_append_of_all
  intro c hc
  have hends : c = '\r' ∨ c = '\n' := by simpa [Reply.lineEnd] using hc
  rcases hends with rfl | rfl <;> rfl

theorem isLineEnd_of_isDigitOf {c : Char} (h : isDigitOf 10 c = true) : isLineEnd c = false := by
  simp only [isDigitOf, Bool.and_eq_true, decide_eq_true_eq] at h
  simp only [isLineEnd, Bool.or_eq_false_iff, beq_eq_false_iff_ne]
  constructor
  · rintro rfl
    exact absurd h.1 (by decide)
  · rintro rfl
    exact absurd h.1 (by decide)

theorem isDigitOf_of_mem_decimal {n : Nat} {c : Char} (h : c ∈ (decimal n).toList) :
    isDigitOf 10 c = true := by
  rw [toList_decimal] at h
  exact List.all_eq_true.1 (all_isDigitOf_toDigits (by decide) (by decide) n) c h

end VolumeStore.Text
