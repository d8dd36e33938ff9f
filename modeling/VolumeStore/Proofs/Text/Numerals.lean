import VolumeStore.Proofs.Text.LineEnd

/-!
# Numerals

What it takes for a text to be read as a number. Zeros in front of a number make no difference, and
the start of a numeral stands for a tenth of its number at most.
-/

namespace VolumeStore.Text

variable {cs front tail : List Char} {c : Char}

theorem readDigits?_eq_some_iff {base n : Nat} :
    readDigits? base cs = some n ↔
      (cs ≠ [] ∧ ∀ c ∈ cs, isDigitOf base c = true) ∧ Nat.ofDigitChars base cs 0 = n := by
  have hcond : (!cs.isEmpty && cs.all (isDigitOf base)) = true ↔
      cs ≠ [] ∧ ∀ c ∈ cs, isDigitOf base c = true := by
    rw [Bool.and_eq_true, List.all_eq_true, Bool.not_eq_true', List.isEmpty_eq_false_iff]
  rw [readDigits?, Option.ite_none_right_eq_some, hcond, Option.some.injEq]

theorem readUInt64?_eq_some_iff {n : UInt64} :
    readUInt64? cs = some n ↔ readDigits? 10 (unsigned cs) = some n.toNat := by
  rw [readUInt64?, readNumeral?, Option.map_eq_some_iff]
  constructor
  · rintro ⟨m, hm, rfl⟩
    obtain ⟨hread, hlt⟩ := Option.filter_eq_some_iff.1 hm
    rw [UInt64.toNat_ofNat_of_lt' (of_decide_eq_true hlt)]
    exact hread
  · intro hread
    refine ⟨n.toNat, ?_, UInt64.ofNat_toNat⟩
    exact Option.filter_eq_some_iff.2 ⟨hread, decide_eq_true n.toNat_lt⟩

theorem mem_of_readUInt64? {n : UInt64} (h : readUInt64? cs = some n) (hc : c ∈ cs) :
    c = '+' ∨ isDigitOf 10 c = true := by
  have hread := readDigits?_eq_some_iff.1 (readUInt64?_eq_some_iff.1 h)
  have hsign : c = '+' ∨ c ∈ unsigned cs := by
    unfold unsigned
    split
    · exact List.mem_cons.1 hc
    · exact .inr hc
  exact hsign.imp id (hread.1.2 c)

theorem isLineEnd_of_readUInt64? {n : UInt64} (h : readUInt64? cs = some n) (hc : c ∈ cs) :
    isLineEnd c = false := by
  obtain rfl | hdigit := mem_of_readUInt64? h hc
  · rfl
  · exact isLineEnd_of_isDigitOf hdigit

theorem space_notMem_of_readUInt64? {n : UInt64} (h : readUInt64? cs = some n) : ' ' ∉ cs := by
  intro hspace
  exact absurd (mem_of_readUInt64? h hspace) (by decide)

/-! ## Zeros in front -/

theorem toList_decimalPadded (width n : Nat) : (decimalPadded width n).toList =
    List.replicate (width - (Nat.toDigits 10 n).length) '0' ++ Nat.toDigits 10 n := by
  rw [decimalPadded, String.toList_ofList]

theorem isDigitOf_of_mem_decimalPadded {width n : Nat} (h : c ∈ (decimalPadded width n).toList) :
    isDigitOf 10 c = true := by
  rw [toList_decimalPadded] at h
  obtain hzero | hdigit := List.mem_append.1 h
  · rw [List.eq_of_mem_replicate hzero]
    decide
  · rw [← toList_decimal] at hdigit
    exact isDigitOf_of_mem_decimal hdigit

theorem readDigits?_decimalPadded (width n : Nat) :
    readDigits? 10 (decimalPadded width n).toList = some n := by
  have hdigits : Nat.toDigits 10 n ≠ [] := Nat.toDigits_ne_nil
  refine readDigits?_eq_some_iff.2 ⟨⟨?_, fun c hc => isDigitOf_of_mem_decimalPadded hc⟩, ?_⟩
  · rw [toList_decimalPadded]
    exact List.append_ne_nil_of_right_ne_nil _ hdigits
  · -- The zeros leave nothing to the digits behind them.
    rw [toList_decimalPadded, Nat.ofDigitChars_append, Nat.ofDigitChars_replicate_zero,
      Nat.mul_zero]
    exact Nat.ofDigitChars_ten_toDigits

theorem readUInt32?_decimalPadded (width : Nat) (n : UInt32) :
    readUInt32? (decimalPadded width n.toNat).toList = some n := by
  have hunsigned : unsigned (decimalPadded width n.toNat).toList =
      (decimalPadded width n.toNat).toList :=
    unsigned_of_all_digits (List.all_eq_true.2 fun c hc => isDigitOf_of_mem_decimalPadded hc)
  rw [readUInt32?, readNumeral?, hunsigned, readDigits?_decimalPadded, Option.filter_some,
    if_pos (decide_eq_true n.toNat_lt), Option.map_some, UInt32.ofNat_toNat]

/-! ## Numerals that are cut off -/

theorem unsigned_append (hfront : front ≠ []) (tail : List Char) :
    unsigned (front ++ tail) = unsigned front ++ tail := by
  cases front with
  | nil => exact absurd rfl hfront
  | cons c front =>
    by_cases hc : c = '+'
    · rw [hc]
      rfl
    · -- Without a sign both texts stay as they are.
      have hplain : ∀ ds : List Char, unsigned (c :: ds) = c :: ds := by
        intro ds
        unfold unsigned
        split
        next h => exact absurd (List.cons.inj h).1 hc
        · rfl
      rw [List.cons_append, hplain, hplain, List.cons_append]

theorem ten_mul_le_of_readUInt64? {n k : UInt64} (hall : readUInt64? (front ++ tail) = some n)
    (hcut : readUInt64? front = some k) (htail : tail ≠ []) : 10 * k.toNat ≤ n.toNat := by
  rw [readUInt64?_eq_some_iff, readDigits?_eq_some_iff] at hall hcut
  have hfront : front ≠ [] := by
    rintro rfl
    exact hcut.1.1 rfl
  have hpow : 10 ^ 1 ≤ 10 ^ tail.length :=
    Nat.pow_le_pow_right (by decide) (List.length_pos_iff.2 htail)
  calc 10 * k.toNat
      ≤ 10 ^ tail.length * k.toNat := Nat.mul_le_mul_right _ hpow
    _ ≤ 10 ^ tail.length * k.toNat + Nat.ofDigitChars 10 tail 0 := Nat.le_add_right _ _
    _ = Nat.ofDigitChars 10 tail k.toNat := Nat.ofDigitChars_eq_ofDigitChars_zero.symm
    _ = Nat.ofDigitChars 10 (unsigned front ++ tail) 0 := by rw [Nat.ofDigitChars_append, hcut.2]
    _ = n.toNat := by rw [← unsigned_append hfront, hall.2]

end VolumeStore.Text
