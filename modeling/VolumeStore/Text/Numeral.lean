/-!
# Numerals

Unsigned numbers as text. A numeral is a nonempty run of ASCII digits, with at most one plus sign
in front, whose value lies below a limit; nothing else is read, so neither a minus sign nor a
number that does not fit is a numeral. Numbers are written without sign and without leading zeros.
-/

namespace VolumeStore.Text

def isDigitOf (base : Nat) (c : Char) : Bool :=
  '0'.toNat ≤ c.toNat && c.toNat < '0'.toNat + base

def readDigits? (base : Nat) (cs : List Char) : Option Nat :=
  if !cs.isEmpty && cs.all (isDigitOf base) then some (Nat.ofDigitChars base cs 0) else none

/-- The digits of a numeral: all of it but one plus sign in front. -/
def unsigned : List Char → List Char
  | '+' :: cs => cs
  | cs => cs

def readNumeral? (base limit : Nat) (cs : List Char) : Option Nat :=
  (readDigits? base (unsigned cs)).filter (· < limit)

def readUInt16? (cs : List Char) : Option UInt16 :=
  (readNumeral? 10 UInt16.size cs).map UInt16.ofNat

def readUInt32? (cs : List Char) : Option UInt32 :=
  (readNumeral? 10 UInt32.size cs).map UInt32.ofNat

def readOctalUInt32? (cs : List Char) : Option UInt32 :=
  (readNumeral? 8 UInt32.size cs).map UInt32.ofNat

def readUInt64? (cs : List Char) : Option UInt64 :=
  (readNumeral? 10 UInt64.size cs).map UInt64.ofNat

def decimal (n : Nat) : String :=
  String.ofList (Nat.toDigits 10 n)

def octal (n : Nat) : String :=
  String.ofList (Nat.toDigits 8 n)

def decimalPadded (width n : Nat) : String :=
  let digits := Nat.toDigits 10 n
  String.ofList (List.replicate (width - digits.length) '0' ++ digits)

/-! ## Reading what was written -/

theorem isDigitOf_digitChar {base d : Nat} (hd : d < base) (hb : base ≤ 10) :
    isDigitOf base d.digitChar = true := by
  have h := Nat.toNat_digitChar_of_lt_ten (Nat.lt_of_lt_of_le hd hb)
  simp only [isDigitOf, h, Bool.and_eq_true, decide_eq_true_eq]
  exact ⟨Nat.le_add_right _ _, by have : '0'.toNat = 48 := rfl; omega⟩

theorem all_isDigitOf_toDigits {base : Nat} (hb : 1 < base) (hb' : base ≤ 10) (n : Nat) :
    (Nat.toDigits base n).all (isDigitOf base) = true := by
  induction n using Nat.strongRecOn with
  | ind n ih =>
    by_cases hn : n < base
    · simp [Nat.toDigits_of_lt_base hn, isDigitOf_digitChar hn hb']
    · rw [Nat.toDigits_of_base_le hb (Nat.not_lt.1 hn)]
      have hpos : 0 < base := Nat.lt_trans Nat.zero_lt_one hb
      have hlt : n / base < n := Nat.div_lt_self (by omega) hb
      simp [ih _ hlt, isDigitOf_digitChar (Nat.mod_lt n hpos) hb']

theorem readDigits?_toDigits {base : Nat} (hb : 1 < base) (hb' : base ≤ 10) (n : Nat) :
    readDigits? base (Nat.toDigits base n) = some n := by
  simp [readDigits?, all_isDigitOf_toDigits hb hb' n, Nat.ofDigitChars_toDigits hb hb']

theorem unsigned_of_all_digits {base : Nat} {cs : List Char}
    (h : cs.all (isDigitOf base) = true) : unsigned cs = cs := by
  unfold unsigned
  split
  · simp only [List.all_cons, Bool.and_eq_true, isDigitOf, decide_eq_true_eq] at h
    exact absurd h.1.1 (by decide)
  · rfl

theorem readNumeral?_toDigits (base : Nat) {limit n : Nat} (hb : 1 < base) (hb' : base ≤ 10)
    (hn : n < limit) : readNumeral? base limit (Nat.toDigits base n) = some n := by
  simp [readNumeral?, unsigned_of_all_digits (all_isDigitOf_toDigits hb hb' n),
    readDigits?_toDigits hb hb', hn]

@[simp] theorem toList_decimal (n : Nat) : (decimal n).toList = Nat.toDigits 10 n := by
  simp [decimal]

@[simp] theorem readUInt64?_decimal (n : UInt64) :
    readUInt64? (decimal n.toNat).toList = some n := by
  simp [readUInt64?, readNumeral?_toDigits 10 (by decide) (by decide) n.toNat_lt]

@[simp] theorem readUInt32?_decimal (n : UInt32) :
    readUInt32? (decimal n.toNat).toList = some n := by
  simp [readUInt32?, readNumeral?_toDigits 10 (by decide) (by decide) n.toNat_lt]

@[simp] theorem readOctalUInt32?_octal (n : UInt32) :
    readOctalUInt32? (octal n.toNat).toList = some n := by
  simp [readOctalUInt32?, octal, readNumeral?_toDigits 8 (by decide) (by decide) n.toNat_lt]

end VolumeStore.Text
