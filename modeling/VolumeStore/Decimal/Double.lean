import VolumeStore.Text.Numeral

/-!
# Numbers of double precision

A finite number is a whole number of 53 bits times a power of two. A decimal text stands for the
nearest such number, and of two equally near ones for the even one; a number is written with the
fewest digits that stand for it again, without an exponent.
-/

namespace VolumeStore

inductive Double where
  | nan
  | infinite (negative : Bool)
  /-- The number `significand * 2 ^ exponent` with its sign. -/
  | finite (negative : Bool) (significand : Nat) (exponent : Int)
deriving DecidableEq, Repr, Inhabited

namespace Double

def precision : Nat := 53

def minExponent : Int := -1074

def maxExponent : Int := 971

def roundHalfEven (num den : Nat) : Nat :=
  let q := num / den
  let twice := 2 * (num % den)
  if twice < den ∨ (twice = den ∧ q % 2 = 0) then q else q + 1

/-- The numerator and the denominator of `num / den / 2 ^ e`. -/
def scaleDown (num den : Nat) (e : Int) : Nat × Nat :=
  (num <<< (-e).toNat, den <<< e.toNat)

def exponentOf (num den : Nat) : Int :=
  let guess := (num.log2 : Int) - den.log2 - precision
  let (n, d) := scaleDown num den guess
  max minExponent (if n / d < 1 <<< precision then guess else guess + 1)

def ofQuotient (negative : Bool) (num den : Nat) : Double :=
  let e := exponentOf num den
  let (n, d) := scaleDown num den e
  let m := roundHalfEven n d
  let (m, e) := if m = 1 <<< precision then (1 <<< (precision - 1), e + 1) else (m, e)
  if maxExponent < e then infinite negative else finite negative m e

/-- Powers of ten beyond this lead out of the range of the format, whatever their digits. -/
def decimalRange : Int := 1200

def ofDecimal (negative : Bool) (digits : Nat) (exponent : Int) : Double :=
  let size : Int := (Nat.toDigits 10 digits).length
  if digits = 0 then finite negative 0 minExponent
  else if decimalRange < size + exponent then infinite negative
  else if size + exponent < -decimalRange then finite negative 0 minExponent
  else ofQuotient negative (digits * Nat.pow 10 exponent.toNat) (Nat.pow 10 (-exponent).toNat)

def isFinite : Double → Bool
  | finite _ _ _ => true
  | _ => false

/-- The nearest whole number from zero up to below `2 ^ 64`, halves away from zero; what lies
outside becomes the nearest end. -/
def toWord : Double → UInt64
  | nan => 0
  | infinite negative => if negative then 0 else UInt64.ofNat (UInt64.size - 1)
  | finite true _ _ => 0
  | finite false m e =>
    let (n, d) := scaleDown m 1 (-e)
    UInt64.ofNat (min ((2 * n + d) / (2 * d)) (UInt64.size - 1))

/-! ## The fewest digits -/

/-- The numbers that round to a significand and an exponent, in units of `2 ^ (exponent - 2)`: the
least, the number itself and the greatest. Below a power of two the distance is half as great. -/
def interval (m : Nat) (e : Int) : Nat × Nat × Nat :=
  let below := if m = 1 <<< (precision - 1) ∧ minExponent < e then 1 else 2
  (4 * m - below, 4 * m, 4 * m + 2)

/-- The multiple of `10 ^ place` that lies nearest to a number among those that stand for it, as a
count of such steps, if there is one; of two equally near ones the greater. -/
def nearestAt? (m : Nat) (e : Int) (place : Int) : Option Nat :=
  let (low, mid, high) := interval m e
  -- Both sides are brought to whole multiples of one unit.
  let step := Nat.pow 10 place.toNat <<< (2 - e).toNat
  let unit := Nat.pow 10 (-place).toNat <<< (e - 2).toNat
  let (low, mid, high) := (low * unit, mid * unit, high * unit)
  let inside (k : Nat) : Bool :=
    if m % 2 = 0 then low ≤ k * step && k * step ≤ high else low < k * step && k * step < high
  let down := mid / step
  let nearDown := 2 * (mid % step) < step
  match inside down, inside (down + 1) with
  | true, true => some (if nearDown then down else down + 1)
  | true, false => some down
  | false, true => some (down + 1)
  | false, false => none

def leadingPlace (m : Nat) (e : Int) : Int :=
  if 0 ≤ e then (Nat.toDigits 10 (m <<< e.toNat)).length - 1
  else
    let scaled := (m * Nat.pow 10 (-e).toNat) >>> (-e).toNat
    ((Nat.toDigits 10 scaled).length : Int) - 1 + e

/-- No number needs more digits than this. -/
def maxDigits : Nat := 17

def shortest (m : Nat) (e : Int) : Nat × Int :=
  let top := leadingPlace m e
  let found := (List.range (maxDigits + 1)).findSome? fun (n : Nat) =>
    (nearestAt? m e (top + 1 - n)).bind fun k => if k = 0 then none else some (k, top + 1 - n)
  found.getD (0, 0)

def positional (k : Nat) (place : Int) : String :=
  if 0 ≤ place then Text.decimal (k * Nat.pow 10 place.toNat)
  else
    let digits := Nat.toDigits 10 k
    let behind := (-place).toNat
    let padded := List.replicate (behind + 1 - digits.length) '0' ++ digits
    let front := padded.length - behind
    String.ofList (padded.take front ++ '.' :: padded.drop front)

def sign (negative : Bool) : String :=
  if negative then "-" else ""

def render : Double → String
  | nan => "NaN"
  | infinite negative => sign negative ++ "inf"
  | finite negative m e =>
    sign negative ++
      (if m = 0 then "0"
      else
        let (k, place) := shortest m e
        positional k place)

def renderPointed (x : Double) : String :=
  if x.isFinite ∧ '.' ∉ x.render.toList then x.render ++ ".0" else x.render

end Double

end VolumeStore
