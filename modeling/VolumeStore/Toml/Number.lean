import VolumeStore.Decimal.Double
import VolumeStore.Toml.Token

/-!
# Numbers of a TOML document

Whole numbers of 64 bits with their sign, in four bases, and numbers of double precision. Single
underscores may stand between digits; a decimal number has no zero in front of other digits.
-/

namespace VolumeStore.Toml

structure DigitRun where
  negative : Bool
  digits : List Char
  rest : List Char

def isDigitIn (base : Nat) (c : Char) : Bool :=
  match hexValue? c with
  | some n => n < base
  | none => false

/-- Where a run of digits stands: at its start, behind a zero at its start, or behind an
underscore. -/
structure RunState where
  first : Bool := true
  leadingZero : Bool := false
  underscore : Bool := false

def digits? (base : Nat) (leadingZeros : Bool) : RunState → List Char →
    Option (List Char × List Char)
  | state, [] => if state.first || state.underscore then none else some ([], [])
  | state, c :: cs =>
    if isDigitIn base c then
      if state.leadingZero && !leadingZeros then none
      else
        let leadingZero := state.leadingZero || (state.first && c == '0')
        (digits? base leadingZeros ⟨false, leadingZero, false⟩ cs).map fun (ds, rest) =>
          (c :: ds, rest)
    -- An underscore has a digit in front of it, and one behind it.
    else if c = '_' ∧ ¬ state.first ∧ ¬ state.underscore then
      digits? base leadingZeros ⟨false, state.leadingZero, true⟩ cs
    else if state.first || state.underscore then none
    else some ([], c :: cs)

def digitRun? (base : Nat) (sign leadingZeros : Bool) (cs : List Char) : Option DigitRun :=
  let negative := sign && cs.head? == some '-'
  let unsigned := if negative then cs.drop 1 else cs
  (digits? base leadingZeros {} unsigned).map fun (digits, rest) => ⟨negative, digits, rest⟩

def digitsValue (base : Nat) (digits : List Char) : Nat :=
  digits.foldl (fun n c => base * n + (hexValue? c).getD 0) 0

def signedValue (negative : Bool) (n : Nat) : Int :=
  if negative then -(n : Int) else n

def integer? (base : Nat) (cs : List Char) : Option Int := do
  let run ← digitRun? base (base == 10) (base != 10) cs
  let value := signedValue run.negative (digitsValue base run.digits)
  if run.rest.isEmpty ∧ Int64.minValue.toInt ≤ value ∧ value ≤ Int64.maxValue.toInt then some value
  else none

def takeWord? : List Token → Option (List Char × List Token)
  | .word w :: ts => some (w.toList, ts)
  | _ => none

def dropToken (token : Token) : List Token → List Token
  | t :: ts => if t = token then ts else t :: ts
  | [] => []

def exponentValue? (sign : Bool) (cs : List Char) : Option Int := do
  let run ← digitRun? 10 sign true cs
  if run.rest.isEmpty then some (signedValue run.negative (digitsValue 10 run.digits)) else none

/-- The exponent behind the digits of a number, if there is one. Its plus sign is a token of its
own. -/
def exponent? (suffix : List Char) (ts : List Token) : Option (Int × List Token) :=
  match suffix with
  | [] => some (0, ts)
  | c :: cs =>
    if c ≠ 'e' ∧ c ≠ 'E' then none
    else if cs = [] then do
      let (word, ts) ← takeWord? (dropToken .plus ts)
      return (← exponentValue? false word, ts)
    else (exponentValue? true cs).map fun e => (e, ts)

def double? (whole : DigitRun) (fraction : List Char) (exponent : Int) : Option Double :=
  let value :=
    Double.ofDecimal whole.negative (digitsValue 10 (whole.digits ++ fraction))
      (exponent - fraction.length)
  if value.isFinite then some value else none

def exponential? (cs : List Char) (ts : List Token) : Option (Double × List Token) := do
  let whole ← digitRun? 10 true false cs
  let (exponent, ts) ← exponent? whole.rest ts
  return (← double? whole [] exponent, ts)

def fractional? (cs : List Char) (ts : List Token) : Option (Double × List Token) := do
  let (after, ts) ← takeWord? ts
  let whole ← digitRun? 10 true false cs
  if !whole.rest.isEmpty then none
  else
    let fraction ← digitRun? 10 false true after
    let (exponent, ts) ← exponent? fraction.rest ts
    return (← double? whole fraction.digits exponent, ts)

end VolumeStore.Toml
