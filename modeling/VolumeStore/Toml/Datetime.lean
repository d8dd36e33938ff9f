import VolumeStore.Text.Blank
import VolumeStore.Text.Numeral

/-!
# Dates and times

A date, a time of day, or both, with the offset from universal time when both are there. The written
form is read and written again in one spelling: a `T` between date and time, and a fraction of a
second without zeros at its end.
-/

namespace VolumeStore.Toml

structure Date where
  year : Nat
  month : Nat
  day : Nat
deriving DecidableEq, Repr

structure TimeOfDay where
  hour : Nat
  minute : Nat
  second : Nat
  nanosecond : Nat
deriving DecidableEq, Repr

inductive Offset where
  | zero
  | custom (negative : Bool) (hours minutes : Nat)
deriving DecidableEq, Repr

structure Datetime where
  date : Option Date
  time : Option TimeOfDay
  offset : Option Offset
deriving DecidableEq, Repr

namespace Datetime

/-! ## Reading -/

def number? (count : Nat) (cs : List Char) : Option (Nat × List Char) :=
  let digits := cs.take count
  if digits.length = count ∧ digits.all Char.isDigit then
    (Text.readDigits? 10 digits).map fun n => (n, cs.drop count)
  else none

def after? (c : Char) : List Char → Option (List Char)
  | d :: cs => if d = c then some cs else none
  | [] => none

def date? (cs : List Char) : Option (Date × List Char) := do
  let (year, cs) ← number? 4 cs
  let (month, cs) ← number? 2 (← after? '-' cs)
  let (day, cs) ← number? 2 (← after? '-' cs)
  if month < 1 ∨ 12 < month ∨ day < 1 ∨ 31 < day then none else some (⟨year, month, day⟩, cs)

/-- The nanoseconds that the digits of a fraction spell; digits behind the ninth do not count. -/
def fraction (digits : List Char) : Nat :=
  let nine := digits.take 9
  (Text.readDigits? 10 (nine ++ List.replicate (9 - nine.length) '0')).getD 0

def nanosecond? (cs : List Char) : Option (Nat × List Char) :=
  match cs with
  | '.' :: cs =>
    let digits := cs.takeWhile Char.isDigit
    if digits.isEmpty then none else some (fraction digits, cs.drop digits.length)
  | cs => some (0, cs)

def time? (cs : List Char) : Option (TimeOfDay × List Char) := do
  let (hour, cs) ← number? 2 cs
  let (minute, cs) ← number? 2 (← after? ':' cs)
  let (second, cs) ← number? 2 (← after? ':' cs)
  let (nanosecond, cs) ← nanosecond? cs
  if 24 < hour ∨ 59 < minute ∨ 59 < second then none
  else some (⟨hour, minute, second, nanosecond⟩, cs)

def customOffset? (negative : Bool) (cs : List Char) : Option (Offset × List Char) := do
  let (hours, cs) ← number? 2 cs
  let (minutes, cs) ← number? 2 (← after? ':' cs)
  return (.custom negative hours minutes, cs)

def offset? (cs : List Char) : Option (Option Offset × List Char) :=
  match cs with
  | [] => some (none, [])
  | c :: cs =>
    if c = 'Z' ∨ c = 'z' then some (some .zero, cs)
    else if c = '+' ∨ c = '-' then (customOffset? (c == '-') cs).map fun (o, cs) => (some o, cs)
    else none

def dated? (cs : List Char) : Option (Datetime × List Char) := do
  let (date, cs) ← date? cs
  match cs with
  | c :: rest =>
    if c = 'T' ∨ c = 't' ∨ c = ' ' then
      let (time, cs) ← time? rest
      let (offset, cs) ← offset? cs
      return (⟨some date, some time, offset⟩, cs)
    else return (⟨some date, none, none⟩, c :: rest)
  | [] => return (⟨some date, none, none⟩, [])

def parse? (text : String) : Option Datetime := do
  let cs := text.toList
  let (value, rest) ←
    if cs[2]? = some ':' then (time? cs).map fun (time, cs) => (⟨none, some time, none⟩, cs)
    else dated? cs
  if rest.isEmpty then some value else none

/-! ## Writing -/

def twoDigits (n : Nat) : String :=
  Text.decimalPadded 2 n

def renderDate (d : Date) : String :=
  Text.decimalPadded 4 d.year ++ "-" ++ twoDigits d.month ++ "-" ++ twoDigits d.day

def renderFraction (nanosecond : Nat) : String :=
  if nanosecond = 0 then ""
  else
    let digits := (Text.decimalPadded 9 nanosecond).toList
    "." ++ String.ofList (Text.dropTrailing (· == '0') digits)

def renderTime (t : TimeOfDay) : String :=
  twoDigits t.hour ++ ":" ++ twoDigits t.minute ++ ":" ++ twoDigits t.second ++
    renderFraction t.nanosecond

/-- No hours at all have a plus sign, whatever sign was read. -/
def renderOffset : Offset → String
  | .zero => "Z"
  | .custom negative hours minutes =>
    (if negative ∧ hours ≠ 0 then "-" else "+") ++ twoDigits hours ++ ":" ++ twoDigits minutes

def render (d : Datetime) : String :=
  let date := (d.date.map renderDate).getD ""
  let time := (d.time.map renderTime).getD ""
  let separator := if d.date.isSome ∧ d.time.isSome then "T" else ""
  date ++ separator ++ time ++ (d.offset.map renderOffset).getD ""

end Datetime

end VolumeStore.Toml
