import VolumeStore.Text.Fields
import VolumeStore.Text.Numeral

/-!
# Points in time

A point in time is a number of seconds since the epoch and a number of nanoseconds. Its written form
is `seconds.nanoseconds` with at least nine digits behind the point. Every pair of numbers can be
held and written; reading asks for less than a full second of nanoseconds.
-/

namespace VolumeStore

structure Timestamp where
  secs : UInt64 := 0
  nsecs : UInt32 := 0
deriving DecidableEq, Repr, Inhabited

namespace Timestamp

def nanosPerSecond : Nat := 1000000000

def compare (a b : Timestamp) : Ordering :=
  (Ord.compare a.secs b.secs).then (Ord.compare a.nsecs b.nsecs)

def render (t : Timestamp) : String :=
  Text.decimal t.secs.toNat ++ "." ++ Text.decimalPadded 9 t.nsecs.toNat

def parse? (cs : List Char) : Option Timestamp :=
  match Text.cut? '.' cs with
  | none => none
  | some (secs, nsecs) =>
    match Text.readUInt64? secs, Text.readUInt32? nsecs with
    | some secs, some nsecs => if nsecs.toNat < nanosPerSecond then some ⟨secs, nsecs⟩ else none
    | _, _ => none

/-! ## The host's clock -/

/-- The same point in time with full seconds carried, if the host's clock reaches it: its seconds
are signed numbers of 64 bits. -/
def onClock? (t : Timestamp) : Option Timestamp :=
  let secs := t.secs.toNat + t.nsecs.toNat / nanosPerSecond
  if (secs : Int) ≤ Int64.maxValue.toInt then
    some ⟨UInt64.ofNat secs, UInt32.ofNat (t.nsecs.toNat % nanosPerSecond)⟩
  else none

/-- The point in time that the host gives as signed numbers: nothing lies before the epoch, and the
nanoseconds stay below a second. -/
def ofClock (secs nsecs : Int) : Timestamp :=
  ⟨UInt64.ofNat secs.toNat, UInt32.ofNat (min nsecs.toNat (nanosPerSecond - 1))⟩

end Timestamp

end VolumeStore
