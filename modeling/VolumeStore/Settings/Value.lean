import VolumeStore.Decimal.Double
import VolumeStore.Text.Quoted

/-!
# Setting values

The values that settings have before they are read into the fields of a store or a client: single
values, lists, and tables with named entries.
-/

namespace VolumeStore

inductive Setting where
  /-- A place in a list that was never filled. -/
  | nothing
  | integer (value : Int)
  | real (value : Double)
  | boolean (value : Bool)
  | text (value : String)
  | list (items : List Setting)
  | table (entries : List (String × Setting))
deriving Repr, Inhabited

namespace Setting

def entries : Setting → List (String × Setting)
  | table entries => entries
  | _ => []

def items : Setting → List Setting
  | list items => items
  | _ => []

/-- Entries with one of them given a value: in its place, or at the end. -/
def putEntry (entries : List (String × Setting)) (name : String) (value : Setting) :
    List (String × Setting) :=
  if entries.any (·.1 = name) then
    entries.map fun entry => if entry.1 = name then (name, value) else entry
  else entries ++ [(name, value)]

def booleanText (b : Bool) : String :=
  if b then "true" else "false"

def integerText : Int → String
  | .ofNat n => Text.decimal n
  | .negSucc n => "-" ++ Text.decimal (n + 1)

def describe : Setting → String
  | nothing => "unit value"
  | integer n => "integer \x60" ++ integerText n ++ "\x60"
  | real x => "floating point \x60" ++ x.renderPointed ++ "\x60"
  | boolean b => "boolean \x60" ++ booleanText b ++ "\x60"
  | text s => "string " ++ Text.quoted s
  | list _ => "sequence"
  | table _ => "map"

end Setting

end VolumeStore
