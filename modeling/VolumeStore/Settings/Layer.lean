import VolumeStore.Settings.Value

/-!
# Layers of settings

Settings come in layers, and a later layer wins over an earlier one entry by entry: tables are
merged, everything else is replaced. The key of an entry at the top of a layer is a way through
tables and lists, such as `store.volumes[0]`; a key that is no such way stands for itself.
-/

namespace VolumeStore.Setting

/-! ## Ways -/

/-- One step of a way: an entry of a table, or an item of a list, counted from its end when the
number is negative. -/
inductive Step where
  | name (name : String)
  | index (index : Int)
deriving DecidableEq, Repr

def isNameChar (c : Char) : Bool :=
  c.isAlphanum || c == ' ' || c == '_' || c == '-'

def takeName? (cs : List Char) : Option (Step × List Char) :=
  match cs.takeWhile isNameChar with
  | [] => none
  | name => some (.name (String.ofList name), cs.dropWhile isNameChar)

def readIndex? (cs : List Char) : Option Int :=
  let isGap (c : Char) : Bool := c == ' ' || c == '\t'
  let trimmed := ((cs.dropWhile isGap).reverse.dropWhile isGap).reverse
  match trimmed with
  | '-' :: digits =>
    (Text.readDigits? 10 digits).bind fun (n : Nat) =>
      if Int64.minValue.toInt ≤ -(n : Int) then some (-(n : Int)) else none
  | digits => (Text.readDigits? 10 digits).bind fun (n : Nat) =>
    if (n : Int) ≤ Int64.maxValue.toInt then some (n : Int) else none

def readSteps? : (fuel : Nat) → List Char → Option (List Step)
  | _, [] => some []
  | 0, _ => none
  | fuel + 1, c :: cs =>
    if c = '.' then do
      let (step, cs) ← takeName? cs
      return step :: (← readSteps? fuel cs)
    else if c = '[' then do
      let index ← readIndex? (cs.takeWhile (· ≠ ']'))
      -- The bracket has to be closed.
      match cs.dropWhile (· ≠ ']') with
      | _ :: cs => return .index index :: (← readSteps? fuel cs)
      | [] => none
    else none

def readWay? (key : String) : Option (List Step) := do
  let (step, cs) ← takeName? key.toList
  return step :: (← readSteps? cs.length cs)

def wayOf (key : String) : List Step :=
  (readWay? key).getD [.name key]

/-! ## Merging -/

mutual

def overlay : Setting → Option Setting → Setting
  | .table entries, existing => overlayEntries entries (existing.getD (.table []))
  | value, _ => value

def overlayEntries : List (String × Setting) → Setting → Setting
  | [], existing => existing
  | (name, value) :: entries, existing =>
    overlayEntries entries
      (.table (putEntry existing.entries name (overlay value (existing.entries.lookup name))))

end

def itemPlace (size : Nat) : Int → Nat
  | .ofNat n => n
  | .negSucc n => size - (n + 1)

def putItem (items : List Setting) (place : Nat) (value : Setting) : List Setting :=
  (items ++ List.replicate (place + 1 - items.length) nothing).set place value

/-- A value laid over what stands at the end of a way. What is on the way becomes a table or a list
as the way needs it. -/
def overlayAt (value : Setting) : List Step → Option Setting → Setting
  | [], existing => overlay value existing
  | .name name :: steps, existing =>
    let entries := (existing.getD nothing).entries
    .table (putEntry entries name (overlayAt value steps (entries.lookup name)))
  | .index index :: steps, existing =>
    let items := (existing.getD nothing).items
    let place := itemPlace items.length index
    -- At the end of the way the item is replaced, tables included.
    let item := if steps = [] then none else items[place]?
    .list (putItem items place (overlayAt value steps item))

def overlayLayer (layer : List (String × Setting)) (existing : Setting) : Setting :=
  layer.foldl (fun existing (key, value) => overlayAt value (wayOf key) (some existing)) existing

/-- Layers laid over defaults, the last one on top. The layers are merged with each other first. -/
def overlayLayers (defaults : Setting) (layers : List (List (String × Setting))) : Setting :=
  let merged := layers.foldl (fun existing layer => overlayLayer layer existing) (.table [])
  overlayLayer merged.entries defaults

end VolumeStore.Setting
