import VolumeStore.Host.Resolve
import VolumeStore.Settings.Decode
import VolumeStore.Toml.Document

/-!
# Loading settings

The settings of a store and of a client from three layers: defaults, a file, and the environment.
The file may be missing. A variable of the environment counts when its name starts with a fixed
mark; the rest of its name is the way to the setting, with two underscores for each point.
-/

namespace VolumeStore

structure AllSettings where
  store : StoreSettings := {}
  client : ClientSettings := {}
deriving DecidableEq, Repr, Inhabited

namespace AllSettings

/-! ## The file -/

def fileEnding : String := "toml"

def defaultPath : String := "config"

/-- What follows the last point of a name; a point at its start does not count. -/
def ending? (name : Host.Name) : Option Host.Name :=
  let point : UInt8 := 0x2e
  let behind := (name.reverse.takeWhile (· ≠ point)).reverse
  if name.length ≤ behind.length + 1 then none else some behind

def leadingNames (p : Host.Path) : List Host.Name :=
  let trivial (name : Host.Name) : Bool := name == [] || name == Host.selfName
  ((Host.Path.split p.bytes).reverse.dropWhile trivial).reverse

def withEnding? (p : Host.Path) : Option Host.Path :=
  let names := leadingNames p
  match names.getLast? with
  | none => none
  | some last =>
    if last = Host.parentName then none
    else some ⟨List.intercalate [Host.slash] names ++ Text.encode ("." ++ fileEnding)⟩

def fileAt? (t : Host.Tree) (p : Host.Path) : Option (List UInt8) :=
  match t.target p with
  | .ok (_, .file id) => some (t.content id).toList
  | _ => none

/-- The text of the settings file for a path. A file at the path itself counts only when its name
has the ending; otherwise the ending is added. A file that holds no text counts as missing. -/
def document? (t : Host.Tree) (path : String) : Option String :=
  let p := Host.Path.ofString path
  match fileAt? t p with
  | some bytes =>
    let ending := (leadingNames p).getLast?.bind ending?
    if ending = some (Text.encode fileEnding) then Text.decode? bytes else none
  | none => ((withEnding? p).bind (fileAt? t)).bind Text.decode?

def fileLayer (t : Host.Tree) (path : String) : Except LoadError (List (String × Setting)) :=
  match document? t path with
  | none => .ok []
  | some document =>
    match Toml.parse? document with
    | some settings => .ok settings.entries
    | none => .error .malformedFile

/-! ## The environment -/

def variableMark : String := "rax_fs_"

def pointed : List Char → List Char
  | '_' :: '_' :: cs => '.' :: pointed cs
  | c :: cs => c :: pointed cs
  | [] => []

def variableKey? (name : String) : Option String :=
  let cs := name.toList.map Char.toLower
  let mark := variableMark.toList
  if mark.isPrefixOf cs then some (String.ofList (pointed (cs.drop mark.length))) else none

/-- The layer of the environment. Of two names that differ only in case the later one wins. -/
def environmentLayer (environment : List (String × String)) : List (String × Setting) :=
  environment.foldl (fun layer (name, value) =>
    match variableKey? name with
    | some key => Setting.putEntry layer key (.text value)
    | none => layer) []

/-! ## All layers -/

def defaults : Setting :=
  .table [("store", ({} : StoreSettings).toSetting), ("client", ({} : ClientSettings).toSetting)]

def ofSetting (s : Setting) : Except LoadError AllSettings := do
  return {
    store := ← StoreSettings.ofSetting (← s.field "struct FsConfig" 2 0 "store")
    client := ← ClientSettings.ofSetting (← s.field "struct FsConfig" 2 1 "client") }

def fault? (s : AllSettings) : Option SettingsFault :=
  match s.store.fault? with
  | some fault => some fault
  | none => s.client.fault?

def load (t : Host.Tree) (path : String) (environment : List (String × String)) :
    Except LoadError AllSettings := do
  let layers := [← fileLayer t path, environmentLayer environment]
  let settings ← ofSetting (Setting.overlayLayers defaults layers)
  match settings.fault? with
  | some fault => .error (.refused fault)
  | none => return settings

end AllSettings

end VolumeStore
