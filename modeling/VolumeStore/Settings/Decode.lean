import VolumeStore.Settings.Client
import VolumeStore.Settings.Layer

/-!
# Fields from settings

Reading the fields of a store and of a client from a table of settings, and writing them as one.
Single values are converted where a conversion makes sense: a text may spell a number, and a number
may stand for a text. A list in place of the table gives the fields by their places.
-/

namespace VolumeStore

inductive LoadError where
  | malformedFile
  | unconvertible
  | refused (fault : SettingsFault)
deriving DecidableEq, Repr

namespace Setting

/-! ## Single values -/

def numberWords : List (String × UInt64) :=
  [("true", 1), ("on", 1), ("yes", 1), ("false", 0), ("off", 0), ("no", 0)]

def wordOfText? (s : String) : Option UInt64 :=
  match numberWords.lookup (String.ofList (s.toList.map Char.toLower)) with
  | some n => some n
  | none => Text.readUInt64? s.toList

def toWord : Setting → Except LoadError UInt64
  | integer n => if 0 ≤ n then .ok (UInt64.ofNat n.toNat) else .error .unconvertible
  | real x => .ok x.toWord
  | boolean b => .ok (if b then 1 else 0)
  | text s =>
    match wordOfText? s with
    | some n => .ok n
    | none => .error .unconvertible
  | _ => .error .unconvertible

def toText : Setting → Except LoadError String
  | integer n => .ok (integerText n)
  | real x => .ok x.render
  | boolean b => .ok (booleanText b)
  | text s => .ok s
  | _ => .error .unconvertible

def toTexts : Setting → Except LoadError (List String)
  | list items => items.mapM toText
  | other => .error (.refused (.wrongShape other.describe "a sequence"))

/-! ## Fields -/

/-- The field with a name, which stands at a place when there are no names. -/
def field (shape : String) (count place : Nat) (name : String) :
    Setting → Except LoadError Setting
  | table entries =>
    match entries.lookup name with
    | some value => .ok value
    | none => .error (.refused (.missingField name))
  | list items =>
    match items[place]? with
    | some value => .ok value
    | none => .error (.refused (.tooFewItems items.length shape count))
  | other => .error (.refused (.wrongShape other.describe shape))

def ofWord (n : UInt64) : Setting :=
  integer n.toNat

end Setting

namespace StoreSettings

def shape : String := "struct StoreConfig"

def setting (s : Setting) (place : Nat) (name : String) : Except LoadError Setting :=
  s.field shape 7 place name

/-- Reads the fields of a store. The number of the endpoint keeps its last sixteen bits. -/
def ofSetting (s : Setting) : Except LoadError StoreSettings := do
  return {
    bindAddress := ← (← setting s 0 "bind_address").toText
    tcpPort := (← (← setting s 1 "port").toWord).toUInt16
    storeRoot := ← (← setting s 2 "store_root").toText
    volumes := ← (← setting s 3 "volumes").toTexts
    maxClients := ← (← setting s 4 "max_clients").toWord
    maxCommandLength := ← (← setting s 5 "max_command_length").toWord
    maxPayload := ← (← setting s 6 "max_payload_size").toWord }

def toSetting (s : StoreSettings) : Setting :=
  .table [("bind_address", .text s.bindAddress), ("port", .integer s.tcpPort.toNat),
    ("store_root", .text s.storeRoot), ("volumes", .list (s.volumes.map .text)),
    ("max_clients", .ofWord s.maxClients), ("max_command_length", .ofWord s.maxCommandLength),
    ("max_payload_size", .ofWord s.maxPayload)]

end StoreSettings

namespace ClientSettings

def shape : String := "struct ClientConfig"

def setting (s : Setting) (place : Nat) (name : String) : Except LoadError Setting :=
  s.field shape 5 place name

def ofSetting (s : Setting) : Except LoadError ClientSettings := do
  return {
    storeAddress := ← (← setting s 0 "master_addr").toText
    volume := ← (← setting s 1 "vol_name").toText
    connectTimeout := ← (← setting s 2 "connect_timeout_secs").toWord
    requestTimeout := ← (← setting s 3 "request_timeout_secs").toWord
    maxPayload := ← (← setting s 4 "max_payload_size").toWord }

def toSetting (s : ClientSettings) : Setting :=
  .table [("master_addr", .text s.storeAddress), ("vol_name", .text s.volume),
    ("connect_timeout_secs", .ofWord s.connectTimeout),
    ("request_timeout_secs", .ofWord s.requestTimeout), ("max_payload_size", .ofWord s.maxPayload)]

end ClientSettings

end VolumeStore
