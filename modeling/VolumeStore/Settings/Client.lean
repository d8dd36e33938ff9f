import VolumeStore.Client.Error
import VolumeStore.Settings.Store

/-!
# Settings of a client

Which store and volume a client uses and how long it waits. Single options can be set by name.
-/

namespace VolumeStore

/-- The settings of a client. Times are in seconds. -/
structure ClientSettings where
  storeAddress : String := "127.0.0.1:17010"
  volume : String := "ltptest"
  connectTimeout : UInt64 := 5
  requestTimeout : UInt64 := 30
  maxPayload : UInt64 := defaultPayloadLimit
deriving DecidableEq, Repr, Inhabited

namespace ClientSettings

def fault? (s : ClientSettings) : Option SettingsFault :=
  if s.storeAddress = "" then some .emptyAddress
  else if !isVolumeName s.volume then some (.badMountVolume s.volume)
  else if s.connectTimeout = 0 ∨ s.requestTimeout = 0 then some .zeroTimeout
  else if s.maxPayload = 0 then some .noPayload
  else none

/-! ## Single options -/

inductive Key where
  | storeAddress
  | volume
  | connectTimeout
  | requestTimeout
  | maxPayload
deriving DecidableEq, Repr

def keyNames : List (String × Key) :=
  [("masterAddr", .storeAddress), ("master_addr", .storeAddress),
    ("volName", .volume), ("vol_name", .volume),
    ("connectTimeout", .connectTimeout), ("connect_timeout_secs", .connectTimeout),
    ("requestTimeout", .requestTimeout), ("request_timeout_secs", .requestTimeout),
    ("maxPayloadSize", .maxPayload), ("max_payload_size", .maxPayload)]

def numberValue (name value : String) : Except ClientError UInt64 :=
  match Text.readUInt64? value.toList with
  | some n => .ok n
  | none => .error (.settings (.notANumber name value))

/-- The settings with one option set. Only the form of a number is looked at; `fault?` judges the
settings as a whole. -/
def set (s : ClientSettings) (name value : String) : Except ClientError ClientSettings :=
  match keyNames.lookup name with
  | none => .error (.settings (.unknownOption name))
  | some .storeAddress => .ok { s with storeAddress := value }
  | some .volume => .ok { s with volume := value }
  | some .connectTimeout => return { s with connectTimeout := ← numberValue name value }
  | some .requestTimeout => return { s with requestTimeout := ← numberValue name value }
  | some .maxPayload => return { s with maxPayload := ← numberValue name value }

end ClientSettings

end VolumeStore
