import VolumeStore.Text.Numeral

/-!
# Why a session refuses a request

The causes that lie in the state of a session or in the number of sessions, and their wording.
-/

namespace VolumeStore

inductive StateFault where
  | renameWithoutSource
  | described (text : String)
deriving DecidableEq, Repr

def StateFault.message : StateFault → String
  | renameWithoutSource => "RNTO without RNFR"
  | described text => text

inductive SessionError where
  | notMounted
  | unknownVolume (name : String)
  | tooManySessions (limit : Nat)
  | invalidState (fault : StateFault)
deriving DecidableEq, Repr

def SessionError.message : SessionError → String
  | notMounted => "No volume mounted"
  | unknownVolume name => "Unknown volume: " ++ name
  | tooManySessions limit => "Too many sessions (limit " ++ Text.decimal limit ++ ")"
  | invalidState fault => "Invalid session state: " ++ fault.message

end VolumeStore
