import VolumeStore.Text.Numeral
import VolumeStore.Text.Quoted

/-!
# What can be wrong with the settings

The faults of settings that are refused, and their wording.
-/

namespace VolumeStore

def minCommandLimit : Nat := 64

inductive SettingsFault where
  | emptyBindAddress
  | emptyStoreRoot
  | noVolumes
  | badVolume (name : String)
  | noClients
  | shortCommandLimit
  | noPayload
  | emptyAddress
  | badMountVolume (name : String)
  | zeroTimeout
  | notANumber (key value : String)
  | unknownOption (key : String)
  /-- A value of this form stands where another form is expected. -/
  | wrongShape (found expected : String)
  | missingField (name : String)
  /-- A list of this length stands for fields of which there are more. -/
  | tooFewItems (length : Nat) (shape : String) (count : Nat)
  | described (text : String)
deriving DecidableEq, Repr

namespace SettingsFault

def message : SettingsFault → String
  | emptyBindAddress => "bind_address cannot be empty"
  | emptyStoreRoot => "store_root cannot be empty"
  | noVolumes => "at least one volume must be configured"
  | badVolume name => "invalid volume name: " ++ Text.quoted name
  | noClients => "max_clients must be greater than 0"
  | shortCommandLimit => "max_command_length must be at least " ++ Text.decimal minCommandLimit
  | noPayload => "max_payload_size must be greater than 0"
  | emptyAddress => "master_addr cannot be empty"
  | badMountVolume name => "invalid vol_name: " ++ Text.quoted name
  | zeroTimeout => "timeouts must be greater than 0"
  | notANumber key value => key ++ " expects a number, got " ++ Text.quoted value
  | unknownOption key => "unknown option " ++ Text.quoted key
  | wrongShape found expected => "invalid type: " ++ found ++ ", expected " ++ expected
  | missingField name => "missing field \x60" ++ name ++ "\x60"
  | tooFewItems length shape count =>
    "invalid length " ++ Text.decimal length ++ ", expected " ++ shape ++ " with " ++
      Text.decimal count ++ " elements"
  | described text => text

end SettingsFault

end VolumeStore
