import VolumeStore.Settings.Error
import VolumeStore.Volume.Error
import VolumeStore.Wire.Errno
import VolumeStore.Wire.Error

/-!
# Why a call on a client fails

A call fails before anything is sent, because of the connection, because of a reply that cannot be
understood, or because the store refuses the request.
-/

namespace VolumeStore

inductive Awaited where
  | connection (address : String)
  | greeting (address : String)
  | reply (verb : String)
deriving DecidableEq, Repr

def Awaited.describe : Awaited → String
  | connection address => "connect to " ++ address
  | greeting address => "greeting from " ++ address
  | reply verb => verb

inductive ClientError where
  | invalidPath (error : VolumeError)
  | unreachable (address : String) (failure : Host.Failure)
  | transport (failure : Host.Failure)
  | timeout (awaited : Awaited)
  | closed
  | refused (code : UInt16) (errno : Option Errno) (text : String)
  /-- The store refuses, in a text that cannot be divided behind its token: the call breaks off. -/
  | garbled (code : UInt16) (errno : Option Errno)
  | wire (error : WireError)
  | settings (fault : SettingsFault)
deriving DecidableEq, Repr

namespace ClientError

def refusalLabel (code : UInt16) : Option Errno → String
  | some errno => Text.decimal code.toNat ++ " " ++ errno.token
  | none => Text.decimal code.toNat

def message : ClientError → String
  | invalidPath error => error.message
  | unreachable address failure => "Failed to connect to " ++ address ++ ": " ++ failure.message
  | transport failure => "Connection I/O error: " ++ failure.message
  | timeout awaited => "Timed out waiting for " ++ awaited.describe
  | closed => "Connection closed"
  | refused code errno text => "Request refused (" ++ refusalLabel code errno ++ "): " ++ text
  | garbled code errno => "Request refused (" ++ refusalLabel code errno ++ ")"
  | wire error => error.message
  | settings fault => "Invalid client configuration: " ++ fault.message

end ClientError

end VolumeStore
