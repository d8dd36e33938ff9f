import VolumeStore.Settings.Error
import VolumeStore.Volume.Path

/-!
# Settings of a store

Where a store listens, which volumes it serves and how much it takes from its clients.
-/

namespace VolumeStore

def defaultPayloadLimit : UInt64 := 4194304

structure StoreSettings where
  bindAddress : String := "127.0.0.1"
  /-- Where to listen for connections; zero lets the host choose a number. -/
  tcpPort : UInt16 := 17010
  storeRoot : String := "./store_root"
  volumes : List String := ["ltptest"]
  maxClients : UInt64 := 64
  maxCommandLength : UInt64 := 4096
  maxPayload : UInt64 := defaultPayloadLimit
deriving DecidableEq, Repr, Inhabited

namespace StoreSettings

def fault? (s : StoreSettings) : Option SettingsFault :=
  if s.bindAddress = "" then some .emptyBindAddress
  else if s.storeRoot = "" then some .emptyStoreRoot
  else if s.volumes = [] then some .noVolumes
  else
    -- The first bad name is the one that is told.
    match s.volumes.find? fun name => !isVolumeName name with
    | some name => some (.badVolume name)
    | none =>
      if s.maxClients = 0 then some .noClients
      else if s.maxCommandLength.toNat < minCommandLimit then some .shortCommandLimit
      else if s.maxPayload = 0 then some .noPayload
      else none

def controlAddress (s : StoreSettings) : String :=
  s.bindAddress ++ ":" ++ Text.decimal s.tcpPort.toNat

def rootPath (s : StoreSettings) : Host.Path :=
  .ofString s.storeRoot

def volumePath (s : StoreSettings) (volume : String) : Host.Path :=
  s.rootPath.join (.ofString volume)

def hasVolume (s : StoreSettings) (volume : String) : Bool :=
  s.volumes.contains volume

end StoreSettings

end VolumeStore
