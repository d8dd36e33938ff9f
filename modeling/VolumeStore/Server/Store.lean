import VolumeStore.Host.Directories
import VolumeStore.Server.Registry
import VolumeStore.Session.Execute

/-!
# A running store

What all connections of a store share: the settings, the host's files and the registry of sessions.
A store starts with one directory for each of its volumes.
-/

namespace VolumeStore

structure Store where
  settings : StoreSettings
  tree : Host.Tree
  registry : Registry

namespace Store

def makeVolumes (settings : StoreSettings) (t : Host.Tree) : Except Host.Failure Host.Tree :=
  settings.volumes.foldlM (fun t name =>
    let (result, t) := t.makeDirectories (settings.volumePath name)
    result.map fun () => t) t

def start (settings : StoreSettings) (t : Host.Tree) : Except StoreError Store :=
  match settings.fault? with
  | some fault => .error (.settings fault)
  | none =>
    match makeVolumes settings t with
    | .ok t =>
      .ok { settings := settings, tree := t, registry := { limit := settings.maxClients.toNat } }
    | .error failure => .error (.host failure)

def greeting : Outcome :=
  .ok ReplyCode.ready "RAX FS store ready"

end Store

end VolumeStore
