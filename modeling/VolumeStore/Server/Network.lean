import VolumeStore.Client.Network
import VolumeStore.Server.Hub

/-!
# A store as the other end of a network

The network on which every address leads to one store. Each line is a connection of its own, and the
store answers all it can as soon as bytes arrive.
-/

namespace VolumeStore

structure ServedStore where
  hub : Hub
  lines : Nat := 0

namespace ServedStore

def peersPerHost : Nat := UInt16.size

def peerOf (line : Nat) : Peer :=
  let host := line / peersPerHost
  { address := (127, UInt8.ofNat (host >>> 16), UInt8.ofNat (host >>> 8), UInt8.ofNat host)
    tcpPort := UInt16.ofNat line }

def ofStore (store : Store) : ServedStore :=
  { hub := { store := store } }

def deliver (s : ServedStore) (line : Nat) (new : Incoming) : Incoming × ServedStore :=
  let (arrived, hub) := (s.hub.receive (peerOf line) new).runPeer (peerOf line)
  (arrived, { s with hub := hub })

def network : Network ServedStore where
  dial s _ :=
    let (hub, greeting) := s.hub.step (.connect (peerOf s.lines))
    .ok ((s.lines, ⟨Connection.bytesOf greeting.toList, false⟩),
      { hub := hub, lines := s.lines + 1 })
  send s line bytes := s.deliver line ⟨bytes, false⟩
  hangUp s line := (s.deliver line ⟨[], true⟩).2

end ServedStore

end VolumeStore
