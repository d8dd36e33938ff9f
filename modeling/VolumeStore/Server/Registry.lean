import VolumeStore.Session.State

/-!
# The registry of sessions

Which clients have a volume mounted, and which one. The registry has a limited number of places;
a client that has one keeps it when it mounts another volume.
-/

namespace VolumeStore

structure Registry where
  sessions : List (Peer × String) := []
  limit : Nat
deriving DecidableEq, Repr, Inhabited

namespace Registry

def size (r : Registry) : Nat :=
  r.sessions.length

def isEmpty (r : Registry) : Bool :=
  r.sessions.isEmpty

def volume? (r : Registry) (peer : Peer) : Option String :=
  r.sessions.lookup peer

def remove (r : Registry) (peer : Peer) : Registry :=
  { r with sessions := r.sessions.filter (·.1 ≠ peer) }

/-- The registry with a client and its volume, if the client has a place or one is free. -/
def register (r : Registry) (peer : Peer) (volume : String) : Except SessionError Registry :=
  if (r.volume? peer).isNone ∧ r.limit ≤ r.size then .error (.tooManySessions r.limit)
  else .ok { r with sessions := (peer, volume) :: (r.remove peer).sessions }

end Registry

end VolumeStore
