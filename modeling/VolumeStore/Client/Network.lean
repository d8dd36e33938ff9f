import VolumeStore.Client.Address
import VolumeStore.Wire.Incoming

/-!
# The network as a client sees it

What is at the other end of a client's connections: a total function on a state of any type, be it a
store, a scripted peer, or nothing at all.
-/

namespace VolumeStore

inductive DialError where
  | failed (failure : Host.Failure)
  | silent
deriving DecidableEq, Repr

/-- The other end of connections, over a state. -/
structure Network (σ : Type) where
  /-- Connects to an address. Gives the line to the other end and what arrives on it first. -/
  dial : σ → Address → Except DialError ((Nat × Incoming) × σ)
  /-- Sends bytes on a line. Gives what arrives until the other end waits for more, or closes. -/
  send : σ → Nat → List UInt8 → Incoming × σ
  hangUp : σ → Nat → σ

end VolumeStore
