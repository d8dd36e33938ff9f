import VolumeStore.Server.Request
import VolumeStore.Server.Store

/-!
# Connections

A store's side of one connection. It takes turns: a turn reads one request, carries it out and
writes the outcome. Until a volume is mounted the connection has no place in the registry; from then
on it keeps its place until it ends. A connection ends with its stream, with a quit, with a write
that fails, or because the registry has no place for it.
-/

namespace VolumeStore

structure Connection where
  peer : Peer
  session : Session
  incoming : Incoming := {}
  isOpen : Bool := true
deriving DecidableEq

structure Turn where
  store : Store
  connection : Connection
  written : Option Outcome

namespace Session

/-- Carries out a request. Without a volume, a payload that was too large does not matter. -/
def serve (settings : StoreSettings) (s : Session) (t : Host.Tree) : Request → Execution
  | .malformed error => s.refuse t (.wire error)
  | .command command (.ok payload) => s.execute settings t command payload
  | .command command (.error error) =>
    if s.isMounted then s.refuse t (.wire error) else s.executeUnmounted settings t command

end Session

namespace Connection

def ofPeer (peer : Peer) : Connection :=
  { peer := peer, session := Session.ofPeer peer }

def close (c : Connection) : Connection :=
  { c with isOpen := false }

def withSession (c : Connection) (s : Session) (goesOn : Bool) : Connection :=
  { c with session := s, isOpen := c.isOpen && goesOn }

/-- The turn of a connection without a volume. `delivered` tells whether the reply reaches the
client. With a first volume the connection takes a place in the registry, before it is answered. -/
def unmountedTurn (store : Store) (c : Connection) (request : Request) (delivered : Bool) : Turn :=
  let e := c.session.serve store.settings store.tree request
  let store := { store with tree := e.tree }
  match e.session.mounted with
  | none => ⟨store, c.withSession e.session (delivered && !e.outcome.isClosing), some e.outcome⟩
  | some mount =>
    match store.registry.register c.peer mount.name with
    | .ok registry =>
      -- The place is taken before the reply is written, whether it arrives or not.
      ⟨{ store with registry := registry }, c.withSession e.session delivered, some e.outcome⟩
    | .error error =>
      ⟨store, c.withSession e.session.unmount false, some (.failed (.session error))⟩

/-- The registry after a request of a connection that has a place in it: another volume is entered
there. -/
def refreshRegistry (registry : Registry) (peer : Peer) (request : Request) (outcome : Outcome) :
    Registry :=
  match request, outcome with
  | .command (.mount name) _, .done _ _ =>
    match registry.register peer name with
    | .ok registry => registry
    | .error _ => registry
  | _, _ => registry

/-- The turn of a connection with a volume. At its end it gives up its place in the registry. -/
def mountedTurn (store : Store) (c : Connection) (request : Request) (delivered : Bool) : Turn :=
  let e := c.session.serve store.settings store.tree request
  let registry := refreshRegistry store.registry c.peer request e.outcome
  -- The place is given up with the connection: after a QUIT, or when the reply is lost.
  let goesOn := delivered && !e.outcome.isClosing
  ⟨{ store with tree := e.tree, registry := if goesOn then registry else registry.remove c.peer },
    c.withSession e.session goesOn, some e.outcome⟩

def lost (store : Store) (c : Connection) : Turn :=
  ⟨if c.session.isMounted then { store with registry := store.registry.remove c.peer } else store,
    c.close, none⟩

/-- The next turn of an open connection; there is none while more bytes have to arrive. -/
def turn? (store : Store) (c : Connection) (delivered : Bool) : Option Turn :=
  match c.incoming.readRequest store.settings with
  | .error .waiting => none
  | .error _ => some (c.lost store)
  | .ok (request, rest) =>
    let c := { c with incoming := rest }
    some (if c.session.isMounted then c.mountedTurn store request delivered
      else c.unmountedTurn store request delivered)

/-- Takes turns, with every reply delivered, until the connection ends or has to wait. Gives what
was written, in order. -/
def run : (turns : Nat) → Store → Connection → List Outcome × Store × Connection
  | 0, store, c => ([], store, c)
  | turns + 1, store, c =>
    if !c.isOpen then ([], store, c)
    else
      match c.turn? store true with
      | none => ([], store, c)
      | some turn =>
        let (outcomes, rest) := run turns turn.store turn.connection
        (turn.written.toList ++ outcomes, rest)

/-- Takes all turns that what has arrived allows. Each turn reads at least one byte, but for the
last one, which finds the end. -/
def runAll (store : Store) (c : Connection) : List Outcome × Store × Connection :=
  run (c.incoming.bytes.length + 1) store c

def bytesOf (outcomes : List Outcome) : List UInt8 :=
  outcomes.flatMap Outcome.toBytes

end Connection

end VolumeStore
