import VolumeStore.Server.Connection

/-!
# Several connections

A store with all connections to it. Connections come and go and take their turns in any order; one
turn of one connection is one step of the whole.
-/

namespace VolumeStore

structure Hub where
  store : Store
  connections : List Connection := []

inductive HubEvent where
  | connect (peer : Peer)
  | arrive (peer : Peer) (bytes : List UInt8)
  | finish (peer : Peer)
  /-- A connection takes a turn, and its reply reaches the client or not. -/
  | turn (peer : Peer) (delivered : Bool)
deriving DecidableEq, Repr

namespace Hub

def connection? (h : Hub) (peer : Peer) : Option Connection :=
  h.connections.find? fun c => c.peer = peer && c.isOpen

def setConnection (h : Hub) (c : Connection) : Hub :=
  { h with connections :=
      h.connections.map fun d => if d.peer = c.peer ∧ d.isOpen then c else d }

def receive (h : Hub) (peer : Peer) (new : Incoming) : Hub :=
  match h.connection? peer with
  | none => h
  | some c => h.setConnection { c with incoming := c.incoming.append new }

/-- The hub after one event, and what is written to the client. An event of a client that has no
open connection, or none that can take a turn, changes nothing; so does a second connection of a
client. -/
def step (h : Hub) : HubEvent → Hub × Option Outcome
  | .connect peer =>
    if (h.connection? peer).isSome then (h, none)
    else ({ h with connections := .ofPeer peer :: h.connections }, some Store.greeting)
  | .arrive peer bytes => (h.receive peer ⟨bytes, false⟩, none)
  | .finish peer => (h.receive peer ⟨[], true⟩, none)
  | .turn peer delivered =>
    match h.connection? peer with
    | none => (h, none)
    | some c =>
      match c.turn? h.store delivered with
      | none => (h, none)
      | some turn => ({ h with store := turn.store }.setConnection turn.connection, turn.written)

def run (h : Hub) (events : List HubEvent) : Hub :=
  events.foldl (fun h event => (h.step event).1) h

/-- Lets a client's connection take all turns it can. Gives what is written and whether the
connection has ended. -/
def runPeer (h : Hub) (peer : Peer) : Incoming × Hub :=
  match h.connection? peer with
  | none => (⟨[], true⟩, h)
  | some c =>
    let (outcomes, store, c) := c.runAll h.store
    (⟨Connection.bytesOf outcomes, !c.isOpen⟩, { h with store := store }.setConnection c)

end Hub

end VolumeStore
