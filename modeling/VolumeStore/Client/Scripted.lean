import VolumeStore.Client.Network
import VolumeStore.Client.Response

/-!
# A scripted far end

A far end that sends what a script says, whatever it is asked: the first part as soon as a client
connects, and one part for each request. It records the requests.
-/

namespace VolumeStore

structure ScriptedPeer where
  /-- What is sent next, part by part. Where the script ends, so does the connection. -/
  script : List Incoming
  pending : List UInt8 := []
  received : List (String × List UInt8) := []
  hasEnded : Bool := false
deriving DecidableEq, Repr

namespace ScriptedPeer

def speak (p : ScriptedPeer) : Incoming × ScriptedPeer :=
  match p.script with
  | [] => (⟨[], true⟩, { p with hasEnded := true })
  | part :: script => (part, { p with script := script, hasEnded := part.ended })

def takeRequest? (p : ScriptedPeer) : Option ScriptedPeer := do
  let pending : Incoming := ⟨p.pending, false⟩
  let (line, rest) ← pending.readText.toOption
  let announced := (Command.announcedPayload? line).getD 0
  let (payload, rest) ← (rest.takeBytes announced.toNat).toOption
  return { p with pending := rest.bytes, received := p.received ++ [(line, payload)] }

def answer : (count : Nat) → ScriptedPeer → Incoming × ScriptedPeer
  | 0, p => (⟨[], p.hasEnded⟩, p)
  | count + 1, p =>
    if p.hasEnded then (⟨[], true⟩, p)
    else
      match p.takeRequest? with
      | none => (⟨[], false⟩, p)
      | some p =>
        let (part, p) := p.speak
        let (parts, p) := answer count p
        (part.append parts, p)

def network : Network ScriptedPeer where
  dial p _ :=
    let (greeting, p) := p.speak
    .ok ((0, greeting), p)
  -- Every request has a line feed, so there are no more of them than bytes.
  send p _ bytes :=
    { p with pending := p.pending ++ bytes }.answer (p.pending.length + bytes.length)
  hangUp p _ := { p with hasEnded := true }

end ScriptedPeer

end VolumeStore
