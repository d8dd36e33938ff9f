import VolumeStore.Settings.Store
import VolumeStore.Text.Blank
import VolumeStore.Wire.Command
import VolumeStore.Wire.Incoming

/-!
# Requests

Reading a request, its line and its payload, from the bytes of a connection. A line that is too long
and a payload that is too large are read to their ends and refused, so that the next read starts at
the next request.
-/

namespace VolumeStore

inductive LineRead where
  | line (text : String)
  /-- The line was longer than allowed; it and its payload were left out. -/
  | tooLong (bytes : Nat)
deriving DecidableEq, Repr

inductive Request where
  /-- A command with its payload, or without it when it was too large. -/
  | command (command : Command) (payload : Except WireError (List UInt8))
  | malformed (error : WireError)

namespace Incoming

def skipAnnounced (s : Incoming) (line : String) : Except ReadStop Incoming :=
  match Command.announcedPayload? line with
  | none => .ok s
  | some len => (s.takeBytes len.toNat).map (·.2)

def lineEndBytes : UInt64 := 2

/-- The number of bytes of a line that are looked at. It is a number of 64 bits: with a limit right
below the greatest one it starts again from zero. -/
def lineRoom (limit : UInt64) : Nat :=
  (limit + lineEndBytes).toNat

/-- Reads the line of a request. A line of more than `limit` bytes, its end not counted, is left out
together with the payload that it announces as far as it was looked at. -/
def readLine (s : Incoming) (limit : UInt64) : Except ReadStop (LineRead × Incoming) := do
  let (bytes, rest) ← s.takeLine (lineRoom limit)
  if bytes = [] then .error .ended
  else
    match Text.decode? bytes with
    | none => .error .notText
    | some line =>
      if isClosed bytes then
        -- The two bytes of room may hold text instead of a line end.
        let length := Text.byteLength (Text.trimLineEnd line.toList)
        if length ≤ limit.toNat then return (.line line, rest)
        else return (.tooLong length, ← rest.skipAnnounced line)
      else if bytes.length = lineRoom limit then
        -- The line goes on: the rest of it is read and dropped.
        let (more, rest) ← rest.takeLine (rest.bytes.length + 1)
        return (.tooLong (bytes.length + more.length), ← rest.skipAnnounced line)
      -- The stream ended without a line end, and what is there counts.
      else return (.line line, rest)

def readPayload (s : Incoming) (command : Command) (limit : UInt64) :
    Except ReadStop (Except WireError (List UInt8) × Incoming) :=
  match command.payloadLength? with
  | none => .ok (.ok [], s)
  | some len =>
    (s.takeBytes len.toNat).map fun (payload, rest) =>
      if limit < len then (.error (.payloadTooLarge len.toNat limit.toNat), rest)
      else (.ok payload, rest)

def readRequest (s : Incoming) (settings : StoreSettings) :
    Except ReadStop (Request × Incoming) := do
  let (line, rest) ← s.readLine settings.maxCommandLength
  match line with
  | .tooLong bytes => return (.malformed (.commandTooLong bytes), rest)
  | .line line =>
    match Command.parse line with
    | .error error => return (.malformed error, rest)
    | .ok command =>
      let (payload, rest) ← rest.readPayload command settings.maxPayload
      return (.command command payload, rest)

end Incoming

end VolumeStore
