import VolumeStore.Host.Failure
import VolumeStore.Text.Fields

/-!
# Addresses of stores

An address is a host and a number of sixteen bits, with a colon between them. The host is four
numbers, or a name that has to be looked up.
-/

namespace VolumeStore

inductive Address where
  | numeric (bytes : List UInt8) (tcpPort : UInt16)
  | named (host : String) (tcpPort : UInt16)
deriving DecidableEq, Repr

namespace Address

def malformed : Host.Failure := .described .other "invalid socket address"

def badNumber : Host.Failure := .described .other "invalid port value"

def readByte? (cs : List Char) : Option UInt8 :=
  if 3 < cs.length ∨ (1 < cs.length ∧ cs.head? = some '0') then none
  else
    (Text.readDigits? 10 cs).bind fun n => if n < 256 then some (UInt8.ofNat n) else none

def readBytes? (host : List Char) : Option (List UInt8) :=
  let fields := host.splitOn '.'
  if fields.length = 4 then fields.mapM readByte? else none

def parse (text : String) : Except Host.Failure Address :=
  match Text.cutLast? ':' text.toList with
  | none => .error malformed
  | some (host, number) =>
    match Text.readUInt16? number with
    | none => .error badNumber
    | some tcpPort =>
      match readBytes? host with
      | some bytes => .ok (.numeric bytes tcpPort)
      | none => .ok (.named (String.ofList host) tcpPort)

end Address

end VolumeStore
