import VolumeStore.Text.Numeral
import VolumeStore.Text.Quoted

/-!
# What can be wrong with a message on the wire

The causes for which a request or a reply is not understood, and their wording.
-/

namespace VolumeStore

inductive SyntaxFault where
  | noAccess
  | needsWriteAccess
  | badFlag (letter : Char)
  | duplicateFlag (letter : Char)
  | expected (what : String)
  | missing (what : String)
  | described (text : String)
deriving DecidableEq, Repr

namespace SyntaxFault

def message : SyntaxFault → String
  | noAccess => "open flags grant no access"
  | needsWriteAccess => "create and truncate require write access"
  | badFlag letter => "bad open flag " ++ Text.quotedChar letter
  | duplicateFlag letter => "duplicate open flag " ++ Text.quotedChar letter
  | expected what => "expected " ++ what
  | missing what => "missing " ++ what
  | described text => text

end SyntaxFault

inductive WireError where
  | unknownCommand (verb : String)
  | syntaxError (fault : SyntaxFault)
  | commandTooLong (bytes : Nat)
  | payloadTooLarge (declared limit : Nat)
  | malformedReply (line : String)
  | invalidStat (text : String)
deriving DecidableEq, Repr

namespace WireError

def message : WireError → String
  | unknownCommand verb => "Unknown command: " ++ verb
  | syntaxError fault => "Syntax error: " ++ fault.message
  | commandTooLong bytes => "Command too long: " ++ Text.decimal bytes ++ " bytes"
  | payloadTooLarge declared limit =>
    "Payload of " ++ Text.decimal declared ++ " bytes exceeds limit of " ++
      Text.decimal limit
  | malformedReply line => "Malformed reply: " ++ line
  | invalidStat text => "Invalid stat record: " ++ text

end WireError

end VolumeStore
