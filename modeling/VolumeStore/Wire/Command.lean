import VolumeStore.Record.OpenFlags
import VolumeStore.Text.Blank
import VolumeStore.Text.Fields
import VolumeStore.Wire.Verb

/-!
# Commands

A request line holds a verb, then numbers or flags, then a path that runs to the end of the line and
may hold spaces. `append` and `write` are followed by as many bytes of payload as they announce.
-/

namespace VolumeStore

inductive Command where
  | mount (volume : String)
  | quit
  | noop
  | makeDirectory (path : String)
  | create (size : UInt64) (path : String)
  | append (len : UInt64) (path : String)
  | stat (path : String)
  | removeDirectory (recursive : Bool) (path : String)
  | delete (path : String)
  | renameFrom (path : String)
  | renameTo (path : String)
  | list (path : String)
  | openFile (flags : OpenFlags) (path : String)
  | write (fd offset len : UInt64)
  | read (fd offset len : UInt64)
  | flush (fd : UInt64)
  | close (fd : UInt64)
deriving DecidableEq, Repr

namespace Command

def verb : Command → Verb
  | mount _ => .mount
  | quit => .quit
  | noop => .noop
  | makeDirectory _ => .makeDirectory
  | create _ _ => .create
  | append _ _ => .append
  | stat _ => .stat
  | removeDirectory _ _ => .removeDirectory
  | delete _ => .delete
  | renameFrom _ => .renameFrom
  | renameTo _ => .renameTo
  | list _ => .list
  | openFile _ _ => .openFile
  | write _ _ _ => .write
  | read _ _ _ => .read
  | flush _ => .flush
  | close _ => .close

def payloadLength? : Command → Option UInt64
  | append len _ => some len
  | write _ _ len => some len
  | _ => none

/-! ## Writing -/

def numberField (n : UInt64) : String :=
  Text.decimal n.toNat

def arguments : Command → List String
  | quit | noop => []
  | mount text | makeDirectory text | stat text | delete text | renameFrom text | renameTo text
  | list text => [text]
  | create n path | append n path => [numberField n, path]
  | removeDirectory recursive path => [if recursive then "1" else "0", path]
  | openFile flags path => [flags.render, path]
  | write fd offset len | read fd offset len =>
    [numberField fd, numberField offset, numberField len]
  | flush fd | close fd => [numberField fd]

def toLine (c : Command) : String :=
  String.intercalate " " (c.verb.token :: c.arguments)

/-! ## Reading -/

def number (what : String) (field : Option (List Char)) : Except SyntaxFault UInt64 :=
  match field.bind Text.readUInt64? with
  | some n => .ok n
  | none => .error (.expected what)

def required (what : String) : Option (List Char) → Except SyntaxFault String
  | some (c :: cs) => .ok (String.ofList (c :: cs))
  | _ => .error (.missing what)

def recursiveSwitch : List Char → Except SyntaxFault Bool
  | ['1'] => .ok true
  | ['0'] => .ok false
  | _ => .error (.expected "recursive flag 0 or 1")

def range (make : UInt64 → UInt64 → UInt64 → Command) (rest : Option (List Char)) :
    Except SyntaxFault Command :=
  match (rest.getD []).splitOn ' ' with
  | [fd, offset, len] => do
    return make (← number "fd" fd) (← number "offset" offset) (← number "length" len)
  | _ => .error (.expected "fd, offset and length")

def ofVerb (verb : Verb) (rest : Option (List Char)) : Except SyntaxFault Command :=
  -- Without a space behind the verb, the first field is an empty one.
  let (field, path) := Text.firstField ' ' (rest.getD [])
  match verb with
  | .quit => .ok quit
  | .noop => .ok noop
  | .mount => return mount (← required "volume" rest)
  | .makeDirectory => return makeDirectory (← required "path" rest)
  | .stat => return stat (← required "path" rest)
  | .delete => return delete (← required "path" rest)
  | .renameFrom => return renameFrom (← required "path" rest)
  | .renameTo => return renameTo (← required "path" rest)
  | .list => return list (← required "path" rest)
  | .create => return create (← number "size" field) (← required "path" path)
  | .append => return append (← number "length" field) (← required "path" path)
  | .removeDirectory =>
    return removeDirectory (← recursiveSwitch field) (← required "path" path)
  | .openFile => return openFile (← OpenFlags.parse field) (← required "path" path)
  | .write => range write rest
  | .read => range read rest
  | .flush => return flush (← number "fd" rest)
  | .close => return close (← number "fd" rest)

/-- Reads a request line. All carriage returns and line feeds at its end are left out. -/
def parse (line : String) : Except WireError Command :=
  let (name, rest) := Text.firstField ' ' (Text.trimLineEnd line.toList)
  match Verb.parse? name with
  | none => .error (.unknownCommand (String.ofList (Verb.upperCase name)))
  | some verb => (ofVerb verb rest).mapError .syntaxError

/-! ## Announced payloads -/

/-- The field of a line that tells the length of its payload, counted from the verb. -/
def lengthField? : Verb → Option Nat
  | .append => some 1
  | .write => some 3
  | _ => none

/-- The length of the payload that the first fields of a line announce. The line may be cut off, or
be no request at all behind these fields. -/
def announcedPayload? (line : String) : Option UInt64 := do
  let fields := line.toList.splitOn ' '
  let verb ← Verb.parse? (← fields.head?)
  let field ← fields[← lengthField? verb]?
  Text.readUInt64? (Text.trimLineEnd field)

end Command

end VolumeStore
