import VolumeStore.Wire.Error

/-!
# Open flags

How a file is to be opened: five switches, written as a run of letters. Flags are usable when they
grant some access, and when they ask to create or to empty the file only together with write access.
-/

namespace VolumeStore

structure OpenFlags where
  read : Bool := false
  write : Bool := false
  append : Bool := false
  create : Bool := false
  truncate : Bool := false
deriving DecidableEq, Repr, Inhabited

namespace OpenFlags

def readOnly : OpenFlags := { read := true }

def writeOnly : OpenFlags := { write := true }

def appending : OpenFlags := { write := true, append := true, create := true }

def withCreate (flags : OpenFlags) : OpenFlags := { flags with create := true }

def withTruncate (flags : OpenFlags) : OpenFlags := { flags with truncate := true }

def isWritable (flags : OpenFlags) : Bool :=
  flags.write || flags.append

def fault? (flags : OpenFlags) : Option SyntaxFault :=
  if !flags.read && !flags.isWritable then some .noAccess
  else if (flags.create || flags.truncate) && !flags.isWritable then some .needsWriteAccess
  else none

/-! ## Letters -/

def letters (flags : OpenFlags) : List (Bool × Char) :=
  [(flags.read, 'r'), (flags.write, 'w'), (flags.append, 'a'), (flags.create, 'c'),
    (flags.truncate, 't')]

def renderChars (flags : OpenFlags) : List Char :=
  (flags.letters.filter (·.1)).map (·.2)

def render (flags : OpenFlags) : String :=
  String.ofList flags.renderChars

def setLetter (flags : OpenFlags) (c : Char) : Except SyntaxFault OpenFlags :=
  match c with
  | 'r' => if flags.read then .error (.duplicateFlag c) else .ok { flags with read := true }
  | 'w' => if flags.write then .error (.duplicateFlag c) else .ok { flags with write := true }
  | 'a' => if flags.append then .error (.duplicateFlag c) else .ok { flags with append := true }
  | 'c' => if flags.create then .error (.duplicateFlag c) else .ok { flags with create := true }
  | 't' =>
    if flags.truncate then .error (.duplicateFlag c) else .ok { flags with truncate := true }
  | _ => .error (.badFlag c)

def setLetters : OpenFlags → List Char → Except SyntaxFault OpenFlags
  | flags, [] => .ok flags
  | flags, c :: cs =>
    match flags.setLetter c with
    | .ok flags => setLetters flags cs
    | .error fault => .error fault

/-- Reads flags. The letters may stand in any order, and the flags have to be usable. -/
def parse (cs : List Char) : Except SyntaxFault OpenFlags :=
  match setLetters {} cs with
  | .ok flags =>
    match flags.fault? with
    | none => .ok flags
    | some fault => .error fault
  | .error fault => .error fault

theorem setLetters_renderChars (flags : OpenFlags) :
    setLetters {} flags.renderChars = .ok flags := by
  rcases flags with ⟨r, w, a, c, t⟩
  cases r <;> cases w <;> cases a <;> cases c <;> cases t <;> rfl

/-- Writing and reading flags gives them back exactly when they are usable. -/
theorem parse_renderChars (flags : OpenFlags) :
    parse flags.renderChars = .ok flags ↔ flags.fault? = none := by
  simp only [parse, setLetters_renderChars]
  split <;> simp_all

end OpenFlags

end VolumeStore
