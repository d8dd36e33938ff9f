import VolumeStore.Toml.Datetime
import VolumeStore.Toml.Number
import VolumeStore.Toml.Tree

/-!
# TOML documents

Reading the settings of a document from its tokens: values, keys, headers and lines. A document is
refused as a whole when any of it is malformed.
-/

namespace VolumeStore.Toml

/-! ## Small steps -/

def skipBlank : List Token → List Token
  | .blank _ :: ts => ts
  | ts => ts

def expect? (token : Token) : List Token → Option (List Token)
  | t :: ts => if t = token then some ts else none
  | [] => none

/-- What follows the end of a line, which may hold a comment; the end of the document ends a line,
too. -/
def endLine? (ts : List Token) : Option (List Token) :=
  match dropToken .comment (skipBlank ts) with
  | [] => some []
  | .newline :: ts => some ts
  | _ => none

def key? : List Token → Option (String × List Token)
  | .word w :: ts => some (w, ts)
  | .string s false :: ts => some (s, ts)
  | _ => none

def path? : (fuel : Nat) → List Token → Option (List String × List Token)
  | 0, _ => none
  | fuel + 1, ts => do
    let (key, ts) ← key? (skipBlank ts)
    match skipBlank ts with
    | .period :: ts =>
      let (keys, ts) ← path? fuel ts
      return (key :: keys, ts)
    | ts => return ([key], ts)

/-! ## Dates -/

def Token.text : Token → String
  | .blank text => text
  | .period => "."
  | .colon => ":"
  | .plus => "+"
  | .word text => text
  | _ => ""

/-- A token with the word behind it, when the token is there; nothing when it is not. The word has
to follow. -/
def markedWord? (token : Token) (ts : List Token) : Option (String × List Token) :=
  match ts with
  | t :: .word w :: rest => if t = token then some (token.text ++ w, rest) else some ("", ts)
  | t :: _ => if t = token then none else some ("", ts)
  | [] => some ("", [])

def spacedWord : List Token → String × List Token
  | .blank " " :: .word w :: ts => (" " ++ w, ts)
  | ts => ("", ts)

def minutes? (ts : List Token) : Option (String × List Token) := do
  let (minute, ts) ← takeWord? ts
  let (second, ts) ← takeWord? (← expect? .colon ts)
  let (fraction, ts) ← markedWord? .period ts
  let (offset, ts) ← markedWord? .plus ts
  let (offsetMinute, ts) ← markedWord? .colon ts
  return (String.ofList minute ++ ":" ++ String.ofList second ++ fraction ++ offset ++ offsetMinute,
    ts)

def datetime? (word : String) (colonRead : Bool) (ts : List Token) :
    Option (Setting × List Token) := do
  let (spaced, ts) := spacedWord ts
  let (rest, ts) ←
    if colonRead then (minutes? ts).map fun (rest, ts) => (spaced ++ rest, ts)
    else
      match ts with
      | .colon :: ts => (minutes? ts).map fun (rest, ts) => (spaced ++ ":" ++ rest, ts)
      | ts => some (spaced, ts)
  let value ← Datetime.parse? (word ++ (if colonRead then ":" else "") ++ rest)
  return (.text value.render, ts)

/-! ## Values -/

def number? (word : String) (ts : List Token) : Option (Setting × List Token) :=
  let cs := word.toList
  let whole (base : Nat) (digits : List Char) : Option (Setting × List Token) :=
    (integer? base digits).map fun n => (.integer n, ts)
  let double (result : Option (Double × List Token)) : Option (Setting × List Token) :=
    result.map fun (x, ts) => (.real x, ts)
  match cs with
  | '0' :: 'x' :: digits => whole 16 digits
  | '0' :: 'o' :: digits => whole 8 digits
  | '0' :: 'b' :: digits => whole 2 digits
  | _ =>
    if 'e' ∈ cs ∨ 'E' ∈ cs then double (exponential? cs ts)
    else
      match ts with
      | .period :: ts => double (fractional? cs ts)
      | ts =>
        if word = "inf" then some (.real (.infinite false), ts)
        else if word = "-inf" then some (.real (.infinite true), ts)
        else if word = "nan" ∨ word = "-nan" then some (.real .nan, ts)
        else whole 10 cs

def hasNegativeExponent : List Char → Bool
  | a :: b :: cs => ((a == 'e' || a == 'E') && b == '-') || hasNegativeExponent (b :: cs)
  | _ => false

/-- A word looks like a date: a letter `T`, or a hyphen inside that belongs to no exponent. -/
def looksDated (cs : List Char) : Bool :=
  cs.contains 'T' || cs.contains 't' || ((cs.drop 1).contains '-' && !hasNegativeExponent cs)

def wordValue? (word : String) (ts : List Token) : Option (Setting × List Token) :=
  let cs := word.toList
  if word = "true" then some (.boolean true, ts)
  else if word = "false" then some (.boolean false, ts)
  else if word = "inf" ∨ word = "nan" then number? word ts
  else if cs.head?.any fun c => c == '-' || c.isDigit then
    if looksDated cs then datetime? word false ts
    else
      match ts with
      -- The first tokens of a time end at its first colon.
      | .colon :: ts => datetime? word true ts
      | ts => number? word ts
  else none

def skipLines? : (fuel : Nat) → List Token → Option (List Token)
  | 0, _ => none
  | fuel + 1, ts =>
    match skipBlank ts with
    | .newline :: ts => skipLines? fuel ts
    | .comment :: .newline :: ts => skipLines? fuel ts
    | [.comment] => some []
    | .comment :: _ => none
    | ts => some ts

mutual

def value? : (fuel : Nat) → List Token → Option (Setting × List Token)
  | 0, _ => none
  | fuel + 1, ts =>
    match ts with
    | .string s _ :: ts => some (.text s, ts)
    | .word w :: ts => wordValue? w ts
    | .plus :: .word w :: ts => number? w ts
    | .leftBrace :: ts =>
      match skipBlank ts with
      | .rightBrace :: ts => some (.table [], ts)
      | ts => (inlineTable? fuel [] ts).map fun (entries, ts) =>
        (.table (entriesToSettings entries), ts)
    | .leftBracket :: ts => (listItems? fuel ts).map fun (items, ts) => (.list items, ts)
    | _ => none

def listItems? : (fuel : Nat) → List Token → Option (List Setting × List Token)
  | 0, _ => none
  | fuel + 1, ts => do
    match ← skipLines? (fuel + 1) ts with
    | .rightBracket :: ts => return ([], ts)
    | ts =>
      let (item, ts) ← value? fuel ts
      match ← skipLines? (fuel + 1) ts with
      | .comma :: ts =>
        let (items, ts) ← listItems? fuel ts
        return (item :: items, ts)
      | .rightBracket :: ts => return ([item], ts)
      | _ => none

def inlineTable? : (fuel : Nat) → Entries → List Token → Option (Entries × List Token)
  | 0, _, _ => none
  | fuel + 1, entries, ts => do
    let (path, ts) ← path? (fuel + 1) ts
    let (value, ts) ← value? fuel (skipBlank (← expect? .equals (skipBlank ts)))
    let entries ← addKey? value path entries
    match skipBlank ts with
    | .rightBrace :: ts => return (entries, ts)
    | .comma :: ts => inlineTable? fuel entries (skipBlank ts)
    | _ => none

end

/-! ## Lines -/

structure Block where
  isList : Bool := false
  path : List String := []
  entries : Entries := []

/-- The tables of a document with a finished one. The entries in front of all headers belong to the
document itself. -/
def Block.close? (b : Block) (document : Entries) : Option Entries :=
  if b.path = [] then some (document ++ b.entries) else addTable? b.isList b.entries b.path document

def header? (fuel : Nat) (ts : List Token) : Option (Block × List Token) := do
  let isList := ts.head? == some .leftBracket
  let (path, ts) ← path? fuel (dropToken .leftBracket ts)
  let ts ← expect? .rightBracket ts
  let ts ← if isList then expect? .rightBracket ts else some ts
  return ({ isList := isList, path := path }, ← endLine? ts)

def entry? (fuel : Nat) (ts : List Token) : Option ((List String × Setting) × List Token) := do
  let (path, ts) ← path? fuel ts
  let (value, ts) ← value? fuel (skipBlank (← expect? .equals (skipBlank ts)))
  return ((path, value), ← endLine? ts)

/-- Enough fuel for one line: no value has more parts than two for each token. -/
def lineFuel (ts : List Token) : Nat :=
  2 * ts.length + 2

def lines? : (fuel : Nat) → Entries → Block → List Token → Option Entries
  | 0, _, _, _ => none
  | fuel + 1, document, block, ts => do
    match ← skipLines? (ts.length + 1) ts with
    -- The end of the document closes the table that is open.
    | [] => block.close? document
    | .leftBracket :: ts =>
      let (next, ts) ← header? (lineFuel ts) ts
      lines? fuel (← block.close? document) next ts
    | ts =>
      let ((path, value), ts) ← entry? (lineFuel ts) ts
      let entries ← addKey? value path block.entries
      lines? fuel document { block with entries := entries } ts

def parse? (document : String) : Option Setting := do
  let ts ← tokens? document
  let entries ← lines? (ts.length + 1) [] {} ts
  return .table (entriesToSettings entries)

end VolumeStore.Toml
