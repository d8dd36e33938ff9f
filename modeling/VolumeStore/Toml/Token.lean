import VolumeStore.Text.Numeral

/-!
# Tokens of a TOML document

The pieces of a document: line ends, blanks, comments, punctuation, bare words, and strings with
their escapes resolved. Numbers and dates are bare words with punctuation between them; they are put
together later. A carriage return counts only in front of a line feed, as part of the line end.
-/

namespace VolumeStore.Toml

inductive Token where
  | newline
  | blank (text : String)
  | comment
  | equals
  | period
  | comma
  | colon
  | plus
  | leftBrace
  | rightBrace
  | leftBracket
  | rightBracket
  | word (text : String)
  | string (value : String) (multiline : Bool)
deriving DecidableEq, Repr

def isWordChar (c : Char) : Bool :=
  c.isAlphanum || c == '-' || c == '_'

def isSpace (c : Char) : Bool :=
  c == ' ' || c == '\t'

def isCommentChar (c : Char) : Bool :=
  c == '\t' || ' ' ≤ c

def isStringChar (c : Char) : Bool :=
  (c == '\t' || ' ' ≤ c) && c ≠ '\x7f'

def foldLineEnds : List Char → List Char
  | '\r' :: '\n' :: cs => '\n' :: foldLineEnds cs
  | c :: cs => c :: foldLineEnds cs
  | [] => []

/-! ## Strings -/

def hexValue? (c : Char) : Option Nat :=
  if c.isDigit then some (c.toNat - '0'.toNat)
  else if 'a' ≤ c ∧ c ≤ 'f' then some (c.toNat - 'a'.toNat + 10)
  else if 'A' ≤ c ∧ c ≤ 'F' then some (c.toNat - 'A'.toNat + 10)
  else none

def hexNumber? (digits : List Char) : Option Nat :=
  digits.foldlM (fun n c => (hexValue? c).map (16 * n + ·)) 0

def charOfNumber? (n : Nat) : Option Char :=
  if h : n.isValidChar then some (Char.ofNatAux n h) else none

def numberEscape? (count : Nat) (cs : List Char) : Option (Char × List Char) := do
  let digits := cs.take count
  if digits.length < count then none
  else
    let c ← charOfNumber? (← hexNumber? digits)
    return (c, cs.drop count)

/-- What follows a line end that a backslash takes out of a string, together with all blanks and
line ends behind it. -/
def afterFoldedLine? (cs : List Char) : Option (List Char) :=
  match cs.dropWhile isSpace with
  | '\n' :: rest => some (rest.dropWhile fun c => isSpace c || c == '\n')
  | [] => some []
  | _ => none

def escape? (multiline : Bool) (cs : List Char) : Option (List Char × List Char) :=
  match cs with
  | '"' :: cs => some (['"'], cs)
  | '\\' :: cs => some (['\\'], cs)
  | 'b' :: cs => some (['\x08'], cs)
  | 'f' :: cs => some (['\x0c'], cs)
  | 'n' :: cs => some (['\n'], cs)
  | 'r' :: cs => some (['\r'], cs)
  | 't' :: cs => some (['\t'], cs)
  | 'u' :: cs => (numberEscape? 4 cs).map fun (c, cs) => ([c], cs)
  | 'U' :: cs => (numberEscape? 8 cs).map fun (c, cs) => ([c], cs)
  | c :: _ =>
    -- A backslash in front of the end of a line leaves out the blanks that follow.
    if multiline ∧ (isSpace c ∨ c = '\n') then (afterFoldedLine? cs).map fun cs => ([], cs)
    else none
  | [] => none

def scanLine? (quote : Char) : (fuel : Nat) → List Char → Option (List Char × List Char)
  | 0, _ => none
  | _ + 1, [] => none
  | fuel + 1, c :: cs =>
    if c = quote then some ([], cs)
    else if c = '\\' ∧ quote = '"' then do
      let (added, cs) ← escape? false cs
      let (value, cs) ← scanLine? quote fuel cs
      return (added ++ value, cs)
    else if isStringChar c then (scanLine? quote fuel cs).map fun (value, cs) => (c :: value, cs)
    else none

/-- The rest of a string over several lines. Three quotes end it; one or two quotes in front of them
belong to it. -/
def scanLines? (quote : Char) : (fuel : Nat) → List Char → Option (List Char × List Char)
  | 0, _ => none
  | _ + 1, [] => none
  | fuel + 1, c :: cs =>
    if c = quote then
      let run := (c :: cs).takeWhile (· == quote)
      if run.length < 3 then
        (scanLines? quote fuel cs).map fun (value, cs) => (c :: value, cs)
      else
        -- Of up to five quotes the last three close the string.
        let inside := min (run.length - 3) 2
        some (List.replicate inside quote, (c :: cs).drop (3 + inside))
    else if c = '\\' ∧ quote = '"' then do
      let (added, cs) ← escape? true cs
      let (value, cs) ← scanLines? quote fuel cs
      return (added ++ value, cs)
    else if c = '\n' ∨ isStringChar c then
      (scanLines? quote fuel cs).map fun (value, cs) => (c :: value, cs)
    else none

def dropFirstNewline : List Char → List Char
  | '\n' :: cs => cs
  | cs => cs

def scanString? (quote : Char) (cs : List Char) : Option (Token × List Char) :=
  let (value, multiline) : Option (List Char × List Char) × Bool :=
    match cs with
    | a :: b :: cs' =>
      if a = quote ∧ b = quote then
        (scanLines? quote (cs.length + 1) (dropFirstNewline cs'), true)
      else (scanLine? quote (cs.length + 1) cs, false)
    | _ => (scanLine? quote (cs.length + 1) cs, false)
  value.map fun (value, cs) => (.string (String.ofList value) multiline, cs)

/-! ## All tokens -/

def punctuation? : Char → Option Token
  | '\n' => some .newline
  | '=' => some .equals
  | '.' => some .period
  | ',' => some .comma
  | ':' => some .colon
  | '+' => some .plus
  | '\x7b' => some .leftBrace
  | '\x7d' => some .rightBrace
  | '[' => some .leftBracket
  | ']' => some .rightBracket
  | _ => none

def scanFirst? (c : Char) (cs : List Char) : Option (Token × List Char) :=
  if isSpace c then
    some (.blank (String.ofList (c :: cs.takeWhile isSpace)), cs.dropWhile isSpace)
  else if c = '#' then some (.comment, cs.dropWhile isCommentChar)
  else if c = '"' ∨ c = '\'' then scanString? c cs
  else if isWordChar c then
    some (.word (String.ofList (c :: cs.takeWhile isWordChar)), cs.dropWhile isWordChar)
  else (punctuation? c).map fun token => (token, cs)

def scan? : (fuel : Nat) → List Char → Option (List Token)
  | _, [] => some []
  | 0, _ => none
  | fuel + 1, c :: cs => do
    let (token, cs) ← scanFirst? c cs
    return token :: (← scan? fuel cs)

def byteOrderMark : Char := '\uFEFF'

def dropMark : List Char → List Char
  | c :: cs => if c = byteOrderMark then cs else c :: cs
  | [] => []

def tokens? (document : String) : Option (List Token) :=
  let cs := foldLineEnds (dropMark document.toList)
  scan? cs.length cs

end VolumeStore.Toml
