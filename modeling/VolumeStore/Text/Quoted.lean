import VolumeStore.Text.Unprintable

/-!
# Quoted text

How a message shows a text or a single character that it cannot trust: between quotes, with the
quote and the backslash escaped, the usual control characters by their letters, and every other
character that is not shown as it is by its number in hexadecimal.
-/

namespace VolumeStore.Text

def escape (quote c : Char) : List Char :=
  if c = quote ∨ c = '\\' then ['\\', c]
  else if c = '\x00' then ['\\', '0']
  else if c = '\t' then ['\\', 't']
  else if c = '\n' then ['\\', 'n']
  else if c = '\r' then ['\\', 'r']
  else if isUnprintable c then
    ['\\', 'u', '\x7b'] ++ Nat.toDigits 16 c.toNat ++ ['\x7d']
  else [c]

def quoted (s : String) : String :=
  String.ofList ('"' :: s.toList.flatMap (escape '"') ++ ['"'])

def quotedChar (c : Char) : String :=
  String.ofList ('\'' :: escape '\'' c ++ ['\''])

end VolumeStore.Text
