import VolumeStore.Text.Blank
import VolumeStore.Text.Fields
import VolumeStore.Text.Utf8
import VolumeStore.Wire.Errno
import VolumeStore.Wire.Error

/-!
# Replies

Every request is answered by one line: a number of three digits, a space and a text. Numbers from
400 on are negative; the text of a negative reply opens with an error token.
-/

namespace VolumeStore

namespace ReplyCode

/-! ## The numbers of the protocol -/

def openingTransfer : UInt16 := 150

def done : UInt16 := 200

def listing : UInt16 := 212

def fileStatus : UInt16 := 213

def ready : UInt16 := 220

def goodbye : UInt16 := 221

def mounted : UInt16 := 230

def actionDone : UInt16 := 250

def created : UInt16 := 257

def pending : UInt16 := 350

def unavailable : UInt16 := 421

def localError : UInt16 := 451

def unknownCommand : UInt16 := 500

def syntaxError : UInt16 := 501

def badSequence : UInt16 := 503

def notMounted : UInt16 := 530

def notTaken : UInt16 := 550

def tooLarge : UInt16 := 552

def leastNegative : UInt16 := 400

def width : Nat := 3

end ReplyCode

structure Reply where
  code : UInt16
  text : String
deriving DecidableEq, Repr, Inhabited

namespace Reply

def refusal (code : UInt16) (errno : Errno) (message : String) : Reply :=
  ⟨code, errno.token ++ " " ++ message⟩

def isPositive (r : Reply) : Bool :=
  r.code < ReplyCode.leastNegative

/-- The token of a negative reply: its first word, when that is one. -/
def errno? (r : Reply) : Option Errno :=
  if r.isPositive then none
  else (Text.words r.text.toList).head?.bind fun word => Errno.ofToken? (String.ofList word)

/-- The text of a reply without its token. As many bytes as the token has are left out at the start,
then blanks; there is no message when that cuts a character in two. -/
def message? (r : Reply) : Option String :=
  match r.errno? with
  | none => some r.text
  | some errno =>
    (Text.dropBytes? (Text.byteLength errno.token.toList) r.text.toList).map fun rest =>
      String.ofList (Text.dropBlanks rest)

/-! ## On the wire -/

def lineEnd : String := "\r\n"

def toLine (r : Reply) : String :=
  Text.decimal r.code.toNat ++ " " ++ r.text ++ lineEnd

def parseCode? (field : List Char) : Option UInt16 :=
  if Text.byteLength field = ReplyCode.width then Text.readUInt16? field else none

def parse (line : String) : Except WireError Reply :=
  let cs := Text.trimLineEnd line.toList
  let (field, rest) := Text.firstField ' ' cs
  match parseCode? field with
  | some code => .ok ⟨code, String.ofList (rest.getD [])⟩
  | none => .error (.malformedReply (String.ofList cs))

end Reply

end VolumeStore
