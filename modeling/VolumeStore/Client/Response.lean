import VolumeStore.Client.Error
import VolumeStore.Text.Blank
import VolumeStore.Wire.Command
import VolumeStore.Wire.Incoming
import VolumeStore.Wire.Reply

/-!
# Requests and responses of a client

What a client sends for a command, and how it reads the reply with all that follows it. Lines follow
the reply to a listing and bytes the reply to a read, when the reply has the number for it; the text
of the reply tells how many.
-/

namespace VolumeStore

structure ClientRequest where
  command : Command
  payload : List UInt8 := []
deriving DecidableEq, Repr

def ClientRequest.toBytes (r : ClientRequest) : List UInt8 :=
  Text.encode (r.command.toLine ++ Reply.lineEnd) ++ r.payload

structure Response where
  reply : Reply
  lines : List String := []
  data : List UInt8 := []
deriving DecidableEq, Repr, Inhabited

inductive ResponseError where
  | stopped (stop : ReadStop)
  | wire (error : WireError)
deriving DecidableEq, Repr

namespace ResponseError

def notText : Host.Failure :=
  .described .other "stream did not contain valid UTF-8"

def clientError (awaited : Awaited) : ResponseError → ClientError
  | stopped .waiting => .timeout awaited
  | stopped .ended => .closed
  | stopped .cutShort => .closed
  | stopped .notText => .transport notText
  | wire error => .wire error

end ResponseError

namespace Incoming

def readText (s : Incoming) : Except ResponseError (String × Incoming) :=
  match s.takeLine (s.bytes.length + 1) with
  | .error stop => .error (.stopped stop)
  | .ok ([], _) => .error (.stopped .ended)
  | .ok (line, rest) =>
    match Text.decode? line with
    | some text => .ok (String.ofList (Text.trimLineEnd text.toList), rest)
    | none => .error (.stopped .notText)

def readTexts : (count : Nat) → Incoming → Except ResponseError (List String × Incoming)
  | 0, s => .ok ([], s)
  | count + 1, s => do
    let (line, s) ← s.readText
    let (lines, s) ← readTexts count s
    return (line :: lines, s)

def readReply (s : Incoming) : Except ResponseError (Reply × Incoming) := do
  let (line, s) ← s.readText
  match Reply.parse line with
  | .ok reply => return (reply, s)
  | .error error => .error (.wire error)

end Incoming

namespace Response

def count (reply : Reply) : Except ResponseError UInt64 :=
  match Text.readUInt64? (Text.trimBlanks reply.text.toList) with
  | some n => .ok n
  | none => .error (.wire (.malformedReply reply.text))

/-- Reads the response to a command. A read never takes more bytes than it asked for. -/
def read (command : Command) (s : Incoming) : Except ResponseError (Response × Incoming) := do
  let (reply, s) ← s.readReply
  match command with
  | .list _ =>
    if reply.code = ReplyCode.listing then
      let (lines, s) ← s.readTexts (← count reply).toNat
      return ({ reply := reply, lines := lines }, s)
    else return ({ reply := reply }, s)
  | .read _ _ len =>
    if reply.code = ReplyCode.openingTransfer then
      let n ← count reply
      -- More bytes than were asked for cannot be a response.
      if len < n then .error (.wire (.malformedReply reply.text))
      else
        match s.takeBytes n.toNat with
        | .ok (data, s) => return ({ reply := reply, data := data }, s)
        | .error stop => .error (.stopped stop)
    else return ({ reply := reply }, s)
  | _ => return ({ reply := reply }, s)

def firstNumber (r : Response) : Except ClientError UInt64 :=
  match (Text.words r.reply.text.toList).head?.bind Text.readUInt64? with
  | some n => .ok n
  | none => .error (.wire (.malformedReply r.reply.text))

end Response

def Reply.refusalError (r : Reply) : ClientError :=
  match r.message? with
  | some text => .refused r.code r.errno? text
  | none => .garbled r.code r.errno?

end VolumeStore
