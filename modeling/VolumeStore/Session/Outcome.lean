import VolumeStore.Error

/-!
# Outcomes

What a store makes of a request: the reply, what follows it on the wire, and whether the connection
goes on.
-/

namespace VolumeStore

inductive Attachment where
  | none
  | lines (lines : List String)
  | bytes (bytes : List UInt8)
deriving DecidableEq, Repr

inductive Outcome where
  | done (reply : Reply) (attachment : Attachment)
  | failed (error : StoreError)
  /-- The connection ends after the reply. -/
  | closing (reply : Reply)
deriving DecidableEq, Repr

namespace Outcome

def ok (code : UInt16) (text : String) : Outcome :=
  .done ⟨code, text⟩ .none

def reply : Outcome → Reply
  | done reply _ => reply
  | failed error => error.reply
  | closing reply => reply

def attachment : Outcome → Attachment
  | done _ attachment => attachment
  | failed _ => .none
  | closing _ => .none

def isClosing : Outcome → Bool
  | closing _ => true
  | _ => false

def attachmentBytes : Attachment → List UInt8
  | .none => []
  | .lines lines => lines.flatMap fun line => Text.encode (line ++ Reply.lineEnd)
  | .bytes bytes => bytes

def toBytes (o : Outcome) : List UInt8 :=
  Text.encode o.reply.toLine ++ attachmentBytes o.attachment

end Outcome

end VolumeStore
