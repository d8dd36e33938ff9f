import VolumeStore.Client.Error
import VolumeStore.Session.Error
import VolumeStore.Wire.Reply

/-!
# Errors and their replies

All errors of the file store in one type, and the negative reply that a store gives for each: a
number for the part of the store that refuses, and a token for the cause.
-/

namespace VolumeStore

inductive StoreError where
  | volume (error : VolumeError)
  | wire (error : WireError)
  | session (error : SessionError)
  | client (error : ClientError)
  | host (failure : Host.Failure)
  | settings (fault : SettingsFault)
deriving DecidableEq, Repr

namespace StoreError

def message : StoreError → String
  | volume error => "Storage error: " ++ error.message
  | wire error => "Protocol error: " ++ error.message
  | session error => "Session error: " ++ error.message
  | client error => "Client error: " ++ error.message
  | host failure => "I/O error: " ++ failure.message
  | settings fault => "Configuration error: " ++ fault.message

/-- What the client is told: the errors that a request can cause speak for themselves. -/
def replyText : StoreError → String
  | volume error => error.message
  | wire error => error.message
  | session error => error.message
  | error => error.message

end StoreError

def Host.Failure.errno (failure : Host.Failure) : Errno :=
  match failure.kind with
  | .notFound => .noEntry
  | .permissionDenied => .access
  | .alreadyExists => .alreadyExists
  | .directoryNotEmpty => .notEmpty
  | .notADirectory => .notDirectory
  | .isADirectory => .isDirectory
  | .other => .failed

namespace VolumeError

/-- The number and the token for a refusal of a volume. A failure of the host is a local error, all
else is an action not taken. -/
def replyCode : VolumeError → UInt16 × Errno
  | fileNotFound _ | directoryNotFound _ => (ReplyCode.notTaken, .noEntry)
  | permissionDenied _ => (ReplyCode.notTaken, .access)
  | invalidPath _ | pathTraversal _ => (ReplyCode.notTaken, .invalid)
  | fileAlreadyExists _ => (ReplyCode.notTaken, .alreadyExists)
  | notADirectory _ => (ReplyCode.notTaken, .notDirectory)
  | isADirectory _ => (ReplyCode.notTaken, .isDirectory)
  | directoryNotEmpty _ => (ReplyCode.notTaken, .notEmpty)
  | badDescriptor _ => (ReplyCode.notTaken, .badDescriptor)
  | busy _ => (ReplyCode.notTaken, .busy)
  | host failure => (ReplyCode.localError, failure.errno)

end VolumeError

def WireError.replyCode : WireError → UInt16 × Errno
  | unknownCommand _ | commandTooLong _ => (ReplyCode.unknownCommand, .invalid)
  | syntaxError _ => (ReplyCode.syntaxError, .invalid)
  | payloadTooLarge _ _ => (ReplyCode.tooLarge, .invalid)
  | malformedReply _ | invalidStat _ => (ReplyCode.syntaxError, .failed)

def SessionError.replyCode : SessionError → UInt16 × Errno
  | notMounted => (ReplyCode.notMounted, .access)
  | unknownVolume _ => (ReplyCode.notMounted, .noEntry)
  | tooManySessions _ => (ReplyCode.unavailable, .busy)
  | invalidState _ => (ReplyCode.badSequence, .invalid)

namespace StoreError

def replyCode : StoreError → UInt16 × Errno
  | volume error => error.replyCode
  | wire error => error.replyCode
  | session error => error.replyCode
  | client _ | host _ | settings _ => (ReplyCode.localError, .failed)

def reply (error : StoreError) : Reply :=
  Reply.refusal error.replyCode.1 error.replyCode.2 error.replyText

end StoreError

end VolumeStore
