import ReplicaRing.Text.Utf8

/-!
What can go wrong outside a member: the platform refuses an operation, bytes do not decode, or an
exchange with another member fails. Each cause has one wording.
-/
namespace ReplicaRing

/-- Refusals of the operating system. -/
inductive OsFault
  | permissionDenied | noEntry | busy | alreadyExists | notDirectory | isDirectory | invalidArgument
  | nameTooLong | notEmpty | addressInUse | addressNotAvailable | connectionRefused
deriving DecidableEq, Repr

namespace OsFault

def code : OsFault → Nat
  | noEntry => 2
  | permissionDenied => 13
  | busy => 16
  | alreadyExists => 17
  | notDirectory => 20
  | isDirectory => 21
  | invalidArgument => 22
  | nameTooLong => 36
  | notEmpty => 39
  | addressInUse => 98
  | addressNotAvailable => 99
  | connectionRefused => 111

def text : OsFault → String
  | noEntry => "No such file or directory"
  | permissionDenied => "Permission denied"
  | busy => "Device or resource busy"
  | alreadyExists => "File exists"
  | notDirectory => "Not a directory"
  | isDirectory => "Is a directory"
  | invalidArgument => "Invalid argument"
  | nameTooLong => "File name too long"
  | notEmpty => "Directory not empty"
  | addressInUse => "Address already in use"
  | addressNotAvailable => "Cannot assign requested address"
  | connectionRefused => "Connection refused"

def message (f : OsFault) : String :=
  f.text ++ " (os error " ++ f.code.repr ++ ")"

end OsFault

/-- A failed input or output operation. -/
inductive IoFault
  | os (fault : OsFault)
  /-- The stream ends before the length of a frame. -/
  | endOfFile
  /-- The stream ends inside a frame. -/
  | earlyEnd
  /-- A transfer has another length than announced. -/
  | wrongLength (received announced : Nat)
  /-- The other end of a pipe is gone. -/
  | brokenPipe
  /-- A name holds the character that ends names. -/
  | nulInName
  /-- A host has no address. -/
  | unknownHost
deriving DecidableEq, Repr

def IoFault.message : IoFault → String
  | os f => f.message
  | endOfFile => "unexpected end of file"
  | earlyEnd => "early eof"
  | wrongLength received announced =>
    "received " ++ received.repr ++ " of " ++ announced.repr ++ " bytes"
  | brokenPipe => "broken pipe"
  | nulInName => "file name contained an unexpected NUL byte"
  | unknownHost => "failed to lookup address information: Name or service not known"

/-- The kind of a failed operation, in one word. -/
def IoFault.kind : IoFault → String
  | os .permissionDenied => "PermissionDenied"
  | os .noEntry => "NotFound"
  | os .busy => "ResourceBusy"
  | os .alreadyExists => "AlreadyExists"
  | os .notDirectory => "NotADirectory"
  | os .isDirectory => "IsADirectory"
  | os .invalidArgument | nulInName => "InvalidInput"
  | os .nameTooLong => "InvalidFilename"
  | os .notEmpty => "DirectoryNotEmpty"
  | os .addressInUse => "AddrInUse"
  | os .addressNotAvailable => "AddrNotAvailable"
  | os .connectionRefused => "ConnectionRefused"
  | endOfFile | earlyEnd | wrongLength .. => "UnexpectedEof"
  | brokenPipe => "BrokenPipe"
  | unknownHost => "Uncategorized"

/-- Why bytes are not the encoding of a value. -/
inductive DecodeFault
  /-- A field of fixed size is cut short. -/
  | cutShort
  /-- A text announces more bytes than are left. -/
  | textCutShort
  | unknownVariant (tag : Nat) (variants : Nat)
  | badOptionTag (tag : Nat)
  | badText (fault : Text.Utf8.Fault)
deriving DecidableEq, Repr

def DecodeFault.message : DecodeFault → String
  | cutShort => "io error: unexpected end of file"
  | textCutShort => "io error: "
  | unknownVariant tag variants =>
    "invalid value: integer `" ++ tag.repr ++ "`, expected variant index 0 <= i < " ++ variants.repr
  | badOptionTag tag => "tag for enum is not valid, found " ++ tag.repr
  | badText fault => "string is not valid utf8: " ++ fault.message

/-- The steps of an exchange that wait for the other side. -/
inductive Phase
  | connecting | sendingRequest | awaitingReply | awaitingTransferOutcome
  | awaitingAcknowledgment | streamingFile | awaitingConfirmation | receivingFile
deriving DecidableEq, Repr

def Phase.text : Phase → String
  | connecting => "connecting"
  | sendingRequest => "sending request"
  | awaitingReply => "awaiting reply"
  | awaitingTransferOutcome => "awaiting transfer outcome"
  | awaitingAcknowledgment => "awaiting acknowledgment"
  | streamingFile => "streaming file"
  | awaitingConfirmation => "awaiting confirmation"
  | receivingFile => "receiving file"

/-- A failed exchange with another member. -/
inductive ExchangeFault
  | io (fault : IoFault)
  | codec (fault : DecodeFault)
  | frameTooLarge (length : Nat)
  | timeout (phase : Phase)
deriving DecidableEq, Repr

namespace ExchangeFault

def message : ExchangeFault → String
  | io f => "i/o error: " ++ f.message
  | codec f => "codec error: " ++ f.message
  | frameTooLarge n => "frame of " ++ n.repr ++ " bytes exceeds the frame limit"
  | timeout p => "timed out while " ++ p.text

/-- The kind of a failed exchange, in one word. -/
def kind : ExchangeFault → String
  | io _ => "Io"
  | codec _ => "Codec"
  | frameTooLarge _ => "FrameTooLarge"
  | timeout _ => "Timeout"

/-- Whether the fault says that the other side cannot be reached, and not that it spoke nonsense. -/
def isUnreachable : ExchangeFault → Bool
  | io _ | timeout _ => true
  | codec _ | frameTooLarge _ => false

end ExchangeFault

end ReplicaRing
