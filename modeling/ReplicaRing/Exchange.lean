import ReplicaRing.Wire.Frame

/-!
One exchange with another member, as the caller sees it. The caller says a message and hears bytes,
until the other side closes or falls silent. What it makes of them is a function of what it heard.
-/
namespace ReplicaRing

/-- What is heard on a connection. A side that has not closed is silent from there on. -/
structure Heard where
  bytes : Bytes := []
  closed : Bool := true
deriving DecidableEq, Repr

namespace Heard

/-- The next frame, and what is heard behind it. -/
def frame {α : Type} [Wire.Codec α] (h : Heard) (phase : Phase) :
    Except ExchangeFault (α × Heard) :=
  match Wire.Frame.cut h.bytes with
  | .inHeader => .error (if h.closed then .io .endOfFile else .timeout phase)
  | .inBody => .error (if h.closed then .io .earlyEnd else .timeout phase)
  | .tooLarge length => .error (.frameTooLarge length)
  | .whole body rest =>
    match Wire.decode body with
    | .ok x => .ok (x, { h with bytes := rest })
    | .error fault => .error (.codec fault)

/-- What is heard after `h` and then after more was said. -/
def andThen (h later : Heard) : Heard := ⟨h.bytes ++ later.bytes, later.closed⟩

/-- A single reply. -/
def reply {α : Type} [Wire.Codec α] (h : Heard) (phase : Phase) : Except ExchangeFault α :=
  (h.frame phase).map Prod.fst

end Heard

/-- How members are reached. A caller connects and says a message; from what it hears it decides
whether to say a body and end its side, and then it hears the rest. -/
structure Network (m : Type → Type) where
  call : Member → Message → (Heard → Option Bytes) → m (Except ExchangeFault (Heard × Heard))

namespace Network

variable {m : Type → Type} [Monad m]

/-- Says a message and waits for nothing. -/
def send (n : Network m) (recipient : Member) (message : Message) :
    m (Except ExchangeFault Unit) := do
  return (← n.call recipient message fun _ => some []).map fun _ => ()

/-- Says a message and hears what comes back. -/
def ask (n : Network m) (recipient : Member) (message : Message) :
    m (Except ExchangeFault Heard) := do
  return (← n.call recipient message fun _ => none).map Prod.fst

/-- Says a message and waits for one reply. -/
def request {α : Type} [Wire.Codec α] (n : Network m) (recipient : Member) (message : Message)
    (phase : Phase := .awaitingReply) : m (Except ExchangeFault α) := do
  return (← n.ask recipient message).bind (·.reply phase)

/-- The body that an acknowledgment asks for. -/
def bodyFor (source : Except IoFault Bytes) (h : Heard) : Option Bytes :=
  match h.frame (α := FileMessage) .awaitingAcknowledgment with
  | .ok (ack, _) => if ack.isOk then source.toOption else none
  | .error _ => none

/-- Says a message and, if it is acknowledged, the bytes of a file. The result is the refusal or
the confirmation that follows the bytes. -/
def push (n : Network m) (recipient : Member) (message : Message) (source : Except IoFault Bytes) :
    m (Except ExchangeFault FileMessage) := do
  match ← n.call recipient message (bodyFor source) with
  | .error fault => return .error fault
  | .ok (first, later) =>
    match first.frame (α := FileMessage) .awaitingAcknowledgment with
    | .error fault => return .error fault
    | .ok (ack, rest) =>
      if !ack.isOk then return .ok ack
      else
        match source with
        | .error fault => return .error (.io fault)
        | .ok _ => return (rest.andThen later).reply .awaitingConfirmation

end Network

end ReplicaRing
