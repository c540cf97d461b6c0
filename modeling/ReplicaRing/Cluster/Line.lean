import ReplicaRing.Client
import ReplicaRing.Cluster.Basic
import ReplicaRing.Host

/-!
Connections. Who opens one says a message. The side that is reached says at once what it has to
say, and may then wait: for the bytes of a put, for the end of the caller's side, or for a permit.
-/
namespace ReplicaRing.Cluster

namespace Line

/-- All is said, and the connection is closed. -/
def saying (bytes : Bytes) : Line := ⟨bytes, .closed⟩

def heard (l : Line) : Heard := ⟨l.said, l.pending == .closed⟩

end Line

/-- The script of a peer goes on. -/
def speakOn (i : Nat) (ended : Bool) (deeds : List Deed) : Act Line := do
  match ← peer? i with
  | none => return {}
  | some p =>
    let speech := speak ended p.permits deeds
    updatePeer i fun p => { p with permits := speech.permits }
    return ⟨speech.said, if speech.pause = .finished then .closed else .script i speech.pause⟩

/-- A script that nobody listens to any more, or only a copy, waits for a permit. -/
def awaitPermit (i : Nat) (copy : Option Nat) (rest : List Deed) : Act Unit :=
  updatePeer i fun p => { p with waiters := p.waiters ++ [⟨copy, rest⟩] }

/-- How copies are made at a seat: the answer to an order to replicate. -/
abbrev Copier := Seat → FileMessage → Act FileKind

/-- A request that is no put reaches the store of a seat. -/
def askStore (copier : Copier) (seat : Seat) (m : FileMessage) : Act Answer := do
  if m.kind = .replicate then return { reply := some (FileMessage.reply (← copier seat m)) }
  else onStore seat (·.serve · m)

/-- Writes to the log what a store has to say there. -/
def noteAnswer (a : Answer) : Act Unit := do
  a.notes.forM note
  match a.fault with
  | some fault => note (.connectionEnded fault.message)
  | none => return

/-- A request reaches the store of a seat. -/
def reachStore (copier : Copier) (seat : Seat) (m : FileMessage) : Act Line := do
  note (.storeRequest m.kind m.file)
  if m.kind = .put then
    if !Store.accepts m.file then note (.putRejected m.file)
    match ← onStore seat (·.beginPut · m.file) with
    | .refused => return .saying (Wire.Frame.bytes FileMessage.fail)
    | .failed fault =>
      noteAnswer { fault := some (.io fault) }
      return .saying (Wire.Frame.bytes FileMessage.ok)
    | .receiving inflow =>
      return ⟨Wire.Frame.bytes FileMessage.ok, .put seat m.file m.size inflow⟩
  else
    let answer ← askStore copier seat m
    noteAnswer answer
    return .saying answer.bytes

/-- A request reaches the coordinator's role at a seat, which refuses if it does not run. Deletions
that follow from it are sent later. -/
def reachCoordinator (seat : Seat) (m : FileMessage) : Act Line := do
  match ← coordinator? seat with
  | none => return .saying (Wire.Frame.bytes FileMessage.fail)
  | some c =>
    let (c, response) := c.handle (← ringOf seat).toList m
    setCoordinator seat c
    (Coordinator.notes m response).forM note
    for (holder, name) in response.deletes do
      write (.message holder (.file (FileMessage.request .delete .fileServer name)))
    return .saying ((response.reply.map Wire.Frame.bytes).getD [])

/-- A connection reaches a peer. What it said is no message if it could not be read. -/
def reachPeer (copier : Copier) (i : Nat) (p : Peer) (said : Option Message) : Act Line := do
  match said with
  | some m => updatePeer i fun p => { p with received := m :: p.received }
  | none => pure ()
  match p.conduct, said with
  | .scripted scripts, _ =>
    if said.any (·.isCheckAlive) then return {}
    else
      updatePeer i fun p => { p with connections := p.connections + 1 }
      speakOn i false (p.nextScript scripts)
  | _, some (.membership e) =>
    if e.kind = .memberListRequest then
      return .saying ((p.snapshot.map Wire.Frame.bytes).getD [])
    else return {}
  | _, some (.file m) =>
    if m.destination = .coordinator then reachCoordinator (.peer i) m
    else reachStore copier (.peer i) m
  | _, none => return {}

/-- A connection reaches a participant. Events wait in the post, but for a request for the
members. -/
def reachParticipant (copier : Copier) (name : String) (said : Option Message) : Act Line := do
  match said with
  | none => return {}
  | some (.membership e) =>
    if e.kind = .memberListRequest then
      return .saying (Wire.Frame.bytes (← ringOf (.participant name)).snapshot)
    else
      write (.event name e)
      return {}
  | some (.file m) =>
    match m.destination with
    | .coordinator => reachCoordinator (.participant name) m
    | .fileServer => reachStore copier (.participant name) m
    | .client => return {}

/-- Opens a connection. -/
def connect (copier : Copier) (endpoint : Endpoint) (said : Option Message) :
    Act (Except ExchangeFault Line) := do
  match ← seatAt? endpoint with
  | none | some (.former _) => return .error (Host.refusal endpoint.host)
  | some (.peer i) =>
    match ← peer? i with
    | none => return .error (Host.refusal endpoint.host)
    | some p => return .ok (← reachPeer copier i p said)
  | some (.participant name) => return .ok (← reachParticipant copier name said)

/-- The caller says a body and ends its side; then it hears the rest. -/
def feed (line : Line) (body : Bytes) : Act Heard := do
  match line.pending with
  | .closed => return {}
  | .put seat name announced inflow =>
    let answer ← onStore seat fun s d => s.takePut d name announced inflow body
    noteAnswer answer
    return ⟨answer.bytes, true⟩
  | .script i (.awaitingEnd rest) =>
    let line ← speakOn i true rest
    match line.pending with
    | .script i (.atGate rest) => awaitPermit i none rest
    | _ => pure ()
    return line.heard
  | .script i (.atGate rest) =>
    awaitPermit i none rest
    return ⟨[], false⟩
  | .script _ _ => return ⟨[], false⟩

/-- A caller that connects, says a message and then a body, and hears the rest. -/
def exchange (copier : Copier) (endpoint : Endpoint) (said : Option Message)
    (decide : Heard → Option Bytes) : Act (Except ExchangeFault (Heard × Heard)) := do
  match ← connect copier endpoint said with
  | .error fault => return .error fault
  | .ok line => return .ok (line.heard, ← feed line ((decide line.heard).getD []))

/-- Exchanges in a group whose copies are made by `copier`. A message that is too long for a frame
is not said, and the connection is closed. -/
def networkWith (copier : Copier) : Network Act where
  call recipient message decide := do
    match Wire.Frame.encode message with
    | .ok _ => exchange copier recipient.endpoint (some message) decide
    | .error fault =>
      return (← exchange copier recipient.endpoint none fun _ => none).bind fun _ => .error fault

/-- What a copy at a seat needs. -/
def copyPort (seat : Seat)
    (pull : Member → Act (Option (Except ExchangeFault FileMessage))) : Store.CopyPort Act where
  act := onStore seat
  inRing m := return (← ringOf seat).contains m
  pull

/-- A copy asks holders for files only, and nobody makes copies for that. -/
def noCopies : Copier := fun _ _ => pure .fail

/-- Pulls a file from a holder to where the store of a seat keeps it. -/
def pullNow (seat : Seat) (name : String) (holder : Member) :
    Act (Except ExchangeFault FileMessage) := do
  match ← (networkWith noCopies).ask holder (Store.getRequest name) with
  | .error fault => return .error fault
  | .ok heard =>
    onStore seat fun s d =>
      let (d, pulled) := heard.pull d (s.path name)
      (s, d, pulled)

/-- Copies from the first holder that serves the file. A holder that falls silent is given up. -/
def copyNow : Copier := fun seat m => do
  let port := copyPort seat fun holder => some <$> pullNow seat m.file holder
  match ← Store.copy port .asGiven m.file m.nodes with
  | .answered kind => return kind
  | .waiting _ => return .fail

/-- How everybody in the group is reached. -/
def network : Network Act := networkWith copyNow

/-- How the coordinator reaches the stores. -/
def storeNetwork : StoreNetwork Act where
  catalog m := do
    let request := FileMessage.request .coordinatorStoreRequest .fileServer ""
    match ← network.request (α := FileMessage) m (.file request) with
    | .ok reply => return reply.files
    | .error _ => return none
  copy order := do
    let request := FileMessage.request .replicate .fileServer order.storedName
    let message := Message.file { request with nodes := order.holders }
    match ← network.request (α := FileMessage) order.target message .awaitingTransferOutcome with
    | .ok reply => return some reply.kind
    | .error _ => return none

/-- The file operations of a seat. Relative paths start from the home folder. -/
def client (seat : Seat) : Client Act where
  network := network
  coordinator := return (← ringOf seat).coordinator
  inRing m := return (← ringOf seat).contains m
  onDisk := onDisk
  note := note

end ReplicaRing.Cluster
