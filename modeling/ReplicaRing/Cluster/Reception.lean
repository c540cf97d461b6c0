import ReplicaRing.Cluster.Line

/-!
The store of a peer, step by step: puts whose bytes come in pieces, copies that wait for a holder to
go on speaking, and what happens to the folder behind the store's back.
-/
namespace ReplicaRing.Cluster

/-! ### Puts -/

/-- What the sender of a put sees, and the fault that ended it for the store. -/
structure PutOutcome where
  ack : FileKind
  /-- The last word of the store, if the put was admitted. -/
  confirmation : Option (Except ExchangeFault FileKind) := none
  fault : Option StorageFault := none

/-- The last word of a store, which says nothing if it met a fault. -/
def confirmation (a : Answer) : Except ExchangeFault FileKind :=
  match a.reply with
  | some reply => .ok reply.kind
  | none => .error (.io .endOfFile)

/-- A put whose bytes come at once. -/
def put (peer : Nat) (name : String) (announced : Option UInt64) (body : Bytes) :
    Act PutOutcome := do
  match ← onStore (.peer peer) (·.beginPut · name) with
  | .refused => return { ack := .fail }
  | .failed fault =>
    return { ack := .ok, confirmation := some (.error (.io .endOfFile)), fault := some (.io fault) }
  | .receiving inflow =>
    let answer ← onStore (.peer peer) (·.takePut · name announced inflow body)
    return { ack := .ok, confirmation := some (confirmation answer), fault := answer.fault }

def updatePut (key : String) (f : OpenPut → OpenPut) : Act Unit :=
  modify fun c => { c with puts := c.puts.map fun (k, p) => (k, if k = key then f p else p) }

/-- Bytes of a put arrive. Says whether they are taken: when the put has ended, only none are. -/
def collect (key : String) (bytes : Bytes) : Act Bool := do
  match (← get).puts.lookup key with
  | none => return false
  | some p =>
    match p.progress with
    | .ended _ => return bytes.isEmpty
    | .receiving inflow =>
      let inflow ← onDisk (Transfer.collect · inflow bytes)
      updatePut key fun p => { p with progress := .receiving inflow }
      return true

/-- The bytes of a put have ended, and the put is over. -/
def finishPut (key : String) : Act Answer := do
  match (← get).puts.lookup key with
  | none => return {}
  | some p =>
    modify fun c => { c with puts := c.puts.filter (·.1 ≠ key) }
    match p.progress with
    | .ended answer => return answer
    | .receiving inflow => onStore p.seat (·.finishPut · p.name p.announced inflow)

/-- The sender of a put is gone. What has come is all; only the last word is lost. -/
def dropPut (key : String) : Act (Option StorageFault) := do
  let answer ← finishPut key
  return if answer.reply.isSome then some (.exchange (.io .brokenPipe)) else answer.fault

/-- A put begins under a key. The sender of an earlier put under that key goes. -/
def beginPut (key : String) (peer : Nat) (name : String) (announced : Option UInt64) :
    Act FileKind := do
  let (ack, progress) ←
    match ← onStore (.peer peer) (·.beginPut · name) with
    | .refused => pure (FileKind.fail, PutProgress.ended {})
    | .failed fault => pure (.ok, .ended { fault := some (.io fault) })
    | .receiving inflow => pure (.ok, .receiving inflow)
  discard (dropPut key)
  let put : OpenPut := { seat := .peer peer, name, announced, progress }
  modify fun c => { c with puts := (key, put) :: c.puts }
  return ack

/-- Puts and copies that are on their way into the store of a peer go on with the store as it is
now, when the peer gets another. -/
def retire (peer : Nat) (store : Store) : Act Unit :=
  modify fun c =>
    let seat (s : Seat) : Seat := if s = .peer peer then .former c.formerStores.length else s
    { c with
      formerStores := c.formerStores ++ [store]
      puts := c.puts.map fun (k, p) => (k, { p with seat := seat p.seat })
      copies := c.copies.map fun copy => { copy with seat := seat copy.seat } }

/-- Opens the store of a peer anew. -/
def reopen (peer : Nat) : Act (Except IoFault Unit) := do
  match ← store? (.peer peer) with
  | none => return .ok ()
  | some former =>
    match ← onDisk (Store.openAt · ⟨[], "/" ++ "/".intercalate former.root⟩) with
    | .error fault => return .error fault
    | .ok store =>
      retire peer former
      setStore (.peer peer) store
      return .ok ()

/-! ### Copies -/

def copyAt? (place : Nat) : Act (Option OpenCopy) := return (← get).copies[place]?

def updateCopy (place : Nat) (f : OpenCopy → OpenCopy) : Act Unit :=
  modify fun c => { c with copies := c.copies.modify place f }

/-- The place of the last copy that began under a key. -/
def placeOf? (key : String) : Act (Option Nat) := do
  let copies := (← get).copies
  return (List.range copies.length).reverse.find? fun i => copies[i]?.any (·.key == key)

/-- Hears more from the holder that a copy pulls its file from. -/
def hearPull (copy : OpenCopy) (bytes : Bytes) : Act Pull :=
  onStore copy.seat fun s d =>
    let (d, pull) := copy.pull.hear d (s.path copy.name) bytes
    (s, d, pull)

/-- The holder that a copy pulls its file from has said all that it will say. -/
def finishPull (copy : OpenCopy) (closed : Bool) : Act (Except ExchangeFault FileMessage) :=
  onStore copy.seat fun s d =>
    let (d, pulled) := copy.pull.finish d (s.path copy.name) closed
    (s, d, pulled)

/-- Pulls the file of the copy at a place from a holder. If the holder waits for a permit in the
middle of the file, the copy waits too. -/
def pullWaiting (place : Nat) (copy : OpenCopy) (holder : Member) :
    Act (Option (Except ExchangeFault FileMessage)) := do
  match ← connect noCopies holder.endpoint (some (Store.getRequest copy.name)) with
  | .error fault => return some (.error fault)
  | .ok line =>
    let pull ← hearPull { copy with pull := .start } line.said
    match line.pending, pull with
    | .script i (.atGate rest), .ended _ =>
      awaitPermit i none rest
      some <$> finishPull { copy with pull } false
    | .script i (.atGate rest), _ =>
      awaitPermit i (some place) rest
      updateCopy place fun copy => { copy with pull }
      return none
    | _, _ =>
      discard (feed line [])
      some <$> finishPull { copy with pull } line.heard.closed

def copyPortFor (place : Nat) (copy : OpenCopy) : Store.CopyPort Act :=
  copyPort copy.seat (pullWaiting place copy)

/-- A copy begins under a key, and goes on until a holder makes it wait. -/
def beginCopy (key : String) (peer : Nat) (name : String) (holders : List Member) : Act Unit := do
  let copy : OpenCopy := { key, seat := .peer peer, name, progress := .waiting holders }
  let place := (← get).copies.length
  modify fun c => { c with copies := c.copies ++ [copy] }
  let progress ← Store.copy (copyPortFor place copy) .asGiven name holders
  updateCopy place fun copy => { copy with progress }

/-- The holder that a copy waits for has said all that it will say. -/
def resumeCopy (place : Nat) (closed : Bool) : Act Unit := do
  match ← copyAt? place with
  | none => return
  | some copy =>
    match copy.progress with
    | .answered _ => return
    | .waiting others =>
      let port := copyPortFor place copy
      let progress ← Store.hearHolder port copy.name (← finishPull copy closed)
        (Store.copyFrom port copy.name others)
      updateCopy place fun copy => { copy with progress }

/-- A script that waited for a permit has gone on as far as the line shows. -/
def hearWaiter (listener : Option Nat) (line : Line) : Act Unit := do
  if let some place := listener then
    if let some copy := ← copyAt? place then
      let pull ← hearPull copy line.said
      updateCopy place fun copy => { copy with pull }
  match line.pending, listener with
  | .script i (.atGate rest), _ => awaitPermit i listener rest
  | _, some place => resumeCopy place line.heard.closed
  | _, none => return

/-- Gives a peer a permit. The script that waits longest goes on; else the permit is kept. -/
def release (i : Nat) : Act Unit := do
  match (← peer? i).map (·.waiters) with
  | some (waiter :: waiters) =>
    updatePeer i fun p => { p with waiters }
    hearWaiter waiter.copy (← speakOn i waiter.copy.isNone waiter.rest)
  | _ => updatePeer i fun p => { p with permits := p.permits + 1 }

/-- Nobody listens for a copy any more. -/
def stopListening (place : Nat) : Act Unit :=
  modify fun c =>
    let deafen (w : Waiter) : Waiter :=
      if w.copy = some place then { w with copy := none } else w
    { c with peers := c.peers.map fun p => { p with waiters := p.waiters.map deafen } }

/-- Gives up holders that make a copy wait, one after the other, at most so many. -/
def giveUp (place : Nat) : Nat → Act Unit
  | 0 => return
  | n + 1 => do
    stopListening place
    resumeCopy place false
    giveUp place n

/-- The answer of a copy. Holders that make it wait are given up, as if they were silent. -/
def endCopy (key : String) : Act FileKind := do
  let some place := ← placeOf? key | return .fail
  if let some { progress := .waiting others, .. } := ← copyAt? place then
    giveUp place (others.length + 1)
  match ← copyAt? place with
  | some { progress := .answered kind, .. } => return kind
  | _ => return .fail

/-- Copies a stored file to a peer at once. -/
def copyTo (peer : Nat) (name : String) (holders : List Member) : Act FileKind :=
  copyNow (.peer peer) { FileMessage.request .replicate .fileServer name with nodes := holders }

/-! ### The rest of the store and of the disk -/

/-- Serves a request that is no put. -/
def askPeer (peer : Nat) (request : FileMessage) : Act Answer := do
  if request.kind = .put then
    let outcome ← put peer request.file request.size []
    return { reply := some (FileMessage.reply outcome.ack), fault := outcome.fault }
  else askStore copyNow (.peer peer) request

/-- Deletes at a peer, and counts what was removed. -/
def deleteAt (peer : Nat) (target : String) : Act Nat :=
  return (← onStore (.peer peer) (·.delete · target)).removed

/-- What is in the folder of a peer's store. Folders have no content. -/
def folderOf (peer : Nat) : Act (List (String × Option Bytes)) := do
  match ← store? (.peer peer) with
  | none => return []
  | some s =>
    return ((← get).disk.children s.root).map fun (name, entry) =>
      match entry with
      | .file content => (name, some content)
      | .folder => (name, none)

/-- Sends a file through a pipe and receives it at a path: what each side reports. -/
def transfer (source : Option Bytes) (destination : FilePath) (announced : Option UInt64) :
    Act (Except IoFault Nat × Except IoFault Nat) := do
  match source with
  | none =>
    let received ← onDisk (Transfer.receive · destination announced [])
    return (received, .error (.os .noEntry))
  | some body =>
    let refused := !(Transfer.start (← get).disk destination).2.toBool
    let received ← onDisk (Transfer.receive · destination announced body)
    return (received, if refused && !body.isEmpty then .error .brokenPipe else .ok body.length)

/-- The content of a file, if there is one. -/
def contentOf (p : FilePath) : Act (Option Bytes) := do
  return ((← get).disk.read p).toOption

/-- Whether bytes for a path are still lying in its sibling. -/
def isInTransit (p : FilePath) : Act Bool := do
  return ((← get).disk.lookup p.inTransit).toBool

end ReplicaRing.Cluster
