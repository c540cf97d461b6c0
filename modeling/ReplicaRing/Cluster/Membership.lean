import ReplicaRing.Cluster.Line

/-!
Participants join, find out who has crashed, elect a coordinator, and leave. Duties that an event
brings are done at once; events and messages that they send go to the post. `settle` goes through
the post until it is empty.
-/
namespace ReplicaRing.Cluster

/-- Sends a message and waits for nothing. Says whether someone was there. -/
def send (recipient : Member) (message : Message) : Act Bool := do
  return (← network.send recipient message).isOk

/-- Sends an event to all but one, and counts those that were there. -/
def broadcast (sender : Member) (recipients : List Member) (event : Event) : Act Nat := do
  let outcomes ← (recipients.filter (· ≠ sender)).mapM (send · (.membership event))
  return (outcomes.filter id).length

/-! ### The election and the role of the coordinator -/

/-- Hands a token to the successor. If nobody takes it, the election is given up. -/
def forward (name : String) (token : Election.Token) : Act Unit := do
  match (← session? name).bind (·.ring.successor?) with
  | some successor => if ← send successor (.membership token.event) then return
  | none => pure ()
  updateSession name fun s => { s with elector := s.elector.abort }

/-- Starts the role of the coordinator at a seat, from what the members store. -/
def startCoordinator (seat : Seat) (placement : Placement) : Act Unit := do
  let c ← Coordinator.recover placement storeNetwork (← ringOf seat).toList
  note (.coordinatorReady c.directory.size Placement.strategy)
  setCoordinator seat c

/-- Starts the role at a participant that its ring names as coordinator, unless it runs. -/
def takeRole (name : String) : Act Unit := do
  match ← participant? name with
  | none => return
  | some p =>
    if p.session.any fun s => s.ring.isCoordinator && s.role.isNone then
      startCoordinator (.participant name) { factor := p.config.replicationFactor }

/-- Does what a step of the election asks for. The role runs before anyone hears of it. -/
def act (name : String) (action : Election.Action) : Act Unit := do
  if action.isWon then takeRole name
  match action.token? with
  | some token => forward name token
  | none => return

/-- Does one duty, unless the participant has stopped. -/
def fulfil (name : String) (duty : Session.Duty) : Act Unit := do
  match ← session? name with
  | none => return
  | some s =>
    if duty = .stop then updateParticipant name fun p => { p with session := none }
    else
      let (elector, action) := Session.perform s.elector duty
      updateSession name fun s => { s with elector }
      act name action

/-- An event reaches a participant. -/
def handleEvent (name : String) (event : Event) : Act Unit := do
  match ← session? name with
  | none => return
  | some s => (Session.duties s.ring event).forM (fulfil name)

/-! ### The post -/

def deliver : Letter → Act Unit
  | .message recipient message => discard (send recipient message)
  | .event name event => handleEvent name event

/-- Delivers letters, the oldest first, at most so many. -/
def deliverAll : Nat → Act Unit
  | 0 => return
  | fuel + 1 => do
    match (← get).post with
    | [] => return
    | letter :: post =>
      modify fun c => { c with post }
      deliver letter
      deliverAll fuel

/-- How many letters are delivered at most. Tokens die out long before that. -/
def postLimit : Nat := 100000

def settle : Act Unit := deliverAll postLimit

/-! ### The failure detectors -/

/-- The failure detector that a seat uses. -/
def detectorOf : Seat → Act Detector
  | .peer _ | .former _ => return (← get).detector
  | .participant name => return ((← session? name).map (·.detector)).getD (← get).detector

def setDetector (seat : Seat) (detector : Detector) : Act Unit :=
  match seat with
  | .peer _ | .former _ => modify fun c => { c with detector }
  | .participant name => updateSession name fun s => { s with detector }

/-- What comes back to a ping. The first peer and the participants have a detector; the others
answer as they were told. -/
def pingReplies (endpoint : Endpoint) (ping : Datagram) : Act (List Datagram) := do
  let answer (d : Detector) : List Datagram :=
    match d.receive ping with
    | (_, .reply datagram) => [datagram]
    | _ => []
  match ← seatAt? endpoint with
  | none => return []
  | some (.peer 0) => return answer (← get).detector
  | some (.peer i) =>
    match ← peer? i with
    | some p => return p.pingAnswers.filterMap (·.datagram? p.member ping.seq)
    | none => return []
  | some seat => return answer (← detectorOf seat)

/-- Pings a member. -/
def ping (seat : Seat) (target : Member) : Act Bool := do
  let (d, seq, datagram) := (← detectorOf seat).beginPing
  let replies ←
    match datagram with
    | some datagram => pingReplies target.endpoint datagram
    | none => pure []
  let (d, acknowledged) := d.hear seq replies
  setDetector seat (d.endPing seq)
  return acknowledged

/-- Pings members, and lists those that did not acknowledge. -/
def probe (seat : Seat) (targets : List Member) : Act (List Member) := do
  let outcomes ← targets.mapM fun target => return (target, ← ping seat target)
  return (outcomes.filter (!·.2)).map (·.1)

/-- A suspect is reported to all members and removed, if it is in the ring. -/
def reportCrash (name : String) (suspect : Member) : Act Unit := do
  match ← session? name with
  | none => return
  | some s =>
    if s.ring.contains suspect then
      for m in s.ring.toList do
        if m ≠ s.identity then write (.message m (.membership ⟨.crash, suspect⟩))
      fulfil name (.remove suspect)

/-- A round of the failure detector. A participant that knows no coordinator starts an election. -/
def protocolRound (name : String) : Act Unit := do
  match ← session? name, ← participant? name with
  | some s, some p =>
    let suspects ← probe (.participant name) (Session.targets s.ring p.config.monitors)
    suspects.forM (reportCrash name)
    match ← session? name with
    | some s => if s.ring.coordinator.isNone then fulfil name .startElection
    | none => return
  | _, _ => return

/-- A repair pass of the coordinator at a seat, if the role runs there. -/
def repair (seat : Seat) : Act (Option RepairReport) := do
  match ← coordinator? seat with
  | none => return none
  | some c =>
    let (c, report) ← c.repair storeNetwork (← ringOf seat).toList
    setCoordinator seat c
    return some report

/-! ### The introducer -/

/-- Hands a member of the group to a joiner. -/
def introduce (joining : Member) : Act (Option Member) := do
  let (introducer, found) ← Introducer.introduce
    (fun m => send m (.membership ⟨.introducerCheckAlive, m⟩)) (← get).introducer joining
  modify fun c => { c with introducer }
  return found

/-- Says bytes to whoever listens at an endpoint, ends the own side, and hears what comes back. -/
def sayRaw (endpoint : Endpoint) (bytes : Bytes) : Act (Except ExchangeFault Heard) := do
  let (said, body) :=
    match Wire.Frame.read (α := Message) bytes with
    | .ok (message, body) => (some message, body)
    | .error _ => (none, [])
  match ← connect copyNow endpoint said with
  | .error fault => return .error fault
  | .ok line => return .ok (line.heard.andThen (← feed line body))

/-- Says the bytes of a request to whoever listens at an endpoint, which may be the introducer. -/
def askIntroducer (endpoint : Endpoint) (request : Bytes) : Act (Except ExchangeFault Heard) := do
  if (← get).introducerAt = some endpoint then
    match Wire.Frame.read (α := IntroducerRequest) request with
    | .ok (request, _) =>
      return .ok ⟨Wire.Frame.bytes (IntroducerReply.mk (← introduce request.joining)), true⟩
    | .error _ => return .ok {}
  else sayRaw endpoint request

/-! ### Joining and leaving -/

/-- Asks the introducer for a member of the group. A joiner already listens, but says nothing yet:
it waits in vain for itself. -/
def findGroup (config : MemberConfig) (identity : Member) :
    ExceptT MembershipFault Act (Option Member) := do
  let some address := config.introducer | return none
  let heard ←
    match Endpoint.parse? address with
    | some endpoint =>
      if endpoint = identity.endpoint then pure (.ok ⟨[], false⟩)
      else ExceptT.lift (askIntroducer endpoint (Wire.Frame.bytes (IntroducerRequest.mk identity)))
    | none => pure (.error (.io .unknownHost))
  match heard.bind (·.reply (α := IntroducerReply) .awaitingReply) with
  | .ok reply => return reply.groupMember
  | .error fault => throw (.introducerUnreachable address fault)

/-- The ring of a joiner: alone, or as a member of the group knows it. -/
def discover (config : MemberConfig) (identity : Member) : ExceptT MembershipFault Act Ring := do
  match ← findGroup config identity with
  | none =>
    ExceptT.lift (note (.founding identity))
    return Session.initialRing identity none
  | some via =>
    let request := Message.membership ⟨.memberListRequest, identity⟩
    match ← ExceptT.lift (network.request (α := Snapshot) via request) with
    | .ok snapshot =>
      ExceptT.lift (note (.receivedMembership via snapshot.members.length))
      return Session.initialRing identity (some snapshot)
    | .error fault => throw (.joinFailed via fault)

/-- Takes an endpoint and the time of joining. -/
def newIdentity (config : MemberConfig) : ExceptT MembershipFault Act Member := do
  match Host.claim config.host with
  | .error fault => throw (.io fault)
  | .ok () =>
    let c ← get
    let port := if config.port = 0 then c.freePort else config.port
    let identity : Member := ⟨config.host, port, c.clock⟩
    let taken := c.occupied.contains identity.endpoint ||
      c.introducerAt == some identity.endpoint ||
      (← ExceptT.lift (seatAt? identity.endpoint)).isSome
    if taken then throw (.io (.os .addressInUse))
    let freePort := if config.port = 0 then c.freePort + 1 else c.freePort
    set { c with clock := c.clock + 1, freePort }
    return identity

/-- Opens the store of a participant. -/
def openStore (config : MemberConfig) (identity : Member) : ExceptT MembershipFault Act Store := do
  let folder := config.storageDir identity.port
  match ← ExceptT.lift (onDisk (Store.openAt · (homePath folder))) with
  | .error fault => throw (.storage (.io fault))
  | .ok store =>
    ExceptT.lift (note (.storeOpened folder))
    return store

/-- A participant joins: it takes an identity, learns the ring, opens its store, and tells all. A
first round of the failure detector follows. -/
def join (name : String) : ExceptT MembershipFault Act Member := do
  let some p := ← ExceptT.lift (participant? name) | throw .notJoined
  if let some s := p.session then throw (.alreadyJoined s.identity)
  let identity ← newIdentity p.config
  let ring ← discover p.config identity
  let store ← openStore p.config identity
  ExceptT.lift do
    updateParticipant name fun p =>
      { p with session := some { elector := { ring }, store, detector := { owner := identity } } }
    let delivered ← broadcast identity ring.toList ⟨.join, identity⟩
    note (.joinedGroup identity delivered)
    takeRole name
    protocolRound name
  return identity

/-- The loops of a session have stopped. -/
def noteStopped (s : Session) : Act Unit := do
  note .receiverStopped
  note (.loopStopped "accept")
  note (.loopStopped "protocol")
  if s.role.isSome then note .repairStopped

/-- A participant leaves and tells all. -/
def leave (name : String) : ExceptT MembershipFault Act Unit := do
  let some s := ← ExceptT.lift (session? name) | throw .notJoined
  ExceptT.lift do
    discard (broadcast s.identity s.ring.toList ⟨.leave, s.identity⟩)
    note (.leftGroup s.identity)
    updateParticipant name fun p => { p with session := none }
    noteStopped s

/-! ### Time -/

/-- Loops with periods from here on do not come round while anyone waits. -/
def longPeriodMs : Nat := 3600000

/-- Time passes, until every loop with a shorter period has come round once. -/
def passPeriod : Act Unit := do
  for (name, p) in (← get).participants do
    if p.config.protocolPeriodMs < longPeriodMs then
      protocolRound name
      settle
    if p.config.repairPeriodMs < longPeriodMs then
      discard (repair (.participant name))
      settle

/-- Looks again and again, at most so many times, until what is seen is what is waited for. -/
def await {α : Type} (look : Act α) (ready : α → Bool) : Nat → Act α
  | 0 => look
  | n + 1 => do
    let x ← look
    if ready x then return x
    passPeriod
    await look ready n

end ReplicaRing.Cluster
