import ReplicaRing.Proofs.Store.Receptions

/-!
# A store at work

A put or a copy occupies a store for longer than one step. It begins, its bytes are offered and come
piece by piece, the whole file is published, and then the store is done with it; anything may happen
in between. A put has one sender. A copy asks one holder after the other, so that it may go on when
an attempt has failed. Every other request is served in one step.

What is not possible in a state changes nothing, so every list of events is a run.
-/
namespace ReplicaRing

namespace Traffic

/-- How a name comes into a store. -/
inductive Route
  | put
  | copy
deriving DecidableEq, Repr

/-- How far a reception has come. -/
inductive Stage
  /-- Nobody sends bytes. -/
  | asking
  /-- A sender has offered bytes, and these have come. -/
  | collecting (announced : Option UInt64) (inflow : Inflow) (body : Bytes)
  /-- The whole file is where the name is stored, but is not served. -/
  | complete (body : Bytes)
  /-- The answer is certain. -/
  | decided (answer : FileKind)
  /-- The answer was given. -/
  | ended (answer : FileKind)
deriving DecidableEq, Repr

/-- A name on its way into a store. -/
structure Reception where
  name : String
  route : Route
  stage : Stage
deriving DecidableEq, Repr

/-- What a reception does. -/
inductive Act
  | offer (announced : Option UInt64)
  | arrive (bytes : Bytes)
  /-- The sender has sent all. -/
  | close
  /-- The sender is gone, or what it sends cannot be written. -/
  | abort
  /-- The sender falls silent and is given up. -/
  | stall
  | publish
  | finish
deriving DecidableEq, Repr

/-- The answer to a request that cannot begin. -/
def Route.refusal : Route → FileKind → FileKind
  | put, _ => .fail
  | copy, answer => answer

/-- How it goes on when a sender has failed. -/
def Route.failed : Route → Stage
  | put => .decided .fail
  | copy => .asking

/-- Whether the reception has not ended. -/
def Stage.underway : Stage → Bool
  | ended _ => false
  | _ => true

/-- Whether the file may still be published. -/
def Stage.unpublished : Stage → Bool
  | asking | collecting .. | complete _ => true
  | decided _ | ended _ => false

/-- What an act makes of the store, of the disk and of the reception, if it is possible. -/
def Reception.act (r : Reception) (s : Store) (d : Disk) (a : Act) :
    Option (Store × Disk × Stage) :=
  match a, r.stage with
  | .offer announced, .asking =>
    match Transfer.start d (s.path r.name) with
    | (d, .ok inflow) => some (s, d, .collecting announced inflow [])
    | (d, .error _) => some (s, d, r.route.failed)
  | .arrive bytes, .collecting announced inflow body =>
    let collected := Transfer.collect d inflow bytes
    some (s, collected.1, .collecting announced collected.2 (body ++ bytes))
  | .close, .collecting announced inflow body =>
    match Transfer.finish d (s.path r.name) announced inflow with
    | (d, .ok _) => some (s, d, .complete body)
    | (d, .error _) => some (s, d, r.route.failed)
  | .abort, .collecting _ inflow _ =>
    some (s, Transfer.abandon (d.close inflow.handle) (s.path r.name), r.route.failed)
  | .stall, .collecting _ inflow _ => some (s, Transfer.stall d inflow, r.route.failed)
  | .publish, .complete _ =>
    let published := s.publish d r.name
    some (published.1, published.2.1, .decided (if published.2.2 then .ok else .fail))
  | .finish, .asking => some (s.endReceiving r.name, d, .ended .fail)
  | .finish, .decided answer => some (s.endReceiving r.name, d, .ended answer)
  | _, _ => none

/-- The acts that are possible, one by one. -/
inductive Reception.Acts (r : Reception) (s : Store) (d : Disk) :
    Act → Store → Disk → Stage → Prop
  | offered {announced : Option UInt64} {inflow : Inflow} {d' : Disk} (hstage : r.stage = .asking)
      (hs : Transfer.start d (s.path r.name) = (d', .ok inflow)) :
      Acts r s d (.offer announced) s d' (.collecting announced inflow [])
  | refused {announced : Option UInt64} {fault : IoFault} {d' : Disk} (hstage : r.stage = .asking)
      (hs : Transfer.start d (s.path r.name) = (d', .error fault)) :
      Acts r s d (.offer announced) s d' r.route.failed
  | arrived {announced : Option UInt64} {inflow : Inflow} {body : Bytes} (bytes : Bytes)
      (hstage : r.stage = .collecting announced inflow body) :
      Acts r s d (.arrive bytes) s (Transfer.collect d inflow bytes).1
        (.collecting announced (Transfer.collect d inflow bytes).2 (body ++ bytes))
  | completed {announced : Option UInt64} {inflow : Inflow} {body : Bytes} {d' : Disk} {n : Nat}
      (hstage : r.stage = .collecting announced inflow body)
      (hf : Transfer.finish d (s.path r.name) announced inflow = (d', .ok n)) :
      Acts r s d .close s d' (.complete body)
  | lost {announced : Option UInt64} {inflow : Inflow} {body : Bytes} {d' : Disk} {fault : IoFault}
      (hstage : r.stage = .collecting announced inflow body)
      (hf : Transfer.finish d (s.path r.name) announced inflow = (d', .error fault)) :
      Acts r s d .close s d' r.route.failed
  | aborted {announced : Option UInt64} {inflow : Inflow} {body : Bytes}
      (hstage : r.stage = .collecting announced inflow body) :
      Acts r s d .abort s (Transfer.abandon (d.close inflow.handle) (s.path r.name)) r.route.failed
  | stalled {announced : Option UInt64} {inflow : Inflow} {body : Bytes}
      (hstage : r.stage = .collecting announced inflow body) :
      Acts r s d .stall s (Transfer.stall d inflow) r.route.failed
  | published {body : Bytes} (hstage : r.stage = .complete body) :
      Acts r s d .publish (s.publish d r.name).1 (s.publish d r.name).2.1
        (.decided (if (s.publish d r.name).2.2 then .ok else .fail))
  | givenUp (hstage : r.stage = .asking) :
      Acts r s d .finish (s.endReceiving r.name) d (.ended .fail)
  | finished {answer : FileKind} (hstage : r.stage = .decided answer) :
      Acts r s d .finish (s.endReceiving r.name) d (.ended answer)

theorem Reception.acts_of_act {r : Reception} {s s' : Store} {d d' : Disk} {a : Act} {stage : Stage}
    (h : r.act s d a = some (s', d', stage)) : r.Acts s d a s' d' stage := by
  unfold act at h
  cases a <;> cases hstage : r.stage <;> rw [hstage] at h <;> dsimp only at h
  case offer.asking announced =>
    split at h <;> rename_i hs <;> cases h
    · exact .offered hstage hs
    · exact .refused hstage hs
  case close.collecting announced inflow body =>
    split at h <;> rename_i hf <;> cases h
    · exact .completed hstage hf
    · exact .lost hstage hf
  case arrive.collecting bytes announced inflow body =>
    cases h
    exact .arrived bytes hstage
  case abort.collecting =>
    cases h
    exact .aborted hstage
  case stall.collecting =>
    cases h
    exact .stalled hstage
  case publish.complete =>
    cases h
    exact .published hstage
  case finish.asking =>
    cases h
    exact .givenUp hstage
  case finish.decided =>
    cases h
    exact .finished hstage
  all_goals cases h

/-- A reception whose answer is certain can only end. -/
theorem Reception.Acts.of_decided {r : Reception} {s s' : Store} {d d' : Disk} {a : Act}
    {stage : Stage} {answer : FileKind} (h : r.Acts s d a s' d' stage)
    (hdecided : r.stage = .decided answer) :
    s' = s.endReceiving r.name ∧ d' = d ∧ stage = .ended answer := by
  cases h with
  | finished hstage =>
    cases hstage.symm.trans hdecided
    exact ⟨rfl, rfl, rfl⟩
  | _ => simp_all

end Traffic

open Traffic in
/-- A store, its disk, and all receptions that have begun, in their order. -/
structure Traffic where
  store : Store
  disk : Disk
  receptions : List Reception := []
deriving DecidableEq, Repr

namespace Traffic

/-- One thing that happens. A reception is named by its place. -/
inductive Event
  /-- A request that is served in one step. -/
  | serve (request : FileMessage)
  | begin (route : Route) (name : String)
  | act (i : Nat) (a : Act)
deriving DecidableEq, Repr

/-- Whether an event deletes a name. -/
def Event.deletes (name : String) : Event → Bool
  | serve request => request.kind == .delete && StoredName.belongsTo name request.file
  | _ => false

/-- What a reception does in a run. -/
def actsOf (i : Nat) (events : List Event) : List Act :=
  events.filterMap fun
    | .act j a => if j = i then some a else none
    | _ => none

def serve (t : Traffic) (request : FileMessage) : Traffic :=
  let (store, disk, _) := t.store.serve t.disk request
  { t with store, disk }

def begin (t : Traffic) (route : Route) (name : String) : Traffic :=
  let (store, refusal) := t.store.beginCopy name
  let stage := refusal.elim .asking fun answer => .ended (route.refusal answer)
  { t with store, receptions := t.receptions ++ [{ name, route, stage }] }

def act (t : Traffic) (i : Nat) (a : Act) : Traffic :=
  match t.receptions[i]? with
  | none => t
  | some r =>
    match r.act t.store t.disk a with
    | none => t
    | some (store, disk, stage) =>
      { t with store, disk, receptions := t.receptions.set i { r with stage } }

def step (t : Traffic) : Event → Traffic
  | .serve request => t.serve request
  | .begin route name => t.begin route name
  | .act i a => t.act i a

def run (t : Traffic) (events : List Event) : Traffic := events.foldl step t

/-- The reception at a place has not ended. -/
def Underway (t : Traffic) (i : Nat) (r : Reception) : Prop :=
  t.receptions[i]? = some r ∧ r.stage.underway = true

/-- No reception brings the name. -/
def Idle (t : Traffic) (name : String) : Prop := ∀ i r, t.Underway i r → r.name ≠ name

/-! ### Puts and copies at once -/

variable {t : Traffic} {i : Nat} {name : String} {announced : Option UInt64} {inflow : Inflow}
  {body : Bytes} {s : Store} {d : Disk} {rs : List Reception} {r : Reception}

/-- An act of the reception at a place. -/
theorem act_set {s' : Store} {d' : Disk} {a : Act} {stage : Stage} (hi : i < rs.length)
    (ha : r.act s d a = some (s', d', stage)) :
    Traffic.act ⟨s, d, rs.set i r⟩ i a = ⟨s', d', rs.set i { r with stage }⟩ := by
  unfold act
  simp only [List.getElem?_set_self hi, ha, List.set_set]

/-- What is not possible changes nothing. -/
theorem act_set_of_none {a : Act} (hi : i < rs.length) (ha : r.act s d a = none) :
    Traffic.act ⟨s, d, rs.set i r⟩ i a = ⟨s, d, rs.set i r⟩ := by
  unfold act
  simp only [List.getElem?_set_self hi, ha]

theorem act_offer {route : Route} {d' : Disk}
    (hs : Transfer.start d (s.path name) = (d', .ok inflow)) :
    Reception.act ⟨name, route, .asking⟩ s d (.offer announced) =
      some (s, d', .collecting announced inflow []) := by
  unfold Reception.act
  simp only [hs]

theorem act_offer_refused {route : Route} {d' : Disk} {fault : IoFault}
    (hs : Transfer.start d (s.path name) = (d', .error fault)) :
    Reception.act ⟨name, route, .asking⟩ s d (.offer announced) = some (s, d', route.failed) := by
  unfold Reception.act
  simp only [hs]

theorem act_close {route : Route} {d' : Disk} {n : Nat}
    (hf : Transfer.finish d (s.path name) announced inflow = (d', .ok n)) :
    Reception.act ⟨name, route, .collecting announced inflow body⟩ s d .close =
      some (s, d', .complete body) := by
  unfold Reception.act
  simp only [hf]

theorem act_close_lost {route : Route} {d' : Disk} {fault : IoFault}
    (hf : Transfer.finish d (s.path name) announced inflow = (d', .error fault)) :
    Reception.act ⟨name, route, .collecting announced inflow body⟩ s d .close =
      some (s, d', route.failed) := by
  unfold Reception.act
  simp only [hf]

/-- The stage of a put that has begun so. -/
def stageOf (announced : Option UInt64) : Admission → Stage
  | .refused | .failed _ => .ended .fail
  | .receiving inflow => .collecting announced inflow []

/-- A put that begins is offered its bytes. If they cannot be collected, it has ended. -/
theorem run_beginPut (t : Traffic) (name : String) (announced : Option UInt64) :
    t.run [.begin .put name, .act t.receptions.length (.offer announced),
        .act t.receptions.length .finish] =
      { store := (t.store.beginPut t.disk name).1
        disk := (t.store.beginPut t.disk name).2.1
        receptions := t.receptions ++
          [⟨name, .put, stageOf announced (t.store.beginPut t.disk name).2.2⟩] } := by
  obtain ⟨s, d, rs⟩ := t
  change ((Traffic.begin ⟨s, d, rs⟩ .put name).act rs.length (.offer announced)).act rs.length
    .finish = _
  have happend (r : Reception) : rs ++ [r] = (rs ++ [r]).set rs.length r := by simp
  have hset (r r' : Reception) : (rs ++ [r]).set rs.length r' = rs ++ [r'] := by simp
  have hlength (r : Reception) : rs.length < (rs ++ [r]).length := by simp
  dsimp only
  rw [Store.beginPut_eq]
  unfold Traffic.begin
  obtain ⟨hfree, hcopy⟩ | ⟨hbusy, answer, -, hcopy⟩ := s.beginCopy_cases name
  · rw [if_pos hfree]
    dsimp only
    rw [hcopy]
    change Traffic.act (Traffic.act
      ⟨s.beginReceiving name, d, rs ++ [⟨name, .put, .asking⟩]⟩ _ _) _ _ = _
    rw [happend]
    cases hs : Transfer.start d (s.path name) with
    | mk d' result =>
      cases result with
      | error fault =>
        have hoffer : Reception.act ⟨name, .put, .asking⟩ (s.beginReceiving name) d
            (.offer announced) = some (s.beginReceiving name, d', .decided .fail) :=
          act_offer_refused hs
        have hended : (s.beginReceiving name).endReceiving name = s.endReceiving name :=
          s.endReceiving_beginReceiving name s.files
        rw [act_set (hlength _) hoffer, act_set (hlength _) rfl, hset, hended]
        rfl
      | ok inflow =>
        have hoffer : Reception.act ⟨name, .put, .asking⟩ (s.beginReceiving name) d
            (.offer announced) =
              some (s.beginReceiving name, d', .collecting announced inflow []) :=
          act_offer hs
        rw [act_set (hlength _) hoffer, act_set_of_none (hlength _) rfl, hset]
        rfl
  · rw [if_neg hbusy]
    dsimp only
    rw [hcopy]
    change Traffic.act (Traffic.act ⟨s, d, rs ++ [⟨name, .put, .ended .fail⟩]⟩ _ _) _ _ = _
    rw [happend, act_set_of_none (hlength _) rfl, act_set_of_none (hlength _) rfl, hset]
    rfl

/-- The bytes of a put have ended. -/
theorem run_finishPut
    (hr : t.receptions[i]? = some ⟨name, .put, .collecting announced inflow body⟩) :
    t.run [.act i .close, .act i .publish, .act i .finish] =
      { store := (t.store.finishPut t.disk name announced inflow).1
        disk := (t.store.finishPut t.disk name announced inflow).2.1
        receptions := t.receptions.set i ⟨name, .put, .ended
          (if (t.store.finishPut t.disk name announced inflow).2.2.reply.any (·.isOk) then .ok
          else .fail)⟩ } := by
  obtain ⟨s, d, rs⟩ := t
  obtain ⟨hi, hself⟩ := List.getElem?_eq_some_iff.mp hr
  have hset : rs = rs.set i ⟨name, .put, .collecting announced inflow body⟩ := by
    rw [← hself, List.set_getElem_self]
  change ((Traffic.act ⟨s, d, rs⟩ i .close).act i .publish).act i .finish = _
  rw [hset, List.set_set]
  dsimp only
  unfold Store.finishPut
  cases hf : Transfer.finish d (s.path name) announced inflow with
  | mk d' result =>
    cases result with
    | error fault =>
      rw [act_set hi (act_close_lost hf), act_set_of_none hi rfl, act_set hi rfl]
      rfl
    | ok received =>
      have hok : FileMessage.ok.isOk = true := rfl
      have hfail : FileMessage.fail.isOk = false := rfl
      rw [act_set hi (act_close hf), act_set hi rfl, act_set hi rfl]
      cases hkept : (s.publish d' name).2.2 <;> simp [hkept, hok, hfail]

/-- A holder has acknowledged a copy, and bytes have come behind that. -/
theorem run_acknowledge {ack : FileMessage} (hack : ack.isOk = true) (rest : Bytes)
    (hr : t.receptions[i]? = some ⟨name, .copy, .asking⟩) :
    let next := Pull.acknowledge t.disk (t.store.path name) ack rest
    t.run [.act i (.offer ack.size), .act i (.arrive rest)] =
      { t with
        disk := next.1
        receptions := t.receptions.set i ⟨name, .copy, match next.2 with
          | .receiving ack inflow => .collecting ack.size inflow rest
          | _ => .asking⟩ } := by
  obtain ⟨s, d, rs⟩ := t
  obtain ⟨hi, hself⟩ := List.getElem?_eq_some_iff.mp hr
  have hset : rs = rs.set i ⟨name, .copy, .asking⟩ := by rw [← hself, List.set_getElem_self]
  change (Traffic.act ⟨s, d, rs⟩ i (.offer ack.size)).act i (.arrive rest) = _
  unfold Pull.acknowledge
  rw [hset, List.set_set, if_pos hack]
  cases hs : Transfer.start d (s.path name) with
  | mk d' result =>
    cases result with
    | error fault =>
      rw [act_set hi (act_offer_refused hs), act_set_of_none hi rfl]
      rfl
    | ok inflow =>
      rw [act_set hi (act_offer hs), act_set hi rfl]
      rfl

/-- A holder has said all that it will say, and has closed or is given up. -/
theorem run_judgePull {ack : FileMessage} (hack : ack.isOk = true) (closed : Bool)
    (hr : t.receptions[i]? = some ⟨name, .copy, .collecting ack.size inflow body⟩) :
    let pulled := (Pull.receiving ack inflow).finish t.disk (t.store.path name) closed
    let judged := t.store.judgePull pulled.1 name pulled.2
    t.run (if closed then [.act i .close, .act i .publish] else [.act i .stall]) =
      { store := judged.1
        disk := judged.2.1
        receptions := t.receptions.set i ⟨name, .copy, judged.2.2.elim .asking .decided⟩ } := by
  obtain ⟨s, d, rs⟩ := t
  obtain ⟨hi, hself⟩ := List.getElem?_eq_some_iff.mp hr
  have hset : rs = rs.set i ⟨name, .copy, .collecting ack.size inflow body⟩ := by
    rw [← hself, List.set_getElem_self]
  dsimp only
  cases closed with
  | false =>
    change Traffic.act ⟨s, d, rs⟩ i .stall = _
    rw [hset, act_set hi rfl, List.set_set]
    rfl
  | true =>
    change (Traffic.act ⟨s, d, rs⟩ i .close).act i .publish = _
    have hpulled : (Pull.receiving ack inflow).finish d (s.path name) true =
        let finished := Transfer.finish d (s.path name) ack.size inflow
        (finished.1, (finished.2.map fun _ => ack).mapError .io) := rfl
    rw [hset, List.set_set, hpulled]
    cases hf : Transfer.finish d (s.path name) ack.size inflow with
    | mk d' result =>
      cases result with
      | error fault =>
        rw [act_set hi (act_close_lost hf), act_set_of_none hi rfl]
        rfl
      | ok received =>
        have hjudge : s.judgePull d' name (.ok ack) = ((s.publish d' name).1,
            (s.publish d' name).2.1, some (if (s.publish d' name).2.2 then .ok else .fail)) := by
          unfold Store.judgePull
          simp only [hack, ↓reduceIte]
        change _ = Traffic.mk (s.judgePull d' name (.ok ack)).1
          (s.judgePull d' name (.ok ack)).2.1 _
        rw [act_set hi (act_close hf), act_set hi rfl]
        simp only [Except.map, Except.mapError, hjudge, Option.elim]

end Traffic

end ReplicaRing
