import ReplicaRing.Client
import ReplicaRing.Coordinator
import ReplicaRing.Proofs.Disk.Entries
import ReplicaRing.Proofs.MemberOrder
import ReplicaRing.Store.Copy

/-!
# The tenure of a coordinator, event by event

An exchange of the group is one step. Here whatever takes time is cut into pieces, and anything may
happen in between: a put is planned, pushed to one target after the other, byte by byte, and
reported; a repair pass orders copies, each of which asks holder after holder; orders, reports and
answers wait until they arrive or get lost. A tenure is a list of such events. An event that has no
object (a place beyond its list, a put that is not over yet) changes nothing, so every list is a
run.
-/
namespace ReplicaRing

/-- What a file can hold: its size is a word. -/
abbrev Content := { bytes : Bytes // bytes.length < UInt64.size }

/-- The stores of all members, and the disk that they share. -/
structure Stores where
  disk : Disk
  store : Member → Store

/-- The store of one member works. -/
def Stores.act {α : Type} (w : Stores) (m : Member) (f : Store → Disk → Store × Disk × α) :
    α × Stores :=
  let (s, disk, x) := f (w.store m) w.disk
  (x, { disk, store := fun n => if n = m then s else w.store n })

namespace Tenure

/-- A put that was planned. -/
structure Put where
  file : String
  version : UInt64
  content : Content
deriving DecidableEq

def Put.storedName (p : Put) : String := StoredName.ofVersion p.file p.version

/-- A put that its client has not reported. -/
structure Sending where
  put : Put
  /-- Targets that nothing was sent to yet. -/
  targets : List Member
  storedOn : List Member := []

/-- A push on its way into the store of its target. -/
structure Push where
  put : Put
  target : Member
  inflow : Inflow
  /-- The bytes that have not come yet. -/
  coming : Bytes

def Push.request (p : Push) : FileMessage :=
  Client.pushRequest p.put.storedName p.put.content.1.length

/-- A copy that hears a holder. -/
structure Copying where
  order : CopyOrder
  /-- Holders that have not been asked. -/
  others : List Member
  /-- What the holder says that has not come yet. -/
  coming : Bytes
  pull : Pull := .start

/-- How a member that copies a file sees the others. -/
structure View where
  inRing : Member → Bool
  /-- Why a holder cannot be reached, if it cannot. -/
  refusal : Member → Option ExchangeFault
  arrangement : Arrangement := .asGiven

/-- What a copy needs. A holder that is reached answers from its store as it is then; the bytes of
the answer are still to come. -/
def port (target : Member) (name : String) (view : View) :
    Store.CopyPort (StateM (Stores × Bytes)) where
  act f := modifyGet fun (w, coming) =>
    let (x, w) := w.act target f
    (x, w, coming)
  inRing m := return view.inRing m
  pull holder := do
    match view.refusal holder with
    | some fault => return some (.error fault)
    | none =>
      modify fun (w, _) => (w, ((w.store holder).get w.disk name).bytes)
      return none

end Tenure

open Tenure in
structure Tenure where
  coordinator : Coordinator
  /-- The members that the coordinator sees. -/
  members : List Member
  stores : Stores
  /-- All puts that were planned. -/
  puts : List Put := []
  sendings : List Sending := []
  pushes : List Push := []
  /-- Reports of clients on their way to the coordinator. -/
  reports : List FileMessage := []
  /-- Orders to copy on their way to their targets. -/
  orders : List CopyOrder := []
  copies : List Copying := []
  /-- Answers to orders on their way to the coordinator. -/
  answers : List (CopyOrder × FileKind) := []
  /-- Orders to delete on their way to the holders. -/
  deletions : List (Member × String) := []

namespace Tenure

/-- One thing that happens. Objects are named by their places in the lists of the state. -/
inductive Event
  /-- A client asks for a plan to put a content. -/
  | plan (remote : String) (content : Content)
  /-- A client reaches a target of its put. -/
  | beginPush (sending : Nat) (target : Member)
  /-- A client cannot reach a target of its put. -/
  | missTarget (sending : Nat) (target : Member)
  | arrive (push : Nat) (count : Nat)
  /-- A store hears the end of a push. The last word of the store is heard or not. -/
  | endPush (push : Nat) (heard : Bool)
  /-- A client that has tried every target reports. A push that it gave up may still arrive. -/
  | report (sending : Nat)
  | deliverReport (place : Nat)
  | loseReport (place : Nat)
  /-- From here on targets are taken in another order. -/
  | rearrange (arrangement : Arrangement)
  /-- The first half of a repair pass. -/
  | repair
  | beginCopy (order : Nat) (view : View)
  | loseOrder (place : Nat)
  | hear (copy : Nat) (count : Nat)
  /-- A holder has said all that it will say, and has closed or is given up. -/
  | endPull (copy : Nat) (closed : Bool) (view : View)
  /-- The answer to an order arrives. -/
  | settle (place : Nat)
  | loseAnswer (place : Nat)
  /-- A member leaves the ring. -/
  | depart (m : Member)
  | delete (remote : String)
  | serveDeletion (place : Nat)
  | loseDeletion (place : Nat)

/-- Whether a file is deleted. -/
def Event.deletes : Event → Bool
  | .delete _ => true
  | _ => false

def plan (t : Tenure) (remote : String) (content : Content) : Tenure :=
  let file := RemoteName.flatten remote
  let (coordinator, response) :=
    t.coordinator.handle t.members (FileMessage.request .put .coordinator file)
  match response.reply with
  | some { kind := .ok, version := some version, nodes, .. } =>
    let put : Put := { file, version, content }
    { t with
      coordinator
      puts := t.puts ++ [put]
      sendings := t.sendings ++ [{ put, targets := nodes }] }
  | _ => { t with coordinator }

def missTarget (t : Tenure) (i : Nat) (target : Member) : Tenure :=
  { t with sendings := t.sendings.modify i fun s => { s with targets := s.targets.erase target } }

def beginPush (t : Tenure) (i : Nat) (target : Member) : Tenure :=
  match t.sendings[i]? with
  | none => t
  | some sending =>
    if target ∈ sending.targets then
      let put := sending.put
      let (admission, stores) := t.stores.act target (·.beginPut · put.storedName)
      let t := { t.missTarget i target with stores }
      match admission with
      | .receiving inflow =>
        { t with pushes := t.pushes ++ [{ put, target, inflow, coming := put.content.1 }] }
      | .refused | .failed _ => t
    else t

def arrive (t : Tenure) (i : Nat) (count : Nat) : Tenure :=
  match t.pushes[i]? with
  | none => t
  | some push =>
    let (disk, inflow) := Transfer.collect t.stores.disk push.inflow (push.coming.take count)
    { t with
      stores := { t.stores with disk }
      pushes := t.pushes.set i { push with inflow, coming := push.coming.drop count } }

/-- A client has heard that a target stored its put. -/
def confirm (t : Tenure) (put : Put) (target : Member) : Tenure :=
  { t with sendings := t.sendings.map fun s =>
      if s.put = put then { s with storedOn := s.storedOn ++ [target] } else s }

def endPush (t : Tenure) (i : Nat) (heard : Bool) : Tenure :=
  match t.pushes[i]? with
  | none => t
  | some push =>
    let request := push.request
    let (answer, stores) :=
      t.stores.act push.target (·.finishPut · request.file request.size push.inflow)
    let t := { t with stores, pushes := t.pushes.eraseIdx i }
    if heard && answer.reply.any (·.isOk) then t.confirm push.put push.target else t

def report (t : Tenure) (i : Nat) : Tenure :=
  match t.sendings[i]? with
  | none => t
  | some { put, targets, storedOn } =>
    if targets = [] then
      let outcome :=
        Client.outcome put.file put.version (storedOn.mergeSort (compare · · |>.isLE))
      { t with sendings := t.sendings.eraseIdx i, reports := t.reports ++ [outcome] }
    else t

def deliverReport (t : Tenure) (i : Nat) : Tenure :=
  match t.reports[i]? with
  | none => t
  | some report =>
    { t with
      coordinator := (t.coordinator.handle t.members report).1
      reports := t.reports.eraseIdx i }

def rearrange (t : Tenure) (arrangement : Arrangement) : Tenure :=
  let placement := { t.coordinator.placement with arrangement }
  { t with coordinator := { t.coordinator with placement } }

def repair (t : Tenure) : Tenure :=
  let (coordinator, _, orders) := t.coordinator.planRepair t.members
  { t with coordinator, orders := t.orders ++ orders }

/-- A copy has gone on as far as it can without hearing more. -/
def proceed (t : Tenure) (order : CopyOrder) (outcome : Store.CopyProgress × Stores × Bytes) :
    Tenure :=
  match outcome with
  | (.answered kind, stores, _) => { t with stores, answers := t.answers ++ [(order, kind)] }
  | (.waiting others, stores, coming) =>
    { t with stores, copies := t.copies ++ [{ order, others, coming }] }

def beginCopy (t : Tenure) (i : Nat) (view : View) : Tenure :=
  match t.orders[i]? with
  | none => t
  | some order =>
    let copy := Store.copy (port order.target order.storedName view) view.arrangement
      order.storedName order.holders
    { t with orders := t.orders.eraseIdx i }.proceed order (copy.run (t.stores, []))

def hear (t : Tenure) (i : Nat) (count : Nat) : Tenure :=
  match t.copies[i]? with
  | none => t
  | some copy =>
    let path := (t.stores.store copy.order.target).path copy.order.storedName
    let (disk, pull) := copy.pull.hear t.stores.disk path (copy.coming.take count)
    { t with
      stores := { t.stores with disk }
      copies := t.copies.set i { copy with pull, coming := copy.coming.drop count } }

/-- A copy makes what it can of what it heard from a holder, and goes on with the others. -/
def endHolder (copy : Copying) (closed : Bool) (view : View) :
    StateM (Stores × Bytes) Store.CopyProgress := do
  let name := copy.order.storedName
  let port := port copy.order.target name view
  let pulled ← port.act fun s d =>
    let (d, pulled) := copy.pull.finish d (s.path name) closed
    (s, d, pulled)
  Store.hearHolder port name pulled (Store.copyFrom port name copy.others)

def endPull (t : Tenure) (i : Nat) (closed : Bool) (view : View) : Tenure :=
  match t.copies[i]? with
  | none => t
  | some copy =>
    { t with copies := t.copies.eraseIdx i }.proceed copy.order
      ((endHolder copy closed view).run (t.stores, []))

def settle (t : Tenure) (i : Nat) : Tenure :=
  match t.answers[i]? with
  | none => t
  | some (order, kind) =>
    { t with
      coordinator := (t.coordinator.settleOrder order (some kind)).1
      answers := t.answers.eraseIdx i }

def delete (t : Tenure) (remote : String) : Tenure :=
  let (coordinator, response) := t.coordinator.handle t.members
    (FileMessage.request .delete .coordinator (RemoteName.flatten remote))
  { t with coordinator, deletions := t.deletions ++ response.deletes }

def serveDeletion (t : Tenure) (i : Nat) : Tenure :=
  match t.deletions[i]? with
  | none => t
  | some (holder, name) =>
    let request := FileMessage.request .delete .fileServer name
    let (_, stores) := t.stores.act holder (·.serve · request)
    { t with stores, deletions := t.deletions.eraseIdx i }

def step (t : Tenure) : Event → Tenure
  | .plan remote content => t.plan remote content
  | .beginPush i target => t.beginPush i target
  | .missTarget i target => t.missTarget i target
  | .arrive i count => t.arrive i count
  | .endPush i heard => t.endPush i heard
  | .report i => t.report i
  | .deliverReport i => t.deliverReport i
  | .loseReport i => { t with reports := t.reports.eraseIdx i }
  | .rearrange arrangement => t.rearrange arrangement
  | .repair => t.repair
  | .beginCopy i view => t.beginCopy i view
  | .loseOrder i => { t with orders := t.orders.eraseIdx i }
  | .hear i count => t.hear i count
  | .endPull i closed view => t.endPull i closed view
  | .settle i => t.settle i
  | .loseAnswer i => { t with answers := t.answers.eraseIdx i }
  | .depart m => { t with members := t.members.erase m }
  | .delete remote => t.delete remote
  | .serveDeletion i => t.serveDeletion i
  | .loseDeletion i => { t with deletions := t.deletions.eraseIdx i }

def run (t : Tenure) (events : List Event) : Tenure := events.foldl step t

/-- A tenure that starts with an empty directory and empty stores, each in a folder of its own. -/
structure Starts (t : Tenure) : Prop where
  directory : t.coordinator.directory = {}
  apart : ∀ m n, (t.stores.store m).root <+: (t.stores.store n).root → m = n
  files : ∀ m, (t.stores.store m).files = ∅
  receiving : ∀ m, (t.stores.store m).receiving = ∅
  cancelled : ∀ m, (t.stores.store m).cancelled = ∅
  tree : t.stores.disk.IsTree
  puts : t.puts = []
  sendings : t.sendings = []
  pushes : t.pushes = []
  reports : t.reports = []
  orders : t.orders = []
  copies : t.copies = []
  answers : t.answers = []
  deletions : t.deletions = []

end Tenure

end ReplicaRing
