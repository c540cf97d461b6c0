import ReplicaRing.Arrangement
import ReplicaRing.Pull
import ReplicaRing.Store

/-!
Copying a stored file from one of its holders. Holders that left the ring are passed over; the
first one that serves the whole file ends the search. Nothing of a failed attempt is kept.
-/
namespace ReplicaRing.Store

/-- A copy begins, unless the answer is certain already. -/
def beginCopy (s : Store) (name : String) : Store × Option FileKind :=
  if s.contains name then (s, some .fileExists)
  else if !accepts name || s.receiving.contains name then (s, some .fail)
  else (s.beginReceiving name, none)

/-- What came of pulling the file from one holder. The answer is certain once the holder has served
the file. -/
def judgePull (s : Store) (d : Disk) (name : String) (pulled : Except ExchangeFault FileMessage) :
    Store × Disk × Option FileKind :=
  match pulled with
  | .error _ => (s, d, none)
  | .ok ack =>
    if ack.isOk then
      let (s, d, kept) := s.publish d name
      (s, d, some (if kept then .ok else .fail))
    else (s, d, none)

/-- What a copy needs of the world: its store and disk, the ring, and the holders. A file that is
pulled goes to where it will be stored; a holder that is still speaking has no result yet. -/
structure CopyPort (m : Type → Type) where
  act : {α : Type} → (Store → Disk → Store × Disk × α) → m α
  inRing : Member → m Bool
  pull : Member → m (Option (Except ExchangeFault FileMessage))

/-- How far a copy has come. -/
inductive CopyProgress
  | answered (kind : FileKind)
  /-- A holder is still speaking; the others have not been asked. -/
  | waiting (others : List Member)
deriving DecidableEq, Repr

variable {m : Type → Type} [Monad m]

/-- A holder has said all that it will say: the copy ends, or goes on with `others`. -/
def hearHolder (port : CopyPort m) (name : String) (pulled : Except ExchangeFault FileMessage)
    (others : m CopyProgress) : m CopyProgress := do
  match ← port.act fun s d => s.judgePull d name pulled with
  | none => others
  | some kind => port.act fun s d => (s.endReceiving name, d, .answered kind)

/-- Asks holder after holder. -/
def copyFrom (port : CopyPort m) (name : String) : List Member → m CopyProgress
  | [] => port.act fun s d => (s.endReceiving name, d, .answered .fail)
  | holder :: rest => do
    if !(← port.inRing holder) then copyFrom port name rest
    else
      match ← port.pull holder with
      | none => return .waiting rest
      | some pulled => hearHolder port name pulled (copyFrom port name rest)

/-- Copies `name` from one of the holders. -/
def copy (port : CopyPort m) (arrangement : Arrangement) (name : String) (holders : List Member) :
    m CopyProgress := do
  match ← port.act fun s d =>
      let (s, kind) := s.beginCopy name
      (s, d, kind) with
  | some kind => return .answered kind
  | none => copyFrom port name (arrangement.order name holders)

end ReplicaRing.Store
