import ReplicaRing.Transfer

/-!
# What a program asks of a disk

A program that uses a disk looks at paths, makes, moves and removes files at paths, and writes
through handles; what it does next may depend on what it has found. `Within` says of a program that
all paths and handles that it uses are in its scope.
-/
namespace ReplicaRing

namespace Disk

/-- What a program may use. -/
structure Scope where
  paths : FilePath → Prop
  handles : Handle → Prop

/-- Does what may be refused. A refusal changes nothing. -/
def attempt (f : Disk → Except IoFault Disk) (d : Disk) : Disk × Except IoFault Unit :=
  match f d with
  | .ok d' => (d', .ok ())
  | .error fault => (d, .error fault)

def tryCreate (p : FilePath) (d : Disk) : Disk × Except IoFault Handle :=
  match d.create p with
  | .ok (d', handle) => (d', .ok handle)
  | .error fault => (d, .error fault)

/-- A program that uses nothing outside its scope. -/
inductive Within (scope : Scope) : {α : Type} → (Disk → Disk × α) → Prop
  | pure {α : Type} (x : α) : Within scope fun d => (d, x)
  | bind {α β : Type} {f : Disk → Disk × α} {g : α → Disk → Disk × β} (hf : Within scope f)
      (hg : ∀ x, Within scope (g x)) :
      Within scope fun d =>
        let (d', x) := f d
        g x d'
  | size {p : FilePath} (hp : scope.paths p) : Within scope fun d => (d, d.size p)
  | read {p : FilePath} (hp : scope.paths p) : Within scope fun d => (d, d.read p)
  | create {p : FilePath} (hp : scope.paths p) : Within scope (tryCreate p)
  | rename {p q : FilePath} (hp : scope.paths p) (hq : scope.paths q) :
      Within scope (attempt (·.rename p q))
  | remove {p : FilePath} (hp : scope.paths p) : Within scope (attempt (·.remove p))
  | writeAt {h : Handle} (hh : scope.handles h) (offset : Nat) (bytes : Bytes) :
      Within scope fun d => (d.writeAt h offset bytes, ())
  | close {h : Handle} (hh : scope.handles h) : Within scope fun d => (d.close h, ())

namespace Within

variable {α β ε : Type} {scope : Scope} {p : FilePath} {f g : Disk → Disk × α}

theorem congr (hf : Within scope f) (heq : ∀ d, g d = f d) : Within scope g :=
  (funext heq : g = f) ▸ hf

theorem map (hf : Within scope f) (k : α → β) :
    Within scope fun d =>
      let (d', x) := f d
      (d', k x) :=
  bind hf fun x => pure (k x)

/-- What goes on in one way after a success, and in another after a fault. -/
theorem either {f : Disk → Disk × Except ε α} {onOk : α → Disk → Disk × β}
    {onFault : ε → Disk → Disk × β} (hf : Within scope f) (hok : ∀ x, Within scope (onOk x))
    (hfault : ∀ fault, Within scope (onFault fault)) :
    Within scope fun d =>
      match f d with
      | (d', .ok x) => onOk x d'
      | (d', .error fault) => onFault fault d' := by
  have hnext : ∀ x : Except ε α, Within scope fun d =>
      match (d, x) with
      | (d', .ok x) => onOk x d'
      | (d', .error fault) => onFault fault d'
    | .ok x => hok x
    | .error fault => hfault fault
  exact hf.bind hnext

/-- What is removed if it can be. -/
theorem tryRemove (hp : scope.paths p) :
    Within scope fun d => ((d.remove p).toOption.getD d, ()) := by
  refine congr (map (remove hp) fun _ => ()) fun d => ?_
  unfold attempt
  cases hr : d.remove p <;> simp [hr, Except.toOption]

end Within

end Disk

namespace Transfer

open Disk

variable {scope : Scope} {p : FilePath} {inflow : Inflow}

theorem within_abandon (hp : scope.paths p.inTransit) :
    Within scope fun d => (abandon d p, ()) :=
  Within.tryRemove hp

theorem within_start (hp : scope.paths p.inTransit) : Within scope (start · p) := by
  refine ((Within.create hp).either (fun handle => .pure (Except.ok (Inflow.mk handle 0)))
    fun fault => (within_abandon hp).map fun _ => Except.error fault).congr fun d => ?_
  unfold start tryCreate
  cases d.create p.inTransit <;> rfl

theorem within_collect (hh : scope.handles inflow.handle) (bytes : Bytes) :
    Within scope (collect · inflow bytes) :=
  (Within.writeAt hh inflow.received bytes).map fun _ =>
    { inflow with received := inflow.received + bytes.length }

theorem within_stall (hh : scope.handles inflow.handle) :
    Within scope fun d => (stall d inflow, ()) :=
  .close hh

/-- A transfer is given up, and its file closed. -/
theorem within_abandon_close (hp : scope.paths p.inTransit) (hh : scope.handles inflow.handle) :
    Within scope fun d => (abandon (d.close inflow.handle) p, ()) :=
  (Within.close hh).bind fun _ => within_abandon hp

theorem within_settle (hp : scope.paths p) (ht : scope.paths p.inTransit) (received : Nat) :
    Within scope (finish.settle p · received) := by
  refine ((Within.rename ht hp).map fun result => result.map fun _ => received).congr fun d => ?_
  unfold finish.settle attempt
  cases hr : d.rename p.inTransit p <;> simp [hr, Except.map]

theorem within_finish (hp : scope.paths p) (ht : scope.paths p.inTransit)
    (hh : scope.handles inflow.handle) (announced : Option UInt64) :
    Within scope (finish · p announced inflow) := by
  have hsettle : Within scope fun d =>
      finish.settle p (d.close inflow.handle) inflow.received :=
    (Within.close hh).bind fun _ => within_settle hp ht inflow.received
  cases announced with
  | none => exact hsettle
  | some n =>
    unfold finish
    dsimp only
    split
    · exact hsettle
    · exact (within_abandon_close ht hh).map fun _ =>
        Except.error (IoFault.wrongLength inflow.received n.toNat)

end Transfer

end ReplicaRing
