import ReplicaRing.Proofs.Cluster.Clients
import ReplicaRing.Proofs.Directory.History

/-!
# What the operations of a group shall do

A history says what was put under each name. It is all that the operations of a group depend on: a
put is numbered by it and adds to it, and whatever is fetched is part of it. Which members store a
version, and which of them serves it, is left open.
-/
namespace ReplicaRing

/-- The path that a version is fetched to, if the file is to be fetched to this path. -/
def FilePath.ofVersion (p : FilePath) (v : UInt64) : FilePath :=
  { p with text := StoredName.versionedPath p.text v }

/-! ### Results that can be computed -/

section

variable {α ε : Type} {P : α → Prop} [DecidablePred P]

instance decidableExistsOk : (r : Except ε α) → Decidable (∃ x, r = .ok x ∧ P x)
  | .ok x => decidable_of_iff (P x) (by simp)
  | .error _ => isFalse (by simp)

instance decidableForallOk : (r : Except ε α) → Decidable (∀ x, r = .ok x → P x)
  | .ok x => decidable_of_iff (P x) (by simp)
  | .error _ => isTrue (by simp)

end

namespace Cluster

namespace Group

/-- What the coordinator answers to a request fits a frame. -/
def Answers (g : Group) (W : World) (kind : FileKind) (remote : String) : Prop :=
  ∀ k ∈ W.role (g.seat g.coordinator),
    ∀ reply ∈ (k.handle g.members.toList
        (FileMessage.request kind .coordinator (RemoteName.flatten remote))).2.reply,
      Wire.Frame.Fits reply

instance (g : Group) (W : World) (kind : FileKind) (remote : String) :
    Decidable (g.Answers W kind remote) :=
  inferInstanceAs (Decidable (∀ k ∈ W.role (g.seat g.coordinator),
    ∀ reply ∈ (k.handle g.members.toList
        (FileMessage.request kind .coordinator (RemoteName.flatten remote))).2.reply,
      Wire.Frame.Fits reply))

/-- What the coordinator plans for a put fits a frame, and so does the report that repeats the plan
inside of a message. -/
def Plans (g : Group) (W : World) (remote : String) : Prop :=
  ∀ k ∈ W.role (g.seat g.coordinator),
    ∀ plan ∈ (k.handle g.members.toList
        (FileMessage.request .put .coordinator (RemoteName.flatten remote))).2.reply,
      Wire.Frame.Fits (Message.file plan)

instance (g : Group) (W : World) (remote : String) : Decidable (g.Plans W remote) :=
  inferInstanceAs (Decidable (∀ k ∈ W.role (g.seat g.coordinator),
    ∀ plan ∈ (k.handle g.members.toList
        (FileMessage.request .put .coordinator (RemoteName.flatten remote))).2.reply,
      Wire.Frame.Fits (Message.file plan)))

end Group

/-- What happens in a group: a local file is written, or a member carries out a file operation. The
holders of a version are tried in some order. -/
inductive Operation
  | write (path : FilePath) (content : Bytes)
  | put (m : Member) (source : FilePath) (remote : String)
  | get (m : Member) (arrangement : Arrangement) (remote : String) (destination : FilePath)
  | getVersions (m : Member) (arrangement : Arrangement) (remote : String) (count : Nat)
    (destination : FilePath)
  | listVersions (m : Member) (remote : String)

/-- The numbers of the last puts among so many, the last first. -/
def newestOf (puts count : Nat) : List Nat := (List.range' 1 puts).reverse.take count

namespace Operation

/-- What an operation reports. -/
abbrev Result : Operation → Type
  | write .. => Bool
  | put .. => Except StorageFault PutReceipt
  | get .. => Except StorageFault Member
  | getVersions .. => Except StorageFault (List (UInt64 × String))
  | listVersions .. => Except StorageFault VersionMap

def act (g : Group) : (op : Operation) → Act op.Result
  | write path content => tryDisk (·.write path content)
  | put m source remote => ((g.client m .asGiven).put source remote).run
  | get m arrangement remote destination => ((g.client m arrangement).get remote destination).run
  | getVersions m arrangement remote count destination =>
    ((g.client m arrangement).getVersions remote count destination).run
  | listVersions m remote => ((g.client m .asGiven).listVersions remote).run

/-- A put adds to the history what it reads on the disk. -/
def record (d : Disk) (h : History) : Operation → History
  | put _ source remote =>
    match d.read source with
    | .ok content => h.add (RemoteName.flatten remote) content
    | .error _ => h
  | _ => h

/-- What an operation shall report and leave on the disk. A put succeeds. To fetch takes a put, an
answer of the coordinator, and a disk that can collect what is fetched. -/
def Meets (g : Group) (h : History) (before : World) (after : Disk) : (op : Operation) →
    op.Result → Prop
  | write path content, done => done = true ∧ after.read path = .ok content
  | put _ _ remote, result => ∃ receipt, result = .ok receipt ∧
      receipt.version.toNat = (h (RemoteName.flatten remote)).length + 1
  | get _ _ remote destination, result =>
      ((∃ holder, result = .ok holder) ↔ h (RemoteName.flatten remote) ≠ [] ∧
        g.Answers before .get remote ∧ before.disk.Collects destination) ∧
      ∀ holder, result = .ok holder → ∃ content,
        (h (RemoteName.flatten remote)).getLast? = some content ∧
          after.read destination = .ok content
  | getVersions _ _ remote count destination, result =>
      ((∃ fetched, result = .ok fetched) ↔ h (RemoteName.flatten remote) ≠ [] ∧
        g.Answers before .getVersions remote) ∧
      ∀ fetched, result = .ok fetched →
        fetched.map (·.1.toNat) =
          ((newestOf (h (RemoteName.flatten remote)).length count).filter fun v =>
            before.disk.Collects (destination.ofVersion (UInt64.ofNat v))) ∧
        ∀ entry ∈ fetched, entry.2 = (destination.ofVersion entry.1).text ∧
          ∃ content, h.content? (RemoteName.flatten remote) entry.1 = some content ∧
            after.read (destination.ofVersion entry.1) = .ok content
  | listVersions _ remote, result =>
      ((∃ versions, result = .ok versions) ↔ h (RemoteName.flatten remote) ≠ [] ∧
        g.Answers before .getVersions remote) ∧
      ∀ versions, result = .ok versions →
        versions.toList.map (·.1.toNat) = List.range' 1 (h (RemoteName.flatten remote)).length

end Operation

namespace Group

/-- A name that a store accepts and that its disk has room for, on its way in too. -/
def Storable (name : String) : Prop :=
  Store.accepts name = true ∧ Disk.Fits (PartialName.ofName name)

instance (g : Group) (l : Location) : Decidable (g.Outside l) :=
  decidable_of_iff (∀ m ∈ g.members.toList, ¬ g.root m <+: l)
    (forall_congr' fun _ => imp_congr Std.ExtTreeSet.mem_toList Iff.rfl)

instance (g : Group) (d : Disk) (p : FilePath) : Decidable (g.LeadsOutside d p) :=
  inferInstanceAs (Decidable (∀ t, d.resolve p = .ok t → g.Outside t.location))

instance (g : Group) (d : Disk) (p : FilePath) : Decidable (g.Writable d p) :=
  inferInstanceAs (Decidable (∃ l, d.fileTarget p = .ok l ∧ g.Outside l))

instance (g : Group) (d : Disk) (p : FilePath) : Decidable (g.Receivable d p) :=
  inferInstanceAs (Decidable (_ ∧ _))

instance (name : String) : Decidable (Storable name) :=
  inferInstanceAs (Decidable (_ = true ∧ ¬ _ ∧ _ ≤ _))

/-- Members carry out operations on local paths outside of the stores, at which there is or may be a
file. What is put has a name that can be stored and a size and a number that are words, and the
coordinator can tell where to store it and be told that it is stored. -/
def Allows (g : Group) (h : History) (W : World) : Operation → Prop
  | .write path _ => g.Writable W.disk path
  | .put m source remote =>
    m ∈ g.members ∧ (∃ content, g.Readable W.disk source content ∧ content.length < UInt64.size) ∧
      Storable (StoredName.ofVersion (RemoteName.flatten remote)
        (UInt64.ofNat ((h (RemoteName.flatten remote)).length + 1))) ∧
      (h (RemoteName.flatten remote)).length + 1 < UInt64.size ∧ g.Plans W remote
  | .get m _ _ destination => m ∈ g.members ∧ g.Receivable W.disk destination
  | .getVersions m _ remote count destination =>
    m ∈ g.members ∧ ∀ v ∈ newestOf (h (RemoteName.flatten remote)).length count,
      g.Receivable W.disk (destination.ofVersion (UInt64.ofNat v))
  | .listVersions m _ => m ∈ g.members

instance (g : Group) (h : History) (W : World) : (op : Operation) → Decidable (g.Allows h W op)
  | .write .. => inferInstanceAs (Decidable (g.Writable _ _))
  | .put _ source _ =>
    have : Decidable (∃ content, g.Readable W.disk source content ∧ content.length < UInt64.size) :=
      decidable_of_iff (∃ content, W.disk.read source = .ok content ∧ g.LeadsOutside W.disk source ∧
        content.length < UInt64.size) (exists_congr fun _ => and_assoc.symm)
    inferInstanceAs (Decidable (_ ∧ _))
  | .get .. | .getVersions .. => inferInstanceAs (Decidable (_ ∧ _))
  | .listVersions .. => inferInstanceAs (Decidable (_ ∈ _))

/-- A coordinator runs that knows no file, nothing is stored, and each version shall have a
holder. -/
structure Starts (g : Group) (c : Cluster) : Prop where
  stands : g.Stands (fun _ _ => False) (fun _ => ∅) c.world
  role : ∃ k, c.world.role (g.seat g.coordinator) = some k ∧ 1 ≤ k.placement.factor ∧
    k.directory = {}

/-- Operations lead from one group to another, and this is their history. -/
inductive Reaches (g : Group) (start : Cluster) : History → Cluster → Prop
  | start : Reaches g start .empty start
  | step {h : History} {c : Cluster} (reached : Reaches g start h c) (op : Operation)
      (allowed : g.Allows h c.world op) :
      Reaches g start (op.record c.disk h) ((op.act g).run c).2

end Group

end Cluster

end ReplicaRing
