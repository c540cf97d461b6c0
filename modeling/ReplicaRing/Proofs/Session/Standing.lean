import ReplicaRing.Cluster.Membership
import ReplicaRing.Proofs.Cluster.World

/-!
# Where a participant stands

What the election and the role of the coordinator make of a participant is its view of the ring,
the state of its election, and whether the role runs. Exchanges, stores, the disk and the log have
no part in it: `Aside` says of a step that it leaves every participant where it stands. That holds
of all that goes over a connection, because events that arrive wait in the post, and of all that a
coordinator does to learn what is stored.
-/
namespace ReplicaRing

/-- Where a participant stands. -/
structure Standing where
  elector : Elector
  /-- Whether the role of the coordinator runs. -/
  leads : Bool
deriving DecidableEq, Repr

def Session.standing (s : Session) : Standing := ⟨s.elector, s.role.isSome⟩

namespace Cluster

/-- Whether there is a participant of that name, and where it stands if it has joined. -/
def seated (c : Cluster) (name : String) : Option (Option Standing) :=
  (c.participants.lookup name).map fun p => p.session.map Session.standing

/-- Where a participant stands that has joined. -/
def standing? (c : Cluster) (name : String) : Option Standing := (c.seated name).join

/-- From `c`, a step leaves every participant where it stands. -/
def AsideAt {α : Type} (a : Act α) (c : Cluster) : Prop := (a.run c).2.seated = c.seated

def Aside {α : Type} (a : Act α) : Prop := ∀ c, AsideAt a c

variable {α β : Type} {a : Act α} {f : α → Act β} {c : Cluster} {seat : Seat} {name : String}
  {copier : Copier}

theorem seated_congr {c c' : Cluster} (h : c'.participants = c.participants) :
    c'.seated = c.seated := by
  funext name
  rw [seated, h, seated]

theorem lookup_updateParticipant (c : Cluster) (name key : String)
    (f : Participant → Participant) :
    ((updateParticipant name f).run c).2.participants.lookup key =
      (c.participants.lookup key).map fun p => if key = name then f p else p :=
  lookup_map

/-- A participant changes, and nobody else. -/
theorem seated_updateParticipant (c : Cluster) (name key : String)
    (f : Participant → Participant) :
    ((updateParticipant name f).run c).2.seated key =
      if key = name then
        (c.participants.lookup name).map fun p => (f p).session.map Session.standing
      else c.seated key := by
  rw [seated, lookup_updateParticipant, Option.map_map]
  split
  · rename_i heq
    subst heq
    simp [Function.comp_def]
  · simp [Function.comp_def, seated]

/-- A session changes in what does not matter here. -/
theorem asideAt_updateSession {f : Session → Session}
    (hf : ∀ s, (session? name c).1 = some s → (f s).standing = s.standing) :
    AsideAt (updateSession name f) c := by
  funext key
  rw [updateSession, seated_updateParticipant]
  split
  · rename_i heq
    subst heq
    change ∀ s, (c.participants.lookup key).bind (·.session) = some s → _ at hf
    rw [seated]
    cases hp : c.participants.lookup key with
    | none => rfl
    | some p =>
      rw [hp, Option.bind_some] at hf
      simp only [Option.map_some, Option.map_map, Option.some.injEq]
      exact Option.map_congr hf
  · rfl

/-- What follows on a look at the group. -/
theorem AsideAt.bind_look {x : α} (ha : a.run c = (x, c)) (hf : AsideAt (f x) c) :
    AsideAt (a >>= f) c := by
  rw [AsideAt, StateT.run_bind, ha]
  exact hf

theorem AsideAt.bind (ha : AsideAt a c) (hf : ∀ x, Aside (f x)) : AsideAt (a >>= f) c := by
  rw [AsideAt, StateT.run_bind]
  exact (hf _ _).trans ha

namespace Aside

theorem look (h : ∀ c, (a.run c).2 = c) : Aside a := fun c => congrArg seated (h c)

theorem of_participants (h : ∀ c, (a.run c).2.participants = c.participants) : Aside a :=
  fun c => seated_congr (h c)

theorem pure (x : α) : Aside (Pure.pure x : Act α) := look fun _ => rfl

theorem bind (ha : Aside a) (hf : ∀ x, Aside (f x)) : Aside (a >>= f) := fun c =>
  AsideAt.bind (ha c) hf

theorem map (ha : Aside a) (g : α → β) : Aside (g <$> a) := ha.bind fun x => pure (g x)

theorem ite {p : Prop} [Decidable p] {b : Act α} (ha : Aside a) (hb : Aside b) :
    Aside (if p then a else b) := by
  split
  · exact ha
  · exact hb

theorem forM {l : List α} {f : α → Act Unit} (hf : ∀ x, Aside (f x)) : Aside (l.forM f) := by
  induction l with
  | nil => exact pure ()
  | cons x l ih => exact (hf x).bind fun _ => ih

theorem mapM {l : List α} (hf : ∀ x, Aside (f x)) : Aside (l.mapM f) := by
  induction l with
  | nil => exact pure []
  | cons x l ih =>
    rw [List.mapM_cons]
    exact (hf x).bind fun _ => ih.bind fun _ => pure _

theorem forIn {l : List α} {f : α → PUnit → Act (ForInStep PUnit)} (hf : ∀ x u, Aside (f x u)) :
    Aside (ForIn.forIn l PUnit.unit f) := by
  induction l with
  | nil => exact pure _
  | cons x l ih =>
    rw [List.forIn_cons]
    refine (hf x _).bind fun step => ?_
    cases step with
    | done u => exact pure u
    | yield u => exact ih

end Aside

/-! ### What is done beside -/

theorem aside_session? : Aside (session? name) := .look fun _ => rfl

theorem aside_peer? {i : Nat} : Aside (peer? i) := .look fun _ => rfl

theorem aside_seatAt? {e : Endpoint} : Aside (seatAt? e) := .look fun c => by
  rw [seatAt?_run]

theorem aside_store? : Aside (store? seat) := .look fun _ => by cases seat <;> rfl

theorem aside_ringOf : Aside (ringOf seat) := .look fun _ => by cases seat <;> rfl

theorem aside_updatePeer {i : Nat} {f : Peer → Peer} : Aside (updatePeer i f) :=
  .of_participants fun _ => rfl

theorem aside_write {letter : Letter} : Aside (write letter) := .of_participants fun _ => rfl

theorem aside_onDisk {f : Disk → Disk × α} : Aside (onDisk f) := .of_participants fun _ => rfl

theorem note_run (entry : Log.Entry) (c : Cluster) : ((note entry).run c).2 =
    match c.log with
    | some log => if log.filter.allows entry then
        { c with disk := c.disk.append log.file entry.line.toUTF8.toList } else c
    | none => c := rfl

theorem aside_note {entry : Log.Entry} : Aside (note entry) := .of_participants fun c => by
  rw [note_run]
  split
  · split <;> rfl
  · rfl

theorem aside_setStore {store : Store} : Aside (setStore seat store) := by
  cases seat with
  | peer i => exact aside_updatePeer
  | former i => exact .of_participants fun _ => rfl
  | participant name => exact fun c => asideAt_updateSession fun _ _ => rfl

theorem aside_onStore {f : Store → Disk → Store × Disk × α} : Aside (onStore seat f) :=
  aside_store?.bind fun _ => (Aside.look fun _ => rfl).bind fun _ => aside_setStore.bind fun _ =>
    (Aside.of_participants fun _ => rfl).bind fun _ => .pure _

theorem aside_noteAnswer {answer : Answer} : Aside (noteAnswer answer) := by
  refine (Aside.forM fun _ => aside_note).bind fun _ => ?_
  cases answer.fault with
  | none => exact .pure ()
  | some fault => exact aside_note

theorem aside_speakOn {i : Nat} {ended : Bool} {deeds : List Cluster.Deed} :
    Aside (speakOn i ended deeds) := by
  refine aside_peer?.bind fun peer => ?_
  cases peer with
  | none => exact .pure _
  | some p => exact aside_updatePeer.bind fun _ => .pure _

/-- A copier that changes stores only. -/
theorem aside_askStore {m : FileMessage} (hcopier : ∀ seat m, Aside (copier seat m)) :
    Aside (askStore copier seat m) :=
  .ite ((hcopier seat m).bind fun _ => .pure _) aside_onStore

theorem aside_reachStore {m : FileMessage} (hcopier : ∀ seat m, Aside (copier seat m)) :
    Aside (reachStore copier seat m) := by
  refine aside_note.bind fun _ => .ite ?_ ?_
  · refine .ite (aside_note.bind fun _ => ?_) ?_ <;>
    · refine aside_onStore.bind fun admission => ?_
      split
      · exact .pure _
      · exact aside_noteAnswer.bind fun _ => .pure _
      · exact .pure _
  · exact (aside_askStore hcopier).bind fun _ => aside_noteAnswer.bind fun _ => .pure _

/-- Only a role that runs already is put back. -/
theorem asideAt_setCoordinator {k : Coordinator} (h : (coordinator? seat c).1 ≠ none) :
    AsideAt (setCoordinator seat k) c := by
  cases seat with
  | peer i => exact aside_updatePeer c
  | former i => rfl
  | participant name =>
    refine asideAt_updateSession fun s hs => ?_
    have hrole : (coordinator? (.participant name) c).1 = s.role := by
      change ((session? name c).1).bind (·.role) = _
      rw [hs, Option.bind_some]
    rw [hrole] at h
    exact congrArg (Standing.mk s.elector) (Option.isSome_iff_ne_none.mpr h).symm

theorem aside_reachCoordinator {m : FileMessage} : Aside (reachCoordinator seat m) := by
  intro c
  have hrole : (coordinator? seat).run c = ((coordinator? seat c).1, c) := by cases seat <;> rfl
  have hring : (ringOf seat).run c = ((ringOf seat c).1, c) := by cases seat <;> rfl
  refine .bind_look hrole ?_
  cases hk : (coordinator? seat c).1 with
  | none => rfl
  | some k =>
    refine .bind_look hring ?_
    refine (asideAt_setCoordinator (by simp [hk])).bind fun _ => ?_
    refine (Aside.forM fun _ => aside_note).bind fun _ => ?_
    exact (Aside.forIn fun _ _ => aside_write.bind fun _ => .pure _).bind fun _ => .pure _

theorem aside_reachPeer {i : Nat} {p : Peer} {said : Option Message}
    (hcopier : ∀ seat m, Aside (copier seat m)) : Aside (reachPeer copier i p said) := by
  unfold reachPeer
  split
  · rename_i said _ _ _ _
    cases said with
    | none => exact .ite (.pure _) (aside_updatePeer.bind fun _ => aside_speakOn)
    | some m =>
      refine aside_updatePeer.bind fun _ => ?_
      exact .ite (.pure _) (aside_updatePeer.bind fun _ => aside_speakOn)
  · exact aside_updatePeer.bind fun _ => .ite (.pure _) (.pure _)
  · exact aside_updatePeer.bind fun _ => .ite aside_reachCoordinator (aside_reachStore hcopier)
  · exact .pure _

/-- An event waits in the post. -/
theorem aside_reachParticipant {said : Option Message}
    (hcopier : ∀ seat m, Aside (copier seat m)) : Aside (reachParticipant copier name said) := by
  unfold reachParticipant
  split
  · exact .pure _
  · refine .ite (aside_ringOf.bind fun _ => .pure _) (aside_write.bind fun _ => .pure _)
  · split
    · exact aside_reachCoordinator
    · exact aside_reachStore hcopier
    · exact .pure _

theorem aside_connect {e : Endpoint} {said : Option Message}
    (hcopier : ∀ seat m, Aside (copier seat m)) : Aside (connect copier e said) := by
  refine aside_seatAt?.bind fun seat => ?_
  split
  · exact .pure _
  · exact .pure _
  · refine aside_peer?.bind fun peer => ?_
    split
    · exact .pure _
    · exact (aside_reachPeer hcopier).bind fun _ => .pure _
  · exact (aside_reachParticipant hcopier).bind fun _ => .pure _

theorem aside_feed {line : Line} {body : Bytes} : Aside (feed line body) := by
  unfold feed
  split
  · exact .pure _
  · exact aside_onStore.bind fun _ => aside_noteAnswer.bind fun _ => .pure _
  · refine aside_speakOn.bind fun line => ?_
    split
    · exact aside_updatePeer.bind fun _ => .pure _
    · exact .pure _
  · exact aside_updatePeer.bind fun _ => .pure _
  · exact .pure _

theorem aside_exchange {e : Endpoint} {said : Option Message} {decide : Heard → Option Bytes}
    (hcopier : ∀ seat m, Aside (copier seat m)) : Aside (exchange copier e said decide) := by
  refine (aside_connect hcopier).bind fun line => ?_
  split
  · exact .pure _
  · exact aside_feed.bind fun _ => .pure _

theorem aside_call {recipient : Member} {m : Message} {decide : Heard → Option Bytes}
    (hcopier : ∀ seat m, Aside (copier seat m)) :
    Aside ((networkWith copier).call recipient m decide) := by
  unfold networkWith
  dsimp only
  split
  · exact aside_exchange hcopier
  · exact (aside_exchange hcopier).bind fun _ => .pure _

theorem aside_ask {recipient : Member} {m : Message} (hcopier : ∀ seat m, Aside (copier seat m)) :
    Aside ((networkWith copier).ask recipient m) :=
  (aside_call hcopier).bind fun _ => .pure _

theorem aside_pullNow {holder : Member} : Aside (pullNow seat name holder) := by
  refine (aside_ask fun _ _ => .pure _).bind fun heard => ?_
  split
  · exact .pure _
  · exact aside_onStore

theorem aside_hearHolder {port : Store.CopyPort Act} {pulled : Except ExchangeFault FileMessage}
    {others : Act Store.CopyProgress} (hact : ∀ (α : Type) f, Aside (port.act (α := α) f))
    (hothers : Aside others) : Aside (Store.hearHolder port name pulled others) := by
  refine (hact _ _).bind fun kind => ?_
  split
  · exact hothers
  · exact hact _ _

theorem aside_copyFrom {port : Store.CopyPort Act} {holders : List Member}
    (hact : ∀ (α : Type) f, Aside (port.act (α := α) f)) (hring : ∀ m, Aside (port.inRing m))
    (hpull : ∀ m, Aside (port.pull m)) : Aside (Store.copyFrom port name holders) := by
  induction holders with
  | nil =>
    rw [Store.copyFrom]
    exact hact _ _
  | cons holder holders ih =>
    rw [Store.copyFrom]
    refine (hring holder).bind fun known => .ite ih ?_
    refine (hpull holder).bind fun pulled => ?_
    split
    · exact .pure _
    · exact aside_hearHolder hact ih

theorem aside_copy {port : Store.CopyPort Act} {arrangement : Arrangement} {holders : List Member}
    (hact : ∀ (α : Type) f, Aside (port.act (α := α) f)) (hring : ∀ m, Aside (port.inRing m))
    (hpull : ∀ m, Aside (port.pull m)) : Aside (Store.copy port arrangement name holders) := by
  refine (hact _ _).bind fun kind => ?_
  split
  · exact .pure _
  · exact aside_copyFrom hact hring hpull

theorem aside_copyNow {m : FileMessage} : Aside (copyNow seat m) := by
  have hcopy : Aside (Store.copy (copyPort seat fun holder => some <$> pullNow seat m.file holder)
      .asGiven m.file m.nodes) :=
    aside_copy (fun _ _ => aside_onStore) (fun _ => aside_ringOf.bind fun _ => .pure _)
      fun _ => aside_pullNow.map _
  refine hcopy.bind fun progress => ?_
  split <;> exact .pure _

theorem aside_send {recipient : Member} {m : Message} : Aside (send recipient m) :=
  ((aside_call fun _ _ => aside_copyNow).bind fun _ => .pure _).bind fun _ => .pure _

theorem aside_request {γ : Type} [Wire.Codec γ] {recipient : Member} {m : Message} {phase : Phase}
    (hcopier : ∀ seat m, Aside (copier seat m)) :
    Aside ((networkWith copier).request (α := γ) recipient m phase) :=
  (aside_ask hcopier).bind fun _ => .pure _

theorem aside_catalog {m : Member} : Aside (storeNetwork.catalog m) := by
  refine (aside_request fun _ _ => aside_copyNow).bind fun reply => ?_
  split <;> exact .pure _

/-- A coordinator that learns what is stored. -/
theorem aside_recover {placement : Placement} {members : List Member} :
    Aside (Coordinator.recover placement storeNetwork members) :=
  (Aside.mapM fun _ => aside_catalog.bind fun _ => .pure _).bind fun _ => .pure _

end Cluster

end ReplicaRing
