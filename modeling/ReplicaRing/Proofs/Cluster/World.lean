import ReplicaRing.Cluster.Line
import ReplicaRing.Proofs.Disk.Entries

/-!
# A group as its members see it

What an exchange does depends on the disk, on who is reached where, and on the stores, the roles and
the rings of the seats. A step of a group is described by what it does to these: `Does a W x W'`
says that from any group that is seen as `W`, the step `a` gives `x` and leaves a group that is seen
as `W'`.
-/
namespace ReplicaRing.Cluster

/-- A group, without what only its observers read. Stores that peers had before are out of it. -/
@[ext]
structure World where
  disk : Disk
  log : Option OpenLog
  store : Seat → Option Store
  role : Seat → Option Coordinator
  ring : Seat → Ring
  /-- Who serves requests at an endpoint. -/
  reach : Endpoint → Option Seat

/-- Whether requests that reach a seat are served by it. -/
def serves (c : Cluster) : Seat → Bool
  | .peer i => c.peers[i]?.any (·.conduct == .plain)
  | .former _ => false
  | .participant _ => true

def world (c : Cluster) : World where
  disk := c.disk
  log := c.log
  store
    | .former _ => none
    | seat => (store? seat c).1
  role seat := (coordinator? seat c).1
  ring seat := (ringOf seat c).1
  reach e := (seatAt? e c).1.filter c.serves

namespace World

variable {W : World} {seat other : Seat} {s : Store} {k : Coordinator} {d : Disk}

def keep (W : World) (seat : Seat) (s : Store) (d : Disk) : World :=
  { W with disk := d, store := fun x => if x = seat then some s else W.store x }

def appoint (W : World) (seat : Seat) (k : Coordinator) : World :=
  { W with role := fun x => if x = seat then some k else W.role x }

end World

/-- From a group that is seen as `W`, a step gives `x` and a group that is seen as `W'`. -/
def Does {α : Type} (a : Act α) (W : World) (x : α) (W' : World) : Prop :=
  ∀ c : Cluster, c.world = W → ∃ c', a.run c = (x, c') ∧ c'.world = W'

variable {α β : Type} {W W' W'' : World} {a : Act α} {f : α → Act β} {x : α} {y : β} {seat : Seat}
  {c c' : Cluster} {s s' : Store} {d : Disk}

theorem run_bind (a : Act α) (f : α → Act β) (c : Cluster) :
    (a >>= f).run c = (f (a.run c).1).run (a.run c).2 :=
  rfl

theorem run_bind_lift {ε : Type} (a : Act α) (f : α → ExceptT ε Act β) (c : Cluster) :
    (ExceptT.lift a >>= f).run.run c = (f (a.run c).1).run.run (a.run c).2 :=
  rfl

namespace Does

theorem pure (x : α) : Does (Pure.pure x) W x W := fun c hc => ⟨c, rfl, hc⟩

theorem bind (ha : Does a W x W') (hf : Does (f x) W' y W'') : Does (a >>= f) W y W'' := by
  intro c hc
  obtain ⟨c', ha, hc'⟩ := ha c hc
  obtain ⟨c'', hf, hc''⟩ := hf c' hc'
  refine ⟨c'', ?_, hc''⟩
  rw [StateT.run_bind, ha]
  exact hf

/-- A step that only looks. -/
theorem look (h : ∀ c, c.world = W → a.run c = (x, c)) : Does a W x W :=
  fun c hc => ⟨c, h c hc, hc⟩

end Does

/-! ### Peers and participants -/

theorem findIdx?_modify {l : List Peer} {i : Nat} {f : Peer → Peer} {p : Peer → Bool}
    (h : ∀ x, p (f x) = p x) : (l.modify i f).findIdx? p = l.findIdx? p := by
  induction l generalizing i with
  | nil => rw [List.modify_nil]
  | cons x l ih =>
    cases i with
    | zero => simp only [List.modify_zero_cons, List.findIdx?_cons, h]
    | succ i => simp only [List.modify_succ_cons, List.findIdx?_cons, ih]

theorem lookup_map {l : List (String × Participant)} {name key : String}
    {f : Participant → Participant} :
    (l.map fun (n, p) => (n, if n = name then f p else p)).lookup key =
      (l.lookup key).map fun p => if key = name then f p else p := by
  induction l with
  | nil => rfl
  | cons entry l ih =>
    obtain ⟨n, p⟩ := entry
    simp only [List.map_cons, List.lookup_cons]
    split
    · rename_i heq
      rw [beq_iff_eq.mp heq]
      rfl
    · exact ih

/-- Looking for who listens changes nothing. -/
theorem seatAt?_eq (e : Endpoint) (c : Cluster) :
    seatAt? e c =
      (match c.peers.findIdx? fun p => p.member.endpoint == e && p.listens with
        | some i => some (.peer i)
        | none => (c.participants.find? fun (_, p) => p.session.any (·.identity.endpoint == e)).map
            fun (name, _) => .participant name, c) := by
  have hrun : seatAt? e c =
      (match c.peers.findIdx? fun p => p.member.endpoint == e && p.listens with
      | some i => Pure.pure (some (.peer i))
      | none => Pure.pure
          ((c.participants.find? fun (_, p) => p.session.any (·.identity.endpoint == e)).map
            fun (name, _) => .participant name) : Act (Option Seat)) c := rfl
  rw [hrun]
  cases c.peers.findIdx? fun p => p.member.endpoint == e && p.listens <;> rfl

theorem seatAt?_run (e : Endpoint) (c : Cluster) : (seatAt? e).run c = ((seatAt? e c).1, c) := by
  rw [StateT.run, seatAt?_eq]

theorem coordinator?_run (seat : Seat) (c : Cluster) :
    (coordinator? seat).run c = (c.world.role seat, c) := by
  cases seat <;> rfl

theorem ringOf_run (seat : Seat) (c : Cluster) : (ringOf seat).run c = (c.world.ring seat, c) := by
  cases seat <;> rfl

/-- One entry of a table changes, and nothing of what is looked at. -/
theorem bind_ite_self {γ : Type} {b : Prop} [Decidable b] {o : Option α} {f : α → α}
    {g : α → Option γ} (h : ∀ x, g (f x) = g x) :
    (o.map fun x => if b then f x else x).bind g = o.bind g := by
  cases o with
  | none => rfl
  | some x =>
    simp only [Option.map_some, Option.bind_some]
    split
    · exact h x
    · rfl

/-- One entry of a table changes, and what is looked at is something else then. -/
theorem bind_ite_eq {γ : Type} {b : Prop} [Decidable b] {o : Option α} {f : α → α}
    {g : α → Option γ} {y : Option γ} (h : ∀ x, g (f x) = y) (hsome : b → (o.bind g).isSome) :
    (o.map fun x => if b then f x else x).bind g = if b then y else o.bind g := by
  cases o with
  | none =>
    split
    · cases hsome ‹_›
    · rfl
  | some x =>
    simp only [Option.map_some, Option.bind_some]
    split
    · exact h x
    · rfl

theorem map_ite_self {γ : Type} {b : Prop} [Decidable b] {o : Option α} {f : α → α} {g : α → γ}
    (h : ∀ x, g (f x) = g x) : (o.map fun x => if b then f x else x).map g = o.map g := by
  rw [Option.map_eq_bind (f := g), Option.map_eq_bind (f := g)]
  exact bind_ite_self fun x => congrArg some (h x)

theorem map_ite_eq {γ : Type} {b : Prop} [Decidable b] {o : Option α} {f : α → α} {g : α → γ}
    {y : γ} (h : ∀ x, g (f x) = y) (hsome : b → (o.map g).isSome) :
    (o.map fun x => if b then f x else x).map g = if b then some y else o.map g := by
  rw [Option.map_eq_bind (f := g), Option.map_eq_bind (f := g)]
  rw [Option.map_eq_bind] at hsome
  exact bind_ite_eq (fun x => congrArg some (h x)) hsome

/-- A peer changes, but not where and how it is reached. -/
theorem world_modify (i : Nat) (f : Peer → Peer) (hmember : ∀ p, (f p).member = p.member)
    (hconduct : ∀ p, (f p).conduct = p.conduct) :
    world { c with peers := c.peers.modify i f } =
      { c.world with
        store := fun
          | .peer j => (c.peers[j]?.map fun p => if j = i then f p else p).map (·.store)
          | other => c.world.store other
        role := fun
          | .peer j => (c.peers[j]?.map fun p => if j = i then f p else p).bind (·.coordinator)
          | other => c.world.role other } := by
  have hget (j : Nat) : (c.peers.modify i f)[j]? =
      c.peers[j]?.map fun p => if j = i then f p else p := by
    rw [List.getElem?_modify]
    simp only [eq_comm (a := i)]
    split <;> simp
  refine World.ext rfl rfl (funext fun seat => ?_) (funext fun seat => ?_) (funext fun seat => ?_)
    (funext fun e => ?_)
  · cases seat with
    | peer j => exact congrArg (Option.map (·.store)) (hget j)
    | former j => rfl
    | participant name => rfl
  · cases seat with
    | peer j => exact congrArg (Option.bind · (·.coordinator)) (hget j)
    | former j => rfl
    | participant name => rfl
  · cases seat <;> rfl
  · have hlistens (p : Peer) : (f p).listens = p.listens := by
      unfold Peer.listens
      rw [hconduct]
    have hserves : serves { c with peers := c.peers.modify i f } = c.serves := by
      funext seat
      cases seat with
      | peer j =>
        simp only [serves, hget, Option.any_map]
        congr 1
        funext p
        split <;> simp only [hconduct]
      | former j => rfl
      | participant name => rfl
    simp only [world, seatAt?_eq, hserves]
    rw [findIdx?_modify fun p => by rw [hmember, hlistens]]

/-- The session of a participant changes, but not its ring and its identity. -/
theorem world_map (name : String) (f : Session → Session) (hring : ∀ s, (f s).ring = s.ring) :
    world { c with participants := c.participants.map fun (n, p) =>
        (n, if n = name then { p with session := p.session.map f } else p) } =
      { c.world with
        store := fun
          | .participant key =>
            (((c.participants.lookup key).bind (·.session)).map fun s =>
              if key = name then f s else s).map (·.store)
          | other => c.world.store other
        role := fun
          | .participant key =>
            (((c.participants.lookup key).bind (·.session)).map fun s =>
              if key = name then f s else s).bind (·.role)
          | other => c.world.role other } := by
  have hsession (key : String) : ((c.participants.map fun (n, p) =>
        (n, if n = name then { p with session := p.session.map f } else p)).lookup key).bind
          (·.session) =
      ((c.participants.lookup key).bind (·.session)).map
        fun s => if key = name then f s else s := by
    rw [lookup_map (f := fun p => { p with session := p.session.map f })]
    cases c.participants.lookup key with
    | none => rfl
    | some p =>
      simp only [Option.map_some, Option.bind_some]
      split <;> simp
  refine World.ext rfl rfl (funext fun seat => ?_) (funext fun seat => ?_) (funext fun seat => ?_)
    (funext fun e => ?_)
  · cases seat with
    | participant key => exact congrArg (Option.map (·.store)) (hsession key)
    | _ => rfl
  · cases seat with
    | participant key => exact congrArg (Option.bind · (·.role)) (hsession key)
    | _ => rfl
  · cases seat with
    | participant key =>
      refine (congrArg (fun s => (Option.map (·.ring) s).getD c.ring) (hsession key)).trans ?_
      change _ = (((c.participants.lookup key).bind (·.session)).map (·.ring)).getD c.ring
      rw [map_ite_self hring]
    | _ => rfl
  · have hidentity (p : Participant) (n : String) :
        (if n = name then { p with session := p.session.map f } else p).session.any
            (·.identity.endpoint == e) = p.session.any (·.identity.endpoint == e) := by
      split
      · simp only [Option.any_map, Session.identity, hring]
      · rfl
    simp only [world, seatAt?_eq, List.find?_map, Function.comp_def, hidentity, Option.map_map]
    rfl

/-! ### What a step writes -/

theorem does_setStore (h : (W.store seat).isSome) :
    Does (setStore seat s) W ()
      { W with store := fun x => if x = seat then some s else W.store x } := by
  rintro c rfl
  cases seat with
  | peer i =>
    refine ⟨_, rfl, (world_modify i (fun p => { p with store := s }) (fun _ => rfl)
      fun _ => rfl).trans ?_⟩
    refine World.ext rfl rfl (funext fun other => ?_) (funext fun other => ?_) rfl rfl
    · cases other with
      | peer j =>
        simp only [Seat.peer.injEq]
        exact map_ite_eq (fun _ => rfl) fun heq => heq ▸ h
      | _ => rfl
    · cases other with
      | peer j => exact bind_ite_self fun _ => rfl
      | _ => rfl
  | former i => cases h
  | participant name =>
    refine ⟨_, rfl, (world_map name (fun session => { session with store := s })
      fun _ => rfl).trans ?_⟩
    refine World.ext rfl rfl (funext fun other => ?_) (funext fun other => ?_) rfl rfl
    · cases other with
      | participant key =>
        simp only [Seat.participant.injEq]
        exact map_ite_eq (fun _ => rfl) fun heq => heq ▸ h
      | _ => rfl
    · cases other with
      | participant key => exact bind_ite_self fun _ => rfl
      | _ => rfl

theorem does_setCoordinator {k : Coordinator} (h : (W.role seat).isSome) :
    Does (setCoordinator seat k) W () (W.appoint seat k) := by
  rintro c rfl
  cases seat with
  | peer i =>
    refine ⟨_, rfl, (world_modify i (fun p => { p with coordinator := some k }) (fun _ => rfl)
      fun _ => rfl).trans ?_⟩
    refine World.ext rfl rfl (funext fun other => ?_) (funext fun other => ?_) rfl rfl
    · cases other with
      | peer j => exact map_ite_self fun _ => rfl
      | _ => rfl
    · cases other with
      | peer j =>
        simp only [World.appoint, Seat.peer.injEq]
        exact bind_ite_eq (fun _ => rfl) fun heq => heq ▸ h
      | _ => rfl
  | former i => cases h
  | participant name =>
    refine ⟨_, rfl, (world_map name (fun session => { session with role := some k })
      fun _ => rfl).trans ?_⟩
    refine World.ext rfl rfl (funext fun other => ?_) (funext fun other => ?_) rfl rfl
    · cases other with
      | participant key => exact map_ite_self fun _ => rfl
      | _ => rfl
    · cases other with
      | participant key =>
        simp only [World.appoint, Seat.participant.injEq]
        exact bind_ite_eq (fun _ => rfl) fun heq => heq ▸ h
      | _ => rfl

/-- What a peer received, only its observers read. -/
theorem does_receive (i : Nat) (m : Message) :
    Does (updatePeer i fun p => { p with received := m :: p.received }) W () W := by
  rintro c rfl
  refine ⟨_, rfl, (world_modify i (fun p => { p with received := m :: p.received }) (fun _ => rfl)
    fun _ => rfl).trans ?_⟩
  refine World.ext rfl rfl (funext fun other => ?_) (funext fun other => ?_) rfl rfl
  · cases other with
    | peer j => exact map_ite_self fun _ => rfl
    | _ => rfl
  · cases other with
    | peer j => exact bind_ite_self fun _ => rfl
    | _ => rfl

end ReplicaRing.Cluster
