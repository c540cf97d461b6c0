import ReplicaRing.Proofs.Cluster.Exchanges

/-!
# When a file is reported as not found

A member that is asked for a file as coordinator refuses if its directory does not know the file,
and it refuses as well if it does not run the role. The refusals are alike, so that a client reports
a file as not found in both cases.
-/
namespace ReplicaRing.Cluster

variable {α β ε : Type} {c : Cluster} {seat : Seat} {m : FileMessage} {e : Endpoint}
  {recipient : Member} {remote name other : String} {copier : Copier}

/-! ### What a member says that is asked as coordinator -/

/-- The answer of a seat to a question for the coordinator. -/
def verdict (W : World) (seat : Seat) (m : FileMessage) : Option FileMessage :=
  match W.role seat with
  | none => some .fail
  | some k => (k.handle (W.ring seat).toList m).2.reply

/-- What is said then. -/
def spoken (W : World) (seat : Seat) (m : FileMessage) : Bytes :=
  ((verdict W seat m).map Wire.Frame.bytes).getD []

theorem reachCoordinator_answers :
    ((reachCoordinator seat m).run c).1 = .saying (spoken c.world seat m) := by
  rw [reachCoordinator, spoken, verdict, run_bind, coordinator?_run]
  cases c.world.role seat with
  | none => rfl
  | some k =>
    dsimp only
    rw [run_bind, ringOf_run]
    rfl

theorem world_receive (i : Nat) (message : Message) (c : Cluster) :
    ((updatePeer i fun p => { p with received := message :: p.received }).run c).2.world =
      c.world := by
  obtain ⟨c', hrun, hworld⟩ := does_receive i message c rfl
  rw [hrun, hworld]

/-- A peer that is reached listens. -/
theorem exists_of_seatAt? {i : Nat} (h : (seatAt? e c).1 = some (.peer i)) :
    ∃ p, c.peers[i]? = some p ∧ p.listens = true := by
  rw [seatAt?_eq] at h
  dsimp only at h
  split at h
  · rename_i j hfound
    cases h
    obtain ⟨hlt, hlistens, -⟩ := List.findIdx?_eq_some_iff_getElem.mp hfound
    exact ⟨c.peers[i], List.getElem?_eq_getElem hlt, (Bool.and_eq_true_iff.mp hlistens).2⟩
  · obtain ⟨entry, -, hseat⟩ := Option.map_eq_some_iff.mp h
    cases hseat

/-- Whoever is reached answers, unless it follows a script. -/
theorem connect_answers (hplain : ∀ p ∈ c.peers, p.conduct = .plain ∨ p.conduct = .down)
    (hm : m.destination = .coordinator) :
    ((connect copier e (some (.file m))).run c).1 =
      match c.world.reach e with
      | none => .error (Host.refusal e.host)
      | some seat => .ok (.saying (spoken c.world seat m)) := by
  have hreach : c.world.reach e = (seatAt? e c).1.filter c.serves := rfl
  rw [connect, run_bind, seatAt?_run, hreach]
  cases hfound : (seatAt? e c).1 with
  | none => rfl
  | some seat =>
    cases seat with
    | former i => rfl
    | peer i =>
      obtain ⟨p, hp, hlistens⟩ := exists_of_seatAt? hfound
      have hconduct : p.conduct = .plain := by
        refine (hplain p (List.mem_of_getElem? hp)).resolve_right fun hdown => ?_
        rw [Peer.listens, hdown] at hlistens
        cases hlistens
      have hserves : c.serves (.peer i) = true := by
        rw [serves, hp, Option.any_some, hconduct]
        rfl
      rw [Option.filter_some, if_pos hserves]
      have hpeer : (peer? i).run c = (some p, c) := congrArg (·, c) hp
      dsimp only
      rw [run_bind, hpeer]
      change Except.ok ((reachPeer copier i p (some (.file m))).run c).1 = _
      rw [reachPeer, run_bind, hconduct]
      dsimp only
      rw [if_pos hm, reachCoordinator_answers, world_receive]
    | participant name =>
      have hserves : c.serves (.participant name) = true := rfl
      rw [Option.filter_some, if_pos hserves]
      change Except.ok ((reachParticipant copier name (some (.file m))).run c).1 = _
      rw [reachParticipant, hm]
      dsimp only
      rw [reachCoordinator_answers]

theorem request_run (recipient : Member) (message : Message) (phase : Phase) (c : Cluster) :
    ((network.request (α := FileMessage) recipient message phase).run c).1 =
      (((network.call recipient message fun _ => none).run c).1.map Prod.fst).bind
        (·.reply phase) := by
  rw [Network.request, run_bind, Network.ask, run_bind]
  rfl

/-- What is heard from the member that is asked as coordinator. -/
theorem request_hears (hplain : ∀ p ∈ c.peers, p.conduct = .plain ∨ p.conduct = .down)
    (hsaid : Wire.Frame.Fits (Message.file m)) (hm : m.destination = .coordinator) (phase : Phase) :
    ((network.request (α := FileMessage) recipient (.file m) phase).run c).1 =
      match c.world.reach recipient.endpoint with
      | none => .error (Host.refusal recipient.endpoint.host)
      | some seat => (Heard.mk (spoken c.world seat m) true).reply phase := by
  have hline := @connect_answers c m recipient.endpoint copyNow hplain hm
  have hcall : ((network.call recipient (.file m) fun _ => none).run c).1 =
      match c.world.reach recipient.endpoint with
      | none => .error (Host.refusal recipient.endpoint.host)
      | some seat => .ok (⟨spoken c.world seat m, true⟩, {}) := by
    rw [network, call_of_fits hsaid, exchange, run_bind]
    generalize (connect copyNow recipient.endpoint (some (.file m))).run c = connected at hline
    obtain ⟨line, c₁⟩ := connected
    dsimp only at hline ⊢
    rw [hline]
    cases c.world.reach recipient.endpoint <;> rfl
  rw [request_run, hcall]
  cases c.world.reach recipient.endpoint <;> rfl

/-- A question that is too long is not answered. -/
theorem request_unsaid {message : Message} {reply : FileMessage} {phase : Phase}
    (hunfit : ¬ Wire.Frame.Fits message) :
    ((network.request (α := FileMessage) recipient message phase).run c).1 ≠ .ok reply := by
  rw [request_run, network, call_of_not_fits hunfit, run_bind]
  generalize (exchange copyNow recipient.endpoint none fun _ => none).run c = heard
  obtain ⟨heard, c'⟩ := heard
  cases heard with
  | error fault => rintro ⟨⟩
  | ok heard => rintro ⟨⟩

/-- An answer is heard if there is one, and if it fits a frame. -/
theorem reply_spoken_iff {W : World} {phase : Phase} {reply : FileMessage} :
    (Heard.mk (spoken W seat m) true).reply phase = .ok reply ↔
      verdict W seat m = some reply ∧ Wire.Frame.Fits reply := by
  unfold spoken
  cases verdict W seat m with
  | none => exact iff_of_false nofun nofun
  | some said =>
    rw [Option.map_some, Option.getD_some, Option.some.injEq]
    by_cases hfits : Wire.Frame.Fits said
    · rw [Heard.reply_bytes hfits, Except.ok.injEq]
      exact ⟨fun heq => ⟨heq, heq ▸ hfits⟩, And.left⟩
    · rw [Heard.reply_of_not_fits hfits]
      exact iff_of_false nofun fun ⟨heq, hfits'⟩ => hfits (heq ▸ hfits')

/-! ### What the client makes of it -/

theorem run_bind_eq_error_iff {x : ExceptT ε Act α} {f : α → ExceptT ε Act β} {fault : ε} :
    ((x >>= f).run.run c).1 = .error fault ↔ (x.run.run c).1 = .error fault ∨
      ∃ a c', x.run.run c = (.ok a, c') ∧ ((f a).run.run c').1 = .error fault := by
  rw [ExceptT.run_bind, run_bind]
  cases hx : x.run.run c with
  | mk r c' =>
    cases r with
    | error other =>
      change Except.error other = Except.error fault ↔ _
      constructor
      · rintro ⟨⟩
        exact .inl rfl
      · rintro (h | ⟨a, c', h, -⟩)
        · cases h
          rfl
        · cases h
    | ok a =>
      change ((f a).run.run c').1 = _ ↔ _
      refine ⟨fun h => .inr ⟨a, c', rfl, h⟩, ?_⟩
      rintro (h | ⟨a, c', h, hfault⟩)
      · cases h
      · cases h
        exact hfault

/-- The client takes a refusal for the answer that there is no such file. -/
theorem ask_eq_not_found_iff (a : Client Act) {kind : FileKind} (hkind : kind ≠ .put) :
    ((a.ask recipient kind name).run.run c).1 = .error (.notFound other) ↔
      other = name ∧ ∃ reply, ((a.network.request (α := FileMessage) recipient
        (.file (FileMessage.request kind .coordinator name))).run c).1 = .ok reply ∧
          reply.kind = .fail := by
  rw [Client.ask]
  generalize a.network.request (α := FileMessage) recipient
    (.file (FileMessage.request kind .coordinator name)) = question
  rw [run_bind_lift]
  generalize question.run c = asked
  obtain ⟨heard, c'⟩ := asked
  cases heard with
  | error fault => exact iff_of_false (by rintro ⟨⟩) (by rintro ⟨-, _, ⟨⟩, -⟩)
  | ok reply =>
    simp only [Except.ok.injEq, exists_eq_left', if_neg hkind]
    split
    case h_1 hok => exact iff_of_false (by rintro ⟨⟩) (by rw [hok]; rintro ⟨-, ⟨⟩⟩)
    case h_2 hfail =>
      rw [and_iff_left hfail]
      change Except.error (StorageFault.notFound name) = Except.error (.notFound other) ↔ _
      rw [Except.error.injEq, StorageFault.notFound.injEq, eq_comm]
    case h_3 hfail => exact iff_of_false (by rintro ⟨⟩) fun h => hfail h.2

/-- What a member may ask about a file that is stored. -/
inductive Inquiry
  | get (arrangement : Arrangement) (destination : FilePath)
  | delete
  | listVersions

namespace Inquiry

abbrev Result : Inquiry → Type
  | get .. => Member
  | delete => Unit
  | listVersions => VersionMap

def kind : Inquiry → FileKind
  | get .. => .get
  | delete => .delete
  | listVersions => .getVersions

/-- What the coordinator is asked about a name. -/
def question (name : String) (i : Inquiry) : Message :=
  .file (FileMessage.request i.kind .coordinator name)

/-- An inquiry of the client at a seat. -/
def act (seat : Seat) (remote : String) : (i : Inquiry) → ExceptT StorageFault Act i.Result
  | get arrangement destination => { client seat with arrangement }.get remote destination
  | delete => (client seat).delete remote
  | listVersions => (client seat).listVersions remote

/-- The directory has no record of the file, or none that can be fetched. -/
def Unknown (k : Coordinator) (name : String) : Inquiry → Prop
  | get .. => k.directory.latest? name = none
  | delete | listVersions => k.directory.versions? name = none

/-- Whoever is asked does not run the role, or does not know the file. -/
def Refused (W : World) (asked : Seat) (name : String) (i : Inquiry) : Prop :=
  W.role asked = none ∨ ∃ k, W.role asked = some k ∧ i.Unknown k name

/-- A refusal is an answer that can be heard. -/
theorem refused_iff (i : Inquiry) {W : World} :
    i.Refused W seat name ↔
      ∃ reply, verdict W seat (FileMessage.request i.kind .coordinator name) = some reply ∧
        Wire.Frame.Fits reply ∧ reply.kind = .fail := by
  have hfail : Wire.Frame.Fits FileMessage.fail := by decide
  unfold Refused verdict
  cases hrole : W.role seat with
  | none => exact iff_of_true (.inl rfl) ⟨.fail, rfl, hfail, rfl⟩
  | some k =>
    simp only [reduceCtorEq, Option.some.injEq, exists_eq_left', false_or]
    cases i with
    | get arrangement destination =>
      change k.directory.latest? name = none ↔ ∃ reply, some (k.get name) = some reply ∧ _
      unfold Coordinator.get
      cases k.directory.latest? name with
      | none => exact iff_of_true rfl ⟨.fail, rfl, hfail, rfl⟩
      | some latest => exact iff_of_false nofun (by rintro ⟨_, ⟨⟩, -, ⟨⟩⟩)
    | delete =>
      change (k.directory.record? name).map _ = none ↔
        ∃ reply, (k.delete name).2.reply = some reply ∧ _
      unfold Coordinator.delete Directory.remove
      cases k.directory.record? name with
      | none => exact iff_of_true rfl ⟨.fail, rfl, hfail, rfl⟩
      | some record => exact iff_of_false nofun (by rintro ⟨_, ⟨⟩, -, ⟨⟩⟩)
    | listVersions =>
      change k.directory.versions? name = none ↔
        ∃ reply, some (k.versions name) = some reply ∧ _
      unfold Coordinator.versions
      cases k.directory.versions? name with
      | none => exact iff_of_true rfl ⟨.fail, rfl, hfail, rfl⟩
      | some versions => exact iff_of_false nofun (by rintro ⟨_, ⟨⟩, -, ⟨⟩⟩)

theorem kind_ne_put (i : Inquiry) : i.kind ≠ .put := by cases i <;> exact nofun

/-- A question has the file reported as not found just if it is said and refused. -/
theorem ask_not_found_iff (i : Inquiry) (a : Client Act) (ha : a.network = network)
    (hplain : ∀ p ∈ c.peers, p.conduct = .plain ∨ p.conduct = .down) :
    ((a.ask recipient i.kind name).run.run c).1 = .error (.notFound other) ↔
      other = name ∧ Wire.Frame.Fits (i.question name) ∧
        ∃ asked, c.world.reach recipient.endpoint = some asked ∧ i.Refused c.world asked name := by
  rw [ask_eq_not_found_iff a i.kind_ne_put, ha]
  refine and_congr_right fun _ => ?_
  by_cases hsaid : Wire.Frame.Fits (i.question name)
  case neg =>
    exact iff_of_false (fun ⟨_, hreply, _⟩ => request_unsaid hsaid hreply) fun h => hsaid h.1
  rw [and_iff_right hsaid, request_hears hplain hsaid rfl]
  simp only [refused_iff]
  cases c.world.reach recipient.endpoint with
  | none => exact iff_of_false nofun nofun
  | some asked =>
    simp only [reply_spoken_iff, Option.some.injEq, exists_eq_left', and_assoc]

/-- Holders that do not serve a file are no reason to report it as not found. -/
theorem fetchFrom_ne_not_found (a : Client Act) (destination : FilePath) (holders : List Member) :
    ∀ c : Cluster, ((a.fetchFrom name destination holders).run.run c).1 ≠
      .error (.notFound other) := by
  induction holders with
  | nil => exact fun _ => nofun
  | cons holder rest ih =>
    intro c h
    rw [Client.fetchFrom] at h
    obtain h | ⟨known, c₁, -, h⟩ := run_bind_eq_error_iff.mp h
    · cases h
    · split at h
      · exact ih c₁ h
      · obtain h | ⟨served, c₂, -, h⟩ := run_bind_eq_error_iff.mp h
        · cases h
        · split at h
          · cases h
          · exact ih c₂ h

theorem knownCoordinator_run (arrangement : Arrangement) (seat : Seat) (c : Cluster) :
    ({ client seat with arrangement }.knownCoordinator).run.run c =
      (match (c.world.ring seat).coordinator with
        | some m => .ok m
        | none => .error .noCoordinator, c) := by
  have hlook : ((client seat).coordinator).run c = ((c.world.ring seat).coordinator, c) := by
    change (ringOf seat >>= fun ring => pure ring.coordinator).run c = _
    rw [run_bind, ringOf_run]
    rfl
  rw [Client.knownCoordinator, ExceptT.run_bind, run_bind]
  change (StateT.run (ExceptT.run (match (((client seat).coordinator).run c).1 with
    | some m => pure m
    | none => throw .noCoordinator : ExceptT StorageFault Act Member))
      (((client seat).coordinator).run c).2) = _
  rw [hlook]
  cases (c.world.ring seat).coordinator <;> rfl

/-- Nobody is asked without a coordinator, and nothing is reported as not found after the answer. -/
theorem inquire_not_found_iff (i : Inquiry) (arrangement : Arrangement)
    {rest : FileMessage → ExceptT StorageFault Act β}
    (hrest : ∀ reply c', ((rest reply).run.run c').1 ≠ .error (.notFound other))
    (hplain : ∀ p ∈ c.peers, p.conduct = .plain ∨ p.conduct = .down) :
    (({ client seat with arrangement }.knownCoordinator >>= fun m =>
        { client seat with arrangement }.ask m i.kind name >>= rest).run.run c).1 =
        .error (.notFound other) ↔
      other = name ∧ Wire.Frame.Fits (i.question name) ∧
        ∃ m asked, (c.world.ring seat).coordinator = some m ∧
          c.world.reach m.endpoint = some asked ∧ i.Refused c.world asked name := by
  have hasked (m : Member) :
      (({ client seat with arrangement }.ask m i.kind name >>= rest).run.run c).1 =
          .error (.notFound other) ↔
        other = name ∧ Wire.Frame.Fits (i.question name) ∧
          ∃ asked, c.world.reach m.endpoint = some asked ∧ i.Refused c.world asked name := by
    rw [run_bind_eq_error_iff, ← i.ask_not_found_iff { client seat with arrangement } rfl hplain]
    exact or_iff_left fun ⟨reply, c', _, h⟩ => hrest reply c' h
  rw [run_bind_eq_error_iff, knownCoordinator_run]
  cases (c.world.ring seat).coordinator with
  | none =>
    refine iff_of_false ?_ (by rintro ⟨-, -, _, _, ⟨⟩, -⟩)
    rintro (⟨⟨⟩⟩ | ⟨_, _, ⟨⟩, -⟩)
  | some m =>
    simp only [Option.some.injEq, exists_and_left, exists_eq_left']
    refine Iff.trans ?_ (hasked m)
    constructor
    · rintro (⟨⟨⟩⟩ | ⟨_, _, ⟨⟩, h⟩)
      exact h
    · exact fun h => .inr ⟨m, c, rfl, h⟩

end Inquiry

/-- **A file is reported as not found just if it is refused**, and whoever does not run the role
refuses everything. In every state of a group without scripts, an inquiry of a client reports a name
as not found if and only if it is the name of the file, the question fits a frame, the client's ring
names a coordinator, and whoever is reached at its endpoint does not run the role or has no record
of the file (for a fetch: no version that has a holder). -/
theorem not_found_iff_refused (c : Cluster)
    (hplain : ∀ p ∈ c.peers, p.conduct = .plain ∨ p.conduct = .down) (seat : Seat)
    (remote name : String) (i : Inquiry) :
    ((i.act seat remote).run.run c).1 = .error (.notFound name) ↔
      name = RemoteName.flatten remote ∧
      Wire.Frame.Fits (i.question (RemoteName.flatten remote)) ∧
      ∃ m asked, (c.world.ring seat).coordinator = some m ∧
        c.world.reach m.endpoint = some asked ∧
        (c.world.role asked = none ∨
          ∃ k, c.world.role asked = some k ∧ i.Unknown k (RemoteName.flatten remote)) := by
  cases i with
  | get arrangement destination =>
    refine Inquiry.inquire_not_found_iff (.get arrangement destination) arrangement ?_ hplain
    exact fun plan c' => Inquiry.fetchFrom_ne_not_found _ _ _ c'
  | delete =>
    have hact : Inquiry.delete.act seat remote = ((client seat).knownCoordinator >>= fun m =>
        (client seat).ask m .delete (RemoteName.flatten remote) >>= fun _ =>
          ExceptT.lift (note (.deleted (RemoteName.flatten remote)))) := by
      simp only [Inquiry.act, Client.delete, discard, Functor.discard, map_const,
        Function.comp_apply, bind_map_left]
      rfl
    rw [hact]
    exact Inquiry.inquire_not_found_iff .delete .asGiven (fun _ _ => nofun) hplain
  | listVersions =>
    exact Inquiry.inquire_not_found_iff .listVersions .asGiven (fun _ _ => nofun) hplain

/-! ### A stored file that is not found -/

def former : Member := ⟨"127.0.0.2", 9000, 1⟩

def latter : Member := ⟨"127.0.0.3", 9000, 1⟩

/-- Two peers, the first of which coordinates, and a file that can be put. -/
def beforeHandover : Cluster :=
  let c := ofPeers
    [{ member := former, coordinator := some { placement := { factor := 1 } } },
      { member := latter }]
    ⟨.ofList [former, latter], former, some former⟩ none
  { c with disk := c.disk.set ["home", "a.txt"] (.file [49]) }

/-- What the second peer stores first of all. -/
def firstPut : Except StorageFault PutReceipt × Cluster :=
  ((client (.peer 1)).put (homePath "a.txt") "a.txt").run.run beforeHandover

/-- The file is stored, and the ring names the second peer, which does not run the role yet. -/
def handedOver : Cluster :=
  { firstPut.2 with ring := { firstPut.2.ring with coordinator := some latter } }

/-- A file is put, and the coordinator that has planned it still knows it. A client that asks the
next coordinator, before the role runs there, reports the file as not found. -/
theorem not_found_before_role_runs :
    firstPut.1.map (·.version) = .ok 1 ∧
    ((handedOver.world.role (.peer 0)).bind (·.directory.latest? "a.txt")).map Prod.fst = some 1 ∧
    ∀ i : Inquiry, ((i.act (.peer 0) "a.txt").run.run handedOver).1 =
      .error (.notFound "a.txt") := by
  have hflat : RemoteName.flatten "a.txt" = "a.txt" := by decide +kernel
  have hrole : handedOver.world.role (.peer 1) = none := by
    rw [← Option.isNone_iff_eq_none]
    decide +kernel
  have hsaid (i : Inquiry) : Wire.Frame.Fits (i.question (RemoteName.flatten "a.txt")) := by
    rw [hflat]
    exact fits_request _ _ (by decide)
  refine ⟨by decide +kernel, by decide +kernel, fun i => ?_⟩
  refine (not_found_iff_refused handedOver (by decide +kernel) (.peer 0) "a.txt" "a.txt" i).mpr ?_
  exact ⟨hflat.symm, hsaid i, latter, .peer 1, by decide +kernel, by decide +kernel, .inl hrole⟩

end ReplicaRing.Cluster
