import ReplicaRing.Proofs.Cluster.World
import ReplicaRing.Proofs.Store.Receptions
import ReplicaRing.Proofs.Wire.Frames

/-!
# Exchanges that nothing disturbs

What a member hears that asks the coordinator, fetches a file from a store or pushes one there, and
what this does to the group, when the one who is asked is reached and nobody writes a log.
-/
namespace ReplicaRing

/-- Who says an `Ok` and a body at once is heard as a transfer of the body. -/
theorem Heard.pull_bytes {ack : FileMessage} (d : Disk) (destination : FilePath) (body : Bytes)
    (hfits : Wire.Frame.Fits ack) (hok : ack.isOk = true) :
    (Heard.mk (Wire.Frame.bytes ack ++ body) true).pull d destination =
      ((Transfer.receive d destination ack.size body).1,
        ((Transfer.receive d destination ack.size body).2.map fun _ => ack).mapError .io) := by
  have hhear : Pull.start.hear d destination (Wire.Frame.bytes ack ++ body) =
      Pull.acknowledge d destination ack body := by
    simp only [Pull.start, Pull.hear, List.nil_append, Wire.Frame.cut_bytes hfits,
      Wire.Frame.decode_encode hfits]
  simp only [Heard.pull, hhear, Pull.acknowledge, hok, ↓reduceIte]
  unfold Transfer.receive
  cases Transfer.start d destination with
  | mk begun result =>
    cases result with
    | error fault => rfl
    | ok inflow => rfl

namespace Cluster

variable {α : Type} {W W' : World} {seat : Seat} {s s' : Store} {d : Disk} {k k' : Coordinator}
  {e : Endpoint} {m : FileMessage} {copier : Copier} {line : Line} {recipient : Member}

/-! ### Steps -/

theorem does_note (hlog : W.log = none) (entry : Log.Entry) : Does (note entry) W () W := by
  refine .look fun c hc => ?_
  subst hc
  have hnone : c.log = none := hlog
  dsimp only [note, modify, modifyGet, MonadStateOf.modifyGet, StateT.modifyGet, StateT.run]
  rw [hnone]
  rfl

theorem does_notes (hlog : W.log = none) (entries : List Log.Entry) :
    Does (entries.forM note) W () W := by
  induction entries with
  | nil => exact .pure ()
  | cons entry entries ih => exact (does_note hlog entry).bind ih

theorem does_noteAnswer (hlog : W.log = none) (a : Answer) : Does (noteAnswer a) W () W := by
  refine (does_notes hlog a.notes).bind ?_
  cases a.fault with
  | none => exact .pure ()
  | some fault => exact does_note hlog _

theorem world_disk (c : Cluster) (d : Disk) :
    world { c with disk := d } = { c.world with disk := d } := by
  refine World.ext rfl rfl (funext fun seat => ?_) (funext fun seat => ?_) (funext fun seat => ?_)
    (funext fun e => ?_)
  · cases seat <;> rfl
  · cases seat <;> rfl
  · cases seat <;> rfl
  · simp only [world, seatAt?_eq]
    rfl

theorem does_onDisk {f : Disk → Disk × α} {x : α} (hf : f W.disk = (d, x)) :
    Does (onDisk f) W x { W with disk := d } := by
  rintro c rfl
  have hrun : (onDisk f).run c = ((f c.disk).2, { c with disk := (f c.disk).1 }) := rfl
  rw [show f c.disk = (d, x) from hf] at hrun
  exact ⟨_, hrun, world_disk c d⟩

theorem does_tryDisk {f : Disk → Except IoFault Disk} (hf : f W.disk = .ok d) :
    Does (tryDisk f) W true { W with disk := d } :=
  does_onDisk (by rw [hf])

theorem does_ringOf : Does (ringOf seat) W (W.ring seat) W :=
  .look fun c hc => hc ▸ ringOf_run seat c

theorem does_coordinator? : Does (coordinator? seat) W (W.role seat) W :=
  .look fun c hc => hc ▸ coordinator?_run seat c

theorem does_store? (h : W.store seat = some s) : Does (store? seat) W (some s) W := by
  refine .look fun c hc => ?_
  subst hc
  cases seat with
  | former i => cases h
  | peer i => exact congrArg (·, c) h
  | participant name => exact congrArg (·, c) h

theorem does_onStore {f : Store → Disk → Store × Disk × α} {x : α} (h : W.store seat = some s)
    (hf : f s W.disk = (s', d, x)) : Does (onStore seat f) W x (W.keep seat s' d) := by
  have hstored : (W.store seat).isSome := by rw [h]; rfl
  have hset := does_setStore (s := s') hstored
  refine (does_store? h).bind fun c hc => ?_
  obtain ⟨c', hrun, hc'⟩ := hset c hc
  subst hc
  refine ⟨{ c' with disk := d }, ?_, ?_⟩
  · change StateT.run (do
      setStore seat (f s c.disk).1
      modify fun c' => { c' with disk := (f s c.disk).2.1 }
      return (f s c.disk).2.2 : Act α) c = _
    rw [show f s c.disk = (s', d, x) from hf]
    dsimp only
    rw [StateT.run_bind, hrun]
    rfl
  · rw [world_disk, hc']
    rfl

/-! ### Being reached -/

/-- What a seat makes of a request for a file. -/
def reachSeat (copier : Copier) (seat : Seat) (m : FileMessage) : Act Line :=
  if m.destination = .coordinator then reachCoordinator seat m else reachStore copier seat m

theorem does_seatAt? (hreach : W.reach e = some seat) : Does (seatAt? e) W (some seat) W := by
  refine .look fun c hc => ?_
  subst hc
  rw [seatAt?_run, (Option.filter_eq_some_iff.mp hreach).1]

/-- Who is reached serves. -/
theorem does_peer? {i : Nat} (hreach : W.reach e = some (.peer i)) {f : Option Peer → Act α} {x : α}
    (h : ∀ p : Peer, p.conduct = .plain → Does (f (some p)) W x W') :
    Does (peer? i >>= f) W x W' := by
  intro c hc
  subst hc
  have hserves : c.peers[i]?.any (·.conduct == .plain) = true :=
    (Option.filter_eq_some_iff.mp hreach).2
  cases hp : c.peers[i]? with
  | none =>
    rw [hp] at hserves
    cases hserves
  | some p =>
    rw [hp, Option.any_some, beq_iff_eq] at hserves
    rw [StateT.run_bind, show (peer? i).run c = (some p, c) from congrArg (·, c) hp]
    exact h p hserves c rfl

theorem does_connect (hreach : W.reach e = some seat) (hm : m.destination ≠ .client)
    (h : Does (reachSeat copier seat m) W line W') :
    Does (connect copier e (some (.file m))) W (.ok line) W' := by
  refine (does_seatAt? hreach).bind ?_
  cases seat with
  | former i =>
    intro c hc
    subst hc
    cases (Option.filter_eq_some_iff.mp hreach).2
  | peer i =>
    refine does_peer? hreach fun p hplain => .bind ?_ (.pure _)
    refine (does_receive i (.file m)).bind ?_
    rw [hplain]
    exact h
  | participant name =>
    refine .bind ?_ (.pure _)
    unfold reachParticipant
    unfold reachSeat at h
    cases hd : m.destination with
    | client => exact absurd hd hm
    | coordinator => simpa only [hd, ↓reduceIte] using h
    | fileServer => simpa only [hd, reduceCtorEq, ↓reduceIte] using h

/-- Who is reached by a caller that says nothing does nothing. -/
theorem does_connect_silent (hreach : W.reach e = some seat) :
    Does (connect copier e none) W (.ok {}) W := by
  refine (does_seatAt? hreach).bind ?_
  cases seat with
  | former i =>
    intro c hc
    subst hc
    cases (Option.filter_eq_some_iff.mp hreach).2
  | peer i =>
    refine does_peer? hreach fun p hplain => .bind ?_ (.pure _)
    rw [reachPeer, hplain]
    exact .pure _
  | participant name => exact .bind (.pure _) (.pure _)

/-! ### Questions to the coordinator -/

theorem appoint_self (h : W.role seat = some k) : W.appoint seat k = W := by
  refine World.ext rfl rfl rfl (funext fun other => ?_) rfl rfl
  change (if other = seat then some k else W.role other) = W.role other
  split
  · subst_vars
    exact h.symm
  · rfl

theorem keep_self (h : W.store seat = some s) : W.keep seat s W.disk = W := by
  refine World.ext rfl rfl (funext fun other => ?_) rfl rfl rfl
  change (if other = seat then some s else W.store other) = W.store other
  split
  · subst_vars
    exact h.symm
  · rfl

theorem keep_keep {d' : Disk} : (W.keep seat s d).keep seat s' d' = W.keep seat s' d' := by
  refine World.ext rfl rfl (funext fun other => ?_) rfl rfl rfl
  change (if other = seat then some s' else if other = seat then some s else W.store other) =
    if other = seat then some s' else W.store other
  split <;> rfl

/-- The answer of the coordinator, when no file is deleted. -/
theorem does_reachCoordinator {r : Response} (hlog : W.log = none) (hrole : W.role seat = some k)
    (hhandle : k.handle (W.ring seat).toList m = (k', r)) (hdeletes : r.deletes = []) :
    Does (reachCoordinator seat m) W (.saying ((r.reply.map Wire.Frame.bytes).getD []))
      (W.appoint seat k') := by
  unfold reachCoordinator
  refine does_coordinator?.bind ?_
  rw [hrole]
  refine does_ringOf.bind ?_
  rw [hhandle]
  refine (does_setCoordinator (by rw [hrole]; rfl)).bind ?_
  have hnotes := does_notes (W := W.appoint seat k') hlog (Coordinator.notes m r)
  refine hnotes.bind ?_
  rw [hdeletes]
  exact .pure _

/-- A message that fits a frame is said. -/
theorem call_of_fits {message : Message} (hfits : Wire.Frame.Fits message)
    (decide : Heard → Option Bytes) : (networkWith copier).call recipient message decide =
      exchange copier recipient.endpoint (some message) decide := by
  unfold networkWith
  dsimp only
  rw [Wire.Frame.encode_of_fits hfits]

theorem call_of_not_fits {message : Message} (hunfit : ¬ Wire.Frame.Fits message)
    (decide : Heard → Option Bytes) : (networkWith copier).call recipient message decide = do
      return (← exchange copier recipient.endpoint none fun _ => none).bind fun _ =>
        .error (.frameTooLarge (Wire.encode message).length) := by
  unfold networkWith
  dsimp only
  rw [Wire.Frame.encode_of_not_fits hunfit]

theorem does_call (decide : Heard → Option Bytes) {W'' : World} {later : Heard}
    (hfits : Wire.Frame.Fits (Message.file m))
    (hconnect : Does (connect copyNow recipient.endpoint (some (.file m))) W (.ok line) W')
    (hfeed : Does (feed line ((decide line.heard).getD [])) W' later W'') :
    Does (network.call recipient (.file m) decide) W (.ok (line.heard, later)) W'' := by
  rw [network, call_of_fits hfits]
  exact hconnect.bind (hfeed.bind (.pure _))

/-- Who says all at once waits for nothing. -/
theorem does_call_saying {bytes : Bytes} (decide : Heard → Option Bytes)
    (hfits : Wire.Frame.Fits (Message.file m))
    (hconnect : Does (connect copyNow recipient.endpoint (some (.file m))) W
      (.ok (.saying bytes)) W') :
    Does (network.call recipient (.file m) decide) W (.ok (⟨bytes, true⟩, {})) W' :=
  does_call decide hfits hconnect (.pure _)

theorem does_ask_saying {bytes : Bytes} (hfits : Wire.Frame.Fits (Message.file m))
    (hconnect : Does (connect copyNow recipient.endpoint (some (.file m))) W
      (.ok (.saying bytes)) W') :
    Does (network.ask recipient (.file m)) W (.ok ⟨bytes, true⟩) W' :=
  (does_call_saying (fun _ => none) hfits hconnect).bind (.pure _)

theorem does_connect_coordinator {r : Response} (hlog : W.log = none)
    (hreach : W.reach e = some seat) (hm : m.destination = .coordinator)
    (hrole : W.role seat = some k)
    (hhandle : k.handle (W.ring seat).toList m = (k', r)) (hdeletes : r.deletes = []) :
    Does (connect copyNow e (some (.file m))) W
      (.ok (.saying ((r.reply.map Wire.Frame.bytes).getD []))) (W.appoint seat k') := by
  refine does_connect hreach (by rw [hm]; nofun) ?_
  rw [reachSeat, if_pos hm]
  exact does_reachCoordinator hlog hrole hhandle hdeletes

/-- A question to the coordinator, and what is heard. -/
theorem does_request {reply : FileMessage} (hfits : Wire.Frame.Fits (Message.file m))
    (hlog : W.log = none) (hreach : W.reach recipient.endpoint = some seat)
    (hm : m.destination = .coordinator)
    (hrole : W.role seat = some k)
    (hhandle : k.handle (W.ring seat).toList m = (k', { reply := some reply })) (phase : Phase) :
    Does (network.request (α := FileMessage) recipient (.file m) phase) W
      ((Heard.mk (Wire.Frame.bytes reply) true).reply phase) (W.appoint seat k') := by
  have hconnect := does_connect_coordinator hlog hreach hm hrole hhandle rfl
  have hask := does_ask_saying hfits hconnect
  simp only [Option.map_some, Option.getD_some] at hask
  have hheard : (Except.ok (Heard.mk (Wire.Frame.bytes reply) true)).bind
      (Heard.reply (α := FileMessage) · phase) =
        (Heard.mk (Wire.Frame.bytes reply) true).reply phase := by
    simp only [Except.bind]
  rw [← hheard]
  exact hask.bind (.pure _)

/-- A question that is too long is not said, and nothing happens. -/
theorem does_request_unsaid {message : Message} (hunfit : ¬ Wire.Frame.Fits message)
    (hreach : W.reach recipient.endpoint = some seat) (phase : Phase) :
    Does (network.request (α := FileMessage) recipient message phase) W
      (.error (.frameTooLarge (Wire.encode message).length)) W := by
  have hexchange : Does (exchange copyNow recipient.endpoint none fun _ => none) W
      (.ok ({}, {})) W := (does_connect_silent hreach).bind (.pure _)
  have hcall : Does (network.call recipient message fun _ => none) W
      (.error (.frameTooLarge (Wire.encode message).length)) W := by
    rw [network, call_of_not_fits hunfit]
    exact hexchange.bind (.pure _)
  have hask : Does (network.ask recipient message) W
      (.error (.frameTooLarge (Wire.encode message).length)) W := hcall.bind (.pure _)
  exact hask.bind (.pure _)

/-- A report to the coordinator, which has no answer. -/
theorem does_send (hfits : Wire.Frame.Fits (Message.file m)) (hlog : W.log = none)
    (hreach : W.reach recipient.endpoint = some seat)
    (hm : m.destination = .coordinator) (hrole : W.role seat = some k)
    (hhandle : k.handle (W.ring seat).toList m = (k', {})) :
    Does (network.send recipient (.file m)) W (.ok ()) (W.appoint seat k') := by
  have hconnect := does_connect_coordinator hlog hreach hm hrole hhandle rfl
  exact (does_call_saying (fun _ => some []) hfits hconnect).bind (.pure _)

/-! ### Files of stores -/

theorem does_connect_store (hreach : W.reach e = some seat) (hm : m.destination = .fileServer)
    (h : Does (reachStore copyNow seat m) W line W') :
    Does (connect copyNow e (some (.file m))) W (.ok line) W' := by
  refine does_connect hreach (by rw [hm]; nofun) ?_
  rw [reachSeat, if_neg (by rw [hm]; nofun)]
  exact h

/-- What announces a file of a size. -/
def announcement (size : Nat) : FileMessage :=
  { FileMessage.ok with size := some (UInt64.ofNat size) }

theorem fits_announcement (size : Nat) : Wire.Frame.Fits (announcement size) := by
  have hlength : (Wire.encode (announcement size)).length =
      (Wire.encode (announcement 0)).length := by
    delta Wire.instCodecFileMessage
    simp only [List.length_append]
    rfl
  rw [Wire.Frame.Fits, hlength]
  decide

theorem fits_ok : Wire.Frame.Fits FileMessage.ok := by decide

/-- A request for a name that an entry of a disk can have. -/
theorem fits_request (kind : FileKind) (destination : Destination) {name : String}
    (hname : name.utf8ByteSize ≤ Disk.maxName) :
    Wire.Frame.Fits (Message.file (FileMessage.request kind destination name)) := by
  rw [Wire.Frame.Fits, Wire.length_encode_request]
  exact (Nat.add_le_add_left hname 32).trans (by decide)

theorem fits_pushRequest {name : String} (hname : name.utf8ByteSize ≤ Disk.maxName) (size : Nat) :
    Wire.Frame.Fits (Message.file (Client.pushRequest name size)) := by
  have hlength : (Wire.encode (Message.file (Client.pushRequest name size))).length =
      (Wire.encode (Message.file (FileMessage.request .put .fileServer name))).length + 8 := by
    simp only [Wire.length_encode_file, Wire.length_encode_fileMessage, Client.pushRequest,
      FileMessage.request, Wire.length_encode_some, Wire.length_encode_none,
      Wire.length_encode_word64]
    omega
  rw [Wire.Frame.Fits, hlength, Wire.length_encode_request]
  exact (Nat.add_le_add_right (Nat.add_le_add_left hname 32) 8).trans (by decide)

theorem bytes_reply (reply : FileMessage) (body : Bytes) (notes : List Log.Entry) :
    Answer.bytes { reply := some reply, body, notes } = Wire.Frame.bytes reply ++ body := by
  simp only [Answer.bytes, Option.map_some, Option.getD_some]

/-- What is heard from a store that serves a file. -/
theorem does_ask {name : String} {content : Bytes} (hlog : W.log = none)
    (hreach : W.reach recipient.endpoint = some seat) (hstore : W.store seat = some s)
    (hserves : s.Serves W.disk name content) :
    Does (network.ask recipient (Store.getRequest name)) W
      (.ok ⟨Wire.Frame.bytes (announcement content.length) ++ content, true⟩) W := by
  have hreachStore : Does (reachStore copyNow seat (FileMessage.request .get .fileServer name)) W
      (.saying (Wire.Frame.bytes (announcement content.length) ++ content)) W := by
    refine (does_note hlog _).bind ?_
    have hserve : Does (onStore seat (·.serve · (FileMessage.request .get .fileServer name))) W
        (s.get W.disk name) W := by
      have h := does_onStore (f := (·.serve · (FileMessage.request .get .fileServer name)))
        hstore rfl
      rwa [keep_self hstore] at h
    rw [hserves.get] at hserve
    refine Does.bind hserve ?_
    refine (does_noteAnswer hlog _).bind ?_
    rw [bytes_reply]
    exact .pure _
  have hconnect := does_connect_store hreach rfl hreachStore
  exact does_ask_saying (fits_request _ _ hserves.fits.2) hconnect

/-- A file is pushed into a store that admits it. -/
theorem does_push {name : String} {content : Bytes} (hlog : W.log = none)
    (hreach : W.reach recipient.endpoint = some seat) (hstore : W.store seat = some s)
    (htree : W.disk.IsTree) (hadmits : s.Admits W.disk name)
    (hsize : content.length < UInt64.size) :
    ∃ after, Does (network.push recipient (.file (Client.pushRequest name content.length))
        (.ok content)) W (.ok FileMessage.ok)
        (W.keep seat { s with files := s.files.insert name } after) ∧
      W.disk.Touches after [s.transit name, s.place name] ∧
      after.lookup (s.path name) = .ok (.file content) := by
  have hlength : Announces (some (UInt64.ofNat content.length)) content.length := by
    rintro n ⟨⟩
    exact UInt64.toNat_ofNat_of_lt' hsize
  obtain ⟨begun, d, inflow, after, hbegin, htake, htouch, hfound⟩ :=
    hadmits.exists_put htree hlength
  refine ⟨after, ?_, htouch, hfound⟩
  have hreachStore : Does (reachStore copyNow seat (Client.pushRequest name content.length)) W
      ⟨Wire.Frame.bytes FileMessage.ok,
        .put seat name (some (UInt64.ofNat content.length)) inflow⟩ (W.keep seat begun d) := by
    refine (does_note hlog _).bind ?_
    have hput : (Client.pushRequest name content.length).kind = .put := rfl
    have haccepts : (!Store.accepts (Client.pushRequest name content.length).file) = false := by
      rw [Bool.not_eq_false']
      exact hadmits.accepted
    simp only [hput, haccepts, Bool.false_eq_true, ↓reduceIte]
    refine Does.bind (does_onStore (f := (·.beginPut · name)) hstore hbegin) ?_
    exact (.pure _)
  have hconnect := does_connect_store hreach rfl hreachStore
  have hfeed : Does (feed ⟨Wire.Frame.bytes FileMessage.ok,
        .put seat name (some (UInt64.ofNat content.length)) inflow⟩ content) (W.keep seat begun d)
      ⟨Wire.Frame.bytes FileMessage.ok, true⟩
      (W.keep seat { s with files := s.files.insert name } after) := by
    have hkeep := does_onStore (W := W.keep seat begun d)
      (f := fun s d => s.takePut d name (some (UInt64.ofNat content.length)) inflow content)
      (if_pos rfl) htake
    rw [keep_keep] at hkeep
    refine hkeep.bind ((does_noteAnswer (W := W.keep seat _ after) hlog _).bind ?_)
    rw [bytes_reply, List.append_nil]
    exact .pure _
  have hacked (closed : Bool) : (Heard.mk (Wire.Frame.bytes FileMessage.ok) closed).frame
      (α := FileMessage) .awaitingAcknowledgment = .ok (FileMessage.ok, ⟨[], closed⟩) := by
    have hframe := Heard.frame_bytes fits_ok [] closed .awaitingAcknowledgment
    rwa [List.append_nil] at hframe
  have hheard : (Line.mk (Wire.Frame.bytes FileMessage.ok)
      (.put seat name (some (UInt64.ofNat content.length)) inflow)).heard =
      ⟨Wire.Frame.bytes FileMessage.ok, false⟩ := rfl
  have hbody : Network.bodyFor (.ok content) ⟨Wire.Frame.bytes FileMessage.ok, false⟩ =
      some content := by
    simp only [Network.bodyFor, hacked]
    rfl
  have hcall := does_call (Network.bodyFor (.ok content))
    (fits_pushRequest (Store.fits_of_ofName hadmits.fits).2 _) hconnect
    (by rw [hheard, hbody]; exact hfeed)
  rw [hheard] at hcall
  refine hcall.bind ?_
  have hconfirmed : (Heard.mk [] false).andThen ⟨Wire.Frame.bytes FileMessage.ok, true⟩ =
      ⟨Wire.Frame.bytes FileMessage.ok, true⟩ := rfl
  have hok : FileMessage.ok.isOk = true := rfl
  simp only [hacked, hok, Bool.not_true, Bool.false_eq_true, ↓reduceIte, hconfirmed,
    Heard.reply_bytes fits_ok]
  exact .pure _

end Cluster

end ReplicaRing
