import ReplicaRing.Cluster.Membership

/-!
Pings of one detector, as many at once as one likes. A ping begins, datagrams arrive from anyone
and in any order, and the ping ends after a while. It succeeds only if an acknowledgment under its
number came while it was outstanding. Nobody looks at who acknowledges: all that was asked is
whether somebody answers at the endpoint of the target.
-/
namespace ReplicaRing

namespace Detector

/-- How far a ping has come. -/
inductive Stage
  | waiting
  | acknowledged
  /-- Another ping has begun under the same number, and what is sent to that number is for it. -/
  | displaced
  | ended (success : Bool)
deriving DecidableEq, Repr

/-- A ping that has begun. -/
structure Ping where
  target : Member
  seq : UInt64
  /-- Whether its datagram went out. -/
  sent : Bool
  stage : Stage := .waiting
  /-- What arrived while it was outstanding, first come first. -/
  heard : List Datagram := []
deriving DecidableEq, Repr

namespace Ping

def outstanding (p : Ping) : Bool :=
  match p.stage with
  | .ended _ => false
  | _ => true

/-- A ping begins under a number. -/
def displace (seq : UInt64) (p : Ping) : Ping :=
  if p.stage = .waiting ∧ p.seq = seq then { p with stage := .displaced } else p

/-- A datagram arrives, and the detector did `effect`. -/
def hear (datagram : Datagram) (effect : DatagramEffect) (p : Ping) : Ping :=
  if p.outstanding then
    { p with
      heard := p.heard ++ [datagram]
      stage := if p.stage = .waiting ∧ effect = .acknowledged p.seq then .acknowledged
        else p.stage }
  else p

/-- It is acknowledged or has waited long enough. -/
def finish (p : Ping) : Ping :=
  if p.outstanding then { p with stage := .ended (p.sent && p.stage = .acknowledged) } else p

end Ping

/-- A detector and the pings that have begun, oldest first. -/
structure Watch where
  detector : Detector
  pings : List Ping := []
deriving DecidableEq, Repr

/-- What happens at a detector. -/
inductive Occasion
  /-- A ping begins. Its datagram may fail to go out. -/
  | ping (target : Member) (goesOut : Bool)
  /-- A datagram arrives: lost ones never do, others late, out of turn or again and again. -/
  | datagram (datagram : Datagram)
  /-- A ping, named by its place, ends. -/
  | finish (i : Nat)
  | close
deriving DecidableEq, Repr

namespace Watch

def step (w : Watch) : Occasion → Watch
  | .ping target goesOut =>
    let (detector, seq, datagram) := w.detector.beginPing
    ⟨detector,
      w.pings.map (·.displace seq) ++ [{ target, seq, sent := datagram.isSome && goesOut }]⟩
  | .datagram datagram =>
    let (detector, effect) := w.detector.receive datagram
    ⟨detector, w.pings.map (·.hear datagram effect)⟩
  | .finish i =>
    match w.pings[i]? with
    | some p =>
      if p.outstanding then ⟨w.detector.endPing p.seq, w.pings.set i p.finish⟩ else w
    | none => w
  | .close => { w with detector := w.detector.close }

def run (w : Watch) (occasions : List Occasion) : Watch := occasions.foldl step w

@[simp] theorem run_nil (w : Watch) : w.run [] = w := rfl

@[simp] theorem run_cons (w : Watch) (o : Occasion) (os : List Occasion) :
    w.run (o :: os) = (w.step o).run os := rfl

theorem run_append (w : Watch) (os more : List Occasion) :
    w.run (os ++ more) = (w.run os).run more :=
  List.foldl_append

end Watch

/-! ### What a success says -/

theorem receive_acknowledged {d : Detector} {g : Datagram} {seq : UInt64}
    (h : (d.receive g).2 = .acknowledged seq) : g = ⟨seq, ⟨.ack, g.event.subject⟩⟩ := by
  obtain ⟨number, kind, subject⟩ := g
  cases kind <;> simp only [receive] at h
  case ack =>
    split at h
    · cases h
      rfl
    · cases h
  all_goals cases h

namespace Ping

/-- Whether an acknowledgment under its number came while it was outstanding, from whomever. -/
def Answered (p : Ping) : Prop := ∃ subject, ⟨p.seq, ⟨.ack, subject⟩⟩ ∈ p.heard

/-- A ping has its success from an answer, and from a datagram that went out. -/
structure Vouched (p : Ping) : Prop where
  acknowledged : p.stage = .acknowledged → p.Answered
  ended : p.stage = .ended true → p.sent ∧ p.Answered

variable {p : Ping}

theorem Vouched.fresh (target : Member) (seq : UInt64) (sent : Bool) :
    Vouched { target, seq, sent } :=
  ⟨nofun, nofun⟩

theorem Vouched.displace (h : p.Vouched) (seq : UInt64) : (p.displace seq).Vouched := by
  unfold Ping.displace
  split
  · exact ⟨nofun, nofun⟩
  · exact h

theorem Vouched.hear (h : p.Vouched) (d : Detector) (g : Datagram) :
    (p.hear g (d.receive g).2).Vouched := by
  unfold Ping.hear
  by_cases hout : p.outstanding
  · rw [if_pos hout]
    have hmore (ha : p.Answered) : ∃ subject, ⟨p.seq, ⟨.ack, subject⟩⟩ ∈ p.heard ++ [g] :=
      ha.imp fun _ hmem => List.mem_append_left _ hmem
    constructor
    · intro hstage
      dsimp only at hstage
      split at hstage
      case isTrue heff =>
        exact ⟨g.event.subject, List.mem_append_right _ (by
          rw [← receive_acknowledged heff.2]
          exact List.mem_singleton_self g)⟩
      case isFalse => exact hmore (h.acknowledged hstage)
    · intro hstage
      dsimp only at hstage
      split at hstage
      case isTrue => cases hstage
      case isFalse => exact (h.ended hstage).imp_right hmore
  · rw [if_neg hout]
    exact h

theorem Vouched.finish (h : p.Vouched) : p.finish.Vouched := by
  unfold Ping.finish
  split
  · refine ⟨nofun, fun hstage => ?_⟩
    simp only [Stage.ended.injEq, Bool.and_eq_true, decide_eq_true_eq] at hstage
    exact ⟨hstage.1, h.acknowledged hstage.2⟩
  · exact h

end Ping

namespace Watch

/-- Nothing that happens at a detector lets a ping succeed without an answer. -/
theorem vouched_step {w : Watch} (h : ∀ p ∈ w.pings, p.Vouched) (o : Occasion) :
    ∀ p ∈ (w.step o).pings, p.Vouched := by
  cases o with
  | ping target goesOut =>
    simp only [step, List.forall_mem_append, List.forall_mem_map, List.forall_mem_singleton]
    exact ⟨fun p hp => (h p hp).displace _, Ping.Vouched.fresh _ _ _⟩
  | datagram g =>
    simp only [step, List.forall_mem_map]
    exact fun p hp => (h p hp).hear w.detector g
  | finish i =>
    simp only [step]
    split
    case h_1 p hi =>
      split
      case isTrue =>
        intro q hq
        obtain hq | rfl := List.mem_or_eq_of_mem_set hq
        · exact h q hq
        · exact (h p (List.mem_of_getElem? hi)).finish
      case isFalse => exact h
    case h_2 => exact h
  | close => exact h

theorem vouched_run (os : List Occasion) :
    ∀ {w : Watch}, (∀ p ∈ w.pings, p.Vouched) → ∀ p ∈ (w.run os).pings, p.Vouched := by
  induction os with
  | nil => exact id
  | cons o os ih => exact fun h => ih (vouched_step h o)

end Watch

/-! ### Nobody looks at who answers -/

section Renamed

variable (f : Datagram → Member)

/-- The datagram as somebody else would have sent it. -/
def renameDatagram (g : Datagram) : Datagram := ⟨g.seq, ⟨g.event.kind, f g⟩⟩

def Occasion.rename : Occasion → Occasion
  | .datagram g => .datagram (renameDatagram f g)
  | o => o

def Ping.rename (p : Ping) : Ping := { p with heard := p.heard.map (renameDatagram f) }

def Watch.rename (w : Watch) : Watch := { w with pings := w.pings.map (·.rename f) }

theorem receive_rename (d : Detector) (g : Datagram) :
    d.receive (renameDatagram f g) = d.receive g := by
  obtain ⟨seq, kind, subject⟩ := g
  cases kind <;> rfl

namespace Ping

@[simp] theorem outstanding_rename (p : Ping) : (p.rename f).outstanding = p.outstanding := rfl

@[simp] theorem seq_rename (p : Ping) : (p.rename f).seq = p.seq := rfl

@[simp] theorem stage_rename (p : Ping) : (p.rename f).stage = p.stage := rfl

theorem displace_rename (p : Ping) (seq : UInt64) :
    (p.rename f).displace seq = (p.displace seq).rename f := by
  unfold Ping.displace
  by_cases h : p.stage = .waiting ∧ p.seq = seq
  · rw [if_pos h, if_pos (by exact h)]
    rfl
  · rw [if_neg h, if_neg (by exact h)]

theorem hear_rename (p : Ping) (g : Datagram) (effect : DatagramEffect) :
    (p.rename f).hear (renameDatagram f g) effect = (p.hear g effect).rename f := by
  unfold Ping.hear
  by_cases h : p.outstanding
  · rw [if_pos h, if_pos (by exact h)]
    simp only [Ping.rename, List.map_append, List.map_cons, List.map_nil]
    rfl
  · rw [if_neg h, if_neg (by exact h)]

theorem finish_rename (p : Ping) : (p.rename f).finish = p.finish.rename f := by
  unfold Ping.finish
  by_cases h : p.outstanding
  · rw [if_pos h, if_pos (by exact h)]
    rfl
  · rw [if_neg h, if_neg (by exact h)]

end Ping

namespace Watch

theorem step_rename (w : Watch) (o : Occasion) :
    (w.rename f).step (o.rename f) = (w.step o).rename f := by
  cases o with
  | ping target goesOut =>
    simp only [Watch.rename, Occasion.rename, step, List.map_append, List.map_map,
      Function.comp_def, Ping.displace_rename]
    rfl
  | datagram g =>
    simp [Watch.rename, Occasion.rename, step, receive_rename, Function.comp_def,
      Ping.hear_rename]
  | finish i =>
    simp only [Watch.rename, Occasion.rename, step, List.getElem?_map]
    cases w.pings[i]? with
    | none => rfl
    | some p =>
      by_cases h : p.outstanding
      · simp [h, Ping.finish_rename, List.map_set]
      · simp [h]
  | close => rfl

theorem run_rename (os : List Occasion) :
    ∀ w : Watch, (w.rename f).run (os.map (·.rename f)) = (w.run os).rename f := by
  induction os with
  | nil => exact fun _ => rfl
  | cons o os ih =>
    intro w
    rw [List.map_cons, run_cons, run_cons, step_rename, ih]

end Watch

end Renamed

/-- **A success says that somebody answered, and not who.** Whatever pings begin, whatever datagrams
arrive and whenever pings end, a ping that succeeds went out, and an acknowledgment under its number
came while it was outstanding. Had others sent the datagrams, in the name of whomever, each ping
would have come as far as it has. -/
theorem vouched_by_anyone (d : Detector) (os : List Occasion) :
    (∀ p ∈ ((Watch.mk d []).run os).pings, p.stage = .ended true →
      p.sent ∧ ∃ subject, ⟨p.seq, ⟨.ack, subject⟩⟩ ∈ p.heard) ∧
    ∀ f : Datagram → Member,
      ((Watch.mk d []).run (os.map (·.rename f))).pings.map Ping.stage =
        ((Watch.mk d []).run os).pings.map Ping.stage := by
  constructor
  · intro p hp hstage
    exact (Watch.vouched_run os (by simp) p hp).ended hstage
  · intro f
    have h := Watch.run_rename f os ⟨d, []⟩
    rw [show (Watch.mk d []).rename f = ⟨d, []⟩ from rfl] at h
    rw [h]
    simp [Watch.rename]

/-- Of two incarnations at one endpoint the older has gone. It is pinged, the newer acknowledges,
and the ping succeeds. -/
theorem vouched_by_successor :
    let gone : Member := ⟨"127.0.0.3", 9000, 5⟩
    let successor : Member := ⟨"127.0.0.3", 9000, 9⟩
    let os : List Occasion :=
      [.ping gone true, .datagram ⟨1, ⟨.ack, successor⟩⟩, .finish 0]
    let p : Ping := ⟨gone, 1, true, .ended true, [⟨1, ⟨.ack, successor⟩⟩]⟩
    ((Watch.mk { owner := ⟨"127.0.0.2", 9000, 1⟩ } []).run os).pings = [p] ∧
      p.sent ∧ (∃ subject, ⟨p.seq, ⟨.ack, subject⟩⟩ ∈ p.heard) ∧
      ⟨p.seq, ⟨.ack, gone⟩⟩ ∉ p.heard := by
  intro gone successor os p
  have hp : ((Watch.mk { owner := ⟨"127.0.0.2", 9000, 1⟩ } []).run os).pings = [p] := by
    decide +kernel
  have h := (vouched_by_anyone { owner := ⟨"127.0.0.2", 9000, 1⟩ } os).1 p (by simp [hp]) rfl
  exact ⟨hp, h.1, h.2, by decide⟩

/-! ### The pings of a group are such pings -/

/-- A ping that is alone with its detector is acknowledged as soon as the detector says so. -/
theorem run_datagrams (gs : List Datagram) (target : Member) (seq : UInt64) (sent : Bool) :
    ∀ (d : Detector) (acked : Bool) (heard : List Datagram),
      (Watch.mk d [⟨target, seq, sent, if acked then .acknowledged else .waiting, heard⟩]).run
          (gs.map .datagram) =
        let (d, acked) := gs.foldl
          (fun (d, acked) g =>
            let (d, effect) := d.receive g
            (d, acked || effect == .acknowledged seq))
          (d, acked)
        ⟨d, [⟨target, seq, sent, if acked then .acknowledged else .waiting, heard ++ gs⟩]⟩ := by
  induction gs with
  | nil => simp
  | cons g gs ih =>
    intro d acked heard
    rw [List.map_cons, Watch.run_cons, List.foldl_cons]
    have hstep : (Watch.mk d [⟨target, seq, sent, if acked then .acknowledged else .waiting,
          heard⟩]).step (.datagram g) =
        ⟨(d.receive g).1, [⟨target, seq, sent,
          if acked || (d.receive g).2 == .acknowledged seq then .acknowledged else .waiting,
          heard ++ [g]⟩]⟩ := by
      cases acked <;> simp [Watch.step, Ping.hear, Ping.outstanding]
    rw [hstep, ih, List.append_assoc, List.singleton_append]

/-- What a group makes of the replies to a ping is what becomes of the ping when they arrive. -/
theorem hear_eq_run (d : Detector) (target : Member) (replies : List Datagram) :
    (Watch.mk d []).run (.ping target true :: replies.map .datagram ++ [.finish 0]) =
      ⟨(d.beginPing.1.hear d.nextSeq replies).1.endPing d.nextSeq,
        [⟨target, d.nextSeq, d.isOpen,
          .ended (d.isOpen && (d.beginPing.1.hear d.nextSeq replies).2), replies⟩]⟩ := by
  have hbegin : (Watch.mk d []).step (.ping target true) =
      ⟨d.beginPing.1, [⟨target, d.nextSeq, d.isOpen, .waiting, []⟩]⟩ := by
    cases hopen : d.isOpen <;> simp [Watch.step, beginPing, hopen]
  have hheard := run_datagrams replies target d.nextSeq d.isOpen d.beginPing.1 false []
  simp only [Bool.false_eq_true, if_false, List.nil_append] at hheard
  rw [Watch.run_append, Watch.run_cons, Watch.run_nil, Watch.run_cons, hbegin, hheard]
  change Watch.step ⟨(d.beginPing.1.hear d.nextSeq replies).1,
    [⟨target, d.nextSeq, d.isOpen,
      if (d.beginPing.1.hear d.nextSeq replies).2 then .acknowledged else .waiting, replies⟩]⟩
    (.finish 0) = _
  cases hacked : (d.beginPing.1.hear d.nextSeq replies).2 <;>
    simp [Watch.step, Ping.finish, Ping.outstanding]

end Detector

namespace Cluster

/-- Who is pinged is an endpoint: its incarnations get one verdict. -/
theorem ping_eq_of_endpoint {m n : Member} (h : m.endpoint = n.endpoint) (seat : Seat) :
    ping seat m = ping seat n := by
  simp only [ping, h]

end Cluster

end ReplicaRing
