import ReplicaRing.Proofs.Session.Gathering
import ReplicaRing.Proofs.Session.Handling

/-!
# How a participant joins

A participant that joins finds out its ring from a member that the introducer names, opens its
store, tells the others, and takes the role if its ring names it. All that comes before it has a
ring, and all that it sends, leaves every participant where it stands.
-/
namespace ReplicaRing.Cluster

variable {α β ε : Type} {c c' : Cluster} {name : String}

/-! ### Steps that can fail -/

theorem run_bind_eq_ok {x : ExceptT ε Act α} {f : α → ExceptT ε Act β} {b : β}
    (h : (x >>= f).run.run c = (.ok b, c')) :
    ∃ a c₁, x.run.run c = (.ok a, c₁) ∧ (f a).run.run c₁ = (.ok b, c') := by
  rw [ExceptT.run_bind, StateT.run_bind] at h
  cases hx : x.run.run c with
  | mk r c₁ =>
    rw [hx] at h
    cases r with
    | error e => cases h
    | ok a => exact ⟨a, c₁, rfl, h⟩

theorem run_lift (a : Act α) (c : Cluster) :
    (ExceptT.lift (ε := ε) a).run.run c = (.ok (a.run c).1, (a.run c).2) := rfl

theorem Aside.bindOk {x : ExceptT ε Act α} {f : α → ExceptT ε Act β} (hx : Aside x.run)
    (hf : ∀ a, Aside (f a).run) : Aside (x >>= f).run := by
  rw [ExceptT.run_bind]
  refine hx.bind fun r => ?_
  cases r with
  | error e => exact .pure _
  | ok a => exact hf a

theorem AsideAt.bindOk_look {x : ExceptT ε Act α} {f : α → ExceptT ε Act β} {a : α}
    (hx : x.run.run c = (.ok a, c)) (hf : AsideAt (f a).run c) : AsideAt (x >>= f).run c := by
  rw [ExceptT.run_bind]
  exact .bind_look hx hf

theorem Aside.lift {a : Act α} (ha : Aside a) : Aside (ExceptT.lift (ε := ε) a).run := ha.map _

/-! ### Before a participant has a ring -/

theorem aside_search {answers : Member → Act Bool} (hanswers : ∀ m, Aside (answers m))
    (joining : Member) (candidates : List Member) (i : Introducer) :
    Aside (Introducer.search answers joining candidates i) := by
  induction candidates generalizing i with
  | nil => exact .pure _
  | cons candidate rest ih =>
    rw [Introducer.search]
    refine .ite (ih _) ((hanswers candidate).bind fun answered => .ite (.pure _) (ih _))

theorem aside_introduce {joining : Member} : Aside (introduce joining) := by
  refine (Aside.look fun _ => rfl).bind fun c => ?_
  refine Aside.bind ?_ fun found => (Aside.of_participants fun _ => rfl).bind fun _ => .pure _
  exact (aside_search (fun _ => aside_send) _ _ _).bind fun _ => .pure _

theorem aside_sayRaw {e : Endpoint} {bytes : Bytes} : Aside (sayRaw e bytes) := by
  unfold sayRaw
  split
  refine (aside_connect fun _ _ => aside_copyNow).bind fun line => ?_
  split
  · exact .pure _
  · exact aside_feed.bind fun _ => .pure _

theorem aside_askIntroducer {e : Endpoint} {request : Bytes} : Aside (askIntroducer e request) := by
  refine (Aside.look fun _ => rfl).bind fun c => .ite ?_ aside_sayRaw
  split
  · exact aside_introduce.bind fun _ => .pure _
  · exact .pure _

/-- What the introducer replies. -/
theorem aside_introduced (address : String) (heard : Except ExchangeFault Heard) :
    Aside (match heard.bind (·.reply (α := IntroducerReply) .awaitingReply) with
      | .ok reply => pure reply.groupMember
      | .error fault => throw (.introducerUnreachable address fault) :
        ExceptT MembershipFault Act (Option Member)).run := by
  split <;> exact .pure _

theorem aside_findGroup (config : MemberConfig) (identity : Member) :
    Aside (findGroup config identity).run := by
  unfold findGroup
  split
  · rename_i address _
    split
    · split
      · exact Aside.bindOk (.pure _) (aside_introduced address)
      · exact (Aside.lift aside_askIntroducer).bindOk (aside_introduced address)
    · exact Aside.bindOk (.pure _) (aside_introduced address)
  · exact .pure _

theorem aside_newIdentity (config : MemberConfig) : Aside (newIdentity config).run := by
  intro c
  unfold newIdentity
  split
  · rfl
  · refine .bindOk_look (a := c) rfl ?_
    have hlook (e : Endpoint) : (ExceptT.lift (ε := MembershipFault) (seatAt? e)).run.run c =
        (.ok (seatAt? e c).1, c) := by
      rw [run_lift, seatAt?_run]
    refine .bindOk_look (hlook _) ?_
    dsimp only
    generalize (_ || _ || Option.isSome _ : Bool) = taken
    cases taken <;> rfl

theorem aside_openStore (config : MemberConfig) (identity : Member) :
    Aside (openStore config identity).run := by
  refine (Aside.lift aside_onDisk).bindOk fun opened => ?_
  split
  · exact .pure _
  · exact (Aside.lift aside_note).bindOk fun _ => .pure _

/-- The ring is that of a founder or of a joiner. -/
theorem discover_eq_ok {config : MemberConfig} {identity : Member} {ring : Ring}
    (h : (discover config identity).run.run c = (.ok ring, c')) :
    c'.seated = c.seated ∧ ∃ snapshot, ring = Session.initialRing identity snapshot := by
  obtain ⟨via, c₁, hvia, h⟩ := run_bind_eq_ok h
  have h₁ : c₁.seated = c.seated := by
    have hfound := aside_findGroup config identity c
    rwa [AsideAt, hvia] at hfound
  cases via with
  | none =>
    cases h
    exact ⟨(aside_note c₁).trans h₁, none, rfl⟩
  | some via =>
    obtain ⟨reply, c₂, hreply, h⟩ := run_bind_eq_ok h
    rw [run_lift] at hreply
    have h₂ : c₂.seated = c.seated := by
      have hasked : Aside (network.request (α := Snapshot) via
          (.membership ⟨.memberListRequest, identity⟩)) := aside_request fun _ _ => aside_copyNow
      rw [← h₁, ← hasked c₁]
      exact congrArg seated (Prod.mk.inj hreply).2.symm
    cases reply with
    | error fault => cases h
    | ok snapshot =>
      cases h
      exact ⟨(aside_note c₂).trans h₂, some snapshot, rfl⟩

/-! ### When it has one -/

theorem aside_setDetector {seat : Seat} {d : Detector} : Aside (setDetector seat d) := by
  cases seat with
  | peer i => exact .of_participants fun _ => rfl
  | former i => exact .of_participants fun _ => rfl
  | participant name => exact fun c => asideAt_updateSession fun _ _ => rfl

theorem aside_detectorOf {seat : Seat} : Aside (detectorOf seat) :=
  .look fun _ => by cases seat <;> rfl

theorem aside_pingReplies {e : Endpoint} {ping : Datagram} : Aside (pingReplies e ping) := by
  refine aside_seatAt?.bind fun seat => ?_
  split
  · exact .pure _
  · exact (Aside.look fun _ => rfl).bind fun _ => .pure _
  · refine aside_peer?.bind fun peer => ?_
    split <;> exact .pure _
  · exact aside_detectorOf.bind fun _ => .pure _

theorem aside_ping {seat : Seat} {target : Member} : Aside (ping seat target) := by
  refine aside_detectorOf.bind fun d => ?_
  have hheard (replies : List Datagram) (seq : UInt64) (d : Detector) :
      Aside (do
        setDetector seat ((d.hear seq replies).1.endPing seq)
        return (d.hear seq replies).2 : Act Bool) := aside_setDetector.bind fun _ => .pure _
  cases d.beginPing with
  | mk d rest =>
    obtain ⟨seq, datagram⟩ := rest
    cases datagram with
    | none => exact hheard [] seq d
    | some datagram => exact aside_pingReplies.bind fun replies => hheard replies seq d

theorem aside_probe {seat : Seat} {targets : List Member} : Aside (probe seat targets) :=
  (Aside.mapM fun _ => aside_ping.bind fun _ => .pure _).bind fun _ => .pure _

theorem aside_broadcast {sender : Member} {recipients : List Member} {event : Event} :
    Aside (broadcast sender recipients event) :=
  (Aside.mapM fun _ => aside_send).bind fun _ => .pure _

namespace Lives

theorem aside {a : Act α} (h : Lives name c c') (ha : Aside a) : Lives name c (a.run c').2 :=
  h.elsewhere (ha c').standing?

theorem forM_reportCrash (h : Lives name c c') (suspects : List Member) :
    Lives name c ((suspects.forM (reportCrash name)).run c').2 := by
  induction suspects generalizing c' with
  | nil => exact h
  | cons suspect suspects ih => exact ih (h.deal (.suspect suspect))

/-- Whoever knows no coordinator starts an election. -/
theorem startElection (h : Lives name c c') (s? : Option Session) :
    Lives name c ((match s? with
      | some s => if s.ring.coordinator.isNone then fulfil name .startElection else pure ()
      | none => pure () : Act Unit).run c').2 := by
  split
  · split
    · exact h.deal .election
    · exact h
  · exact h

theorem protocolRound_run (name : String) (c : Cluster) :
    (Cluster.protocolRound name).run c = (match (session? name c).1, (participant? name c).1 with
      | some s, some p => do
        let suspects ← probe (.participant name) (Session.targets s.ring p.config.monitors)
        suspects.forM (reportCrash name)
        match ← session? name with
        | some s => if s.ring.coordinator.isNone then fulfil name .startElection
        | none => return
      | _, _ => pure () : Act Unit).run c := rfl

/-- The loop of a participant is a part of its life. -/
theorem protocolRound (h : Lives name c c') : Lives name c ((protocolRound name).run c').2 := by
  rw [protocolRound_run]
  split
  · rename_i s p _ _
    have hprobed := h.aside (a := probe (.participant name)
      (Session.targets s.ring p.config.monitors)) aside_probe
    exact (hprobed.forM_reportCrash _).startElection _
  · exact h

end Lives

/-- **A participant that has joined** began alone or from a snapshot, took the role if its ring
named it, and went on from there. -/
theorem join_begins {identity : Member} (h : (join name).run.run c = (.ok identity, c')) :
    ∃ c₀ snapshot,
      c₀.standing? name = some ⟨{ ring := Session.initialRing identity snapshot }, false⟩ ∧
        Lives name ((takeRole name).run c₀).2 c' := by
  obtain ⟨found, c₁, hp, h⟩ := run_bind_eq_ok h
  rw [run_lift] at hp
  cases hp
  cases hfound : ((participant? name).run c).1 with
  | none =>
    rw [hfound] at h
    cases h
  | some p =>
    rw [hfound] at h
    cases hs : p.session with
    | some s =>
      simp only [hs] at h
      cases h
    | none =>
      simp only [hs] at h
      obtain ⟨identity', c₁, hidentity, h⟩ := run_bind_eq_ok h
      obtain ⟨ring, c₂, hring, h⟩ := run_bind_eq_ok h
      obtain ⟨store, c₃, hstore, h⟩ := run_bind_eq_ok h
      obtain ⟨_, c₄, hlast, h⟩ := run_bind_eq_ok h
      cases h
      obtain ⟨h₂, snapshot, rfl⟩ := discover_eq_ok hring
      have hseated : c₃.seated name = some none := by
        have h₁ := aside_newIdentity p.config c
        have h₃ := aside_openStore p.config identity c₂
        have hlookup : c.participants.lookup name = some p := hfound
        rw [AsideAt, show (newIdentity p.config).run.run c = _ from hidentity] at h₁
        rw [AsideAt, hstore] at h₃
        rw [h₃, h₂, h₁, seated, hlookup, Option.map_some, hs]
        rfl
      rw [run_lift] at hlast
      cases hlast
      -- What is sent out before the role is taken does not move the participant.
      set s₀ : Session := { elector := { ring := Session.initialRing identity snapshot }, store
                            detector := { owner := identity } }
      set c₄ := ((updateParticipant name fun p => { p with session := some s₀ }).run c₃).2
      have hbegun : c₄.standing? name = some s₀.standing := by
        obtain ⟨p, hp, -⟩ := Option.map_eq_some_iff.mp hseated
        rw [Cluster.standing?, seated_updateParticipant, if_pos rfl, hp]
        rfl
      set c₅ := ((broadcast identity s₀.ring.toList ⟨.join, identity⟩).run c₄).2
      have hsent : c₅.standing? name = c₄.standing? name := (aside_broadcast c₄).standing?
      set delivered := ((broadcast identity s₀.ring.toList ⟨.join, identity⟩).run c₄).1
      have hnoted : ((note (.joinedGroup identity delivered)).run c₅).2.standing? name =
          c₅.standing? name := (aside_note c₅).standing?
      exact ⟨((note (.joinedGroup identity delivered)).run c₅).2, snapshot,
        hnoted.trans (hsent.trans hbegun), (Lives.refl _).protocolRound⟩

/-- The invariants hold of whoever has joined, whatever comes then. -/
theorem joined_stays_sound {identity : Member} {s : Standing} {c'' : Cluster}
    (h : (join name).run.run c = (.ok identity, c')) (hlife : Lives name c' c'')
    (hs : c''.standing? name = some s) : s.Sound ∧ s.ring.owner = identity := by
  obtain ⟨c₀, snapshot, hbegun, hjoined⟩ := join_begins h
  obtain ⟨hsound, howner, -⟩ :=
    (hjoined.trans hlife).sound (standing?_takeRole hbegun) sound_begin hs
  exact ⟨hsound, howner.trans (Session.initialRing_owner identity snapshot)⟩

/-- A participant that hears of a newcomer, and knows no other incarnation of it, makes of it what
members make of it that gather. -/
theorem standing?_handleEvent_join {s : Standing} {m : Member} (h : c.standing? name = some s)
    (hnew : ∀ k ∈ s.ring.members, k.endpoint = m.endpoint → k = m) :
    ((handleEvent name ⟨.join, m⟩).run c).2.standing? name =
      some { s with elector := (s.elector.hear ⟨.join, m⟩).1 } := by
  obtain ⟨session, hsession, rfl⟩ := Option.map_eq_some_iff.mp (standing?_eq c name ▸ h)
  rw [handleEvent_run, hsession, Gathering.hear_join hnew]
  change (((Session.duties session.ring ⟨.join, m⟩).forM (fulfil name)).run c).2.standing? name = _
  have hduties : Session.duties session.ring ⟨.join, m⟩ = [.add m] := Gathering.duties_join hnew
  rw [hduties]
  change ((fulfil name (.add m)).run c).2.standing? name = _
  rw [fulfil_run, hsession]
  exact (standing?_updateSession (g := fun s =>
    { s with elector := { session.elector with ring := (session.ring.add m).1 } })
      fun _ => rfl).trans (congrArg (Option.map _) h)

end ReplicaRing.Cluster
