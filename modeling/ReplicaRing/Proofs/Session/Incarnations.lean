import ReplicaRing.Proofs.Session.Handling

/-!
# One incarnation after the other

A joiner replaces every other incarnation at its endpoint, whether it joined earlier or later than
they did. So of several incarnations the one stays that is heard of last: the newest, if they are
heard of in the order of joining, and any other one if they are not.
-/
namespace ReplicaRing.Cluster

variable {c : Cluster} {name : String} {s : Standing} {m : Member}

/-- What a duty makes of the ring, whatever the election makes of it. -/
theorem ring_fulfil (h : c.standing? name = some s) (duty : Session.Duty) (hduty : duty ≠ .stop) :
    ∃ s', ((fulfil name duty).run c).2.standing? name = some s' ∧
      s'.ring.owner = s.ring.owner ∧ s'.ring.members = (s.ring.changed duty).members := by
  obtain hafter | hafter := standing?_fulfil h hduty
  · exact ⟨_, hafter, s.owner_after duty, s.members_after duty⟩
  · exact ⟨_, hafter, s.owner_after duty, s.members_after duty⟩

/-- The stale ones go, and the joiner comes. -/
theorem ring_replace (h : c.standing? name = some s) {stale : List Member}
    (howner : s.ring.owner ∉ stale) :
    ∃ s', (((stale.map Session.Duty.remove ++ [Session.Duty.add m]).forM
        (fulfil name)).run c).2.standing? name = some s' ∧
      s'.ring.owner = s.ring.owner ∧
      ∀ k, k ∈ s'.ring.members ↔ k = m ∨ (k ∈ s.ring.members ∧ k ∉ stale) := by
  induction stale generalizing c s with
  | nil =>
    obtain ⟨s', h', howner', hmembers⟩ := ring_fulfil h (.add m) nofun
    refine ⟨s', h', howner', fun k => ?_⟩
    rw [hmembers, and_iff_left List.not_mem_nil]
    exact Ring.mem_add
  | cons old stale ih =>
    rw [List.mem_cons, not_or] at howner
    obtain ⟨s₁, h₁, howner₁, hmembers₁⟩ := ring_fulfil h (.remove old) nofun
    obtain ⟨s', h', howner', hmembers'⟩ := ih h₁ (howner₁ ▸ howner.2)
    refine ⟨s', h', howner'.trans howner₁, fun k => ?_⟩
    rw [hmembers', hmembers₁, Ring.mem_changed_remove, List.mem_cons, not_or]
    have hold : (k = old → old = s.ring.owner) ↔ k ≠ old :=
      ⟨fun hk heq => howner.1 (hk heq).symm, fun hne heq => absurd heq hne⟩
    rw [hold]
    tauto

/-- A joiner that does not take the owner's endpoint is the only member at its own from then on, and
the members at all other endpoints are the same. -/
theorem ring_join (h : c.standing? name = some s)
    (hother : m.endpoint = s.ring.owner.endpoint → m = s.ring.owner) :
    ∃ s', ((handleEvent name ⟨.join, m⟩).run c).2.standing? name = some s' ∧
      s'.ring.owner = s.ring.owner ∧
      ∀ k, k ∈ s'.ring.members ↔ k = m ∨ (k ∈ s.ring.members ∧ k.endpoint ≠ m.endpoint) := by
  obtain ⟨session, hsession, rfl⟩ := Option.map_eq_some_iff.mp (standing?_eq c name ▸ h)
  rw [handleEvent_run, hsession]
  have hstale (k : Member) : (k ∈ session.ring.toList.filter fun known =>
      known.sameEndpoint m ∧ known ≠ m) ↔
        k ∈ session.standing.ring.members ∧ k.endpoint = m.endpoint ∧ k ≠ m := by
    rw [List.mem_filter, Ring.toList, Std.ExtTreeSet.mem_toList, decide_eq_true_eq,
      Member.sameEndpoint, beq_iff_eq]
    rfl
  have howner : session.standing.ring.owner ∉ session.ring.toList.filter fun known =>
      known.sameEndpoint m ∧ known ≠ m := fun howner =>
    have hsame := ((hstale _).mp howner).2
    hsame.2 (hother hsame.1.symm).symm
  obtain ⟨s', h', howner', hmembers'⟩ := ring_replace (m := m) h howner
  refine ⟨s', h', howner', fun k => ?_⟩
  rw [hmembers', hstale]
  tauto

/-- Word of joiners reaches a participant, one after the other. -/
def hearOf (name : String) (joiners : List Member) : Act Unit :=
  joiners.forM fun m => handleEvent name ⟨.join, m⟩

/-- However many incarnations of an endpoint are heard of, the last one is there, and nobody else
has come or gone. -/
theorem ring_hearOf (h : c.standing? name = some s) {e : Endpoint}
    (howner : s.ring.owner.endpoint ≠ e) (joiners : List Member) (last : Member)
    (hjoiners : ∀ m ∈ joiners ++ [last], m.endpoint = e) :
    ∃ s', ((hearOf name (joiners ++ [last])).run c).2.standing? name = some s' ∧
      s'.ring.owner = s.ring.owner ∧
      ∀ k, k ∈ s'.ring.members ↔ k = last ∨ (k ∈ s.ring.members ∧ k.endpoint ≠ e) := by
  induction joiners generalizing c s with
  | nil =>
    have hlast := hjoiners last List.mem_cons_self
    subst hlast
    exact ring_join h fun heq => absurd heq.symm howner
  | cons m joiners ih =>
    have hm := hjoiners m List.mem_cons_self
    obtain ⟨s₁, h₁, howner₁, hmembers₁⟩ := ring_join h fun heq =>
      absurd (heq.symm.trans hm) howner
    obtain ⟨s', h', howner', hmembers'⟩ := ih h₁ (howner₁ ▸ howner) fun k hk =>
      hjoiners k (List.mem_cons_of_mem m hk)
    refine ⟨s', h', howner'.trans howner₁, fun k => ?_⟩
    rw [hmembers', hmembers₁, hm]
    have hgone : k = m → ¬ k.endpoint ≠ e := fun hk hne => hne (hk ▸ hm)
    tauto

/-- **The incarnation that is heard of last stays.** Nobody is known at an endpoint other than the
owner's, and word of incarnations of it comes in some order, of each as often as it likes: then the
one heard of last is the only one there, and nobody else has come or gone. So the newest is there
just if it is heard of last, and after another order of arrival the members are the same just if the
same one was last. -/
theorem last_heard_stays (h : c.standing? name = some s) {e : Endpoint}
    (howner : s.ring.owner.endpoint ≠ e) (hfree : ∀ k ∈ s.ring.members, k.endpoint ≠ e)
    (joiners : List Member) (last : Member)
    (hjoiners : ∀ m ∈ joiners ++ [last], m.endpoint = e) :
    ∃ s', ((hearOf name (joiners ++ [last])).run c).2.standing? name = some s' ∧
      (∀ k, k ∈ s'.ring.members ↔ k ∈ s.ring.members ∨ k = last) ∧
      (∀ newest ∈ joiners ++ [last], newest ∈ s'.ring.members ↔ last = newest) ∧
      ∀ (others : List Member) (last' : Member),
        (∀ m, m ∈ others ++ [last'] ↔ m ∈ joiners ++ [last]) →
        ∃ s'', ((hearOf name (others ++ [last'])).run c).2.standing? name = some s'' ∧
          (s''.ring.members = s'.ring.members ↔ last' = last) := by
  have hheard (joiners : List Member) (last : Member)
      (hjoiners : ∀ m ∈ joiners ++ [last], m.endpoint = e) :
      ∃ s', ((hearOf name (joiners ++ [last])).run c).2.standing? name = some s' ∧
        ∀ k, k ∈ s'.ring.members ↔ k ∈ s.ring.members ∨ k = last := by
    obtain ⟨s', h', -, hmembers⟩ := ring_hearOf h howner joiners last hjoiners
    refine ⟨s', h', fun k => ?_⟩
    rw [hmembers, Or.comm, and_iff_left_of_imp (hfree k)]
  have habsent {m : Member} (hm : m.endpoint = e) : m ∉ s.ring.members := fun hin =>
    hfree m hin hm
  obtain ⟨s', h', hmembers⟩ := hheard joiners last hjoiners
  refine ⟨s', h', hmembers, fun newest hnewest => ?_, fun others last' hsame => ?_⟩
  · rw [hmembers, or_iff_right (habsent (hjoiners newest hnewest)), eq_comm]
  · have hothers : ∀ m ∈ others ++ [last'], m.endpoint = e := fun m hm =>
      hjoiners m ((hsame m).mp hm)
    obtain ⟨s'', h'', hmembers''⟩ := hheard others last' hothers
    refine ⟨s'', h'', fun heq => ?_, fun heq => ?_⟩
    · have hin : last' ∈ s'.ring.members := heq ▸ (hmembers'' last').mpr (.inr rfl)
      exact ((hmembers last').mp hin).resolve_left (habsent (hothers last' (by simp)))
    · exact Std.ExtTreeSet.ext_mem fun k => by rw [hmembers'', hmembers, heq]

/-- Word of an older incarnation comes late, and it replaces the newer one. -/
theorem late_word_stays :
    let me : Member := ⟨"127.0.0.7", 9000, 1⟩
    let older : Member := ⟨"127.0.0.3", 9000, 5⟩
    let newer : Member := ⟨"127.0.0.3", 9000, 9⟩
    let session : Session :=
      { elector := { ring := Session.initialRing me none }
        store := { root := [] }
        detector := { owner := me } }
    let c : Cluster := { disk := {}, participants := [("me", { config := {}, session })] }
    c.standing? "me" = some session.standing ∧
      ∃ s, ((hearOf "me" [newer, older]).run c).2.standing? "me" = some s ∧
        older ∈ s.ring.members ∧ newer ∉ s.ring.members := by
  intro me older newer session c
  have hbegin : c.standing? "me" = some session.standing := rfl
  have hfree : ∀ k ∈ session.standing.ring.members, k.endpoint ≠ newer.endpoint := by
    intro k hk
    rw [show k = me from Session.mem_founded.mp hk]
    decide
  obtain ⟨s, hs, -, hstays, -⟩ := last_heard_stays hbegin (e := newer.endpoint) (by decide) hfree
    [newer] older (by decide)
  exact ⟨hbegin, s, hs, (hstays older (by simp)).mpr rfl,
    mt (hstays newer (by simp)).mp (by decide)⟩

end ReplicaRing.Cluster
