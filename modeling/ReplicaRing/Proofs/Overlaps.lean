import ReplicaRing.Proofs.Pings
import ReplicaRing.Proofs.Sets

/-!
# Pings that overlap

As long as no number is given twice, a ping is between its target and the acknowledgments under its
own number, and the numbers that are pending are those of the pings that wait.
-/
namespace ReplicaRing.Detector

variable {d : Detector} {g : Datagram} {n : UInt64} {i j : Nat} {p q : Ping} {w : Watch}

/-! ### What a datagram does -/

theorem receive_eq_acknowledged_iff :
    (d.receive g).2 = .acknowledged n ↔ g.event.kind = .ack ∧ g.seq = n ∧ n ∈ d.pending := by
  obtain ⟨seq, kind, subject⟩ := g
  cases kind <;> simp only [receive, reduceCtorEq, false_and, true_and]
  split
  · rename_i hpending
    rw [DatagramEffect.acknowledged.injEq]
    exact ⟨fun heq => ⟨heq, heq ▸ Std.ExtTreeSet.mem_iff_contains.mpr hpending⟩, And.left⟩
  · rename_i hpending
    refine iff_of_false (by rintro ⟨⟩) fun h => hpending ?_
    exact h.1 ▸ Std.ExtTreeSet.mem_iff_contains.mp h.2

theorem mem_pending_receive :
    n ∈ (d.receive g).1.pending ↔ n ∈ d.pending ∧ ¬ (g.event.kind = .ack ∧ g.seq = n) := by
  obtain ⟨seq, kind, subject⟩ := g
  cases kind <;> simp only [receive, reduceCtorEq, false_and, not_false_eq_true, and_true, true_and]
  split
  · rw [mem_erase_iff, and_comm]
  · rename_i hpending
    refine (and_iff_left_of_imp fun hmem heq => hpending ?_).symm
    exact heq ▸ Std.ExtTreeSet.mem_iff_contains.mp hmem

theorem nextSeq_receive (d : Detector) (g : Datagram) : (d.receive g).1.nextSeq = d.nextSeq := by
  obtain ⟨seq, kind, subject⟩ := g
  cases kind <;> simp only [receive]
  split <;> rfl

namespace Ping

/-- What a ping that has ended returned. -/
def outcome? (p : Ping) : Option Bool :=
  match p.stage with
  | .ended success => some success
  | _ => none

/-- The stage of a ping says whether it was answered. -/
def Judged (p : Ping) : Prop :=
  match p.stage with
  | .waiting => ¬ p.Answered
  | .acknowledged => p.Answered
  | .displaced => False
  | .ended success => success = true ↔ p.sent = true ∧ p.Answered

theorem outcome?_eq_some_iff {success : Bool} :
    p.outcome? = some success ↔ p.stage = .ended success := by
  unfold outcome?
  cases p.stage <;> simp

theorem outstanding_iff : p.outstanding = true ↔ p.outcome? = none := by
  unfold outstanding outcome?
  cases p.stage <;> simp

theorem answered_hear (g : Datagram) (effect : DatagramEffect) (h : p.outstanding = true) :
    (p.hear g effect).Answered ↔ p.Answered ∨ g.event.kind = .ack ∧ g.seq = p.seq := by
  rw [hear, if_pos h]
  simp only [Answered, List.mem_append, List.mem_singleton, exists_or]
  refine or_congr_right ⟨?_, ?_⟩
  · rintro ⟨subject, rfl⟩
    exact ⟨rfl, rfl⟩
  · obtain ⟨seq, kind, subject⟩ := g
    rintro ⟨rfl, rfl⟩
    exact ⟨subject, rfl⟩

theorem stage_hear (p : Ping) (g : Datagram) (effect : DatagramEffect) :
    (p.hear g effect).stage =
      if p.stage = .waiting ∧ effect = .acknowledged p.seq then .acknowledged else p.stage := by
  unfold hear
  split
  · rfl
  · rename_i hended
    rw [if_neg]
    rintro ⟨hwaiting, -⟩
    exact hended (by rw [outstanding, hwaiting])

theorem waiting_hear_iff : (p.hear g (d.receive g).2).stage = .waiting ↔
    p.stage = .waiting ∧ ¬ (g.event.kind = .ack ∧ g.seq = p.seq ∧ p.seq ∈ d.pending) := by
  simp only [stage_hear, receive_eq_acknowledged_iff]
  split
  · rename_i hhit
    exact iff_of_false (by rintro ⟨⟩) fun hmiss => hmiss.2 hhit.2
  · rename_i hmiss
    exact ⟨fun hwaiting => ⟨hwaiting, fun hhit => hmiss ⟨hwaiting, hhit⟩⟩, And.left⟩

theorem seq_hear (p : Ping) (g : Datagram) (effect : DatagramEffect) :
    (p.hear g effect).seq = p.seq := by
  unfold hear
  split <;> rfl

theorem displace_of_ne (h : p.seq ≠ n) : p.displace n = p := if_neg fun hp => h hp.2

/-- A ping whose number is pending as long as it waits misses no acknowledgment under its number. -/
theorem Judged.hear (h : p.Judged) (hpending : p.stage = .waiting → p.seq ∈ d.pending)
    (g : Datagram) : (p.hear g (d.receive g).2).Judged := by
  have hstage := p.stage_hear g (d.receive g).2
  simp only [receive_eq_acknowledged_iff] at hstage
  unfold Judged at h ⊢
  rw [hstage]
  cases hp : p.stage with
  | waiting =>
    have hanswered := answered_hear g (d.receive g).2 (p := p) (by rw [outstanding, hp])
    simp only [hp, true_and, hpending hp, and_true] at h ⊢
    by_cases hhit : g.event.kind = .ack ∧ g.seq = p.seq
    · rw [if_pos hhit]
      exact hanswered.mpr (.inr hhit)
    · rw [if_neg hhit]
      exact fun hnow => (hanswered.mp hnow).elim h hhit
  | acknowledged =>
    have hanswered := answered_hear g (d.receive g).2 (p := p) (by rw [outstanding, hp])
    rw [hp] at h
    exact hanswered.mpr (.inl h)
  | displaced =>
    rw [hp] at h
    exact h
  | ended success =>
    have hsame : p.hear g (d.receive g).2 = p := if_neg (by rw [outstanding, hp]; rintro ⟨⟩)
    rw [hp] at h
    simpa only [hsame, reduceCtorEq, false_and, if_false] using h

/-- A ping ends with success if it went out and was answered. -/
theorem Judged.finish (h : p.Judged) (hout : p.outstanding = true) : p.finish.Judged := by
  rw [Ping.finish, if_pos hout]
  unfold Judged at h ⊢
  simp only [Bool.and_eq_true, decide_eq_true_eq]
  refine and_congr_right fun _ => ?_
  cases hp : p.stage with
  | waiting =>
    rw [hp] at h
    exact iff_of_false (by rintro ⟨⟩) h
  | acknowledged =>
    rw [hp] at h
    exact iff_of_true rfl h
  | displaced =>
    rw [hp] at h
    exact h.elim
  | ended => simp [outstanding, hp] at hout

theorem Judged.waiting_iff (h : p.Judged) :
    p.stage = .waiting ↔ p.outstanding = true ∧ ¬ p.Answered := by
  unfold Judged at h
  unfold outstanding
  cases hp : p.stage <;> simp_all

end Ping

/-! ### Pings under numbers of their own -/

namespace Watch

/-- The pings are numbered one by one from `start`, and those that wait are pending. -/
structure Sound (start : UInt64) (w : Watch) : Prop where
  next : w.detector.nextSeq = start + UInt64.ofNat w.pings.length
  seq : ∀ i p, w.pings[i]? = some p → p.seq = start + UInt64.ofNat i
  pending : ∀ n, n ∈ w.detector.pending ↔ ∃ p ∈ w.pings, p.stage = .waiting ∧ p.seq = n
  judged : ∀ p ∈ w.pings, p.Judged

variable {start : UInt64}

theorem number_injective {i j : Nat} (hi : i < UInt64.size) (hj : j < UInt64.size)
    (h : start + UInt64.ofNat i = start + UInt64.ofNat j) : i = j := by
  have heq := congrArg UInt64.toNat (UInt64.add_right_inj start |>.mp h)
  rwa [UInt64.toNat_ofNat_of_lt' hi, UInt64.toNat_ofNat_of_lt' hj] at heq

namespace Sound

theorem index_eq (h : w.Sound start) (hfew : w.pings.length ≤ UInt64.size)
    (hi : w.pings[i]? = some p) (hj : w.pings[j]? = some q) (heq : p.seq = q.seq) : i = j := by
  have hlti := (List.getElem?_eq_some_iff.mp hi).1
  have hltj := (List.getElem?_eq_some_iff.mp hj).1
  rw [h.seq i p hi, h.seq j q hj] at heq
  exact number_injective (by omega) (by omega) heq

theorem nodup_seqs (h : w.Sound start) (hfew : w.pings.length ≤ UInt64.size) :
    (w.pings.map Ping.seq).Nodup := by
  rw [List.Nodup, List.pairwise_map, List.pairwise_iff_getElem]
  exact fun i j hi hj hlt heq => Nat.ne_of_lt hlt <|
    h.index_eq hfew (List.getElem?_eq_getElem hi) (List.getElem?_eq_getElem hj) heq

theorem fresh (hd : d.pending = ∅) : (Watch.mk d []).Sound d.nextSeq where
  next := (UInt64.add_zero _).symm
  seq := by simp
  pending := by simp [hd]
  judged := by simp

/-- As long as there are numbers left, no ping is displaced. -/
theorem step_ping (h : w.Sound start) (hfew : w.pings.length < UInt64.size) (target : Member)
    (goesOut : Bool) : w.step (.ping target goesOut) =
      ⟨{ w.detector with
          nextSeq := w.detector.nextSeq + 1
          pending := w.detector.pending.insert w.detector.nextSeq },
        w.pings ++
          [{ target, seq := w.detector.nextSeq, sent := w.detector.isOpen && goesOut }]⟩ := by
  have hkept : w.pings.map (·.displace w.detector.nextSeq) = w.pings := by
    refine (List.map_congr_left fun p hp => ?_).trans (List.map_id _)
    refine Ping.displace_of_ne fun heq => ?_
    obtain ⟨i, hi⟩ := List.mem_iff_getElem?.mp hp
    have hlt := (List.getElem?_eq_some_iff.mp hi).1
    rw [h.seq i p hi, h.next] at heq
    exact Nat.ne_of_lt hlt (number_injective (by omega) hfew heq)
  simp only [step, beginPing, hkept]
  cases w.detector.isOpen <;> rfl

theorem ping (h : w.Sound start) (hfew : w.pings.length < UInt64.size) (target : Member)
    (goesOut : Bool) : (w.step (.ping target goesOut)).Sound start := by
  rw [h.step_ping hfew]
  constructor
  · simp only [h.next, List.length_append, List.length_singleton, UInt64.ofNat_add,
      UInt64.add_assoc]
    rfl
  · intro i p hi
    have hlength := (List.getElem?_eq_some_iff.mp hi).1
    rw [List.length_append, List.length_singleton] at hlength
    obtain hlt | rfl := Nat.lt_or_eq_of_le (Nat.le_of_lt_succ hlength)
    · rw [List.getElem?_append_left hlt] at hi
      exact h.seq i p hi
    · rw [List.getElem?_concat_length] at hi
      cases hi
      exact h.next
  · intro n
    simp only [mem_insert_iff, h.pending, List.mem_append, List.mem_singleton, or_and_right,
      exists_or, exists_eq_left, true_and]
    exact or_comm
  · simp only [List.forall_mem_append, List.forall_mem_singleton]
    exact ⟨h.judged, by simp [Ping.Judged, Ping.Answered]⟩

theorem datagram (h : w.Sound start) (g : Datagram) : (w.step (.datagram g)).Sound start := by
  constructor
  · simp only [step, nextSeq_receive, h.next, List.length_map]
  · intro i p hi
    simp only [step, List.getElem?_map] at hi
    obtain ⟨q, hq, rfl⟩ := Option.map_eq_some_iff.mp hi
    rw [Ping.seq_hear, h.seq i q hq]
  · intro n
    simp only [step, mem_pending_receive, h.pending, List.mem_map]
    constructor
    · rintro ⟨⟨p, hp, hwaiting, rfl⟩, hmiss⟩
      refine ⟨_, ⟨p, hp, rfl⟩, ?_, Ping.seq_hear _ _ _⟩
      exact Ping.waiting_hear_iff.mpr ⟨hwaiting, fun hhit => hmiss ⟨hhit.1, hhit.2.1⟩⟩
    · rintro ⟨_, ⟨p, hp, rfl⟩, hstage, rfl⟩
      obtain ⟨hwaiting, hmiss⟩ := Ping.waiting_hear_iff.mp hstage
      rw [Ping.seq_hear]
      have hpending := (h.pending p.seq).mpr ⟨p, hp, hwaiting, rfl⟩
      exact ⟨⟨p, hp, hwaiting, rfl⟩, fun hhit => hmiss ⟨hhit.1, hhit.2, hpending⟩⟩
  · simp only [step, List.forall_mem_map]
    refine fun p hp => (h.judged p hp).hear (fun hwaiting => ?_) g
    exact (h.pending p.seq).mpr ⟨p, hp, hwaiting, rfl⟩

theorem finish (h : w.Sound start) (hfew : w.pings.length ≤ UInt64.size) (i : Nat) :
    (w.step (.finish i)).Sound start := by
  simp only [step]
  split
  case h_2 => exact h
  case h_1 p hi =>
    split
    case isFalse => exact h
    case isTrue hout =>
      have hended : p.finish.stage ≠ .waiting := by
        rw [Ping.finish, if_pos hout]
        rintro ⟨⟩
      have hseq : p.finish.seq = p.seq := by rw [Ping.finish, if_pos hout]
      constructor
      · rw [List.length_set]
        exact h.next
      · intro j q hj
        rw [List.getElem?_set] at hj
        split at hj
        · rename_i hij
          subst hij
          split at hj
          · cases hj
            rw [hseq, h.seq i p hi]
          · cases hj
        · exact h.seq j q hj
      · intro n
        simp only [endPing, mem_erase_iff, h.pending]
        constructor
        · rintro ⟨hne, q, hq, hwaiting, rfl⟩
          obtain ⟨j, hj⟩ := List.mem_iff_getElem?.mp hq
          have hij : i ≠ j := by
            rintro rfl
            exact hne (congrArg Ping.seq (Option.some.inj (hi.symm.trans hj)))
          refine ⟨q, List.mem_of_getElem? (i := j) ?_, hwaiting, rfl⟩
          rw [List.getElem?_set_ne hij, hj]
        · rintro ⟨q, hq, hwaiting, rfl⟩
          obtain ⟨j, hj⟩ := List.mem_iff_getElem?.mp hq
          rw [List.getElem?_set] at hj
          split at hj
          · split at hj
            · cases hj
              exact absurd hwaiting hended
            · cases hj
          · rename_i hij
            exact ⟨fun heq => hij (h.index_eq hfew hi hj heq), q, List.mem_of_getElem? hj,
              hwaiting, rfl⟩
      · intro q hq
        obtain hq | rfl := List.mem_or_eq_of_mem_set hq
        · exact h.judged q hq
        · exact (h.judged p (List.mem_of_getElem? hi)).finish hout

end Sound

theorem length_step (w : Watch) (o : Occasion) : w.pings.length ≤ (w.step o).pings.length := by
  cases o with
  | ping target goesOut => simp only [step, List.length_append, List.length_map]; omega
  | datagram g => simp only [step, List.length_map, Nat.le_refl]
  | finish i =>
    simp only [step]
    split
    · split
      · exact Nat.le_of_eq List.length_set.symm
      · exact Nat.le_refl _
    · exact Nat.le_refl _
  | close => exact Nat.le_refl _

/-- Whatever happens at a detector, its pings stay apart as long as numbers are left. -/
theorem Sound.step (h : w.Sound start) (o : Occasion)
    (hfew : (w.step o).pings.length ≤ UInt64.size) : (w.step o).Sound start := by
  have hle := w.length_step o
  cases o with
  | ping target goesOut =>
    refine h.ping ?_ target goesOut
    simp only [Watch.step, List.length_append, List.length_map, List.length_singleton] at hfew
    omega
  | datagram g => exact h.datagram g
  | finish i => exact h.finish (Nat.le_trans hle hfew) i
  | close => exact ⟨h.next, h.seq, h.pending, h.judged⟩

/-! ### What stays of a ping -/

/-- Pings keep their places, their targets and their outcomes. -/
theorem exists_later (hi : w.pings[i]? = some p) (o : Occasion) :
    ∃ q, (w.step o).pings[i]? = some q ∧ q.target = p.target ∧
      ∀ success, p.outcome? = some success → q.outcome? = some success := by
  cases o with
  | ping target goesOut =>
    have hlt := (List.getElem?_eq_some_iff.mp hi).1
    refine ⟨p.displace w.detector.nextSeq, ?_, ?_, fun success hended => ?_⟩
    · simp only [step]
      rw [List.getElem?_append_left (by rwa [List.length_map]), List.getElem?_map, hi]
      rfl
    · unfold Ping.displace
      split <;> rfl
    · rw [Ping.outcome?_eq_some_iff] at hended
      have hended' : p.stage ≠ .waiting := by
        rw [hended]
        rintro ⟨⟩
      rw [Ping.displace, if_neg fun hp => hended' hp.1, Ping.outcome?_eq_some_iff, hended]
  | datagram g =>
    refine ⟨p.hear g (w.detector.receive g).2, ?_, ?_, fun success hended => ?_⟩
    · simp only [step, List.getElem?_map, hi, Option.map_some]
    · unfold Ping.hear
      split <;> rfl
    · rw [Ping.outcome?_eq_some_iff] at hended ⊢
      rw [Ping.stage_hear, hended, if_neg (by rintro ⟨⟨⟩, -⟩)]
  | finish j =>
    simp only [step]
    split
    case h_2 => exact ⟨p, hi, rfl, fun _ => id⟩
    case h_1 q hj =>
      split
      case isFalse => exact ⟨p, hi, rfl, fun _ => id⟩
      case isTrue hout =>
        by_cases hij : j = i
        · subst hij
          obtain rfl : p = q := Option.some.inj (hi.symm.trans hj)
          refine ⟨p.finish, ?_, ?_, fun success hended => ?_⟩
          · exact List.getElem?_set_self (List.getElem?_eq_some_iff.mp hi).1
          · unfold Ping.finish
            split <;> rfl
          · rw [Ping.outstanding_iff.mp hout] at hended
            cases hended
        · exact ⟨p, by rw [List.getElem?_set_ne hij, hi], rfl, fun _ => id⟩
  | close => exact ⟨p, hi, rfl, fun _ => id⟩

/-- A datagram is what the ping at a place has waited for. -/
def Completes (w : Watch) (g : Datagram) (i : Nat) : Prop :=
  ∃ p, w.pings[i]? = some p ∧ p.stage = .waiting ∧
    (p.hear g (w.detector.receive g).2).stage = .acknowledged

theorem Completes.seq_eq (h : w.Completes g i) (hi : w.pings[i]? = some p) : p.seq = g.seq := by
  obtain ⟨q, hq, hwaiting, hstage⟩ := h
  obtain rfl : p = q := Option.some.inj (hi.symm.trans hq)
  rw [Ping.stage_hear] at hstage
  split at hstage
  · rename_i hhit
    exact (receive_eq_acknowledged_iff.mp hhit.2).2.1.symm
  · rw [hwaiting] at hstage
    cases hstage

theorem Sound.completes_unique (h : w.Sound start) (hfew : w.pings.length ≤ UInt64.size)
    (hi : w.Completes g i) (hj : w.Completes g j) : i = j := by
  obtain ⟨p, hp, -⟩ := id hi
  obtain ⟨q, hq, -⟩ := id hj
  exact h.index_eq hfew hp hq ((hi.seq_eq hp).trans (hj.seq_eq hq).symm)

end Watch

end ReplicaRing.Detector
