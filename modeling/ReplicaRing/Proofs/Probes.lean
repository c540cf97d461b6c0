import ReplicaRing.Proofs.Overlaps
import ReplicaRing.Proofs.Session.Standing

/-!
# Probes that overlap

A probe pings each of its targets at once, collects the outcomes as they come, and lists the targets
of those that failed. Its pings are its own, whatever other pings and probes are under way, so that
its suspects depend on nothing else.
-/
namespace ReplicaRing

namespace Detector

/-- One target of a probe. -/
structure Task where
  target : Member
  /-- The place of its ping, once that has begun. -/
  ping : Option Nat := none
  /-- Whether the probe has seen the outcome. -/
  seen : Bool := false
deriving DecidableEq, Repr

/-- A probe that has begun. -/
structure Probe where
  targets : List Member
  tasks : List Task
  suspects : List Member := []
deriving DecidableEq, Repr

namespace Probe

def start (targets : List Member) : Probe :=
  { targets, tasks := targets.map fun target => { target } }

/-- The ping of a task begins, at place `i`. -/
def launch (k : Nat) (t : Task) (i : Nat) (r : Probe) : Probe :=
  { r with tasks := r.tasks.set k { t with ping := some i } }

/-- The probe sees the outcome of a task. -/
def collect (k : Nat) (t : Task) (success : Bool) (r : Probe) : Probe :=
  { r with
    tasks := r.tasks.set k { t with seen := true }
    suspects := if success then r.suspects else r.suspects ++ [t.target] }

/-- A probe returns its suspects as soon as it has seen all outcomes. -/
def done (r : Probe) : Bool := r.tasks.all (·.seen)

end Probe

/-- What the ping of a task returned, once it has ended. -/
def Watch.outcome? (w : Watch) (t : Task) : Option Bool :=
  (t.ping.bind (w.pings[·]?)).bind Ping.outcome?

/-- A detector, its pings and its probes, oldest first. -/
structure Lookout where
  watch : Watch
  probes : List Probe := []
deriving DecidableEq, Repr

/-- What happens at a detector that probes. -/
inductive Turn
  | occasion (o : Occasion)
  | probe (targets : List Member)
  /-- The ping of a task begins, in any order among the tasks. -/
  | launch (probe task : Nat) (goesOut : Bool)
  /-- A probe sees the outcome of a task, in any order among those that have ended. -/
  | collect (probe task : Nat)
deriving DecidableEq, Repr

namespace Lookout

def task? (l : Lookout) (j k : Nat) : Option Task := l.probes[j]?.bind (·.tasks[k]?)

def step (l : Lookout) : Turn → Lookout
  | .occasion o => { l with watch := l.watch.step o }
  | .probe targets => { l with probes := l.probes ++ [.start targets] }
  | .launch j k goesOut =>
    match l.task? j k with
    | some t =>
      if t.ping.isNone then
        ⟨l.watch.step (.ping t.target goesOut),
          l.probes.modify j (·.launch k t l.watch.pings.length)⟩
      else l
    | none => l
  | .collect j k =>
    match l.task? j k with
    | some t =>
      match t.seen, l.watch.outcome? t with
      | false, some success => { l with probes := l.probes.modify j (·.collect k t success) }
      | _, _ => l
    | none => l

def run (l : Lookout) (turns : List Turn) : Lookout := turns.foldl step l

@[simp] theorem run_nil (l : Lookout) : l.run [] = l := rfl

@[simp] theorem run_cons (l : Lookout) (turn : Turn) (turns : List Turn) :
    l.run (turn :: turns) = (l.step turn).run turns := rfl

end Lookout

/-! ### The suspects of a probe -/

variable {d : Detector} {w : Watch} {i j k : Nat} {p : Ping} {t : Task} {r : Probe} {l : Lookout}
  {success : Bool}

theorem Watch.outcome?_step (h : w.outcome? t = some success) (o : Occasion) :
    (w.step o).outcome? t = some success := by
  unfold Watch.outcome? at h ⊢
  obtain ⟨p, hp, hended⟩ := Option.bind_eq_some_iff.mp h
  obtain ⟨i, ht, hi⟩ := Option.bind_eq_some_iff.mp hp
  obtain ⟨q, hq, -, hkept⟩ := Watch.exists_later hi o
  rw [ht, Option.bind_some, hq, Option.bind_some, hkept success hended]

namespace Probe

/-- The tasks that failed, of those that the probe has seen. -/
def failed (w : Watch) (r : Probe) : List Task :=
  r.tasks.filter fun t => t.seen && w.outcome? t == some false

/-- Each task pings its own target, and the suspects are those of the failed tasks. -/
structure Sound (w : Watch) (r : Probe) : Prop where
  targets : r.tasks.map Task.target = r.targets
  aimed : ∀ t ∈ r.tasks, ∀ i, t.ping = some i → ∃ p, w.pings[i]? = some p ∧ p.target = t.target
  seen : ∀ t ∈ r.tasks, t.seen = true → ∃ success, w.outcome? t = some success
  suspects : r.suspects.Perm ((r.failed w).map Task.target)

theorem Sound.start (w : Watch) (targets : List Member) : (Probe.start targets).Sound w where
  targets := by simp [Probe.start, Function.comp_def]
  aimed := by simp [Probe.start]
  seen := by simp [Probe.start]
  suspects := by simp [Probe.start, failed]

/-- What a probe has seen stays. -/
theorem Sound.step (h : r.Sound w) (o : Occasion) : r.Sound (w.step o) where
  targets := h.targets
  aimed t ht i hi := by
    obtain ⟨p, hp, htarget⟩ := h.aimed t ht i hi
    obtain ⟨q, hq, hsame, -⟩ := Watch.exists_later hp o
    exact ⟨q, hq, hsame.trans htarget⟩
  seen t ht hseen := (h.seen t ht hseen).imp fun _ hended => Watch.outcome?_step hended o
  suspects := by
    have hfailed : r.failed (w.step o) = r.failed w := by
      refine List.filter_congr fun t ht => ?_
      cases hseen : t.seen with
      | false => rfl
      | true =>
        obtain ⟨success, hended⟩ := h.seen t ht hseen
        rw [hended, Watch.outcome?_step hended]
    rw [hfailed]
    exact h.suspects

theorem Sound.launch (h : r.Sound w) (hk : r.tasks[k]? = some t) (hidle : t.ping = none)
    (hi : w.pings[i]? = some p) (htarget : p.target = t.target) : (r.launch k t i).Sound w := by
  obtain ⟨hlt, rfl⟩ := List.getElem?_eq_some_iff.mp hk
  obtain ⟨before, after, htasks, -, hset⟩ :=
    @List.exists_of_set _ k { r.tasks[k] with ping := some i } _ hlt
  generalize r.tasks[k] = t at *
  obtain ⟨htargets, haimed, hseen, hsuspects⟩ := h
  have hunseen : t.seen = false := by
    refine Bool.eq_false_iff.mpr fun ht => ?_
    obtain ⟨success, hended⟩ := hseen t (List.mem_of_getElem? hk) ht
    rw [Watch.outcome?, hidle] at hended
    cases hended
  simp only [failed, htasks, List.forall_mem_append, List.forall_mem_cons, List.map_append,
    List.map_cons, List.filter_append, List.filter_cons, hunseen, Bool.false_and,
    Bool.false_eq_true, if_false] at htargets haimed hseen hsuspects
  constructor
  · simp only [Probe.launch, hset, List.map_append, List.map_cons, htargets]
  · simp only [Probe.launch, hset, List.forall_mem_append, List.forall_mem_cons]
    refine ⟨haimed.1, fun j hj => ?_, haimed.2.2⟩
    cases hj
    exact ⟨p, hi, htarget⟩
  · simp only [Probe.launch, hset, List.forall_mem_append, List.forall_mem_cons]
    exact ⟨hseen.1, fun ht => absurd ht (by rw [hunseen]; exact nofun), hseen.2.2⟩
  · simp only [Probe.launch, failed, hset, List.filter_append, List.filter_cons, List.map_append]
    simpa only [hunseen, Bool.false_and, Bool.false_eq_true, if_false] using hsuspects

theorem Sound.collect (h : r.Sound w) (hk : r.tasks[k]? = some t) (hunseen : t.seen = false)
    (hended : w.outcome? t = some success) : (r.collect k t success).Sound w := by
  obtain ⟨hlt, rfl⟩ := List.getElem?_eq_some_iff.mp hk
  obtain ⟨before, after, htasks, -, hset⟩ :=
    @List.exists_of_set _ k { r.tasks[k] with seen := true } _ hlt
  generalize r.tasks[k] = t at *
  obtain ⟨htargets, haimed, hseen, hsuspects⟩ := h
  have hnow : w.outcome? { t with seen := true } = some success := hended
  simp only [failed, htasks, List.forall_mem_append, List.forall_mem_cons, List.map_append,
    List.map_cons, List.filter_append, List.filter_cons, hunseen, Bool.false_and,
    Bool.false_eq_true, if_false] at htargets haimed hseen hsuspects
  constructor
  · simp only [Probe.collect, hset, List.map_append, List.map_cons, htargets]
  · simp only [Probe.collect, hset, List.forall_mem_append, List.forall_mem_cons]
    exact haimed
  · simp only [Probe.collect, hset, List.forall_mem_append, List.forall_mem_cons]
    exact ⟨hseen.1, fun _ => ⟨success, hnow⟩, hseen.2.2⟩
  · simp only [Probe.collect, failed, hset, List.filter_append, List.filter_cons, hnow,
      Bool.true_and, List.map_append]
    cases success with
    | true => simpa using hsuspects
    | false =>
      simp only [beq_self_eq_true, if_true, Bool.false_eq_true, if_false, List.map_cons]
      exact (List.perm_append_singleton _ _).trans
        ((hsuspects.cons _).trans List.perm_middle.symm)

end Probe

/-! ### The pings of the tasks -/

namespace Lookout

/-- The place of the ping of a task. -/
def pingOf? (l : Lookout) (j k : Nat) : Option Nat := (l.task? j k).bind Task.ping

theorem task_of_task? (h : l.task? j k = some t) (hr : l.probes[j]? = some r) :
    r.tasks[k]? = some t := by
  rwa [task?, hr] at h

theorem task?_modify (w : Watch) (f : Probe → Probe) (u : Task)
    (hf : ∀ r, (f r).tasks = r.tasks.set k u) (h : l.task? j k = some t) (j' k' : Nat) :
    task? ⟨w, l.probes.modify j f⟩ j' k' =
      if j = j' ∧ k = k' then some u else l.task? j' k' := by
  obtain ⟨r, hj, hk⟩ := Option.bind_eq_some_iff.mp h
  simp only [task?, List.getElem?_modify]
  by_cases hjj : j = j'
  · subst hjj
    simp only [hj, if_true, Option.map_eq_map, Option.map_some, Option.bind_some, hf,
      List.getElem?_set, true_and]
    by_cases hkk : k = k'
    · subst hkk
      rw [if_pos rfl, if_pos rfl, if_pos (List.getElem?_eq_some_iff.mp hk).1]
    · rw [if_neg hkk, if_neg hkk]
  · simp [hjj]

theorem pingOf?_launch (w : Watch) (i : Nat) (h : l.task? j k = some t) (j' k' : Nat) :
    pingOf? ⟨w, l.probes.modify j (·.launch k t i)⟩ j' k' =
      if j = j' ∧ k = k' then some i else l.pingOf? j' k' := by
  rw [pingOf?, task?_modify w (·.launch k t i) { t with ping := some i } (fun _ => rfl) h]
  split <;> rfl

theorem pingOf?_collect (w : Watch) (success : Bool) (h : l.task? j k = some t) (j' k' : Nat) :
    pingOf? ⟨w, l.probes.modify j (·.collect k t success)⟩ j' k' = l.pingOf? j' k' := by
  rw [pingOf?, task?_modify w (·.collect k t success) { t with seen := true } (fun _ => rfl) h]
  split
  · rename_i hhere
    rw [pingOf?, ← hhere.1, ← hhere.2, h]
    rfl
  · rfl

/-- The pings are sound, the probes are, and no two tasks have a ping in common. -/
structure Sound (start : UInt64) (l : Lookout) : Prop where
  watch : l.watch.Sound start
  probes : ∀ r ∈ l.probes, r.Sound l.watch
  own : ∀ j k j' k' i, l.pingOf? j k = some i → l.pingOf? j' k' = some i → j = j' ∧ k = k'

variable {start : UInt64}

theorem Sound.fresh (hd : d.pending = ∅) : (Lookout.mk ⟨d, []⟩ []).Sound d.nextSeq where
  watch := .fresh hd
  probes := nofun
  own := by simp [pingOf?, task?]

/-- The ping of a task has begun. -/
theorem Sound.begun (h : l.Sound start) (hping : l.pingOf? j k = some i) :
    i < l.watch.pings.length := by
  obtain ⟨t, ht, hi⟩ := Option.bind_eq_some_iff.mp hping
  obtain ⟨r, hr, hk⟩ := Option.bind_eq_some_iff.mp ht
  obtain ⟨p, hp, -⟩ := (h.probes r (List.mem_of_getElem? hr)).aimed t (List.mem_of_getElem? hk) i hi
  exact (List.getElem?_eq_some_iff.mp hp).1

theorem forall_mem_modify {α : Type} {xs : List α} {f : α → α} {P : α → Prop}
    (h : ∀ x ∈ xs, P x) (hf : ∀ x, xs[j]? = some x → P (f x)) : ∀ x ∈ xs.modify j f, P x := by
  intro x hx
  obtain ⟨m, hm⟩ := List.mem_iff_getElem?.mp hx
  rw [List.getElem?_modify] at hm
  obtain ⟨y, hy, heq⟩ := Option.map_eq_some_iff.mp hm
  split at heq
  · rename_i hjm
    exact heq ▸ hf y (hjm ▸ hy)
  · exact heq ▸ h y (List.mem_of_getElem? hy)

theorem Sound.occasion (h : l.Sound start) (o : Occasion)
    (hfew : (l.watch.step o).pings.length ≤ UInt64.size) :
    (l.step (.occasion o)).Sound start where
  watch := h.watch.step o hfew
  probes r hr := (h.probes r hr).step o
  own := h.own

theorem Sound.probe (h : l.Sound start) (targets : List Member) :
    (l.step (.probe targets)).Sound start where
  watch := h.watch
  probes := by
    simp only [step, List.forall_mem_append, List.forall_mem_singleton]
    exact ⟨h.probes, .start _ _⟩
  own := by
    have hold {j k i : Nat} (hping : (l.step (.probe targets)).pingOf? j k = some i) :
        l.pingOf? j k = some i := by
      obtain ⟨t, ht, hi⟩ := Option.bind_eq_some_iff.mp hping
      obtain ⟨r, hr, hk⟩ := Option.bind_eq_some_iff.mp ht
      simp only [step, List.getElem?_append] at hr
      split at hr
      · rw [pingOf?, task?, hr, Option.bind_some, hk, Option.bind_some, hi]
      · obtain rfl := List.mem_singleton.mp (List.mem_of_getElem? hr)
        obtain ⟨target, -, rfl⟩ := List.mem_map.mp (List.mem_of_getElem? hk)
        cases hi
    exact fun j k j' k' i hj hj' => h.own j k j' k' i (hold hj) (hold hj')

theorem Sound.launch (h : l.Sound start) (ht : l.task? j k = some t) (hidle : t.ping = none)
    (goesOut : Bool) (hfew : l.watch.pings.length < UInt64.size) :
    (Lookout.mk (l.watch.step (.ping t.target goesOut))
      (l.probes.modify j (·.launch k t l.watch.pings.length))).Sound start where
  watch := h.watch.ping hfew t.target goesOut
  probes := by
    have hold (r : Probe) (hr : r ∈ l.probes) := (h.probes r hr).step (.ping t.target goesOut)
    refine forall_mem_modify hold fun r hr => ?_
    obtain ⟨p, hp, htarget⟩ : ∃ p, (l.watch.step (.ping t.target goesOut)).pings[
        l.watch.pings.length]? = some p ∧ p.target = t.target := by
      rw [h.watch.step_ping hfew, List.getElem?_concat_length]
      exact ⟨_, rfl, rfl⟩
    exact (hold r (List.mem_of_getElem? hr)).launch (task_of_task? ht hr) hidle hp htarget
  own := by
    intro j₁ k₁ j₂ k₂ i h₁ h₂
    have hlt {j' k' i : Nat} (hping : l.pingOf? j' k' = some i) :
        i ≠ l.watch.pings.length := Nat.ne_of_lt (h.begun hping)
    rw [pingOf?_launch _ _ ht] at h₁ h₂
    split at h₁ <;> split at h₂
    case isTrue.isTrue hhere hthere =>
      exact ⟨hhere.1.symm.trans hthere.1, hhere.2.symm.trans hthere.2⟩
    case isTrue.isFalse => exact absurd (Option.some.inj h₁).symm (hlt h₂)
    case isFalse.isTrue => exact absurd (Option.some.inj h₂).symm (hlt h₁)
    case isFalse.isFalse => exact h.own _ _ _ _ _ h₁ h₂

theorem Sound.collect (h : l.Sound start) (ht : l.task? j k = some t) (hunseen : t.seen = false)
    (hended : l.watch.outcome? t = some success) :
    (Lookout.mk l.watch (l.probes.modify j (·.collect k t success))).Sound start where
  watch := h.watch
  probes := by
    refine forall_mem_modify h.probes fun r hr => ?_
    exact (h.probes r (List.mem_of_getElem? hr)).collect (task_of_task? ht hr) hunseen hended
  own := by
    intro j₁ k₁ j₂ k₂ i h₁ h₂
    rw [pingOf?_collect _ _ ht] at h₁ h₂
    exact h.own _ _ _ _ _ h₁ h₂

theorem length_step (l : Lookout) (turn : Turn) :
    l.watch.pings.length ≤ (l.step turn).watch.pings.length := by
  unfold step
  split
  · exact l.watch.length_step _
  · exact Nat.le_refl _
  · split
    · split
      · exact l.watch.length_step _
      · exact Nat.le_refl _
    · exact Nat.le_refl _
  · split
    · split <;> exact Nat.le_refl _
    · exact Nat.le_refl _

/-- Whatever happens at a detector, its probes stay apart as long as numbers are left. -/
theorem Sound.step (h : l.Sound start) (turn : Turn)
    (hfew : (l.step turn).watch.pings.length ≤ UInt64.size) : (l.step turn).Sound start := by
  cases turn with
  | occasion o => exact h.occasion o hfew
  | probe targets => exact h.probe targets
  | launch j k goesOut =>
    simp only [Lookout.step] at hfew ⊢
    split
    case h_2 => exact h
    case h_1 t ht =>
      simp only [ht] at hfew
      split
      case isFalse => exact h
      case isTrue hidle =>
        rw [if_pos hidle] at hfew
        refine h.launch ht (Option.isNone_iff_eq_none.mp hidle) goesOut ?_
        simp only [Watch.step, List.length_append, List.length_map, List.length_singleton] at hfew
        omega
  | collect j k =>
    simp only [Lookout.step]
    split
    case h_2 => exact h
    case h_1 t ht =>
      split
      case h_2 => exact h
      case h_1 hunseen hended => exact h.collect ht hunseen hended

theorem length_run (turns : List Turn) :
    ∀ l : Lookout, l.watch.pings.length ≤ (l.run turns).watch.pings.length := by
  induction turns with
  | nil => exact fun l => Nat.le_refl _
  | cons turn turns ih => exact fun l => Nat.le_trans (l.length_step turn) (ih _)

theorem Sound.run (turns : List Turn) :
    ∀ {l : Lookout}, l.Sound start → (l.run turns).watch.pings.length ≤ UInt64.size →
      (l.run turns).Sound start := by
  induction turns with
  | nil => exact fun h _ => h
  | cons turn turns ih =>
    exact fun h hfew => ih (h.step turn (Nat.le_trans (length_run turns _) hfew)) hfew

/-- A probe that is done has seen every task, and its suspects are those of the failed ones. -/
theorem Sound.returned (h : l.Sound start) (hr : r ∈ l.probes) (hdone : r.done = true) :
    r.tasks.map Task.target = r.targets ∧
    (∀ t ∈ r.tasks, ∃ i p success, t.ping = some i ∧ l.watch.pings[i]? = some p ∧
      p.target = t.target ∧ p.outcome? = some success) ∧
    r.suspects.Perm ((r.tasks.filter (l.watch.outcome? · == some false)).map Task.target) := by
  obtain ⟨htargets, haimed, hseen, hsuspects⟩ := h.probes r hr
  have hall : ∀ t ∈ r.tasks, t.seen = true := List.all_eq_true.mp hdone
  refine ⟨htargets, fun t ht => ?_, ?_⟩
  · obtain ⟨success, hended⟩ := hseen t ht (hall t ht)
    obtain ⟨p, hp, hreturned⟩ := Option.bind_eq_some_iff.mp hended
    obtain ⟨i, hi, hplace⟩ := Option.bind_eq_some_iff.mp hp
    obtain ⟨q, hq, htarget⟩ := haimed t ht i hi
    obtain rfl : p = q := Option.some.inj (hplace.symm.trans hq)
    exact ⟨i, p, success, hi, hplace, htarget, hreturned⟩
  · have hfailed :
        r.failed l.watch = r.tasks.filter (l.watch.outcome? · == some false) := by
      refine List.filter_congr fun t ht => ?_
      rw [hall t ht, Bool.true_and]
    rw [← hfailed]
    exact hsuspects

end Lookout

/-- **Acknowledgments never cross.** A detector starts with no ping. However many pings and probes
are under way at once, in whatever order they begin and end and whatever datagrams arrive, as long
as fewer than `2 ^ 64` pings have begun: their numbers differ, and those that wait for an
acknowledgment are the ones pending. A ping returns `true` just if it went out and an
acknowledgment under its number came while it was outstanding, and a datagram completes one ping at
most. A probe has a ping of its own for each of its targets, and returns, in some order, the targets
of those pings that returned `false`. -/
theorem acks_never_cross (d : Detector) (hd : d.pending = ∅) (turns : List Turn)
    (hfew : ((Lookout.mk ⟨d, []⟩ []).run turns).watch.pings.length < UInt64.size) :
    let l := (Lookout.mk ⟨d, []⟩ []).run turns
    (l.watch.pings.map Ping.seq).Nodup ∧
    (∀ seq, seq ∈ l.watch.detector.pending ↔
      ∃ p ∈ l.watch.pings, p.outstanding = true ∧ ¬ p.Answered ∧ p.seq = seq) ∧
    (∀ p ∈ l.watch.pings, ∀ success, p.outcome? = some success →
      (success = true ↔ p.sent = true ∧ p.Answered)) ∧
    (∀ g i j, l.watch.Completes g i → l.watch.Completes g j → i = j) ∧
    (∀ j k j' k' i, l.pingOf? j k = some i → l.pingOf? j' k' = some i → j = j' ∧ k = k') ∧
    ∀ r ∈ l.probes, r.done = true →
      r.tasks.map Task.target = r.targets ∧
      (∀ t ∈ r.tasks, ∃ i p success, t.ping = some i ∧ l.watch.pings[i]? = some p ∧
        p.target = t.target ∧ p.outcome? = some success) ∧
      r.suspects.Perm ((r.tasks.filter (l.watch.outcome? · == some false)).map Task.target) := by
  intro l
  have hsize : l.watch.pings.length ≤ UInt64.size := Nat.le_of_lt hfew
  have h : l.Sound d.nextSeq := (Lookout.Sound.fresh hd).run turns hsize
  refine ⟨h.watch.nodup_seqs hsize, fun seq => ?_, fun p hp success hended => ?_,
    fun g i j => h.watch.completes_unique hsize, h.own, fun r => h.returned⟩
  · simp only [h.watch.pending]
    constructor
    · rintro ⟨p, hp, hwaiting, hseq⟩
      obtain ⟨hout, hunanswered⟩ := (h.watch.judged p hp).waiting_iff.mp hwaiting
      exact ⟨p, hp, hout, hunanswered, hseq⟩
    · rintro ⟨p, hp, hout, hunanswered, hseq⟩
      exact ⟨p, hp, (h.watch.judged p hp).waiting_iff.mpr ⟨hout, hunanswered⟩, hseq⟩
  · have hjudged := h.watch.judged p hp
    rw [Ping.Judged, Ping.outcome?_eq_some_iff.mp hended] at hjudged
    exact hjudged

/-- Three pings of one probe are under way at once, two of them to one member, beside a ping of
somebody else. The acknowledgments come late, twice, out of turn and under a number nobody has, and
one of the two pings to that member fails. -/
theorem acks_apart_among_four :
    let d : Detector := { owner := ⟨"127.0.0.2", 9000, 1⟩ }
    let a : Member := ⟨"127.0.0.3", 9000, 1⟩
    let b : Member := ⟨"127.0.0.4", 9000, 1⟩
    let ack (seq : UInt64) (m : Member) : Turn := .occasion (.datagram ⟨seq, ⟨.ack, m⟩⟩)
    let turns : List Turn :=
      [.probe [a, b, a], .launch 0 1 true, .launch 0 0 true, .occasion (.ping b true), ack 9 a,
        .launch 0 2 true, ack 4 a, ack 1 b, ack 4 a, .occasion (.finish 1), ack 2 a,
        .occasion (.finish 3), .collect 0 2, .occasion (.finish 0), .collect 0 0, .collect 0 1]
    let l := (Lookout.mk ⟨d, []⟩ []).run turns
    l.watch.pings.map Ping.outcome? = [some true, some false, none, some true] ∧
    (l.watch.pings.map Ping.seq).Nodup ∧ (3 : UInt64) ∈ l.watch.detector.pending ∧
    ∃ r ∈ l.probes, r.done = true ∧ r.tasks.map Task.target = [a, b, a] ∧
      r.suspects.Perm [a] := by
  intro d a b ack turns
  have hfew : ((Lookout.mk ⟨d, []⟩ []).run turns).watch.pings.length < UInt64.size := by
    decide +kernel
  have h := acks_never_cross d rfl turns hfew
  generalize hl : (Lookout.mk ⟨d, []⟩ []).run turns = l at h
  have hpings : l.watch.pings.map Ping.outcome? = [some true, some false, none, some true] := by
    rw [← hl]
    decide +kernel
  have hwaiting : (l.watch.pings.map fun p => (p.outstanding, p.heard.map (·.seq), p.seq))[2]? =
      some (true, [9, 4, 1, 4, 2], 3) := by
    rw [← hl]
    decide +kernel
  have hprobe : (l.probes.map fun r => (r.done, r.targets,
      (r.tasks.filter (l.watch.outcome? · == some false)).map Task.target)) =
      [(true, [a, b, a], [a])] := by
    rw [← hl]
    decide +kernel
  obtain ⟨hnodup, hpending, -, -, -, hprobes⟩ := h
  refine ⟨hpings, hnodup, (hpending 3).mpr ?_, ?_⟩
  · rw [List.getElem?_map] at hwaiting
    obtain ⟨p, hp, heq⟩ := Option.map_eq_some_iff.mp hwaiting
    simp only [Prod.mk.injEq] at heq
    obtain ⟨hout, hheard, hseq⟩ := heq
    refine ⟨p, List.mem_of_getElem? hp, hout, ?_, hseq⟩
    rintro ⟨subject, hmem⟩
    have hnumber : p.seq ∈ p.heard.map (·.seq) := List.mem_map_of_mem (f := (·.seq)) hmem
    rw [hheard, hseq] at hnumber
    exact absurd hnumber (by decide)
  · obtain ⟨r, hr, heq⟩ := List.mem_map.mp (hprobe ▸ List.mem_singleton_self _)
    simp only [Prod.mk.injEq] at heq
    obtain ⟨hdone, htargets, hfailed⟩ := heq
    obtain ⟨hsame, -, hsuspects⟩ := hprobes r hr hdone
    exact ⟨r, hr, hdone, hsame.trans htargets, hfailed ▸ hsuspects⟩

/-! ### The probes of a group are such probes -/

/-- An occasion at a watch with so many older pings. -/
def Occasion.behind (n : Nat) : Occasion → Occasion
  | .finish i => .finish (n + i)
  | o => o

namespace Watch

variable {old new : List Ping}

/-- Pings that have ended are in nobody's way. -/
theorem step_behind (hold : ∀ p ∈ old, p.outstanding = false) (o : Occasion) :
    (Watch.mk d (old ++ new)).step (o.behind old.length) =
      ⟨((Watch.mk d new).step o).detector, old ++ ((Watch.mk d new).step o).pings⟩ := by
  cases o with
  | ping target goesOut =>
    have hkept : old.map (·.displace d.nextSeq) = old := by
      refine (List.map_congr_left fun p hp => ?_).trans (List.map_id _)
      refine if_neg fun hwaiting => ?_
      have hended := hold p hp
      rw [Ping.outstanding, hwaiting.1] at hended
      cases hended
    simp only [Occasion.behind, step, beginPing, List.map_append, hkept, List.append_assoc]
  | datagram g =>
    have hkept : old.map (·.hear g (d.receive g).2) = old := by
      refine (List.map_congr_left fun p hp => ?_).trans (List.map_id _)
      exact if_neg (by rw [hold p hp]; rintro ⟨⟩)
    simp only [Occasion.behind, step, List.map_append, hkept]
  | finish i =>
    simp only [Occasion.behind, step, List.getElem?_append_right (Nat.le_add_right _ i),
      Nat.add_sub_cancel_left]
    cases new[i]? with
    | none => rfl
    | some p =>
      dsimp only
      split
      · rw [List.set_append_right _ _ (Nat.le_add_right _ i), Nat.add_sub_cancel_left]
      · rfl
  | close => rfl

theorem run_behind (hold : ∀ p ∈ old, p.outstanding = false) (os : List Occasion) :
    ∀ (d : Detector) (new : List Ping),
      (Watch.mk d (old ++ new)).run (os.map (·.behind old.length)) =
        ⟨((Watch.mk d new).run os).detector, old ++ ((Watch.mk d new).run os).pings⟩ := by
  induction os with
  | nil => exact fun _ _ => rfl
  | cons o os ih =>
    intro d new
    rw [List.map_cons, run_cons, run_cons, step_behind hold, ih]

theorem run_ping_behind (hold : ∀ p ∈ old, p.outstanding = false) (target : Member)
    (replies : List Datagram) :
    (Watch.mk d old).run (.ping target true :: (replies.map .datagram ++ [.finish old.length])) =
      ⟨(d.beginPing.1.hear d.nextSeq replies).1.endPing d.nextSeq,
        old ++ [⟨target, d.nextSeq, d.isOpen,
          .ended (d.isOpen && (d.beginPing.1.hear d.nextSeq replies).2), replies⟩]⟩ := by
  have h := run_behind hold (.ping target true :: replies.map .datagram ++ [.finish 0]) d []
  rw [hear_eq_run] at h
  simpa [Occasion.behind, Function.comp_def] using h

end Watch

namespace Lookout

theorem run_append (l : Lookout) (turns more : List Turn) :
    l.run (turns ++ more) = (l.run turns).run more :=
  List.foldl_append

theorem run_occasions (os : List Occasion) :
    ∀ l : Lookout, l.run (os.map .occasion) = { l with watch := l.watch.run os } := by
  induction os with
  | nil => exact fun _ => rfl
  | cons o os ih =>
    intro l
    rw [List.map_cons, run_cons, ih]
    rfl

/-- A target of a probe is pinged when all pings before have ended, and its outcome is seen. -/
theorem exists_run_task {old : List Ping} (hold : ∀ p ∈ old, p.outstanding = false)
    (targets suspects : List Member) (before after : List Task) (target : Member)
    (replies : List Datagram) :
    let success := d.isOpen && (d.beginPing.1.hear d.nextSeq replies).2
    ∃ turns, (Lookout.mk ⟨d, old⟩ [⟨targets, before ++ { target } :: after, suspects⟩]).run turns =
      ⟨⟨(d.beginPing.1.hear d.nextSeq replies).1.endPing d.nextSeq,
          old ++ [⟨target, d.nextSeq, d.isOpen, .ended success, replies⟩]⟩,
        [⟨targets, before ++ [⟨target, some old.length, true⟩] ++ after,
          if success then suspects else suspects ++ [target]⟩]⟩ := by
  intro success
  have hlaunch : (Lookout.mk ⟨d, old⟩ [⟨targets, before ++ { target } :: after, suspects⟩]).step
        (.launch 0 before.length true) =
      ⟨(Watch.mk d old).step (.ping target true),
        [⟨targets, before ++ ⟨target, some old.length, false⟩ :: after, suspects⟩]⟩ := by
    simp [step, task?, Probe.launch]
  have hwatch := Watch.run_ping_behind (d := d) hold target replies
  rw [Watch.run_cons] at hwatch
  refine ⟨.launch 0 before.length true ::
    ((replies.map Occasion.datagram ++ [Occasion.finish old.length]).map Turn.occasion ++
      [.collect 0 before.length]), ?_⟩
  rw [run_cons, hlaunch, run_append, run_occasions, hwatch, run_cons, run_nil]
  simp [step, task?, Watch.outcome?, Ping.outcome?, Probe.collect, success]

end Lookout

end Detector

namespace Cluster

variable {c : Cluster} {seat : Seat}

/-- A seat has a detector of its own. -/
def Detects (c : Cluster) : Seat → Prop
  | .participant name => ((session? name c).1).isSome
  | _ => True

def detectorAt (c : Cluster) (seat : Seat) : Detector := (detectorOf seat c).1

theorem detectorOf_run (seat : Seat) (c : Cluster) :
    (detectorOf seat).run c = (c.detectorAt seat, c) := by
  cases seat <;> rfl

/-- Looking for replies changes nothing. -/
theorem pingReplies_run (e : Endpoint) (g : Datagram) (c : Cluster) :
    ((pingReplies e g).run c).2 = c := by
  rw [pingReplies, run_bind, seatAt?_run]
  split
  · rfl
  · rfl
  · rename_i i _ _
    change ((peer? i >>= _).run c).2 = c
    rw [run_bind]
    split <;> rfl
  · rw [run_bind, detectorOf_run]
    rfl

theorem detectorAt_setDetector (h : c.Detects seat) (d : Detector) :
    ((setDetector seat d).run c).2.detectorAt seat = d ∧
      ((setDetector seat d).run c).2.Detects seat := by
  cases seat with
  | participant name =>
    obtain ⟨s, hs⟩ := Option.isSome_iff_exists.mp h
    have hset : (session? name ((setDetector (.participant name) d).run c).2).1 =
        some { s with detector := d } := by
      change (((setDetector (.participant name) d).run c).2.participants.lookup name).bind
        (·.session) = _
      change (c.participants.lookup name).bind (·.session) = some s at hs
      obtain ⟨p, hp, hsession⟩ := Option.bind_eq_some_iff.mp hs
      rw [setDetector, updateSession, lookup_updateParticipant, hp, Option.map_some, if_pos rfl,
        Option.bind_some, hsession]
      rfl
    constructor
    · change ((session? name ((setDetector (.participant name) d).run c).2).1.map _).getD _ = d
      rw [hset]
      rfl
    · change ((session? name ((setDetector (.participant name) d).run c).2).1).isSome
      rw [hset]
      rfl
  | peer i => exact ⟨rfl, trivial⟩
  | former i => exact ⟨rfl, trivial⟩

/-- What a seat makes of the replies to its ping. -/
theorem exists_ping_run (seat : Seat) (target : Member) (c : Cluster) :
    ∃ replies, let heard :=
        (c.detectorAt seat).beginPing.1.hear (c.detectorAt seat).nextSeq replies
      (ping seat target).run c = ((c.detectorAt seat).isOpen && heard.2,
        ((setDetector seat (heard.1.endPing (c.detectorAt seat).nextSeq)).run c).2) := by
  rw [ping, run_bind, detectorOf_run]
  dsimp only
  generalize c.detectorAt seat = d
  cases hopen : d.isOpen with
  | false =>
    refine ⟨[], ?_⟩
    simp only [Detector.beginPing, hopen]
    rfl
  | true =>
    simp only [Detector.beginPing, hopen, if_true]
    rw [run_bind, pingReplies_run]
    exact ⟨_, rfl⟩

open Detector in
/-- The targets of a probe that are left, when the pings of the others have ended. -/
theorem exists_run_rest (targets all : List Member) :
    ∀ (c : Cluster) (old : List Ping) (tasks : List Task) (suspects : List Member),
      c.Detects seat → (∀ p ∈ old, p.outstanding = false) → (∀ t ∈ tasks, t.seen = true) →
      let outcomes := (targets.mapM fun target => do return (target, ← ping seat target)).run c
      ∃ turns old' tasks', (∀ t ∈ tasks', t.seen = true) ∧
        (Lookout.mk ⟨c.detectorAt seat, old⟩
          [⟨all, tasks ++ targets.map ({ target := · }), suspects⟩]).run turns =
        ⟨⟨outcomes.2.detectorAt seat, old'⟩,
          [⟨all, tasks', suspects ++ (outcomes.1.filter (!·.2)).map (·.1)⟩]⟩ := by
  induction targets with
  | nil =>
    intro c old tasks suspects _ _ htasks
    refine ⟨[], old, tasks, htasks, ?_⟩
    rw [Lookout.run_nil, List.map_nil, List.append_nil]
    change _ = Lookout.mk ⟨c.detectorAt seat, old⟩ [⟨all, tasks, suspects ++ []⟩]
    rw [List.append_nil]
  | cons target rest ih =>
    intro c old tasks suspects hc hold htasks
    obtain ⟨replies, hping⟩ := exists_ping_run seat target c
    obtain ⟨first, hfirst⟩ := Lookout.exists_run_task (d := c.detectorAt seat) hold all suspects
      tasks (rest.map ({ target := · })) target replies
    dsimp only at hping hfirst
    generalize (c.detectorAt seat).beginPing.1.hear (c.detectorAt seat).nextSeq replies = heard
      at hping hfirst
    generalize (c.detectorAt seat).nextSeq = seq at hping hfirst
    generalize (c.detectorAt seat).isOpen = isOpen at hping hfirst
    generalize hsuccess : (isOpen && heard.2) = success at hping hfirst
    obtain ⟨hdetector, hdetects⟩ := detectorAt_setDetector hc (heard.1.endPing seq)
    generalize ((setDetector seat (heard.1.endPing seq)).run c).2 = c₁ at *
    obtain ⟨more, old', tasks', hseen, hmore⟩ := ih c₁
      (old ++ [⟨target, seq, isOpen, .ended success, replies⟩])
      (tasks ++ [⟨target, some old.length, true⟩])
      (if success then suspects else suspects ++ [target]) hdetects
      (by simpa [Ping.outstanding, or_imp, forall_and] using hold)
      (by simpa [or_imp, forall_and] using htasks)
    refine ⟨first ++ more, old', tasks', hseen, ?_⟩
    have houtcomes : ((target :: rest).mapM fun target => do
          return (target, ← ping seat target)).run c =
        let r := (rest.mapM fun target => do return (target, ← ping seat target)).run c₁
        ((target, success) :: r.1, r.2) := by
      rw [List.mapM_cons, run_bind, run_bind, run_bind, hping]
      rfl
    rw [List.map_cons, Lookout.run_append, hfirst, ← hdetector, hmore, houtcomes]
    cases success <;> simp

open Detector in
/-- The probes of a group are such probes: what a probe returns, and what it leaves of the detector
of its seat, is what becomes of them when each ping ends before the next one begins. -/
theorem exists_probe_run (h : c.Detects seat) (targets : List Member) :
    let result := (probe seat targets).run c
    ∃ turns pings tasks, (∀ t ∈ tasks, t.seen = true) ∧
      (Lookout.mk ⟨c.detectorAt seat, []⟩ []).run (.probe targets :: turns) =
        ⟨⟨result.2.detectorAt seat, pings⟩, [⟨targets, tasks, result.1⟩]⟩ :=
  exists_run_rest targets targets c [] [] [] h nofun nofun

end Cluster

end ReplicaRing
