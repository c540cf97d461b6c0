import Mathlib.Data.List.Pairwise
import ReplicaRing.Introducer
import ReplicaRing.Proofs.Session.InitialRing

/-!
# Members that gather

Members join through one introducer, and nobody leaves. A joiner is introduced to a member and asks
it for a snapshot. That member answers once it has a ring itself, the answer arrives some time
later, and then the joiner tells all members of its own ring that it has joined. The introducer
serves one request at a time; whatever else the joiners do happens in any order. Nobody relays what
it hears. That all rings become one nevertheless rests on the introducer, which hands out the newest
joiner: a snapshot has all who joined before, and each of them is told of those who join later.
-/
namespace ReplicaRing

/-- What becomes of a member's view when it hears of an event, and what it does for the election,
duty by duty. -/
def Elector.hear (e : Elector) (event : Event) : Elector × List Election.Action :=
  (Session.duties e.ring event).foldl
    (fun (e, actions) duty =>
      let (e, action) := Session.perform e duty
      (e, actions ++ [action]))
    (e, [])

/-- A member that joins, from its introduction on. -/
structure Joiner where
  member : Member
  /-- The member that it was introduced to. -/
  via : Option Member
  /-- Its view, once it has been told one. -/
  elector : Option Elector := none
  /-- Whether what it was told has arrived. From then on it takes part. -/
  present : Bool := false
  /-- Whether it has told the others. -/
  announced : Bool := false
deriving DecidableEq, Repr

/-- The view of a joiner that takes part. -/
def Joiner.view? (j : Joiner) : Option Elector := if j.present then j.elector else none

structure Gathering where
  introducer : Introducer := {}
  /-- Who listens at an endpoint. -/
  listener : Endpoint → Option Joiner := fun _ => none
  /-- Events on their way, each with its recipient. -/
  underway : List (Member × Event) := []

namespace Gathering

inductive Occasion
  /-- The introducer serves the request of a joiner. -/
  | introduce (m : Member)
  /-- The joiner at an endpoint is told the ring that it begins with. -/
  | answer (endpoint : Endpoint)
  /-- What the joiner at an endpoint was told arrives. -/
  | learn (endpoint : Endpoint)
  /-- The joiner at an endpoint tells all others in its ring. -/
  | announce (endpoint : Endpoint)
  /-- One of the events on their way arrives. -/
  | deliver (place : Nat)
deriving DecidableEq, Repr

def elector? (g : Gathering) (e : Endpoint) : Option Elector := (g.listener e).bind (·.elector)

def view? (g : Gathering) (e : Endpoint) : Option Elector := (g.listener e).bind (·.view?)

/-- A joiner goes on at its endpoint, and then these events are on their way. -/
def set (g : Gathering) (j : Joiner) (underway : List (Member × Event)) : Gathering :=
  { g with listener := Function.update g.listener j.member.endpoint (some j), underway }

def introduce (g : Gathering) (m : Member) : Gathering :=
  let (introducer, via) := Introducer.introduce (m := Id) (fun _ => true) g.introducer m
  { g with introducer }.set { member := m, via } g.underway

/-- The ring that a joiner begins with, as soon as it can be told. -/
def firstRing? (g : Gathering) (j : Joiner) : Option Ring :=
  match j.via with
  | none => some (Session.initialRing j.member none)
  | some via => (g.view? via.endpoint).map fun e =>
    Session.initialRing j.member (some e.ring.snapshot)

def answer (g : Gathering) (e : Endpoint) : Option Gathering := do
  let j ← g.listener e
  let ring ← g.firstRing? j
  if j.elector.isNone then some (g.set { j with elector := some { ring } } g.underway) else none

def learn (g : Gathering) (e : Endpoint) : Option Gathering := do
  let j ← g.listener e
  if j.elector.isSome then some (g.set { j with present := true } g.underway) else none

def announce (g : Gathering) (e : Endpoint) : Option Gathering := do
  let j ← g.listener e
  let elector ← j.view?
  let recipients := elector.ring.toList.filter (· ≠ j.member)
  if j.announced then none
  else some (g.set { j with announced := true }
    (g.underway ++ recipients.map (·, ⟨.join, j.member⟩)))

def deliver (g : Gathering) (place : Nat) : Option Gathering := do
  let (recipient, event) ← g.underway[place]?
  let j ← g.listener recipient.endpoint
  let elector ← j.view?
  some (g.set { j with elector := some (elector.hear event).1 } (g.underway.eraseIdx place))

/-- What is not possible yet, or not any more, changes nothing. -/
def step (g : Gathering) : Occasion → Gathering
  | .introduce m => g.introduce m
  | .answer e => (g.answer e).getD g
  | .learn e => (g.learn e).getD g
  | .announce e => (g.announce e).getD g
  | .deliver place => (g.deliver place).getD g

def run (g : Gathering) (occasions : List Occasion) : Gathering := occasions.foldl step g

/-- Those who are introduced, one after the other. -/
def joining (occasions : List Occasion) : List Member :=
  occasions.filterMap fun
    | .introduce m => some m
    | _ => none

/-- All members have received their snapshots and told the others, and every event has arrived. -/
structure Settled (g : Gathering) (members : List Member) : Prop where
  announced : ∀ m ∈ members, ∃ j ∈ g.listener m.endpoint, j.view? ≠ none ∧ j.announced = true
  arrived : g.underway = []

/-! ### What a step changes -/

variable {g g' : Gathering} {m k first : Member} {j : Joiner} {e : Endpoint} {elector : Elector}
  {place : Nat} {joined : List Member} {underway : List (Member × Event)}

/-- A member has a ring, and another member in it. -/
def Knows (g : Gathering) (m k : Member) : Prop :=
  ∃ elector, g.elector? m.endpoint = some elector ∧ k ∈ elector.ring.members

/-- A member has told the others of its ring. -/
def HasAnnounced (g : Gathering) (m : Member) : Prop :=
  ∃ j, g.listener m.endpoint = some j ∧ j.announced = true

theorem view?_eq_some : j.view? = some elector ↔ j.present = true ∧ j.elector = some elector := by
  rw [Joiner.view?, Option.ite_none_right_eq_some]

theorem set_listener (g : Gathering) (j : Joiner) (e : Endpoint) :
    (g.set j underway).listener e = if e = j.member.endpoint then some j else g.listener e :=
  Function.update_apply ..

theorem elector?_set (g : Gathering) (j : Joiner) (e : Endpoint) :
    (g.set j underway).elector? e =
      if e = j.member.endpoint then j.elector else g.elector? e := by
  rw [elector?, set_listener]
  split <;> rfl

theorem view?_set (g : Gathering) (j : Joiner) (e : Endpoint) :
    (g.set j underway).view? e = if e = j.member.endpoint then j.view? else g.view? e := by
  rw [view?, set_listener]
  split <;> rfl

theorem knows_set : (g.set j underway).Knows m k ↔
    if m.endpoint = j.member.endpoint then ∃ elector, j.elector = some elector ∧
      k ∈ elector.ring.members else g.Knows m k := by
  rw [Knows, elector?_set]
  split <;> rfl

theorem hasAnnounced_set : (g.set j underway).HasAnnounced m ↔
    if m.endpoint = j.member.endpoint then j.announced = true else g.HasAnnounced m := by
  rw [HasAnnounced, set_listener]
  split
  · simp
  · rfl

/-- A joiner goes on and says nothing. -/
theorem hasAnnounced_set_of_listener {j' : Joiner} (hj : g.listener e = some j)
    (hend : j'.member.endpoint = e) (hsame : j'.announced = j.announced) :
    (g.set j' underway).HasAnnounced m ↔ g.HasAnnounced m := by
  rw [hasAnnounced_set, hend]
  split
  · rename_i heq
    simp [HasAnnounced, heq, hj, hsame]
  · rfl

theorem duties_join {r : Ring} (h : ∀ k ∈ r.members, k.endpoint = m.endpoint → k = m) :
    Session.duties r ⟨.join, m⟩ = [.add m] := by
  have hnone : (r.toList.filter fun known => known.sameEndpoint m ∧ known ≠ m) = [] := by
    refine List.filter_eq_nil_iff.mpr fun k hk => ?_
    simp only [decide_eq_true_eq, not_and, not_not]
    exact fun hsame => h k (Ring.mem_toList.mp hk) (beq_iff_eq.mp hsame)
  rw [Session.duties, hnone]
  rfl

/-- A joiner that no other incarnation at its endpoint is known of is added, and nothing else
happens. -/
theorem hear_join (h : ∀ k ∈ elector.ring.members, k.endpoint = m.endpoint → k = m) :
    elector.hear ⟨.join, m⟩ = ({ elector with ring := (elector.ring.add m).1 }, [.ignore]) := by
  rw [Elector.hear, duties_join h]
  rfl

/-- A member that every newcomer can reach is handed to the newcomer: the one that joined last. -/
theorem introduce_eq (i : Introducer) (h : ∀ k ∈ i.recent, k.endpoint ≠ m.endpoint) :
    Introducer.introduce (m := Id) (fun _ => true) i m = (i.remember m, i.recent.head?) := by
  obtain ⟨recent⟩ := i
  cases recent with
  | nil => rfl
  | cons candidate rest =>
    have hother : candidate.sameEndpoint m = false :=
      beq_eq_false_iff_ne.mpr (h candidate List.mem_cons_self)
    simp only [Introducer.introduce, Introducer.search, hother]
    rfl

theorem answer_eq_some : g.answer e = some g' ↔ ∃ j ring, g.listener e = some j ∧
    j.elector = none ∧ g.firstRing? j = some ring ∧
    g' = g.set { j with elector := some { ring } } g.underway := by
  simp only [answer, Option.bind_eq_bind, Option.bind_eq_some_iff, Option.isNone_iff_eq_none,
    Option.ite_none_right_eq_some, Option.some.injEq]
  grind

theorem learn_eq_some : g.learn e = some g' ↔ ∃ j elector, g.listener e = some j ∧
    j.elector = some elector ∧ g' = g.set { j with present := true } g.underway := by
  simp only [learn, Option.bind_eq_bind, Option.bind_eq_some_iff, Option.isSome_iff_exists,
    Option.ite_none_right_eq_some, Option.some.injEq]
  grind

theorem announce_eq_some : g.announce e = some g' ↔ ∃ j elector, g.listener e = some j ∧
    j.view? = some elector ∧ j.announced = false ∧
    g' = g.set { j with announced := true } (g.underway ++
      (elector.ring.toList.filter (· ≠ j.member)).map (·, ⟨.join, j.member⟩)) := by
  simp only [announce, Option.bind_eq_bind, Option.bind_eq_some_iff,
    Option.ite_none_left_eq_some, Option.some.injEq, Bool.not_eq_true]
  grind

theorem deliver_eq_some : g.deliver place = some g' ↔ ∃ k event j elector,
    g.underway[place]? = some (k, event) ∧ g.listener k.endpoint = some j ∧
    j.view? = some elector ∧
    g' = g.set { j with elector := some (elector.hear event).1 } (g.underway.eraseIdx place) := by
  simp only [deliver, Option.bind_eq_bind, Option.bind_eq_some_iff, Option.some.injEq, Prod.exists]
  grind

/-! ### What all steps keep -/

/-- The view of a joiner: it is in its own ring, and the first of all is the coordinator. -/
structure Leads (joined : List Member) (j : Joiner) (elector : Elector) : Prop where
  owner : elector.ring.owner = j.member
  self : j.member ∈ elector.ring.members
  first : ∃ first, joined.getLast? = some first ∧ elector.ring.coordinator = some first ∧
    first ∈ elector.ring.members

/-- Those who have `joined`, from the newest to the first, listen at endpoints of their own. Each of
them was introduced to the one that had joined last. -/
structure Placed (joined : List Member) (g : Gathering) : Prop where
  recent : g.introducer.recent = joined.take Introducer.capacity
  distinct : (joined.map Member.endpoint).Nodup
  listens : ∀ m ∈ joined, ∃ j, g.listener m.endpoint = some j ∧ j.member = m
  joiner : ∀ e j, g.listener e = some j → j.member ∈ joined ∧ j.member.endpoint = e
  via : ∀ i m j, joined[i]? = some m → g.listener m.endpoint = some j → j.via = joined[i + 1]?

structure Formed (joined : List Member) (g : Gathering) : Prop extends Placed joined g where
  leads : ∀ e j elector, g.listener e = some j → j.elector = some elector → Leads joined j elector
  /-- Who is known has joined, and has a ring. -/
  known : ∀ m k, g.Knows m k → k ∈ joined ∧ g.Knows k k
  /-- A member with a ring knows all who joined before. -/
  older : joined.Pairwise fun newer older => g.Knows newer newer → g.Knows newer older
  announced : ∀ m, g.HasAnnounced m → g.elector? m.endpoint ≠ none
  /-- Those who joined before a member that has announced itself know it, or are about to hear. -/
  told : joined.Pairwise fun newer older =>
    g.HasAnnounced newer → g.Knows older newer ∨ (older, ⟨.join, newer⟩) ∈ g.underway
  underway : ∀ k event, (k, event) ∈ g.underway →
    ∃ m, event = ⟨.join, m⟩ ∧ g.Knows m m ∧ g.Knows k k

theorem formed_empty : Formed [] {} where
  recent := rfl
  distinct := .nil
  listens _ h := nomatch h
  joiner _ _ h := nomatch h
  via _ _ _ h := nomatch h
  leads _ _ _ h := nomatch h
  known := fun _ _ ⟨_, h, _⟩ => nomatch h
  older := .nil
  announced := fun _ ⟨_, h, _⟩ => nomatch h
  told := .nil
  underway _ _ h := nomatch h

namespace Placed

theorem eq_of_endpoint (h : Placed joined g) (hm : m ∈ joined) (hk : k ∈ joined)
    (heq : m.endpoint = k.endpoint) : m = k :=
  List.inj_on_of_nodup_map h.distinct hm hk heq

theorem listener_eq (h : Placed joined g) (hj : g.listener e = some j) :
    g.listener j.member.endpoint = some j :=
  (h.joiner e j hj).2.symm ▸ hj

/-- Who joins listens where nobody listened, and is introduced to the newest of all others. -/
theorem introduce_eq_set (h : Placed joined g) (hm : m.endpoint ∉ joined.map Member.endpoint) :
    g.listener m.endpoint = none ∧
      g.introduce m = { g with introducer := g.introducer.remember m }.set
        { member := m, via := joined.head? } g.underway := by
  constructor
  · refine Option.eq_none_iff_forall_ne_some.mpr fun j hj => hm ?_
    obtain ⟨hmem, hend⟩ := h.joiner _ _ hj
    exact hend ▸ List.mem_map_of_mem hmem
  · have hvia : g.introducer.recent.head? = joined.head? := by
      rw [h.recent, List.head?_take, if_neg (by decide)]
    have hother : ∀ k ∈ g.introducer.recent, k.endpoint ≠ m.endpoint := fun k hk heq => by
      rw [h.recent] at hk
      exact hm (heq ▸ List.mem_map_of_mem (List.mem_of_mem_take hk))
    rw [Gathering.introduce, introduce_eq _ hother, hvia]

theorem introduce (h : Placed joined g) (hm : m.endpoint ∉ joined.map Member.endpoint) :
    Placed (m :: joined) (g.introduce m) := by
  obtain ⟨-, hg⟩ := h.introduce_eq_set hm
  have hlistener (e : Endpoint) : (g.introduce m).listener e =
      if e = m.endpoint then some { member := m, via := joined.head? } else g.listener e := by
    rw [hg, set_listener]
  have hother : ∀ k ∈ joined, k.endpoint ≠ m.endpoint := fun k hk heq =>
    hm (heq ▸ List.mem_map_of_mem hk)
  constructor
  case recent =>
    rw [hg]
    change (m :: g.introducer.recent).take Introducer.capacity = _
    rw [h.recent, Introducer.capacity, List.take_succ_cons, List.take_succ_cons, List.take_take]
    rfl
  case distinct => exact List.nodup_cons.mpr ⟨hm, h.distinct⟩
  case listens =>
    intro k hk
    rw [hlistener]
    obtain rfl | hk := List.mem_cons.mp hk
    · exact ⟨_, if_pos rfl, rfl⟩
    · rw [if_neg (hother k hk)]
      exact h.listens k hk
  case joiner =>
    intro e j hj
    rw [hlistener] at hj
    split at hj
    · cases hj
      exact ⟨List.mem_cons_self, Eq.symm ‹_›⟩
    · obtain ⟨hmem, hend⟩ := h.joiner e j hj
      exact ⟨List.mem_cons_of_mem m hmem, hend⟩
  case via =>
    intro i k j hk hj
    rw [hlistener] at hj
    cases i with
    | zero =>
      cases hk
      rw [if_pos rfl] at hj
      cases hj
      exact List.head?_eq_getElem?
    | succ i =>
      rw [if_neg (hother k (List.mem_of_getElem? hk))] at hj
      exact h.via i k j hk hj

/-- A joiner goes on. -/
theorem set (h : Placed joined g) {j' : Joiner} (hj : g.listener e = some j)
    (hmember : j'.member = j.member) (hvia : j'.via = j.via) :
    Placed joined (g.set j' underway) := by
  have hend : j'.member.endpoint = e := by rw [hmember, (h.joiner e j hj).2]
  constructor
  case recent => exact h.recent
  case distinct => exact h.distinct
  case listens =>
    intro m hm
    obtain ⟨x, hx, hxm⟩ := h.listens m hm
    rw [set_listener, hend]
    split
    · rename_i heq
      rw [heq, hj] at hx
      cases hx
      exact ⟨j', rfl, hmember.trans hxm⟩
    · exact ⟨x, hx, hxm⟩
  case joiner =>
    intro e' x hx
    rw [set_listener, hend] at hx
    split at hx
    · rename_i heq
      cases hx
      exact ⟨hmember ▸ (h.joiner e j hj).1, hend.trans heq.symm⟩
    · exact h.joiner e' x hx
  case via =>
    intro i m x hm hx
    rw [set_listener, hend] at hx
    split at hx
    · rename_i heq
      cases hx
      rw [hvia]
      exact h.via i m j hm (heq ▸ hj)
    · exact h.via i m x hm hx

end Placed

namespace Formed

theorem knows_self (h : Formed joined g) (hj : g.listener e = some j)
    (helector : j.elector = some elector) : g.Knows j.member j.member := by
  refine ⟨elector, ?_, (h.leads e j elector hj helector).self⟩
  rw [elector?, h.listener_eq hj]
  exact helector

theorem leads_set (h : Formed joined g)
    (hj : ∀ elector, j.elector = some elector → Leads joined j elector) :
    ∀ e x elector, (g.set j underway).listener e = some x → x.elector = some elector →
      Leads joined x elector := by
  intro e x elector hx helector
  rw [set_listener] at hx
  split at hx
  · cases hx
    exact hj elector helector
  · exact h.leads e x elector hx helector

/-- A newcomer has no ring yet, and nobody has heard of it. -/
theorem introduce (h : Formed joined g) (hm : m.endpoint ∉ joined.map Member.endpoint) :
    Formed (m :: joined) (g.introduce m) := by
  obtain ⟨hfree, hg⟩ := h.introduce_eq_set hm
  have hsilent : g.elector? m.endpoint = none := by rw [elector?, hfree, Option.bind_none]
  have helector (e : Endpoint) : (g.introduce m).elector? e = g.elector? e := by
    rw [hg, elector?_set]
    split
    · rename_i heq
      rw [heq, hsilent]
    · rfl
  have hknows (a b : Member) : (g.introduce m).Knows a b ↔ g.Knows a b := by
    rw [Knows, helector, Knows]
  have hannounced (a : Member) : (g.introduce m).HasAnnounced a ↔ g.HasAnnounced a := by
    rw [hg, hasAnnounced_set]
    split
    · rename_i heq
      simp [HasAnnounced, heq, hfree]
    · rfl
  have hunderway : (g.introduce m).underway = g.underway := by rw [hg]; rfl
  constructor
  case toPlaced => exact h.toPlaced.introduce hm
  case leads =>
    intro e j elector hj helect
    rw [hg, set_listener] at hj
    split at hj
    · cases hj
      cases helect
    · obtain ⟨howner, hself, first, hlast, hfirst⟩ := h.leads e j elector hj helect
      refine ⟨howner, hself, first, ?_, hfirst⟩
      rw [List.getLast?_cons, hlast, Option.getD_some]
  case known =>
    intro a b hab
    rw [hknows] at hab
    obtain ⟨hb, hself⟩ := h.known a b hab
    exact ⟨List.mem_cons_of_mem m hb, (hknows b b).mpr hself⟩
  case older =>
    refine List.pairwise_cons.mpr ⟨fun k _ hself => ?_, ?_⟩
    · obtain ⟨_, hsome, -⟩ := (hknows m m).mp hself
      cases hsilent.symm.trans hsome
    · exact h.older.imp fun hold hself => (hknows _ _).mpr (hold ((hknows _ _).mp hself))
  case announced =>
    intro a ha
    rw [helector]
    exact h.announced a ((hannounced a).mp ha)
  case told =>
    refine List.pairwise_cons.mpr ⟨fun k _ htold => ?_, ?_⟩
    · obtain ⟨j, hj, -⟩ := (hannounced m).mp htold
      cases hfree.symm.trans hj
    · refine h.told.imp fun htold ha => ?_
      rw [hknows, hunderway]
      exact htold ((hannounced _).mp ha)
  case underway =>
    intro k event hk
    rw [hunderway] at hk
    obtain ⟨a, rfl, ha, hself⟩ := h.underway k event hk
    exact ⟨a, rfl, (hknows a a).mpr ha, (hknows k k).mpr hself⟩

/-- The ring that a joiner begins with has the joiner and all that the member knows to which it was
introduced. -/
theorem firstRing (h : Formed joined g) (hj : g.listener e = some j) {ring : Ring}
    (hring : g.firstRing? j = some ring) :
    (∀ j' : Joiner, j'.member = j.member → Leads joined j' { ring }) ∧
      (∀ k, k ∈ ring.members ↔ k = j.member ∨ ∃ v, j.via = some v ∧ g.Knows v k) ∧
      ∀ v, j.via = some v → g.Knows v v := by
  obtain ⟨hmem, hend⟩ := h.joiner e j hj
  obtain ⟨i, hi⟩ := List.mem_iff_getElem?.mp hmem
  have hvia := h.via i j.member j hi (h.listener_eq hj)
  rw [firstRing?] at hring
  cases hv : j.via with
  | none =>
    rw [hv] at hring hvia
    cases hring
    -- Nobody joined before.
    have hlast : joined.getLast? = some j.member := by
      have hlt := (List.getElem?_eq_some_iff.mp hi).1
      have hle := List.getElem?_eq_none_iff.mp hvia.symm
      have hindex : joined.length - 1 = i := by omega
      rw [List.getLast?_eq_getElem?, hindex, hi]
    refine ⟨fun j' hj' => ?_, fun k => ?_, by simp⟩
    · have hself := Session.owner_mem_initialRing j.member none
      exact ⟨(Session.initialRing_owner _ _).trans hj'.symm, hj'.symm ▸ hself, j.member, hlast,
        Session.founded_coordinator _, hself⟩
    · simp [Session.mem_founded]
  | some v =>
    rw [hv] at hring hvia
    obtain ⟨elector, helector, hring⟩ := Option.map_eq_some_iff.mp hring
    subst hring
    obtain ⟨x, hx, rfl⟩ := h.listens v (List.mem_of_getElem? hvia.symm)
    rw [view?, hx, Option.bind_some, view?_eq_some] at helector
    replace helector := helector.2
    obtain ⟨-, -, first, hlast, hfirst, hfirstmem⟩ := h.leads _ x elector hx helector
    obtain ⟨howner, hmembers, hcoordinator⟩ := Ring.ofSnapshot_spec j.member elector.ring.snapshot
    have hknows (k : Member) : g.Knows x.member k ↔ k ∈ elector.ring.members := by
      simp [Knows, elector?, hx, helector]
    have hall (k : Member) : k ∈ (Ring.ofSnapshot j.member elector.ring.snapshot).members ↔
        k = j.member ∨ g.Knows x.member k := by
      rw [hmembers, hknows, or_comm]
      refine or_congr_right ?_
      rw [Ring.snapshot, Ring.mem_toList, and_iff_left_iff_imp]
      rintro hk ⟨hsame, hne⟩
      exact hne (h.eq_of_endpoint (h.known _ k ((hknows k).mpr hk)).1 hmem (beq_iff_eq.mp hsame))
    have hkept := (hall first).mpr (.inr ((hknows first).mpr hfirstmem))
    refine ⟨fun j' hj' => ?_, fun k => ?_, ?_⟩
    · refine ⟨howner.trans hj'.symm, (hall _).mpr (.inl hj'), first, hlast, ?_, hkept⟩
      refine hcoordinator.trans ?_
      change elector.ring.coordinator.filter _ = _
      rw [hfirst, Option.filter_some, if_pos (decide_eq_true hkept)]
    · simp only [Option.some.injEq, exists_eq_left']
      exact hall k
    · rintro v ⟨⟩
      exact h.knows_self hx helector

theorem answer (h : Formed joined g) (hg : g.answer e = some g') : Formed joined g' := by
  obtain ⟨j, ring, hj, hnone, hring, rfl⟩ := answer_eq_some.mp hg
  obtain ⟨hleads, hmem, hvia⟩ := h.firstRing hj hring
  have hjoined := (h.joiner e j hj).1
  have hself : j.member ∈ ring.members := (hleads j rfl).self
  have hsilent : g.elector? j.member.endpoint = none := by
    rw [elector?, h.listener_eq hj]
    exact hnone
  set g' := g.set { j with elector := some { ring } } g.underway
  have hknows (a b : Member) : g'.Knows a b ↔
      (a.endpoint = j.member.endpoint ∧ b ∈ ring.members) ∨ g.Knows a b := by
    rw [knows_set]
    split
    · rename_i heq
      simp [Knows, heq, hsilent]
    · simp [*]
  have hannounced (a : Member) : g'.HasAnnounced a ↔ g.HasAnnounced a :=
    hasAnnounced_set_of_listener hj (h.joiner e j hj).2 rfl
  constructor
  case toPlaced => exact h.toPlaced.set hj rfl rfl
  case leads =>
    refine h.leads_set ?_
    rintro elector ⟨⟩
    exact hleads _ rfl
  case known =>
    intro a b hab
    have hbself : b = j.member ∨ g.Knows b b := by
      obtain ⟨-, hb⟩ | hab := (hknows a b).mp hab
      · exact ((hmem b).mp hb).imp_right fun ⟨v, _, hv⟩ => (h.known v b hv).2
      · exact .inr (h.known a b hab).2
    obtain rfl | hbself := hbself
    · exact ⟨hjoined, (hknows _ _).mpr (.inl ⟨rfl, hself⟩)⟩
    · exact ⟨(h.known b b hbself).1, (hknows b b).mpr (.inr hbself)⟩
  case older =>
    refine List.pairwise_iff_getElem.mpr fun i k hi hk hik hknown => (hknows _ _).mpr ?_
    by_cases hnewer : joined[i].endpoint = j.member.endpoint
    · -- The newest of those before it has told it of all others before it.
      have heq := h.eq_of_endpoint (List.getElem_mem hi) hjoined hnewer
      have hnext : j.via = some joined[i + 1] := by
        rw [h.via i _ j (List.getElem?_eq_getElem hi) (heq ▸ h.listener_eq hj)]
        exact List.getElem?_eq_getElem (by omega)
      refine .inl ⟨hnewer, (hmem _).mpr (.inr ⟨_, hnext, ?_⟩)⟩
      obtain rfl | hlt : k = i + 1 ∨ i + 1 < k := by omega
      · exact hvia _ hnext
      · exact List.pairwise_iff_getElem.mp h.older (i + 1) k _ hk hlt (hvia _ hnext)
    · refine .inr (List.pairwise_iff_getElem.mp h.older i k hi hk hik ?_)
      exact ((hknows _ _).mp hknown).resolve_left fun hat => hnewer hat.1
  case announced =>
    intro a ha
    rw [elector?_set]
    split
    · simp
    · exact h.announced a ((hannounced a).mp ha)
  case told =>
    refine h.told.imp fun htold ha => ?_
    exact (htold ((hannounced _).mp ha)).imp_left fun hk => (hknows _ _).mpr (.inr hk)
  case underway =>
    intro k event hk
    obtain ⟨m, rfl, hm, hkself⟩ := h.underway k event hk
    exact ⟨m, rfl, (hknows m m).mpr (.inr hm), (hknows k k).mpr (.inr hkself)⟩

/-- A joiner takes part with the view that it was told. -/
theorem learn (h : Formed joined g) (hg : g.learn e = some g') : Formed joined g' := by
  obtain ⟨j, elector, hj, hsome, rfl⟩ := learn_eq_some.mp hg
  set g' := g.set { j with present := true } g.underway
  have helector (e : Endpoint) : g'.elector? e = g.elector? e := by
    rw [elector?_set]
    split
    · rename_i heq
      rw [heq, elector?, h.listener_eq hj, Option.bind_some]
    · rfl
  have hknows (a b : Member) : g'.Knows a b ↔ g.Knows a b := by rw [Knows, helector, Knows]
  have hannounced (a : Member) : g'.HasAnnounced a ↔ g.HasAnnounced a :=
    hasAnnounced_set_of_listener hj (h.joiner e j hj).2 rfl
  constructor
  case toPlaced => exact h.toPlaced.set hj rfl rfl
  case leads =>
    refine h.leads_set fun elector' helect => ?_
    have hleads := h.leads e j elector' hj helect
    exact ⟨hleads.owner, hleads.self, hleads.first⟩
  case known => exact fun a b hab => by simpa only [hknows] using h.known a b ((hknows a b).mp hab)
  case older => exact h.older.imp fun hold => by simpa only [hknows] using hold
  case announced => exact fun a ha => helector a.endpoint ▸ h.announced a ((hannounced a).mp ha)
  case told =>
    exact h.told.imp fun htold ha => (htold ((hannounced _).mp ha)).imp_left (hknows _ _).mpr
  case underway => exact fun k event hk => by simpa only [hknows] using h.underway k event hk

theorem announce (h : Formed joined g) (hg : g.announce e = some g') : Formed joined g' := by
  obtain ⟨j, elector, hj, hview, -, rfl⟩ := announce_eq_some.mp hg
  have hsome := (view?_eq_some.mp hview).2
  have hjoined := (h.joiner e j hj).1
  have hspeaks : g.elector? j.member.endpoint = some elector := by
    rw [elector?, h.listener_eq hj]
    exact hsome
  set recipients := elector.ring.toList.filter (· ≠ j.member)
  set g' := g.set { j with announced := true }
    (g.underway ++ recipients.map (·, ⟨.join, j.member⟩))
  have helector (e : Endpoint) : g'.elector? e = g.elector? e := by
    rw [elector?_set]
    split
    · rename_i heq
      rw [heq, hspeaks]
      exact hsome
    · rfl
  have hknows (a b : Member) : g'.Knows a b ↔ g.Knows a b := by rw [Knows, helector, Knows]
  have hannounced (a : Member) :
      g'.HasAnnounced a ↔ a.endpoint = j.member.endpoint ∨ g.HasAnnounced a := by
    rw [hasAnnounced_set]
    split <;> simp [*]
  have hrecipient (k : Member) : k ∈ recipients ↔ g.Knows j.member k ∧ k ≠ j.member := by
    simp [recipients, Knows, hspeaks, Ring.mem_toList]
  constructor
  case toPlaced => exact h.toPlaced.set hj rfl rfl
  case leads =>
    refine h.leads_set fun elector' helect => ?_
    have hleads := h.leads e j elector' hj helect
    exact ⟨hleads.owner, hleads.self, hleads.first⟩
  case known => exact fun a b hab => by simpa only [hknows] using h.known a b ((hknows a b).mp hab)
  case older => exact h.older.imp fun hold => by simpa only [hknows] using hold
  case announced =>
    intro a ha
    rw [helector]
    obtain ha | ha := (hannounced a).mp ha
    · rw [ha, hspeaks]
      simp
    · exact h.announced a ha
  case told =>
    have hne : joined.Pairwise (· ≠ ·) := h.distinct.of_map
    refine (h.told.and (h.older.and hne)).imp_of_mem fun {a b} ha _ hpair hsaid => ?_
    obtain ⟨htold, holder, hne⟩ := hpair
    by_cases hat : a.endpoint = j.member.endpoint
    · obtain rfl := h.eq_of_endpoint ha hjoined hat
      have hb := (hrecipient b).mpr ⟨holder (h.knows_self hj hsome), Ne.symm hne⟩
      exact .inr (List.mem_append_right _ (List.mem_map_of_mem hb))
    · obtain hk | hk := htold (((hannounced a).mp hsaid).resolve_left hat)
      · exact .inl ((hknows b a).mpr hk)
      · exact .inr (List.mem_append_left _ hk)
  case underway =>
    intro k event hk
    simp only [hknows]
    obtain hk | hk := List.mem_append.mp hk
    · exact h.underway k event hk
    · obtain ⟨k', hk', heq⟩ := List.mem_map.mp hk
      cases heq
      exact ⟨j.member, rfl, h.knows_self hj hsome,
        (h.known _ k ((hrecipient k).mp hk').1).2⟩

theorem deliver (h : Formed joined g) (hg : g.deliver place = some g') : Formed joined g' := by
  obtain ⟨k, event, j, elector, hplace, hj, hview, rfl⟩ := deliver_eq_some.mp hg
  have hsome := (view?_eq_some.mp hview).2
  obtain ⟨m, rfl, hm, hk⟩ := h.underway k event (List.mem_of_getElem? hplace)
  have hmjoined := (h.known m m hm).1
  have hkjoined := (h.known k k hk).1
  obtain ⟨hjoined, hend⟩ := h.joiner _ j hj
  obtain rfl : j.member = k := h.eq_of_endpoint hjoined hkjoined hend
  have hspeaks : g.elector? j.member.endpoint = some elector := by
    rw [elector?, hj]
    exact hsome
  have hheard : (elector.hear ⟨.join, m⟩).1 = { elector with ring := (elector.ring.add m).1 } := by
    rw [hear_join fun a ha heq => ?_]
    exact h.eq_of_endpoint (h.known j.member a ⟨elector, hspeaks, ha⟩).1 hmjoined heq
  rw [hheard]
  set j' : Joiner := { j with elector := some { elector with ring := (elector.ring.add m).1 } }
  set g' := g.set j' (g.underway.eraseIdx place)
  have hknows (a b : Member) : g'.Knows a b ↔
      (a.endpoint = j.member.endpoint ∧ b = m) ∨ g.Knows a b := by
    rw [knows_set]
    split
    · rename_i heq
      have heq : a.endpoint = j.member.endpoint := heq
      simp [j', Knows, heq, hspeaks, Ring.mem_add]
    · rename_i hne
      have hne : a.endpoint ≠ j.member.endpoint := hne
      simp [hne]
  have hannounced (a : Member) : g'.HasAnnounced a ↔ g.HasAnnounced a :=
    hasAnnounced_set_of_listener hj rfl rfl
  constructor
  case toPlaced => exact h.toPlaced.set hj rfl rfl
  case leads =>
    refine h.leads_set ?_
    rintro _ ⟨⟩
    obtain ⟨howner, hself, first, hlast, hfirst, hmem⟩ := h.leads _ j elector hj hsome
    exact ⟨howner, Ring.mem_add.mpr (.inr hself), first, hlast, hfirst,
      Ring.mem_add.mpr (.inr hmem)⟩
  case known =>
    intro a b hab
    obtain ⟨-, rfl⟩ | hab := (hknows a b).mp hab
    · exact ⟨hmjoined, (hknows _ _).mpr (.inr hm)⟩
    · exact ⟨(h.known a b hab).1, (hknows _ _).mpr (.inr (h.known a b hab).2)⟩
  case older =>
    refine h.older.imp_of_mem fun {a b} ha _ hold hself => (hknows _ _).mpr (.inr (hold ?_))
    obtain ⟨hat, -⟩ | hself := (hknows a a).mp hself
    · exact h.eq_of_endpoint ha hkjoined hat ▸ hk
    · exact hself
  case announced =>
    intro a ha
    rw [elector?_set]
    split
    · exact Option.some_ne_none _
    · exact h.announced a ((hannounced a).mp ha)
  case told =>
    refine h.told.imp fun {a b} htold ha => ?_
    obtain hab | hab := htold ((hannounced a).mp ha)
    · exact .inl ((hknows b a).mpr (.inr hab))
    · obtain ⟨i, hi⟩ := List.mem_iff_getElem?.mp hab
      by_cases heq : i = place
      · cases hplace.symm.trans (heq ▸ hi)
        exact .inl ((hknows _ _).mpr (.inl ⟨rfl, rfl⟩))
      · exact .inr (List.mem_eraseIdx_iff_getElem?.mpr ⟨i, heq, hi⟩)
  case underway =>
    intro a event ha
    obtain ⟨b, rfl, hb, hself⟩ := h.underway a event (List.mem_of_mem_eraseIdx ha)
    exact ⟨b, rfl, (hknows b b).mpr (.inr hb), (hknows a a).mpr (.inr hself)⟩

theorem getD {o : Option Gathering} (h : Formed joined g)
    (ho : ∀ g', o = some g' → Formed joined g') : Formed joined (o.getD g) := by
  cases o with
  | none => exact h
  | some g' => exact ho g' rfl

theorem run (h : Formed joined g) (occasions : List Occasion)
    (hn : (((joining occasions).reverse ++ joined).map Member.endpoint).Nodup) :
    Formed ((joining occasions).reverse ++ joined) (g.run occasions) := by
  induction occasions generalizing g joined with
  | nil => exact h
  | cons occasion occasions ih =>
    cases occasion with
    | introduce m =>
      have hjoining : (joining (.introduce m :: occasions)).reverse ++ joined =
          (joining occasions).reverse ++ m :: joined := by
        change (m :: joining occasions).reverse ++ joined = _
        rw [List.reverse_cons, List.append_assoc, List.singleton_append]
      rw [hjoining] at hn ⊢
      refine ih (h.introduce ?_) hn
      rw [List.map_append, List.map_cons] at hn
      exact (List.nodup_cons.mp hn.of_append_right).1
    | answer e => exact ih (h.getD fun _ => h.answer) hn
    | learn e => exact ih (h.getD fun _ => h.learn) hn
    | announce e => exact ih (h.getD fun _ => h.announce) hn
    | deliver place => exact ih (h.getD fun _ => h.deliver) hn

/-- When all is said and heard, everybody knows everybody. -/
theorem knows_of_settled (h : Formed joined g) (hs : g.Settled joined) (hm : m ∈ joined)
    (hk : k ∈ joined) : g.Knows m k := by
  have hself : ∀ m ∈ joined, g.Knows m m ∧ g.HasAnnounced m := by
    intro m hm
    obtain ⟨j, hj, hview, hannounced⟩ := hs.announced m hm
    obtain ⟨elector, hview⟩ := Option.ne_none_iff_exists'.mp hview
    obtain ⟨x, hx, rfl⟩ := h.listens m hm
    cases hx.symm.trans hj
    exact ⟨h.knows_self hj (view?_eq_some.mp hview).2, _, hj, hannounced⟩
  have holder : joined.Pairwise fun newer older => g.Knows newer older :=
    h.older.imp_of_mem fun ha _ holder => holder (hself _ ha).1
  have hnewer : joined.Pairwise fun newer older => g.Knows older newer := by
    refine h.told.imp_of_mem fun ha _ htold => (htold (hself _ ha).2).resolve_right ?_
    rw [hs.arrived]
    exact List.not_mem_nil
  exact holder.forall_of_forall_of_flip (fun m hm => (hself m hm).1) hnewer hm hk

end Formed

end Gathering

end ReplicaRing
