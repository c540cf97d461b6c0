import ReplicaRing.Introducer

/-!
Joiners call on the introducer one after the other. It remembers the last few of them, and asks them
in turn, the newest first; whoever does not accept a connection when asked is forgotten. So one that
has accepted connections ever since it joined is found, unless as many as are remembered were newer
than it, all at once.
-/
namespace ReplicaRing

/-- At which endpoints connections are accepted, at each moment. -/
abbrev Listening := Nat → Endpoint → Bool

/-- The introducer, and the time. -/
structure Rendezvous where
  introducer : Introducer := {}
  now : Nat := 0
deriving DecidableEq, Repr

/-- A member that joined at some moment has accepted connections ever since. -/
def Faithful (accepts : Listening) (now : Nat) (member : Member) (since : Nat) : Prop :=
  ∀ t, since ≤ t → t < now → accepts t member.endpoint

namespace Rendezvous

/-- Connects to a candidate. That takes a moment. -/
def ask (accepts : Listening) (candidate : Member) : StateM Nat Bool := fun now =>
  (accepts now candidate.endpoint, now + 1)

/-- A joiner calls, `wait` moments after the call before. It has joined when it is answered. -/
def call (accepts : Listening) (r : Rendezvous) (wait : Nat) (joining : Member) :
    Rendezvous × Option Member :=
  let ((introducer, found), now) :=
    (Introducer.introduce (ask accepts) r.introducer joining).run (r.now + wait)
  ({ introducer, now }, found)

def run (accepts : Listening) (r : Rendezvous) (calls : List (Nat × Member)) : Rendezvous :=
  calls.foldl (fun r (wait, joining) => (r.call accepts wait joining).1) r

/-- The introducer remembers as many as it can, all of them newer joiners at other endpoints. -/
structure Crowded (r : Rendezvous) (endpoint : Endpoint) (newer : List Member) : Prop where
  full : r.introducer.recent.length = Introducer.capacity
  newer : r.introducer.recent.Sublist newer
  elsewhere : ∀ m ∈ r.introducer.recent, m.endpoint ≠ endpoint

/-- An endpoint is remembered, with nobody in front of its newest entry but newer joiners. -/
def Remembers (r : Rendezvous) (endpoint : Endpoint) (newer : List Member) : Prop :=
  ∃ front m back, r.introducer.recent = front ++ m :: back ∧ m.endpoint = endpoint ∧
    front.Sublist newer ∧ ∀ n ∈ front, n.endpoint ≠ endpoint

end Rendezvous

open Introducer Rendezvous

/-! ### One search -/

/-- Why the introducer passes a candidate over: it is an earlier incarnation of the joiner, or did
not accept the connection. -/
def PassedOver (accepts : Listening) (joining : Member) (start stop : Nat) (m : Member) : Prop :=
  m.endpoint = joining.endpoint ∨
    ∃ t, start ≤ t ∧ t < stop ∧ accepts t m.endpoint = false

/-- A search leaves of a list what it does not pass over, and perhaps more. -/
def Leaves (accepts : Listening) (joining : Member) (start stop : Nat)
    (before after : List Member) : Prop :=
  ∃ kept : Member → Bool, after = before.filter kept ∧
    ∀ m, kept m = false → PassedOver accepts joining start stop m

section Search

variable {accepts : Listening} {joining earlier m : Member} {start mid stop now since : Nat}

theorem PassedOver.mono (h : PassedOver accepts joining mid stop m) (hle : start ≤ mid) :
    PassedOver accepts joining start stop m :=
  h.imp_right fun ⟨t, hstart, ht⟩ => ⟨t, Nat.le_trans hle hstart, ht⟩

theorem Faithful.mono (h : Faithful accepts stop m since) (hle : now ≤ stop) :
    Faithful accepts now m since :=
  fun t hsince ht => h t hsince (Nat.lt_of_lt_of_le ht hle)

/-- Whoever has joined before the search and is faithful to its end does accept the connection. -/
theorem PassedOver.endpoint_eq (h : PassedOver accepts joining start stop m)
    (hm : m.endpoint = earlier.endpoint) (hsince : since ≤ start)
    (hfaithful : Faithful accepts stop earlier since) : earlier.endpoint = joining.endpoint := by
  obtain hsame | ⟨t, hstart, hstop, hrefused⟩ := h
  · exact hm ▸ hsame
  · have haccepts := hfaithful t (Nat.le_trans hsince hstart) hstop
    rw [← hm, hrefused] at haccepts
    cases haccepts

theorem Leaves.refl (accepts : Listening) (joining : Member) (start stop : Nat)
    (recent : List Member) : Leaves accepts joining start stop recent recent :=
  ⟨fun _ => true, (List.filter_eq_self.mpr fun _ _ => rfl).symm, nofun⟩

theorem Leaves.mono {before after : List Member}
    (h : Leaves accepts joining mid stop before after) (hle : start ≤ mid) :
    Leaves accepts joining start stop before after :=
  h.imp fun _ hkept => ⟨hkept.1, fun m hm => (hkept.2 m hm).mono hle⟩

theorem Leaves.of_forget {i : Introducer} {after : List Member}
    (hpassed : PassedOver accepts joining start stop m)
    (h : Leaves accepts joining start stop (i.forget m).recent after) :
    Leaves accepts joining start stop i.recent after := by
  obtain ⟨kept, hafter, hkept⟩ := h
  refine ⟨fun n => kept n && decide (n ≠ m), hafter.trans List.filter_filter, fun n hn => ?_⟩
  obtain hn | hn := Bool.and_eq_false_iff.mp hn
  · exact hkept n hn
  · obtain rfl : n = m := by simpa using hn
    exact hpassed

theorem search_incarnation {candidate : Member} (h : candidate.sameEndpoint joining)
    (rest : List Member) (i : Introducer) :
    search (ask accepts) joining (candidate :: rest) i =
      search (ask accepts) joining rest (i.forget candidate) := by
  simp only [search, if_pos h]

theorem search_other {candidate : Member} (h : ¬ candidate.sameEndpoint joining)
    (rest : List Member) (i : Introducer) (start : Nat) :
    (search (ask accepts) joining (candidate :: rest) i).run start =
      if accepts start candidate.endpoint then ((i, some candidate), start + 1)
      else (search (ask accepts) joining rest (i.forget candidate)).run (start + 1) := by
  simp only [search, if_neg h]
  change (if accepts start candidate.endpoint then pure (i, some candidate)
    else search (ask accepts) joining rest (i.forget candidate) : StateM Nat _).run (start + 1) = _
  split <;> rfl

/-- A search takes time, nobody is forgotten unless passed over, and if nobody is found then all
were. -/
theorem search_spec (accepts : Listening) (joining : Member) (candidates : List Member) :
    ∀ (i : Introducer) (start : Nat),
      let r := (search (ask accepts) joining candidates i).run start
      start ≤ r.2 ∧ Leaves accepts joining start r.2 i.recent r.1.1.recent ∧
      (r.1.2 = none → ∀ m ∈ candidates, PassedOver accepts joining start r.2 m) := by
  induction candidates with
  | nil =>
    intro i start
    exact ⟨Nat.le_refl _, .refl .., fun _ => nofun⟩
  | cons candidate rest ih =>
    intro i start
    -- What is left to do once the candidate is passed over, at `mid`.
    have hforget (mid : Nat) (hle : start ≤ mid)
        (hpassed : ∀ stop, mid ≤ stop → PassedOver accepts joining start stop candidate) :
        let r := (search (ask accepts) joining rest (i.forget candidate)).run mid
        start ≤ r.2 ∧ Leaves accepts joining start r.2 i.recent r.1.1.recent ∧
        (r.1.2 = none → ∀ m ∈ candidate :: rest, PassedOver accepts joining start r.2 m) := by
      intro r
      obtain ⟨hmid, hleaves, hnone⟩ := ih (i.forget candidate) mid
      refine ⟨Nat.le_trans hle hmid, (hleaves.mono hle).of_forget (hpassed r.2 hmid), ?_⟩
      intro hr m hm
      obtain rfl | hm := List.mem_cons.mp hm
      · exact hpassed r.2 hmid
      · exact (hnone hr m hm).mono hle
    by_cases hsame : candidate.sameEndpoint joining
    · rw [search_incarnation hsame]
      exact hforget start (Nat.le_refl _) fun _ _ => .inl (by
        simpa [Member.sameEndpoint] using hsame)
    · rw [search_other hsame]
      cases haccepts : accepts start candidate.endpoint with
      | true => exact ⟨Nat.le_succ _, .refl .., nofun⟩
      | false =>
        exact hforget (start + 1) (Nat.le_succ _) fun stop hstop =>
          .inr ⟨start, Nat.le_refl _, hstop, haccepts⟩

end Search

/-! ### One call after the other -/

namespace Rendezvous

variable {accepts : Listening} {r : Rendezvous} {earlier : Member} {newer : List Member}
  {since : Nat}

/-- A call takes time. It remembers the joiner in front of what the search leaves; if it finds
nobody, it has passed all over. -/
theorem call_spec (accepts : Listening) (r : Rendezvous) (wait : Nat) (joining : Member) :
    let s := r.call accepts wait joining
    r.now ≤ s.1.now ∧
    (∃ left, Leaves accepts joining r.now s.1.now r.introducer.recent left ∧
      s.1.introducer.recent = (joining :: left).take capacity) ∧
    (s.2 = none → ∀ m ∈ r.introducer.recent, PassedOver accepts joining r.now s.1.now m) := by
  intro s
  obtain ⟨htime, hleaves, hnone⟩ :=
    search_spec accepts joining r.introducer.recent r.introducer (r.now + wait)
  have hstart : r.now ≤ r.now + wait := Nat.le_add_right _ _
  exact ⟨Nat.le_trans hstart htime, ⟨_, hleaves.mono hstart, rfl⟩,
    fun hs m hm => (hnone hs m hm).mono hstart⟩

theorem now_le_run (accepts : Listening) (r : Rendezvous) (calls : List (Nat × Member)) :
    r.now ≤ (r.run accepts calls).now := by
  induction calls generalizing r with
  | nil => exact Nat.le_refl _
  | cons c calls ih => exact Nat.le_trans (call_spec accepts r c.1 c.2).1 (ih _)

theorem remembers_call (accepts : Listening) (r : Rendezvous) (wait : Nat) (joining : Member) :
    (r.call accepts wait joining).1.Remembers joining.endpoint [] := by
  obtain ⟨-, ⟨left, -, hrecent⟩, -⟩ := call_spec accepts r wait joining
  exact ⟨[], joining, _, hrecent, rfl, .slnil, nofun⟩

/-- An entry that the list has room for is still there when the list is cut. One that it has not
leaves a list full of those in front of it. -/
theorem remembers_or_crowded {front back : List Member} {m : Member}
    (hrecent : r.introducer.recent = (front ++ m :: back).take capacity)
    (hm : m.endpoint = earlier.endpoint) (hfront : front.Sublist newer)
    (helsewhere : ∀ n ∈ front, n.endpoint ≠ earlier.endpoint) :
    r.Remembers earlier.endpoint newer ∨ r.Crowded earlier.endpoint newer := by
  by_cases hroom : front.length < capacity
  · obtain ⟨k, hk⟩ := Nat.exists_eq_add_of_lt hroom
    rw [List.take_append, List.take_of_length_le (Nat.le_of_lt hroom),
      show capacity - front.length = k + 1 by omega, List.take_succ_cons] at hrecent
    exact .inl ⟨front, m, _, hrecent, hm, hfront, helsewhere⟩
  · have hfull : capacity ≤ front.length := Nat.le_of_not_lt hroom
    rw [List.take_append_of_le_length hfull] at hrecent
    refine .inr ⟨?_, ?_, fun n hn => helsewhere n (List.mem_of_mem_take (hrecent ▸ hn))⟩
    · rw [hrecent, List.length_take, Nat.min_eq_left hfull]
    · exact hrecent ▸ (List.take_sublist _ _).trans hfront

/-- The entry of a faithful joiner moves back by one place with each call, unless the joiner comes
back to its endpoint. Only a list full of newer ones pushes it out. -/
theorem Remembers.call (h : r.Remembers earlier.endpoint newer) (wait : Nat) (joining : Member)
    (hsince : since ≤ r.now)
    (hfaithful : Faithful accepts (r.call accepts wait joining).1.now earlier since) :
    (r.call accepts wait joining).1.Remembers earlier.endpoint (joining :: newer) ∨
      (r.call accepts wait joining).1.Crowded earlier.endpoint (joining :: newer) := by
  by_cases hback : joining.endpoint = earlier.endpoint
  · obtain ⟨front, m, back, hrecent, hm, hfront, helsewhere⟩ :=
      remembers_call accepts r wait joining
    exact .inl ⟨front, m, back, hrecent, hm.trans hback, hfront.trans (List.nil_sublist _),
      fun n hn => hback ▸ helsewhere n hn⟩
  · obtain ⟨front, m, back, hrecent, hm, hfront, helsewhere⟩ := h
    obtain ⟨-, ⟨left, ⟨kept, hleft, hkept⟩, hnext⟩, -⟩ := call_spec accepts r wait joining
    have hmkept : kept m = true := eq_true_of_ne_false fun hpassed =>
      hback ((hkept m hpassed).endpoint_eq hm hsince hfaithful).symm
    rw [hleft, hrecent, List.filter_append, List.filter_cons_of_pos hmkept,
      ← List.cons_append] at hnext
    refine remembers_or_crowded hnext hm ((List.filter_sublist.trans hfront).cons_cons joining) ?_
    intro n hn
    obtain rfl | hn := List.mem_cons.mp hn
    · exact hback
    · exact helsewhere n (List.mem_filter.mp hn).1

/-- A joiner that is remembered and faithful is found by everybody who comes from elsewhere. -/
theorem Remembers.found (h : r.Remembers earlier.endpoint newer) (wait : Nat) {joining : Member}
    (hother : earlier.endpoint ≠ joining.endpoint) (hsince : since ≤ r.now)
    (hfaithful : Faithful accepts (r.call accepts wait joining).1.now earlier since) :
    (r.call accepts wait joining).2 ≠ none := by
  intro hnone
  obtain ⟨front, m, back, hrecent, hm, -, -⟩ := h
  obtain ⟨-, -, hpassed⟩ := call_spec accepts r wait joining
  have hmem : m ∈ r.introducer.recent := hrecent ▸ List.mem_append_cons_self
  exact hother ((hpassed hnone m hmem).endpoint_eq hm hsince hfaithful)

/-- However many call, a faithful joiner is remembered until newer ones fill the list. -/
theorem Remembers.run (h : r.Remembers earlier.endpoint newer) (calls : List (Nat × Member))
    (hsince : since ≤ r.now)
    (hfaithful : Faithful accepts (r.run accepts calls).now earlier since) :
    (∃ newer', (r.run accepts calls).Remembers earlier.endpoint newer') ∨
      ∃ first rest, calls = first ++ rest ∧
        (r.run accepts first).Crowded earlier.endpoint ((first.map Prod.snd).reverse ++ newer) := by
  induction calls generalizing r newer with
  | nil => exact .inl ⟨newer, h⟩
  | cons c calls ih =>
    have hnow := (call_spec accepts r c.1 c.2).1
    obtain hkept | hcrowded := h.call c.1 c.2 hsince
      (hfaithful.mono (now_le_run accepts (r.call accepts c.1 c.2).1 calls))
    · refine (ih hkept (Nat.le_trans hsince hnow) hfaithful).imp_right ?_
      rintro ⟨first, rest, rfl, hcrowded⟩
      rw [List.append_cons, ← List.reverse_cons] at hcrowded
      exact ⟨c :: first, rest, rfl, hcrowded⟩
    · exact .inr ⟨[c], calls, rfl, hcrowded⟩

end Rendezvous

/-- **A group is founded only if the faithful are crowded out.** Whoever has called before and calls
later, in whatever order and however long apart, and whenever whichever endpoints accept
connections: if an earlier joiner at another endpoint has accepted connections ever since it joined,
a joiner is handed nobody only if at some moment since then the introducer remembered as many as it
can, all of them newer and at other endpoints. How often they have called does not matter. -/
theorem founded_only_if_crowded (accepts : Listening) (r : Rendezvous)
    (later : List (Nat × Member)) (wait wait' : Nat) (earlier joining : Member)
    (hother : earlier.endpoint ≠ joining.endpoint) :
    let joined := (r.call accepts wait earlier).1
    let last := (joined.run accepts later).call accepts wait' joining
    last.2 = none → Faithful accepts last.1.now earlier joined.now →
      ∃ newer rest, later = newer ++ rest ∧
        (joined.run accepts newer).Crowded earlier.endpoint (newer.map Prod.snd).reverse := by
  intro joined last hnone hfaithful
  have hnow : joined.now ≤ (joined.run accepts later).now := now_le_run accepts joined later
  have hkept : joined.Remembers earlier.endpoint [] := remembers_call accepts r wait earlier
  obtain ⟨newer, hremembers⟩ | ⟨newer, rest, hlater, hcrowded⟩ :=
    hkept.run later (Nat.le_refl _) (hfaithful.mono (call_spec accepts _ wait' joining).1)
  · exact absurd hnone (hremembers.found wait' hother hnow hfaithful)
  · exact ⟨newer, rest, hlater, by simpa using hcrowded⟩

/-- The first joiner accepts connections for ever. The second is gone at once and makes room, so
that sixteen more have to join until the first is forgotten. -/
theorem founded_past_sixteen_newer :
    let accepts : Listening := fun t e => e.port == 1 || (e.port != 2 && t < 18)
    let member (port : UInt16) : Member := ⟨"10.0.0.1", port, 1⟩
    let joined := (({} : Rendezvous).call accepts 0 (member 1)).1
    let later := (List.range 17).map fun i => (0, member (.ofNat (i + 2)))
    let last := (joined.run accepts later).call accepts 0 (member 19)
    member 1 ∈ (joined.run accepts (later.take 16)).introducer.recent ∧
    last.2 = none ∧ Faithful accepts last.1.now (member 1) joined.now ∧
    ∃ newer rest, later = newer ++ rest ∧
      (joined.run accepts newer).Crowded (member 1).endpoint (newer.map Prod.snd).reverse := by
  intro accepts member joined later last
  have hnone : last.2 = none := by decide +kernel
  have hother : (member 1).endpoint ≠ (member 19).endpoint := by decide +kernel
  have hcrowded := founded_only_if_crowded accepts {} later 0 0 (member 1) (member 19) hother
  exact ⟨by decide +kernel, hnone, fun _ _ _ => rfl, hcrowded hnone fun _ _ _ => rfl⟩

/-- The first joiner accepts connections for ever. Sixteen join after it and are gone afterwards.
The next joiner is handed nobody. -/
theorem founded_beside_forgotten :
    let accepts : Listening := fun t e => e.port == 1 || t < 16
    let member (port : UInt16) : Member := ⟨"10.0.0.1", port, 1⟩
    let joined := (({} : Rendezvous).call accepts 0 (member 1)).1
    let later := (List.range 16).map fun i => (0, member (.ofNat (i + 2)))
    let last := (joined.run accepts later).call accepts 0 (member 18)
    last.2 = none ∧ (member 1).endpoint ≠ (member 18).endpoint ∧
      Faithful accepts last.1.now (member 1) joined.now := by
  intro accepts member joined later last
  have hfaithful : Faithful accepts last.1.now (member 1) joined.now := fun _ _ _ => rfl
  exact ⟨by decide +kernel, by decide +kernel, hfaithful⟩

/-- One that comes back sixteen times, and is gone then, crowds nobody out. -/
example :
    let accepts : Listening := fun t e => e.port == 1 || t < 16
    let member (port : UInt16) (joinedAt : UInt64) : Member := ⟨"10.0.0.1", port, joinedAt⟩
    let calls := (0, member 1 1) :: (List.range 16).map fun i => (0, member 2 (.ofNat i))
    ((({} : Rendezvous).run accepts calls).call accepts 16 (member 3 1)).2 = some (member 1 1) := by
  decide +kernel

end ReplicaRing
