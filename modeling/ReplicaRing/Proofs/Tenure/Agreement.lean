import Mathlib.Data.List.Nodup
import ReplicaRing.Proofs.Directory.Holders
import ReplicaRing.Proofs.StoredNames
import ReplicaRing.Proofs.Tenure.Receptions

/-!
# Replicas agree

As long as nothing is deleted, a stored name belongs to one put: numbers are not given out twice,
and a name says its file and its number. What a store has under a name is what was put, since pushes
bring nothing else and copies come from stores. Whoever says that a member stores a name, be it the
directory, a client, a report or the answer to an order, says the truth, and stays right.
-/
namespace ReplicaRing.Tenure

variable {t : Tenure} {m : Member} {name : String}

/-- What was put under a name. -/
def Belongs (puts : List Put) (name : String) (content : Content) : Prop :=
  ∃ put ∈ puts, put.storedName = name ∧ put.content = content

/-- The numbers of the puts come from the records. -/
structure Numbered (directory : Directory) (puts : List Put) : Prop where
  covered : ∀ put ∈ puts, put.version ≤ (directory.recordOf put.file).highestAssigned
  counted : ∀ file, (directory.recordOf file).highestAssigned.toNat ≤
    puts.countP (·.file = file)
  distinct : (puts.map fun put => (put.file, put.version)).Nodup

/-- What holds at any time of a tenure without deletions. -/
structure Agrees (t : Tenure) : Prop where
  brings : Brings (Belongs t.puts) t.stores (receptions t.pushes t.copies)
  numbered : Numbered t.coordinator.directory t.puts
  recorded : ∀ file version m, t.coordinator.directory.Holds file version m →
    StoredName.ofVersion file version ∈ (t.stores.store m).files
  confirmed : ∀ s ∈ t.sendings, s.put ∈ t.puts ∧
    ∀ m ∈ s.storedOn, s.put.storedName ∈ (t.stores.store m).files
  reported : ∀ r ∈ t.reports, ∃ put ∈ t.puts, ∃ nodes,
    r = Client.outcome put.file put.version nodes ∧
      ∀ m ∈ nodes, put.storedName ∈ (t.stores.store m).files
  answered : ∀ order kind, (order, kind) ∈ t.answers → kind = .ok ∨ kind = .fileExists →
    order.storedName ∈ (t.stores.store order.target).files
  deletions : t.deletions = []

/-! ### Numbers -/

/-- An operation that hands out no number above those of the puts. -/
theorem Numbered.apply {d : Directory} {puts : List Put} (h : Numbered d puts)
    {op : Directory.Operation} (hop : ∀ file, op.removes file = false)
    (hhanded : ∀ file v, d.handed? file op = some v → v ≤ (d.recordOf file).highestAssigned) :
    Numbered (d.apply op) puts := by
  have hsame (file : String) :
      ((d.apply op).recordOf file).highestAssigned = (d.recordOf file).highestAssigned := by
    rw [Directory.highestAssigned_apply_eq d (hop file)]
    cases hv : d.handed? file op with
    | none => rfl
    | some v => exact max_eq_left (hhanded file v hv)
  exact ⟨fun put hput => hsame put.file ▸ h.covered put hput,
    fun file => hsame file ▸ h.counted file, h.distinct⟩

/-- A put gets a number that no put of its file has. -/
theorem Numbered.reserve {d : Directory} {puts : List Put} (h : Numbered d puts) {put : Put}
    (hversion : put.version = d.nextVersion put.file)
    (hroom : (puts ++ [put]).countP (·.file = put.file) < UInt64.size) :
    Numbered (d.reserve put.file).1 (puts ++ [put]) := by
  have hcount (file : String) : (puts ++ [put]).countP (·.file = file) =
      puts.countP (·.file = file) + if put.file = file then 1 else 0 := by
    simp [List.countP_append, List.countP_cons]
  rw [hcount, if_pos rfl] at hroom
  have hnext : (d.recordOf put.file).highestAssigned.toNat + 1 < UInt64.size :=
    (Nat.succ_le_succ (h.counted put.file)).trans_lt hroom
  have hlt {v : UInt64} (hv : v ≤ (d.recordOf put.file).highestAssigned) : v < put.version :=
    hversion ▸ Directory.lt_nextVersion hnext hv
  have hnow (file : String) : ((d.reserve put.file).1.recordOf file).highestAssigned =
      if put.file = file then put.version else (d.recordOf file).highestAssigned := by
    have hop : (Directory.Operation.reserve put.file).removes file = false := rfl
    have happly := Directory.highestAssigned_apply_eq d hop
    rw [Directory.apply] at happly
    rw [happly, Directory.handed?]
    split
    · subst_vars
      rw [Option.elim_some, Directory.reserve_version, ← hversion]
      exact max_eq_right (hlt le_rfl).le
    · rfl
  refine ⟨?_, fun file => ?_, ?_⟩
  · simp only [List.mem_append, List.mem_singleton]
    rintro other (hold | rfl)
    · rw [hnow]
      split
      · exact (hlt (Eq.symm ‹_› ▸ h.covered other hold)).le
      · exact h.covered other hold
    · rw [hnow, if_pos rfl]
  · rw [hnow, hcount]
    split
    · subst_vars
      rw [hversion, Directory.nextVersion, UInt64.toNat_add, UInt64.toNat_one,
        Nat.mod_eq_of_lt hnext]
      exact Nat.succ_le_succ (h.counted put.file)
    · exact h.counted file
  · rw [List.map_append, List.nodup_append]
    refine ⟨h.distinct, List.pairwise_singleton _ _, fun key hkey other hother heq => ?_⟩
    obtain ⟨earlier, hearlier, rfl⟩ := List.mem_map.mp hkey
    cases List.mem_singleton.mp hother
    obtain ⟨hfile, hsame⟩ := Prod.mk.inj heq
    have hcovered := h.covered earlier hearlier
    rw [hfile, hsame] at hcovered
    exact absurd (hlt hcovered) (lt_irrefl _)

/-! ### The coordinator -/

theorem plan_eq (t : Tenure) (remote : String) (content : Content) :
    let file := RemoteName.flatten remote
    let directory := t.coordinator.directory
    let version := directory.nextVersion file
    let targets := t.coordinator.placement.putTargets (StoredName.ofVersion file version) t.members
    t.plan remote content =
      if targets.isEmpty then t
      else
        { t with
          coordinator := { t.coordinator with directory := (directory.reserve file).1 }
          puts := t.puts ++ [⟨file, version, content⟩]
          sendings := t.sendings ++ [{ put := ⟨file, version, content⟩, targets }] } := by
  intro file directory version targets
  unfold Tenure.plan Coordinator.handle
  dsimp only [FileMessage.request]
  by_cases hnone : targets.isEmpty = true
  · have hput : t.coordinator.put t.members file = (t.coordinator, .fail) := if_pos hnone
    rw [if_pos hnone, hput]
    rfl
  · have hput : t.coordinator.put t.members file =
        ({ t.coordinator with directory := (directory.reserve file).1 },
          { FileMessage.ok with file, nodes := targets, version := some version }) := if_neg hnone
    rw [if_neg hnone, hput]
    rfl

/-- A report confirms its version, or abandons it. -/
theorem handle_outcome (c : Coordinator) (members : List Member) (file : String)
    (version : UInt64) (nodes : List Member) :
    (c.handle members (Client.outcome file version nodes)).1 =
      { c with
        directory := c.directory.apply <|
          if nodes.isEmpty then .abandon file version
          else .confirm file version (.ofList nodes compare) } := by
  unfold Client.outcome
  cases nodes.isEmpty with
  | true => rfl
  | false => rfl

/-! ### One event -/

theorem mem_modify {α : Type} {l : List α} {i : Nat} {f : α → α} {x : α} (h : x ∈ l.modify i f) :
    x ∈ l ∨ ∃ y ∈ l, x = f y := by
  obtain ⟨j, hj⟩ := List.mem_iff_getElem?.mp h
  rw [List.getElem?_modify] at hj
  cases hl : l[j]? with
  | none =>
    rw [hl] at hj
    cases hj
  | some y =>
    rw [hl] at hj
    have hy := List.mem_of_getElem? hl
    cases hj
    split
    · exact .inr ⟨y, hy, rfl⟩
    · exact .inl hy

namespace Agrees

theorem plan (h : t.Agrees) (remote : String) (content : Content)
    (hroom : ∀ file, (t.plan remote content).puts.countP (·.file = file) < UInt64.size) :
    (t.plan remote content).Agrees := by
  rw [plan_eq] at hroom ⊢
  split
  · exact h
  · rename_i hsome
    rw [if_neg hsome] at hroom
    have hgrows {put other : Put} (hput : put ∈ t.puts) : put ∈ t.puts ++ [other] :=
      List.mem_append_left _ hput
    refine { h with
      brings := h.brings.mono ?_
      numbered := h.numbered.reserve rfl (hroom _)
      recorded := fun file version m holds => ?_
      confirmed := fun s hs => ?_
      reported := fun r hr => ?_ }
    · rintro name content ⟨put, hput, hbelongs⟩
      exact ⟨put, hgrows hput, hbelongs⟩
    · obtain holds | hadds := Directory.holds_of_apply (.reserve _) holds
      · exact h.recorded file version m holds
      · cases hadds
    · obtain hold | hnew := List.mem_append.mp hs
      · exact ⟨hgrows (h.confirmed s hold).1, (h.confirmed s hold).2⟩
      · cases List.mem_singleton.mp hnew
        exact ⟨List.mem_append_right _ List.mem_cons_self, List.forall_mem_nil _⟩
    · obtain ⟨put, hput, hrest⟩ := h.reported r hr
      exact ⟨put, hgrows hput, hrest⟩

theorem missTarget (h : t.Agrees) (i : Nat) (target : Member) : (t.missTarget i target).Agrees := by
  refine { h with confirmed := fun s hs => ?_ }
  obtain hold | ⟨s, hold, rfl⟩ := mem_modify hs
  · exact h.confirmed s hold
  · exact h.confirmed s hold

/-- Stores work, and what they have they keep. -/
theorem work {w : Stores} {pushes : List Push} {copies : List Copying} (h : t.Agrees)
    (hbrings : Brings (Belongs t.puts) w (receptions pushes copies))
    (hkeep : ∀ m name, name ∈ (t.stores.store m).files → name ∈ (w.store m).files) :
    Agrees { t with stores := w, pushes, copies } where
  brings := hbrings
  numbered := h.numbered
  recorded file version m holds := hkeep m _ (h.recorded file version m holds)
  confirmed s hs := ⟨(h.confirmed s hs).1, fun m hm => hkeep m _ ((h.confirmed s hs).2 m hm)⟩
  reported r hr :=
    let ⟨put, hput, nodes, houtcome, hnodes⟩ := h.reported r hr
    ⟨put, hput, nodes, houtcome, fun m hm => hkeep m _ (hnodes m hm)⟩
  answered order kind ha hkind := hkeep _ _ (h.answered order kind ha hkind)
  deletions := h.deletions

theorem beginPush (h : t.Agrees) (i : Nat) (target : Member) : (t.beginPush i target).Agrees := by
  unfold Tenure.beginPush
  split
  · exact h
  · rename_i sending hsending
    dsimp only
    split
    · have hmiss := h.missTarget i target
      obtain hrefused | ⟨hfree, haccepted, admission, w, hact, hworks, hsound, -, hreceiving⟩ :=
        h.brings.sound.beginPut target sending.put.storedName
      · rw [hrefused]
        exact hmiss
      · have hkey := h.brings.free hfree
        have hbrings := h.brings.works hworks hsound haccepted hkey
        have hput := (h.confirmed _ (List.mem_of_getElem? hsending)).1
        rw [hact]
        cases admission with
        | refused => exact hmiss.work hbrings fun _ _ => hworks.mem_files
        | failed fault => exact hmiss.work hbrings fun _ _ => hworks.mem_files
        | receiving inflow =>
          obtain ⟨hawaits, hreceives⟩ := hreceiving inflow rfl
          refine hmiss.work (Brings.perm ?_ perm_append_push.symm) fun _ _ => hworks.mem_files
          exact hbrings.cons hkey hawaits ⟨⟨_, hput, rfl, rfl⟩, [], hreceives, rfl⟩
    · exact h

theorem arrive (h : t.Agrees) (i count : Nat) : (t.arrive i count).Agrees := by
  unfold Tenure.arrive
  split
  · exact h
  · rename_i push hpush
    have hbrings := h.brings.perm (perm_push hpush)
    obtain ⟨hbelongs, received, hreceives, hbytes⟩ := hbrings.fares _ List.mem_cons_self
    obtain ⟨hmore, htouch⟩ := hreceives.collect (push.coming.take count)
    have hadvances := (hbrings.awaits _ List.mem_cons_self).advances h.brings.sound
      (htouch.mono (by simp [Reception.key]))
    refine h.work (Brings.perm ?_ (perm_set_push hpush _).symm) fun _ _ => hadvances.works.mem_files
    refine hbrings.head rfl hadvances.works hadvances.sound hadvances.awaits
      ⟨hbelongs, _, hmore, ?_⟩
    rw [List.append_assoc, List.take_append_drop, hbytes]

/-- A client hears the truth. -/
theorem confirm (h : t.Agrees) {put : Put} {target : Member}
    (hstored : put.storedName ∈ (t.stores.store target).files) : (t.confirm put target).Agrees := by
  refine { h with confirmed := fun s hs => ?_ }
  obtain ⟨s, hold, rfl⟩ := List.mem_map.mp hs
  obtain ⟨hput, htrue⟩ := h.confirmed s hold
  split
  · subst_vars
    refine ⟨hput, fun m hm => ?_⟩
    obtain hm | hm := List.mem_append.mp hm
    · exact htrue m hm
    · cases List.mem_singleton.mp hm
      exact hstored
  · exact ⟨hput, htrue⟩

theorem endPush (h : t.Agrees) (i : Nat) (heard : Bool) : (t.endPush i heard).Agrees := by
  unfold Tenure.endPush
  split
  · exact h
  · rename_i push hpush
    have hbrings := h.brings.perm (perm_push hpush)
    obtain ⟨hbelongs, received, hreceives, hbytes⟩ := hbrings.fares _ List.mem_cons_self
    obtain ⟨answer, w, hact, hworks, hsound, hstored⟩ :=
      (hbrings.awaits _ List.mem_cons_self).finishPut h.brings.sound hreceives hbelongs hbytes
    have hwork := h.work (hbrings.tail hworks hsound) fun _ _ => hworks.mem_files
    have hfinish : t.stores.act push.target
        (·.finishPut · push.request.file push.request.size push.inflow) = (answer, w) := hact
    dsimp only
    rw [hfinish]
    split
    · exact hwork.confirm (hstored (Bool.and_eq_true_iff.mp ‹_›).2)
    · exact hwork

theorem report (h : t.Agrees) (i : Nat) : (t.report i).Agrees := by
  unfold Tenure.report
  split
  · exact h
  · rename_i put targets storedOn hsending
    split
    · obtain ⟨hput, hstored⟩ := h.confirmed _ (List.mem_of_getElem? hsending)
      refine { h with
        confirmed := fun s hs => h.confirmed s (List.mem_of_mem_eraseIdx hs)
        reported := fun r hr => ?_ }
      obtain hold | hnew := List.mem_append.mp hr
      · exact h.reported r hold
      · cases List.mem_singleton.mp hnew
        exact ⟨put, hput, _, rfl, fun m hm => hstored m (List.mem_mergeSort.mp hm)⟩
    · exact h

/-- The directory changes as an operation says that hands out no number, and records the truth. -/
theorem record (h : t.Agrees) (op : Directory.Operation) (hop : ∀ file, op.removes file = false)
    (hhanded : ∀ file v, t.coordinator.directory.handed? file op = some v →
      v ≤ (t.coordinator.directory.recordOf file).highestAssigned)
    (hadds : ∀ file v m, op.Adds file v m →
      StoredName.ofVersion file v ∈ (t.stores.store m).files) :
    Agrees { t with
      coordinator := { t.coordinator with directory := t.coordinator.directory.apply op } } :=
  { h with
    numbered := h.numbered.apply hop hhanded
    recorded := fun file version m holds =>
      (Directory.holds_of_apply op holds).elim (h.recorded file version m) (hadds file version m) }

theorem deliverReport (h : t.Agrees) (i : Nat) : (t.deliverReport i).Agrees := by
  unfold Tenure.deliverReport
  split
  · exact h
  · rename_i report hreport
    obtain ⟨put, hput, nodes, rfl, hstored⟩ := h.reported _ (List.mem_of_getElem? hreport)
    rw [handle_outcome]
    have hrecord := h.record (if nodes.isEmpty then .abandon put.file put.version
      else .confirm put.file put.version (.ofList nodes compare)) ?_ ?_ ?_
    · exact { hrecord with reported := fun r hr => h.reported r (List.mem_of_mem_eraseIdx hr) }
    · intro file
      split <;> rfl
    · intro file v hv
      split at hv
      · cases hv
      · unfold Directory.handed? at hv
        dsimp only at hv
        split at hv
        · cases hv
          rename_i hfile
          exact hfile.1 ▸ h.numbered.covered put hput
        · cases hv
    · intro file v m hadds
      split at hadds
      · cases hadds
      · obtain ⟨rfl, rfl, hm⟩ := hadds
        exact hstored m (List.contains_iff_mem.mp (Std.ExtTreeSet.mem_ofList.mp hm))

theorem repair (h : t.Agrees) : t.repair.Agrees :=
  { h.record (.prune (t.members.contains ·)) (fun _ => rfl) nofun nofun with }

/-- The answer to an order is true. -/
theorem answer (h : t.Agrees) {order : CopyOrder} {kind : FileKind}
    (hstored : kind = .ok ∨ kind = .fileExists →
      order.storedName ∈ (t.stores.store order.target).files) :
    Agrees { t with answers := t.answers ++ [(order, kind)] } := by
  refine { h with answered := fun order' kind' ha hkind => ?_ }
  obtain hold | hnew := List.mem_append.mp ha
  · exact h.answered order' kind' hold hkind
  · cases List.mem_singleton.mp hnew
    exact hstored hkind

/-- A copy that was the only one to bring its name has gone on. -/
theorem proceed {order : CopyOrder} {outcome : Store.CopyProgress × Stores × Bytes}
    (h : t.Agrees) (haccepted : Store.accepts order.storedName = true)
    (hkey : (order.target, order.storedName) ∉
      (receptions t.pushes t.copies).map Reception.key)
    (hstands : Stores.Stands (Belongs t.puts) t.stores order.target order.storedName outcome) :
    (t.proceed order outcome).Agrees := by
  obtain ⟨progress, w, coming⟩ := outcome
  have hbrings := h.brings.works hstands.works hstands.sound haccepted hkey
  cases progress with
  | answered kind =>
    exact (h.work hbrings fun _ _ => hstands.works.mem_files).answer (hstands.answered kind rfl)
  | waiting others =>
    obtain ⟨hawaits, hears⟩ := hstands.waiting others rfl
    refine h.work (Brings.perm ?_ perm_append_copy.symm) fun _ _ => hstands.works.mem_files
    exact hbrings.cons (r := .copy { order, others, coming }) hkey hawaits hears

theorem beginCopy (h : t.Agrees) (i : Nat) (view : View) : (t.beginCopy i view).Agrees := by
  unfold Tenure.beginCopy
  split
  · exact h
  · rename_i order horder
    have hrest : Agrees { t with orders := t.orders.eraseIdx i } := { h with }
    obtain ⟨kind, hrun, hstored⟩ | ⟨hfree, haccepted, hstands⟩ :=
      h.brings.sound.stands_copy order.target order.storedName order.holders view
        view.arrangement []
    · dsimp only
      rw [hrun]
      exact hrest.answer hstored
    · exact hrest.proceed haccepted (h.brings.free hfree) hstands

theorem hear (h : t.Agrees) (i count : Nat) : (t.hear i count).Agrees := by
  unfold Tenure.hear
  split
  · exact h
  · rename_i copy hcopy
    have hbrings := h.brings.perm (perm_copy hcopy)
    have hears : Stores.Hears (Belongs t.puts) t.stores copy.order.target copy.order.storedName
        copy.pull (copy.coming.take count ++ copy.coming.drop count) := by
      rw [List.take_append_drop]
      exact hbrings.fares _ List.mem_cons_self
    have hawaits : t.stores.Awaits copy.order.target copy.order.storedName :=
      hbrings.awaits _ List.mem_cons_self
    obtain ⟨d, pull, hhear, hadvances, hears'⟩ := hawaits.hear h.brings.sound hears
    dsimp only
    rw [hhear]
    refine h.work (Brings.perm ?_ (perm_set_copy hcopy _).symm) fun _ _ => hadvances.works.mem_files
    exact hbrings.head rfl hadvances.works hadvances.sound hadvances.awaits hears'

theorem endPull (h : t.Agrees) (i : Nat) (closed : Bool) (view : View) :
    (t.endPull i closed view).Agrees := by
  unfold Tenure.endPull
  split
  · exact h
  · rename_i copy hcopy
    have hbrings := h.brings.perm (perm_copy hcopy)
    have hawaits := hbrings.awaits _ List.mem_cons_self
    have hstands := hawaits.stands_endHolder h.brings.sound
      (hbrings.fares _ List.mem_cons_self) closed view []
    have hrest : Agrees { t with copies := t.copies.eraseIdx i } :=
      h.work (hbrings.tail (.refl _ _ _) h.brings.sound) fun _ _ => id
    exact hrest.proceed hawaits.accepted hbrings.key_not_mem hstands

theorem settle (h : t.Agrees) (i : Nat) : (t.settle i).Agrees := by
  unfold Tenure.settle
  split
  · exact h
  · rename_i order kind hanswer
    have hstored := h.answered order kind (List.mem_of_getElem? hanswer)
    have hrest : Agrees { t with answers := t.answers.eraseIdx i } :=
      { h with answered := fun _ _ ha => h.answered _ _ (List.mem_of_mem_eraseIdx ha) }
    unfold Coordinator.settleOrder
    split
    · rename_i hkind
      refine hrest.record (.addHolder order.file order.version order.target) (fun _ => rfl) nofun ?_
      rintro file v m ⟨rfl, rfl, rfl⟩
      exact hstored (by simpa using hkind)
    · exact hrest

theorem step (h : t.Agrees) {e : Event} (he : e.deletes = false)
    (hroom : ∀ file, (t.step e).puts.countP (·.file = file) < UInt64.size) : (t.step e).Agrees := by
  cases e with
  | plan remote content => exact h.plan remote content hroom
  | beginPush i target => exact h.beginPush i target
  | missTarget i target => exact h.missTarget i target
  | arrive i count => exact h.arrive i count
  | endPush i heard => exact h.endPush i heard
  | report i => exact h.report i
  | deliverReport i => exact h.deliverReport i
  | loseReport i =>
    exact { h with reported := fun r hr => h.reported r (List.mem_of_mem_eraseIdx hr) }
  | rearrange arrangement => exact { h with }
  | repair => exact h.repair
  | beginCopy i view => exact h.beginCopy i view
  | loseOrder i => exact { h with }
  | hear i count => exact h.hear i count
  | endPull i closed view => exact h.endPull i closed view
  | settle i => exact h.settle i
  | loseAnswer i =>
    exact { h with answered := fun _ _ ha => h.answered _ _ (List.mem_of_mem_eraseIdx ha) }
  | depart m => exact { h with }
  | delete remote => cases he
  | serveDeletion i =>
    have hnone : t.serveDeletion i = t := by
      unfold Tenure.serveDeletion
      rw [h.deletions]
      rfl
    rw [Tenure.step, hnone]
    exact h
  | loseDeletion i => exact { h with deletions := by rw [Tenure.step, h.deletions]; rfl }

end Agrees

/-! ### Runs -/

theorem puts_proceed (order : CopyOrder) (outcome : Store.CopyProgress × Stores × Bytes) :
    (t.proceed order outcome).puts = t.puts := by
  unfold proceed
  split <;> rfl

/-- Only a plan adds a put. -/
theorem puts_step {e : Event} (he : ∀ remote content, e ≠ .plan remote content) :
    (t.step e).puts = t.puts := by
  cases e with
  | plan remote content => exact absurd rfl (he remote content)
  | beginPush i target =>
    change (t.beginPush i target).puts = t.puts
    unfold beginPush
    split
    · rfl
    · split
      · dsimp only
        split <;> rfl
      · rfl
  | endPush i heard =>
    change (t.endPush i heard).puts = t.puts
    unfold endPush
    split
    · rfl
    · dsimp only
      split <;> rfl
  | report i =>
    change (t.report i).puts = t.puts
    unfold report
    split
    · rfl
    · split <;> rfl
  | beginCopy i view =>
    change (t.beginCopy i view).puts = t.puts
    unfold beginCopy
    split
    · rfl
    · exact puts_proceed _ _
  | endPull i closed view =>
    change (t.endPull i closed view).puts = t.puts
    unfold endPull
    split
    · rfl
    · exact puts_proceed _ _
  | arrive i count =>
    change (t.arrive i count).puts = t.puts
    unfold arrive
    split <;> rfl
  | deliverReport i =>
    change (t.deliverReport i).puts = t.puts
    unfold deliverReport
    split <;> rfl
  | hear i count =>
    change (t.hear i count).puts = t.puts
    unfold hear
    split <;> rfl
  | settle i =>
    change (t.settle i).puts = t.puts
    unfold settle
    split <;> rfl
  | serveDeletion i =>
    change (t.serveDeletion i).puts = t.puts
    unfold serveDeletion
    split <;> rfl
  | missTarget | rearrange | repair | loseReport | loseOrder | loseAnswer | depart | delete
  | loseDeletion => rfl

/-- Puts are not forgotten. -/
theorem puts_prefix_step (t : Tenure) (e : Event) : t.puts <+: (t.step e).puts := by
  by_cases he : ∃ remote content, e = .plan remote content
  · obtain ⟨remote, content, rfl⟩ := he
    rw [step, plan_eq]
    split
    · exact List.prefix_refl _
    · exact List.prefix_append _ _
  · have hsame : (t.step e).puts = t.puts :=
      puts_step fun remote content heq => he ⟨remote, content, heq⟩
    simp only [hsame, List.prefix_refl]

theorem puts_prefix_run (t : Tenure) (events : List Event) : t.puts <+: (t.run events).puts := by
  induction events generalizing t with
  | nil => exact List.prefix_refl _
  | cons e events ih => exact (puts_prefix_step t e).trans (ih (t.step e))

theorem Agrees.run (h : t.Agrees) (events : List Event)
    (hdeletes : ∀ e ∈ events, e.deletes = false)
    (hroom : ∀ file, (t.run events).puts.countP (·.file = file) < UInt64.size) :
    (t.run events).Agrees := by
  induction events generalizing t with
  | nil => exact h
  | cons e events ih =>
    obtain ⟨he, hrest⟩ := List.forall_mem_cons.mp hdeletes
    refine ih (h.step he fun file => ?_) hrest hroom
    exact ((puts_prefix_run (t.step e) events).sublist.countP_le).trans_lt (hroom file)

theorem Starts.agrees (h : t.Starts) : t.Agrees where
  brings := by
    have hnone : receptions t.pushes t.copies = [] := by rw [h.pushes, h.copies]; rfl
    rw [hnone]
    refine ⟨⟨h.apart, h.tree, h.cancelled, fun m name hmem => ?_⟩, List.nodup_nil,
      List.forall_mem_nil _, List.forall_mem_nil _⟩
    rw [h.files] at hmem
    exact absurd hmem Std.ExtTreeSet.not_mem_empty
  numbered := by
    rw [h.directory, h.puts]
    exact ⟨List.forall_mem_nil _, fun _ => Nat.le_refl 0, List.nodup_nil⟩
  recorded file version m holds := by
    rw [h.directory] at holds
    obtain ⟨r, -, hr, -⟩ := holds
    cases hr
  confirmed s hs := by rw [h.sendings] at hs; cases hs
  reported r hr := by rw [h.reports] at hr; cases hr
  answered order kind ha := by rw [h.answers] at ha; cases ha
  deletions := h.deletions

/-! ### What stores serve -/

/-- What a store says that serves a put. -/
def Put.answer (put : Put) : Answer where
  reply := some { FileMessage.ok with size := some (UInt64.ofNat put.content.1.length) }
  body := put.content.1
  notes := [.served put.storedName put.content.1.length]

/-- A stored name is served as it was put. -/
theorem Agrees.get_eq (h : t.Agrees) (hstored : name ∈ (t.stores.store m).files) :
    ∃ put ∈ t.puts, put.storedName = name ∧
      (t.stores.store m).get t.stores.disk name = put.answer := by
  obtain ⟨content, ⟨put, hput, rfl, rfl⟩, hserves⟩ := h.brings.sound.serves m name hstored
  exact ⟨put, hput, rfl, hserves.get⟩

/-- There is one put with a stored name. -/
theorem Agrees.put_unique (h : t.Agrees) {put other : Put} (hput : put ∈ t.puts)
    (hother : other ∈ t.puts) (hname : put.storedName = other.storedName) : put = other :=
  List.inj_on_of_nodup_map h.numbered.distinct hput hother
    (Prod.ext_iff.mpr (StoredName.ofVersion_eq_iff.mp hname))

/-- A folder for every member. -/
def home (m : Member) : Location := [m.host, m.port.toNat.repr, m.joinedAt.toNat.repr]

theorem repr_injective {a b : Nat} (h : a.repr = b.repr) : a = b := by
  have ha := Text.unsigned?_repr (Nat.lt_succ_of_le (Nat.le_max_left a b))
  have hb := Text.unsigned?_repr (Nat.lt_succ_of_le (Nat.le_max_right a b))
  rw [h, hb] at ha
  exact (Option.some.inj ha).symm

theorem home_prefix {m n : Member} (h : home m <+: home n) : m = n := by
  have heq := h.eq_of_length rfl
  unfold home at heq
  simp only [List.cons.injEq, and_true] at heq
  obtain ⟨hhost, hport, hjoined⟩ := heq
  cases m
  cases n
  cases hhost
  cases UInt16.toNat_inj.mp (repr_injective hport)
  cases UInt64.toNat_inj.mp (repr_injective hjoined)
  rfl

/-- The empty folders of two members. -/
def twoHomes : Disk :=
  ((((({} : Disk).set ["a"] .folder).set ["a", "1"] .folder).set ["a", "1", "1"] .folder).set
    ["a", "2"] .folder).set ["a", "2", "1"] .folder

theorem isTree_twoHomes : twoHomes.IsTree :=
  ((((Disk.isTree_empty.set_folder [] "a" rfl).set_folder ["a"] "1" (by decide +kernel)).set_folder
    ["a", "1"] "1" (by decide +kernel)).set_folder ["a"] "2" (by decide +kernel)).set_folder
    ["a", "2"] "1" (by decide +kernel)

/-- **Replicas agree with the put.** Start with an empty directory and empty stores, and let
anything happen but a deletion: puts are planned, pushed in pieces and reported, as many as there
are numbers for (of each file fewer than `2 ^ 64`), pushes fail and reports get lost, repair passes
order copies, which are made from any holder or from none and answered in any order, targets are
taken in any order, and members leave. Then no two puts of a file have one version; whoever is
recorded as holder of a version serves exactly what was put as this version; and all stores that
have a name serve the same under it. -/
theorem holders_serve_their_put (t : Tenure) (ht : t.Starts) (events : List Event)
    (hdeletes : ∀ e ∈ events, e.deletes = false)
    (hroom : ∀ file, (t.run events).puts.countP (·.file = file) < UInt64.size) :
    let now := t.run events
    (now.puts.map fun put => (put.file, put.version)).Nodup ∧
      (∀ file version m, now.coordinator.directory.Holds file version m →
        ∃ put ∈ now.puts, put.file = file ∧ put.version = version ∧
          (now.stores.store m).get now.stores.disk (StoredName.ofVersion file version) =
            put.answer) ∧
      ∀ name m n, name ∈ (now.stores.store m).files → name ∈ (now.stores.store n).files →
        (now.stores.store m).get now.stores.disk name =
          (now.stores.store n).get now.stores.disk name := by
  intro now
  have h : now.Agrees := ht.agrees.run events hdeletes hroom
  refine ⟨h.numbered.distinct, fun file version m holds => ?_, fun name m n hm hn => ?_⟩
  · obtain ⟨put, hput, hname, hget⟩ := h.get_eq (h.recorded file version m holds)
    obtain ⟨hfile, hversion⟩ := StoredName.ofVersion_eq_iff.mp hname
    exact ⟨put, hput, hfile, hversion, hget⟩
  · obtain ⟨put, hput, hname, hget⟩ := h.get_eq hm
    obtain ⟨other, hother, hname', hget'⟩ := h.get_eq hn
    rw [hget, hget', h.put_unique hput hother (hname.trans hname'.symm)]

/-- One of two targets is missed. A repair pass brings the file there, and both serve it. -/
theorem holders_serve_their_put_after_repair :
    let m : Member := ⟨"a", 1, 1⟩
    let n : Member := ⟨"a", 2, 1⟩
    let put : Put := ⟨"f.txt", 1, [1, 2, 3], by decide⟩
    let start : Tenure :=
      { coordinator := { placement := { factor := 2 } }
        members := [m, n]
        stores := ⟨twoHomes, fun m => { root := home m }⟩ }
    let view : View := { inRing := fun _ => true, refusal := fun _ => none }
    let events : List Event :=
      [.plan "f.txt" put.content, .beginPush 0 m, .arrive 0 1, .missTarget 0 n, .arrive 0 2,
        .endPush 0 true, .report 0, .deliverReport 0, .repair, .beginCopy 0 view, .hear 0 7,
        .hear 0 100, .endPull 0 true view, .settle 0]
    let now := start.run events
    (now.stores.store m).get now.stores.disk "f_1.txt" = put.answer ∧
      (now.stores.store n).get now.stores.disk "f_1.txt" = put.answer := by
  intro m n put start view events now
  have hstarts : start.Starts :=
    ⟨rfl, fun _ _ => home_prefix, fun _ => rfl, fun _ => rfl, fun _ => rfl, isTree_twoHomes, rfl,
      rfl, rfl, rfl, rfl, rfl, rfl, rfl⟩
  have hputs : now.puts = [put] := by decide +kernel
  have hrecord : now.coordinator.directory.record? "f.txt" =
      some ⟨(∅ : VersionMap).insert 1 (.ofList [m, n]), 1⟩ := by decide +kernel
  have hroom (file : String) : now.puts.countP (·.file = file) < UInt64.size :=
    List.countP_le_length.trans_lt (by rw [hputs]; decide)
  have hall := holders_serve_their_put start hstarts events (by decide) hroom
  -- From here on it does not matter how the state came about.
  have hnow : now = start.run events := rfl
  rw [← hnow] at hall
  clear_value now
  have hget (holder : Member) (hholder : holder ∈ [m, n]) :
      (now.stores.store holder).get now.stores.disk "f_1.txt" = put.answer := by
    have hholds : now.coordinator.directory.Holds "f.txt" 1 holder :=
      ⟨_, .ofList [m, n], hrecord, by decide +kernel,
        Std.ExtTreeSet.mem_ofList.mpr (List.contains_iff_mem.mpr hholder)⟩
    obtain ⟨found, hfound, -, -, hget⟩ := hall.2.1 "f.txt" 1 holder hholds
    have hname : StoredName.ofVersion "f.txt" 1 = "f_1.txt" := by decide +kernel
    rw [hputs] at hfound
    cases List.mem_singleton.mp hfound
    rw [hname] at hget
    exact hget
  exact ⟨hget m (by decide), hget n (by decide)⟩

end ReplicaRing.Tenure
