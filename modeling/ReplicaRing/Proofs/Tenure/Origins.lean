import ReplicaRing.Proofs.Deletion
import ReplicaRing.Proofs.Directory.Reports
import ReplicaRing.Proofs.Tenure.Agreement

/-!
# Where things come from

Whatever is under way in a tenure stems from what was there one event before: a push and a report
from a put that is not reported, an order to copy from a holder, a copy from an order, and a holder
from another holder or a report. A name is stored because a push, an order or a copy brings it, and
it is stored no longer because one of these discards it or a deletion is served.
-/
namespace ReplicaRing

theorem mem_eraseIdx_or {α : Type} {l : List α} {i : Nat} {x : α} (h : x ∈ l) :
    x ∈ l.eraseIdx i ∨ l[i]? = some x := by
  obtain ⟨j, hj⟩ := List.mem_iff_getElem?.mp h
  by_cases heq : j = i
  · exact .inr (heq ▸ hj)
  · exact .inl (List.mem_eraseIdx_iff_getElem?.mpr ⟨j, heq, hj⟩)

/-! ### Holders -/

namespace Coordinator

variable {c : Coordinator} {file g : String} {v : UInt64} {m : Member}

theorem holds_of_delete (h : (c.delete g).1.directory.Holds file v m) :
    c.directory.Holds file v m ∧ g ≠ file := by
  obtain ⟨r, holders, hr, hv⟩ := h
  rw [record?_delete] at hr
  split at hr
  · cases hr
  · exact ⟨⟨r, holders, hr, hv⟩, ‹_›⟩

/-- A request makes holders of the version that it names, and of no other. -/
theorem holds_of_handle {members : List Member} {request : FileMessage}
    (h : (c.handle members request).1.directory.Holds file v m) :
    c.directory.Holds file v m ∨ request.file = file ∧ request.version = some v := by
  cases hkind : request.kind with
  | put =>
    obtain hhandle | ⟨reply, -, hhandle⟩ := handle_put_cases c members hkind <;> rw [hhandle] at h
    · exact .inl h
    · exact .inl ((Directory.holds_of_apply (.reserve request.file) h).resolve_right id)
  | putOk =>
    simp only [handle, hkind] at h
    cases hversion : request.version with
    | some w =>
      rw [hversion] at h
      obtain hold | ⟨hfile, rfl, -⟩ := Directory.holds_of_apply (.confirm request.file w _) h
      · exact .inl hold
      · exact .inr ⟨hfile, rfl⟩
    | none =>
      rw [hversion] at h
      exact .inl h
  | putFail =>
    simp only [handle, hkind] at h
    cases hversion : request.version with
    | some w =>
      rw [hversion] at h
      exact .inl ((Directory.holds_of_apply (.abandon request.file w) h).resolve_right id)
    | none =>
      rw [hversion] at h
      exact .inl h
  | delete =>
    simp only [handle, hkind] at h
    exact .inl (holds_of_delete h).1
  | _ =>
    simp only [handle, hkind] at h
    exact .inl h

/-- A copy is ordered of what has a holder. -/
theorem exists_holds_of_mem_planRepair {members : List Member} {o : CopyOrder}
    (h : o ∈ (c.planRepair members).2.2) : ∃ holder, c.directory.Holds o.file o.version holder := by
  obtain ⟨s, hs, htargets⟩ := List.mem_flatMap.mp h
  obtain ⟨target, -, rfl⟩ := List.mem_map.mp htargets
  obtain ⟨holder, hholds⟩ := Directory.exists_holds_of_mem_shortages hs
  exact ⟨holder, (Directory.holds_of_apply (.prune (members.contains ·)) hholds).resolve_right id⟩

end Coordinator

/-! ### Stored names -/

namespace Store

variable {s : Store} {d : Disk} {name other : String}

theorem files_beginPut (s : Store) (d : Disk) (name : String) :
    (s.beginPut d name).1.files = s.files := by
  unfold beginPut
  split
  · rfl
  · split <;> rfl

/-- What is stored is not received again. -/
theorem not_mem_files_of_receiving {inflow : Inflow}
    (h : (s.beginPut d name).2.2 = .receiving inflow) : name ∉ s.files := by
  obtain hrefused | ⟨⟨-, hunstored, -⟩, -⟩ := beginPut_cases s d name
  · rw [hrefused] at h
    cases h
  · exact hunstored

theorem files_beginCopy (s : Store) (name : String) : (s.beginCopy name).1.files = s.files := by
  obtain ⟨-, heq⟩ | ⟨-, answer, -, heq⟩ := s.beginCopy_cases name
  · rw [heq]
    rfl
  · rw [heq]

theorem mem_files_publish (hne : other ≠ name) :
    other ∈ (s.publish d name).1.files ↔ other ∈ s.files := by
  unfold publish
  split
  · exact mem_erase_of_ne hne
  · exact mem_insert_of_ne hne

theorem mem_files_finishPut {announced : Option UInt64} {inflow : Inflow} (hne : other ≠ name) :
    other ∈ (s.finishPut d name announced inflow).1.files ↔ other ∈ s.files := by
  unfold finishPut
  split
  · exact Iff.rfl
  · exact mem_files_publish hne

theorem mem_files_judgePull {pulled : Except ExchangeFault FileMessage} (hne : other ≠ name) :
    other ∈ (s.judgePull d name pulled).1.files ↔ other ∈ s.files := by
  unfold judgePull
  split
  · exact Iff.rfl
  · split
    · exact mem_files_publish hne
    · exact Iff.rfl

end Store

namespace Stores

variable {w w' w'' : Stores} {m n : Member} {name other : String} {α : Type}
  {f : Store → Disk → Store × Disk × α} {view : Tenure.View} {coming : Bytes}

/-- What is stored is as it was, but perhaps for one name at one member. -/
def Keeps (w w' : Stores) (m : Member) (name : String) : Prop :=
  ∀ n other, ¬ (n = m ∧ other = name) → (other ∈ (w'.store n).files ↔ other ∈ (w.store n).files)

theorem Keeps.refl (w : Stores) (m : Member) (name : String) : w.Keeps w m name :=
  fun _ _ _ => Iff.rfl

theorem Keeps.trans (h : w.Keeps w' m name) (h' : w'.Keeps w'' m name) : w.Keeps w'' m name :=
  fun n other hne => (h' n other hne).trans (h n other hne)

theorem act_fst : (w.act m f).1 = (f (w.store m) w.disk).2.2 := rfl

theorem keeps_act (hf : ∀ other, other ≠ name →
    (other ∈ (f (w.store m) w.disk).1.files ↔ other ∈ (w.store m).files)) :
    w.Keeps (w.act m f).2 m name := by
  intro n other hne
  change other ∈ (if n = m then (f (w.store m) w.disk).1 else w.store n).files ↔ _
  split
  · subst_vars
    exact hf other fun heq => hne ⟨rfl, heq⟩
  · exact Iff.rfl

theorem files_act (hf : (f (w.store m) w.disk).1.files = (w.store m).files) (n : Member) :
    ((w.act m f).2.store n).files = (w.store n).files := by
  change (if n = m then (f (w.store m) w.disk).1 else w.store n).files = _
  split
  · subst_vars
    exact hf
  · rfl

theorem keeps_endReceiving (x : α) :
    w.Keeps (w.act m fun s d => (s.endReceiving name, d, x)).2 m name :=
  keeps_act fun _ _ => Iff.rfl

theorem keeps_hearHolder {pulled : Except ExchangeFault FileMessage}
    {others : StateM (Stores × Bytes) Store.CopyProgress}
    (hothers : ∀ w, Keeps w (others.run (w, coming)).2.1 m name) :
    w.Keeps ((Store.hearHolder (Tenure.port m name view) name pulled others).run (w, coming)).2.1 m
      name := by
  rw [run_hearHolder]
  have hjudged : w.Keeps (w.act m (·.judgePull · name pulled)).2 m name :=
    keeps_act fun _ => Store.mem_files_judgePull
  cases hact : w.act m (·.judgePull · name pulled) with
  | mk kind w' =>
    rw [hact] at hjudged
    cases kind with
    | none => exact hjudged.trans (hothers w')
    | some kind => exact hjudged.trans (keeps_endReceiving (w := w') ())

theorem keeps_copyFrom (holders : List Member) (w : Stores) :
    w.Keeps ((Store.copyFrom (Tenure.port m name view) name holders).run (w, coming)).2.1 m
      name := by
  induction holders generalizing w with
  | nil => exact keeps_endReceiving (Store.CopyProgress.answered .fail)
  | cons holder rest ih =>
    rw [Store.copyFrom, StateT.run_bind]
    change w.Keeps ((if !view.inRing holder then _ else _ : StateM (Stores × Bytes) _).run
      (w, coming)).2.1 m name
    cases view.inRing holder with
    | false => exact ih w
    | true =>
      simp only [Bool.not_true, Bool.false_eq_true, ↓reduceIte, StateT.run_bind, run_pull]
      cases view.refusal holder with
      | none => exact .refl w m name
      | some fault => exact keeps_hearHolder ih

theorem keeps_copy {arrangement : Arrangement} {holders : List Member} :
    w.Keeps ((Store.copy (Tenure.port m name view) arrangement name holders).run (w, coming)).2.1 m
      name := by
  rw [run_copy]
  have hbegun : w.Keeps (w.act m fun s d => ((s.beginCopy name).1, d, (s.beginCopy name).2)).2 m
      name := keeps_act fun other _ => by rw [Store.files_beginCopy]
  cases hact : w.act m fun s d => ((s.beginCopy name).1, d, (s.beginCopy name).2) with
  | mk kind w' =>
    rw [hact] at hbegun
    cases kind with
    | none => exact hbegun.trans (keeps_copyFrom _ w')
    | some kind => exact hbegun

theorem keeps_endHolder {copy : Tenure.Copying} {closed : Bool} :
    w.Keeps ((Tenure.endHolder copy closed view).run (w, coming)).2.1 copy.order.target
      copy.order.storedName := by
  unfold Tenure.endHolder
  rw [StateT.run_bind, run_act]
  have hfinished : w.Keeps (w.act copy.order.target fun s d =>
      (s, copy.pull.finish d (s.path copy.order.storedName) closed)).2 copy.order.target
        copy.order.storedName := keeps_act fun _ _ => Iff.rfl
  exact hfinished.trans (keeps_hearHolder (keeps_copyFrom copy.others))

end Stores

/-! ### One event -/

namespace Tenure

variable {t t' : Tenure} {e : Event}

/-- Whether a client asks for a plan to put the file. -/
def Event.plans (file : String) : Event → Bool
  | .plan remote _ => RemoteName.flatten remote == file
  | _ => false

/-- What may make a member store a name, or discard it: a push, a copy, or an order to copy what is
not there yet. -/
inductive Brought (t : Tenure) (m : Member) (name : String) : Prop
  | push (p : Push) (hp : p ∈ t.pushes) (hm : p.target = m) (hname : p.put.storedName = name)
  | order (o : CopyOrder) (ho : o ∈ t.orders) (hm : o.target = m) (hname : o.storedName = name)
      (hnew : name ∉ (t.stores.store m).files)
  | copy (c : Copying) (hc : c ∈ t.copies) (hm : c.order.target = m)
      (hname : c.order.storedName = name)

/-- A deletion is served that takes a name away. -/
def Discards (t : Tenure) (e : Event) (m : Member) (name : String) : Prop :=
  ∃ i target, e = .serveDeletion i ∧ t.deletions[i]? = some (m, target) ∧
    StoredName.belongsTo name target = true

/-- What there is after an event stems from what there was. -/
structure Stems (t : Tenure) (e : Event) (t' : Tenure) : Prop where
  sendings : ∀ s ∈ t'.sendings, e.plans s.put.file = true ∨ ∃ old ∈ t.sendings, old.put = s.put
  pushes : ∀ p ∈ t'.pushes, (∃ old ∈ t.pushes, old.put = p.put ∧ old.target = p.target) ∨
    (∃ s ∈ t.sendings, s.put = p.put) ∧ p.put.storedName ∉ (t.stores.store p.target).files
  reports : ∀ r ∈ t'.reports, r ∈ t.reports ∨
    ∃ s ∈ t.sendings, r.file = s.put.file ∧ r.version = some s.put.version
  orders : ∀ o ∈ t'.orders, o ∈ t.orders ∨
    ∃ holder, t.coordinator.directory.Holds o.file o.version holder
  copies : ∀ c ∈ t'.copies, (∃ old ∈ t.copies, old.order = c.order) ∨
    c.order ∈ t.orders ∧ c.order.storedName ∉ (t.stores.store c.order.target).files
  holds : ∀ file v m, t'.coordinator.directory.Holds file v m →
    (∃ holder, t.coordinator.directory.Holds file v holder) ∨
      ∃ r ∈ t.reports, r.file = file ∧ r.version = some v
  files : ∀ m name, t.Brought m name ∨ (name ∈ (t'.stores.store m).files ↔
    name ∈ (t.stores.store m).files ∧ ¬ t.Discards e m name)
  deletions : ∀ x ∈ t.deletions, x ∈ t'.deletions ∨
    ∃ i, t.deletions[i]? = some x ∧ (e = .serveDeletion i ∨ e = .loseDeletion i)
  ordered : ∀ x ∈ t'.deletions, x ∈ t.deletions ∨ ∃ remote, e = .delete remote ∧
    ∃ v, t.coordinator.directory.Holds (RemoteName.flatten remote) v x.1 ∧
      x.2 = StoredName.ofVersion (RemoteName.flatten remote) v

namespace Stems

theorem same (h : ∀ m name, ¬ t.Discards e m name) : t.Stems e t where
  sendings s hs := .inr ⟨s, hs, rfl⟩
  pushes p hp := .inl ⟨p, hp, rfl, rfl⟩
  reports _ hr := .inl hr
  orders _ ho := .inl ho
  copies c hc := .inl ⟨c, hc, rfl⟩
  holds _ _ m hholds := .inl ⟨m, hholds⟩
  files m name := .inr (and_iff_left (h m name)).symm
  deletions _ hx := .inl hx
  ordered _ hx := .inl hx

/-- Nothing happens, and no deletion is served. -/
theorem refl (h : ∀ i, e ≠ .serveDeletion i) : t.Stems e t :=
  same fun _ _ ⟨i, _, he, _⟩ => h i he

/-- Stores work, but keep the names that they store. -/
theorem work (h : t.Stems e t') (w : Stores)
    (hfiles : ∀ n, (w.store n).files = (t'.stores.store n).files) :
    t.Stems e { t' with stores := w } := by
  refine { h with files := fun m name => ?_ }
  have hold := h.files m name
  rwa [← hfiles m] at hold

theorem plan (remote : String) (content : Content) :
    t.Stems (.plan remote content) (t.plan remote content) := by
  have hsame : t.Stems (.plan remote content) t := refl fun _ => nofun
  rw [plan_eq]
  split
  · exact hsame
  · refine { hsame with sendings := fun s hs => ?_, holds := fun file v m hholds => ?_ }
    · obtain hold | hnew := List.mem_append.mp hs
      · exact hsame.sendings s hold
      · cases List.mem_singleton.mp hnew
        exact .inl (beq_self_eq_true _)
    · exact .inl ⟨m, (Directory.holds_of_apply (.reserve _) hholds).resolve_right id⟩

theorem missTarget (i : Nat) (target : Member) (h : ∀ i, e ≠ .serveDeletion i) :
    t.Stems e (t.missTarget i target) := by
  have hsame : t.Stems e t := refl h
  refine { hsame with sendings := fun s hs => .inr ?_ }
  obtain hold | ⟨s, hold, rfl⟩ := mem_modify hs
  · exact ⟨s, hold, rfl⟩
  · exact ⟨s, hold, rfl⟩

theorem beginPush (i : Nat) (target : Member) :
    t.Stems (.beginPush i target) (t.beginPush i target) := by
  have hmiss : t.Stems (.beginPush i target) (t.missTarget i target) :=
    missTarget i target fun _ => nofun
  unfold Tenure.beginPush
  split
  · exact refl fun _ => nofun
  · rename_i sending hsending
    split
    · have hsent := List.mem_of_getElem? hsending
      have hfiles := Stores.files_act (w := t.stores) (m := target)
        (f := (·.beginPut · sending.put.storedName)) (Store.files_beginPut _ _ _)
      have hwork := hmiss.work _ hfiles
      dsimp only at hfiles hwork ⊢
      split
      · rename_i inflow hadmission
        rw [Stores.act_fst] at hadmission
        refine { hwork with pushes := fun p hp => ?_ }
        obtain hold | hnew := List.mem_append.mp hp
        · exact hwork.pushes p hold
        · cases List.mem_singleton.mp hnew
          exact .inr ⟨⟨sending, hsent, rfl⟩, Store.not_mem_files_of_receiving hadmission⟩
      · exact hwork
      · exact hwork
    · exact refl fun _ => nofun

theorem arrive (i count : Nat) : t.Stems (.arrive i count) (t.arrive i count) := by
  have hsame : t.Stems (.arrive i count) t := refl fun _ => nofun
  unfold Tenure.arrive
  split
  · exact hsame
  · rename_i push hpush
    refine { hsame.work _ (fun _ => rfl) with pushes := fun p hp => .inl ?_ }
    obtain hold | rfl := List.mem_or_eq_of_mem_set hp
    · exact ⟨p, hold, rfl, rfl⟩
    · exact ⟨push, List.mem_of_getElem? hpush, rfl, rfl⟩

/-- Stores work on a name that is brought. -/
theorem bring (h : t.Stems e t) {w : Stores} (hkeeps : t.stores.Keeps w m name)
    (hbrought : t.Brought m name) : t.Stems e { t with stores := w } := by
  refine { h with files := fun n other => ?_ }
  by_cases heq : n = m ∧ other = name
  · obtain ⟨rfl, rfl⟩ := heq
    exact .inl hbrought
  · exact (h.files n other).imp_right (hkeeps n other heq).trans

theorem confirm (h : t.Stems e t') (put : Put) (target : Member) :
    t.Stems e (t'.confirm put target) := by
  refine { h with sendings := fun s hs => ?_ }
  obtain ⟨s, hold, rfl⟩ := List.mem_map.mp hs
  have hput : (if s.put = put then { s with storedOn := s.storedOn ++ [target] } else s).put =
      s.put := by split <;> rfl
  rw [hput]
  exact h.sendings s hold

theorem endPush (i : Nat) (heard : Bool) : t.Stems (.endPush i heard) (t.endPush i heard) := by
  have hsame : t.Stems (.endPush i heard) t := refl fun _ => nofun
  unfold Tenure.endPush
  split
  · exact hsame
  · rename_i push hpush
    have hkeeps : t.stores.Keeps (t.stores.act push.target
        (·.finishPut · push.request.file push.request.size push.inflow)).2 push.target
          push.put.storedName := Stores.keeps_act fun _ => Store.mem_files_finishPut
    have hwork := hsame.bring hkeeps (.push push (List.mem_of_getElem? hpush) rfl rfl)
    have hrest : t.Stems (.endPush i heard) { t with
        stores := (t.stores.act push.target
          (·.finishPut · push.request.file push.request.size push.inflow)).2
        pushes := t.pushes.eraseIdx i } :=
      { hwork with pushes := fun p hp => hwork.pushes p (List.mem_of_mem_eraseIdx hp) }
    dsimp only
    split
    · exact hrest.confirm _ _
    · exact hrest

theorem report (i : Nat) : t.Stems (.report i) (t.report i) := by
  have hsame : t.Stems (.report i) t := refl fun _ => nofun
  unfold Tenure.report
  split
  · exact hsame
  · rename_i put targets storedOn hsending
    split
    · refine { hsame with
        sendings := fun s hs => hsame.sendings s (List.mem_of_mem_eraseIdx hs)
        reports := fun r hr => ?_ }
      obtain hold | hnew := List.mem_append.mp hr
      · exact .inl hold
      · cases List.mem_singleton.mp hnew
        exact .inr ⟨_, List.mem_of_getElem? hsending, rfl, rfl⟩
    · exact hsame

theorem deliverReport (i : Nat) : t.Stems (.deliverReport i) (t.deliverReport i) := by
  have hsame : t.Stems (.deliverReport i) t := refl fun _ => nofun
  unfold Tenure.deliverReport
  split
  · exact hsame
  · rename_i report hreport
    refine { hsame with
      reports := fun r hr => .inl (List.mem_of_mem_eraseIdx hr)
      holds := fun file v m hholds => ?_ }
    obtain hold | hnamed := Coordinator.holds_of_handle hholds
    · exact .inl ⟨m, hold⟩
    · exact .inr ⟨report, List.mem_of_getElem? hreport, hnamed⟩

theorem repair : t.Stems .repair t.repair := by
  have hsame : t.Stems .repair t := refl fun _ => nofun
  refine { hsame with
    orders := fun o ho => ?_
    holds := fun file v m hholds => .inl ⟨m, ?_⟩ }
  · exact (List.mem_append.mp ho).imp_right Coordinator.exists_holds_of_mem_planRepair
  · exact (Directory.holds_of_apply (.prune (t.members.contains ·)) hholds).resolve_right id

/-- A copy that was ordered or has heard a holder goes on. -/
theorem proceed {order : CopyOrder} {outcome : Store.CopyProgress × Stores × Bytes}
    (h : t.Stems e t') (hstores : t'.stores = t.stores)
    (hkeeps : t.stores.Keeps outcome.2.1 order.target order.storedName)
    (hbrought : t.Brought order.target order.storedName)
    (hcopies : ∀ others, outcome.1 = .waiting others → (∃ old ∈ t.copies, old.order = order) ∨
      order ∈ t.orders ∧ order.storedName ∉ (t.stores.store order.target).files) :
    t.Stems e (t'.proceed order outcome) := by
  obtain ⟨progress, w, coming⟩ := outcome
  have hfiles (m : Member) (name : String) : t.Brought m name ∨
      (name ∈ (w.store m).files ↔ name ∈ (t.stores.store m).files ∧ ¬ t.Discards e m name) := by
    by_cases heq : m = order.target ∧ name = order.storedName
    · obtain ⟨rfl, rfl⟩ := heq
      exact .inl hbrought
    · have hold := h.files m name
      rw [hstores] at hold
      exact hold.imp_right (hkeeps m name heq).trans
  cases progress with
  | answered kind => exact { h with files := hfiles }
  | waiting others =>
    refine { h with files := hfiles, copies := fun c hc => ?_ }
    obtain hold | hnew := List.mem_append.mp hc
    · exact h.copies c hold
    · cases List.mem_singleton.mp hnew
      exact hcopies others rfl

theorem beginCopy (i : Nat) (view : View) : t.Stems (.beginCopy i view) (t.beginCopy i view) := by
  have hsame : t.Stems (.beginCopy i view) t := refl fun _ => nofun
  unfold Tenure.beginCopy
  split
  · exact hsame
  · rename_i order horder
    have hordered := List.mem_of_getElem? horder
    have hrest : t.Stems (.beginCopy i view) { t with orders := t.orders.eraseIdx i } :=
      { hsame with orders := fun o ho => hsame.orders o (List.mem_of_mem_eraseIdx ho) }
    by_cases hstored : order.storedName ∈ (t.stores.store order.target).files
    · dsimp only
      rw [Stores.run_copy_of_stored hstored]
      exact { hrest with }
    · exact hrest.proceed rfl Stores.keeps_copy (.order order hordered rfl rfl hstored)
        fun _ _ => .inr ⟨hordered, hstored⟩

theorem hear (i count : Nat) : t.Stems (.hear i count) (t.hear i count) := by
  have hsame : t.Stems (.hear i count) t := refl fun _ => nofun
  unfold Tenure.hear
  split
  · exact hsame
  · rename_i copy hcopy
    refine { hsame.work _ (fun _ => rfl) with copies := fun c hc => .inl ?_ }
    obtain hold | rfl := List.mem_or_eq_of_mem_set hc
    · exact ⟨c, hold, rfl⟩
    · exact ⟨copy, List.mem_of_getElem? hcopy, rfl⟩

theorem endPull (i : Nat) (closed : Bool) (view : View) :
    t.Stems (.endPull i closed view) (t.endPull i closed view) := by
  have hsame : t.Stems (.endPull i closed view) t := refl fun _ => nofun
  unfold Tenure.endPull
  split
  · exact hsame
  · rename_i copy hcopy
    have hlisted := List.mem_of_getElem? hcopy
    have hrest : t.Stems (.endPull i closed view) { t with copies := t.copies.eraseIdx i } :=
      { hsame with copies := fun c hc => hsame.copies c (List.mem_of_mem_eraseIdx hc) }
    exact hrest.proceed rfl Stores.keeps_endHolder (.copy copy hlisted rfl rfl)
      fun _ _ => .inl ⟨copy, hlisted, rfl⟩

theorem settle (i : Nat) : t.Stems (.settle i) (t.settle i) := by
  have hsame : t.Stems (.settle i) t := refl fun _ => nofun
  unfold Tenure.settle
  split
  · exact hsame
  · refine { hsame with holds := fun file v m hholds => .inl ?_ }
    unfold Coordinator.settleOrder at hholds
    split at hholds
    · exact Directory.exists_holds_of_addHolder hholds
    · exact ⟨m, hholds⟩

theorem delete (remote : String) : t.Stems (.delete remote) (t.delete remote) := by
  have hsame : t.Stems (.delete remote) t := refl fun _ => nofun
  refine { hsame with
    holds := fun file v m hholds => .inl ⟨m, (Coordinator.holds_of_delete hholds).1⟩
    deletions := fun x hx => .inl (List.mem_append_left _ hx)
    ordered := fun x hx => ?_ }
  obtain hold | hnew := List.mem_append.mp hx
  · exact .inl hold
  · refine .inr ⟨remote, rfl, Coordinator.mem_ordersTo_delete.mp ?_⟩
    exact List.mem_map.mpr ⟨x, List.mem_filter.mpr ⟨hnew, decide_eq_true rfl⟩, rfl⟩

theorem serveDeletion (i : Nat) : t.Stems (.serveDeletion i) (t.serveDeletion i) := by
  unfold Tenure.serveDeletion
  split
  · rename_i hnone
    refine same fun m name ⟨j, target, he, hserved, _⟩ => ?_
    cases he
    cases hnone.symm.trans hserved
  · rename_i holder target hserved
    have hrest : t.Stems (.loseDeletion i) t := refl fun _ => nofun
    refine { hrest with
      sendings := fun s hs => .inr ⟨s, hs, rfl⟩
      files := fun m name => .inr ?_
      deletions := fun x hx => (mem_eraseIdx_or hx).imp_right fun hi => ⟨i, hi, .inl rfl⟩
      ordered := fun x hx => .inl (List.mem_of_mem_eraseIdx hx) }
    have hdiscards : t.Discards (.serveDeletion i) m name ↔
        m = holder ∧ StoredName.belongsTo name target = true := by
      constructor
      · rintro ⟨j, found, he, hfound, hhit⟩
        cases he
        cases hserved.symm.trans hfound
        exact ⟨rfl, hhit⟩
      · rintro ⟨rfl, hhit⟩
        exact ⟨i, target, rfl, hserved, hhit⟩
    rw [hdiscards]
    change name ∈ (if m = holder then ((t.stores.store holder).delete t.stores.disk target).1
      else t.stores.store m).files ↔ _
    split
    · subst_vars
      rw [Store.mem_files_delete, eq_self, true_and, Bool.not_eq_true]
    · exact (and_iff_left fun h => absurd h.1 ‹_›).symm

end Stems

theorem stems_step (t : Tenure) (e : Event) : t.Stems e (t.step e) := by
  cases e with
  | plan remote content => exact .plan remote content
  | beginPush i target => exact .beginPush i target
  | missTarget i target => exact .missTarget i target fun _ => nofun
  | arrive i count => exact .arrive i count
  | endPush i heard => exact .endPush i heard
  | report i => exact .report i
  | deliverReport i => exact .deliverReport i
  | loseReport i =>
    have hsame : t.Stems (.loseReport i) t := .refl fun _ => nofun
    exact { hsame with reports := fun r hr => .inl (List.mem_of_mem_eraseIdx hr) }
  | rearrange arrangement =>
    have hsame : t.Stems (.rearrange arrangement) t := .refl fun _ => nofun
    exact { hsame with }
  | repair => exact .repair
  | beginCopy i view => exact .beginCopy i view
  | loseOrder i =>
    have hsame : t.Stems (.loseOrder i) t := .refl fun _ => nofun
    exact { hsame with orders := fun o ho => .inl (List.mem_of_mem_eraseIdx ho) }
  | hear i count => exact .hear i count
  | endPull i closed view => exact .endPull i closed view
  | settle i => exact .settle i
  | loseAnswer i =>
    have hsame : t.Stems (.loseAnswer i) t := .refl fun _ => nofun
    exact { hsame with }
  | depart m =>
    have hsame : t.Stems (.depart m) t := .refl fun _ => nofun
    exact { hsame with }
  | delete remote => exact .delete remote
  | serveDeletion i => exact .serveDeletion i
  | loseDeletion i =>
    have hsame : t.Stems (.loseDeletion i) t := .refl fun _ => nofun
    refine { hsame with
      deletions := fun x hx => ?_
      ordered := fun x hx => .inl (List.mem_of_mem_eraseIdx hx) }
    exact (mem_eraseIdx_or hx).imp_right fun hi => ⟨i, hi, .inr rfl⟩

end Tenure

end ReplicaRing
