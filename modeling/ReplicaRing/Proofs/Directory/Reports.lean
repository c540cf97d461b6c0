import ReplicaRing.Client
import ReplicaRing.Coordinator
import ReplicaRing.Proofs.Directory.Numbering

/-!
# What a report does after a deletion

A put reports under the number that it was given, and numbers start over when a file is deleted. The
coordinator does not know when a number was given out: a report that comes after a deletion is taken
for one about what has happened since. What is recorded of a file is then what was last said about
each number, and a report changes nothing only where it repeats that.
-/
namespace ReplicaRing

namespace FileRecord

variable {r : FileRecord} {v : UInt64} {holders : MemberSet}

theorem ext_versions {r' : FileRecord}
    (hversions : ∀ v : UInt64, r.versions[v]? = r'.versions[v]?)
    (hhighest : r.highestAssigned = r'.highestAssigned) : r = r' := by
  obtain ⟨versions, highest⟩ := r
  obtain ⟨versions', highest'⟩ := r'
  cases Std.ExtTreeMap.ext_getElem? fun {v} => hversions v
  cases hhighest
  rfl

/-- Holders that are already recorded change nothing. -/
theorem put_of_getElem? (hbounded : r.Bounded) (h : r.versions[v]? = some holders) :
    r.put v holders = r := by
  refine ext_versions (fun w => ?_) ?_
  · rw [put_versions_getElem?]
    split
    · subst_vars
      exact h.symm
    · rfl
  · rw [put_highestAssigned]
    exact max_eq_left (hbounded v (mem_versions_iff.mpr ⟨holders, h⟩))

theorem drop_of_getElem? (h : r.versions[v]? = none) : r.drop v = r := by
  refine ext_versions (fun w => ?_) rfl
  rw [drop_versions_getElem?]
  split
  · subst_vars
    exact h.symm
  · rfl

theorem bounded_empty : ({} : FileRecord).Bounded :=
  fun _ hv => absurd hv Std.ExtTreeMap.not_mem_empty

theorem latest?_eq_none_iff :
    r.latest? = none ↔
      ∀ (v : UInt64) (holders : MemberSet), r.versions[v]? = some holders → holders.isEmpty := by
  rw [latest?, List.find?_eq_none]
  constructor
  · intro h v holders hv
    have hempty := h (v, holders)
      (List.mem_reverse.mpr (Std.ExtTreeMap.mem_toList_iff_getElem?_eq_some.mpr hv))
    rwa [Bool.not_eq_true, Bool.not_eq_false'] at hempty
  · rintro h ⟨v, holders⟩ hmem
    have hempty := h v holders
      (Std.ExtTreeMap.mem_toList_iff_getElem?_eq_some.mp (List.mem_reverse.mp hmem))
    rw [hempty]
    exact Bool.false_ne_true

end FileRecord

/-! ### What is said of a file -/

/-- What a request says of its file: who holds a version, where a put that is planned has no holders
yet; that a version is given up; or that the file is deleted. -/
inductive Said
  | held (version : UInt64) (holders : MemberSet)
  | givenUp (version : UInt64)
  | deleted

namespace Said

variable {s : Said} {said : List Said} {r : Option FileRecord} {v : UInt64}

/-- What becomes of the record of the file. -/
def apply : Said → Option FileRecord → Option FileRecord
  | held v holders, r => some ((r.getD {}).put v holders)
  | givenUp v, r => r.map (·.drop v)
  | deleted, _ => none

/-- What is said about a version: its holders, or that there is no such version. -/
def word? (version : UInt64) : Said → Option (Option MemberSet)
  | held v holders => if v = version then some (some holders) else none
  | givenUp v => if v = version then some none else none
  | deleted => some none

/-- Whether the file becomes known, or is forgotten. -/
def known? : Said → Option Bool
  | held _ _ => some true
  | givenUp _ => none
  | deleted => some false

/-- The holders of a version as they were last said; nothing is said at first. -/
def lastWord (version : UInt64) (said : List Said) : Option MemberSet :=
  (said.reverse.findSome? (word? version)).join

def known (said : List Said) : Bool :=
  (said.reverse.findSome? known?).getD false

theorem lastWord_concat : lastWord v (said ++ [s]) = (s.word? v).getD (lastWord v said) := by
  rw [lastWord, List.reverse_append, List.reverse_singleton, List.singleton_append,
    List.findSome?_cons]
  cases s.word? v <;> rfl

theorem known_concat : known (said ++ [s]) = s.known?.getD (known said) := by
  rw [known, List.reverse_append, List.reverse_singleton, List.singleton_append,
    List.findSome?_cons]
  cases s.known? <;> rfl

theorem getD_map_drop : (r.map (·.drop v)).getD {} = (r.getD {}).drop v := by
  cases r with
  | some r => rfl
  | none => exact (FileRecord.drop_of_getElem? rfl).symm

/-- What is recorded of a file is what was last said of it. -/
structure Recalls (r : Option FileRecord) (said : List Said) : Prop where
  known : r.isSome = Said.known said
  versions : ∀ v, (r.getD {}).versions[v]? = lastWord v said
  bounded : (r.getD {}).Bounded

namespace Recalls

theorem nothing : Recalls none [] where
  known := rfl
  versions _ := rfl
  bounded := FileRecord.bounded_empty

/-- One thing more is said. -/
theorem apply (h : Recalls r said) (s : Said) : Recalls (s.apply r) (said ++ [s]) := by
  cases s with
  | held v holders =>
    refine ⟨?_, fun w => ?_, h.bounded.put⟩
    · rw [known_concat]
      rfl
    · rw [lastWord_concat, Said.apply, Option.getD_some, FileRecord.put_versions_getElem?,
        h.versions, word?]
      split <;> rfl
  | givenUp v =>
    refine ⟨?_, fun w => ?_, ?_⟩
    · rw [known_concat, Said.apply, Option.isSome_map, h.known]
      rfl
    · rw [lastWord_concat, Said.apply, getD_map_drop, FileRecord.drop_versions_getElem?,
        h.versions, word?]
      split <;> rfl
    · rw [Said.apply, getD_map_drop]
      exact fun w hw => h.bounded w (FileRecord.mem_of_mem_drop hw)
  | deleted =>
    refine ⟨?_, fun w => ?_, FileRecord.bounded_empty⟩
    · rw [known_concat]
      rfl
    · rw [lastWord_concat]
      rfl

/-- What is said about a version changes nothing exactly where it was the last word. -/
theorem apply_eq_iff (h : Recalls r said)
    (hs : s = .givenUp v ∨ ∃ holders, s = .held v holders) :
    s.apply r = r ↔ s.word? v = some (lastWord v said) := by
  have hword : (s.word? v).isSome := by
    obtain rfl | ⟨holders, rfl⟩ := hs <;> rw [word?, if_pos rfl] <;> rfl
  constructor
  · intro hsame
    have hthen := (h.apply s).versions v
    rw [hsame, h.versions, lastWord_concat] at hthen
    obtain ⟨word, hword⟩ := Option.isSome_iff_exists.mp hword
    rw [hthen, hword, Option.getD_some]
  · rw [← h.versions]
    obtain rfl | ⟨holders, rfl⟩ := hs <;> rw [word?, if_pos rfl, Option.some.injEq] <;> intro hlast
    · cases r with
      | none => rfl
      | some r => exact congrArg some (FileRecord.drop_of_getElem? hlast.symm)
    · cases r with
      | none => cases hlast
      | some r => exact congrArg some (FileRecord.put_of_getElem? h.bounded hlast.symm)

end Recalls

end Said

/-! ### Requests -/

/-- A request and the answer to it. -/
structure Served where
  request : FileMessage
  reply : Option FileMessage := none

namespace Served

variable {file : String} {s : Served} {served : List Served}

/-- The members that a report names. -/
def holders (s : Served) : MemberSet := .ofList s.request.nodes compare

/-- What the request says of its file. A put says the version that it is told. -/
def said? (s : Served) : Option Said :=
  match s.request.kind, s.request.version with
  | .put, _ => (s.reply.bind (·.version)).map (.held · ∅)
  | .putOk, some v => some (if s.holders.isEmpty then .givenUp v else .held v s.holders)
  | .putFail, some v => some (.givenUp v)
  | .delete, _ => some .deleted
  | _, _ => none

/-- All that is said of a file. -/
def saidOf (file : String) (served : List Served) : List Said :=
  served.filterMap fun s => if s.request.file = file then s.said? else none

theorem saidOf_cons : saidOf file (s :: served) = saidOf file [s] ++ saidOf file served :=
  List.filterMap_append (l := [s])

theorem saidOf_singleton (h : s.request.file = file) : saidOf file [s] = s.said?.toList := by
  rw [saidOf, List.filterMap_cons, if_pos h]
  cases s.said? <;> rfl

theorem saidOf_singleton_of_ne (h : s.request.file ≠ file) : saidOf file [s] = [] := by
  rw [saidOf, List.filterMap_cons, if_neg h]
  rfl

end Served

namespace Directory

variable {d d' : Directory}

theorem ext_record? (h : ∀ file, d.record? file = d'.record? file) : d = d' := by
  obtain ⟨records⟩ := d
  obtain ⟨records'⟩ := d'
  exact congrArg Directory.mk (Std.ExtTreeMap.ext_getElem? fun {file} => h file)

end Directory

namespace Coordinator

open Directory

variable {c : Coordinator} {file : String} {said : List Said}

/-- Serves requests one after the other, each with the members of its time. -/
def serve (c : Coordinator) : List (List Member × FileMessage) → Coordinator × List Served
  | [] => (c, [])
  | (members, request) :: later =>
    let (c, response) := c.handle members request
    let (c, served) := c.serve later
    (c, ⟨request, response.reply⟩ :: served)

/-- A deletion forgets the file, whether it was known or not. -/
theorem record?_delete (c : Coordinator) (file g : String) :
    (c.delete file).1.directory.record? g = if file = g then none else c.directory.record? g := by
  cases hr : c.directory.record? file with
  | none =>
    simp only [delete, remove, hr]
    split
    · subst_vars
      exact hr
    · rfl
  | some r =>
    simp only [delete, remove, hr]
    exact record?_remove

/-- A put that is planned is told its version. -/
theorem handle_put_cases (c : Coordinator) (members : List Member) {request : FileMessage}
    (hkind : request.kind = .put) :
    c.handle members request = (c, { reply := some .fail }) ∨
      ∃ reply : FileMessage, reply.version = some (c.directory.nextVersion request.file) ∧
        c.handle members request =
          ({ c with directory := (c.directory.reserve request.file).1 },
            { reply := some reply }) := by
  unfold handle
  simp only [hkind, Coordinator.put]
  split
  · exact .inl rfl
  · exact .inr ⟨_, rfl, rfl⟩

/-- A request with its answer. -/
def served (c : Coordinator) (members : List Member) (request : FileMessage) : Served :=
  ⟨request, (c.handle members request).2.reply⟩

/-- What a request says becomes of the record of its file, and no other record changes. -/
theorem record?_handle (c : Coordinator) (members : List Member) (request : FileMessage)
    (file : String) :
    (c.handle members request).1.directory.record? file =
      if request.file = file then
        (c.served members request).said?.elim (c.directory.record? file)
          (·.apply (c.directory.record? file))
      else c.directory.record? file := by
  have hsame {r : Option FileRecord} : r = if request.file = file then r else r := by rw [ite_self]
  cases hkind : request.kind with
  | put =>
    obtain hhandle | ⟨reply, hversion, hhandle⟩ := handle_put_cases c members hkind
    · have hsaid : (c.served members request).said? = none := by
        simp only [served, Served.said?, hkind, hhandle]
        rfl
      rw [hsaid, hhandle]
      exact hsame
    · have hsaid : (c.served members request).said? =
          some (.held (c.directory.nextVersion request.file) ∅) := by
        simp only [served, Served.said?, hkind, hhandle, Option.bind_some, hversion,
          Option.map_some]
      rw [hsaid, hhandle]
      refine record?_reserve.trans (ite_congr rfl (fun hfile => ?_) fun _ => rfl)
      rw [recordOf_eq, hfile]
      rfl
  | putOk =>
    simp only [served, Served.said?, Served.holders, handle, hkind]
    cases request.version with
    | none => exact hsame
    | some v =>
      dsimp only
      generalize Std.ExtTreeSet.ofList request.nodes compare = holders
      cases he : holders.isEmpty with
      | true =>
        rw [confirm_of_isEmpty he, if_pos rfl]
        exact record?_abandon
      | false =>
        rw [if_neg Bool.false_ne_true]
        refine (record?_confirm he).trans (ite_congr rfl (fun hfile => ?_) fun _ => rfl)
        rw [recordOf_eq, hfile]
        rfl
  | putFail =>
    simp only [served, Served.said?, handle, hkind]
    cases request.version with
    | none => exact hsame
    | some v => exact record?_abandon
  | delete =>
    simp only [served, Served.said?, handle, hkind]
    exact record?_delete c request.file file
  | _ =>
    simp only [served, Served.said?, handle, hkind]
    exact hsame

/-- One request. -/
theorem recalls_handle (h : Said.Recalls (c.directory.record? file) said) (members : List Member)
    (request : FileMessage) :
    Said.Recalls ((c.handle members request).1.directory.record? file)
      (said ++ Served.saidOf file [c.served members request]) := by
  rw [record?_handle]
  by_cases hfile : request.file = file
  · rw [if_pos hfile, Served.saidOf_singleton hfile]
    cases (c.served members request).said? with
    | none => rwa [Option.toList_none, List.append_nil]
    | some s => exact h.apply s
  · rw [if_neg hfile, Served.saidOf_singleton_of_ne hfile, List.append_nil]
    exact h

theorem recalls_serve (h : Said.Recalls (c.directory.record? file) said)
    (later : List (List Member × FileMessage)) :
    Said.Recalls ((c.serve later).1.directory.record? file)
      (said ++ Served.saidOf file (c.serve later).2) := by
  induction later generalizing c said with
  | nil => rwa [serve, Served.saidOf, List.filterMap_nil, List.append_nil]
  | cons first later ih =>
    have hrest := ih (recalls_handle h first.1 first.2)
    rwa [List.append_assoc, ← Served.saidOf_cons] at hrest

/-- A request leaves the directory alone if it leaves the record of its file. -/
theorem directory_handle_eq_iff {members : List Member} {request : FileMessage} :
    (c.handle members request).1.directory = c.directory ↔
      (c.served members request).said?.elim (c.directory.record? request.file)
        (·.apply (c.directory.record? request.file)) = c.directory.record? request.file := by
  constructor
  · intro hsame
    have hrecord := record?_handle c members request request.file
    rw [hsame, if_pos rfl] at hrecord
    exact hrecord.symm
  · refine fun hsame => ext_record? fun file => (record?_handle c members request file).trans ?_
    split
    · subst_vars
      exact hsame
    · rfl

/-- A report names holders, or gives its version up. It has no answer. -/
theorem served_report (c : Coordinator) (members : List Member) {report : FileMessage} {v : UInt64}
    (hkind : report.kind = .putOk ∨ report.kind = .putFail) (hversion : report.version = some v) :
    c.served members report = ⟨report, none⟩ ∧ ∃ s, Served.said? ⟨report, none⟩ = some s ∧
      (s = .givenUp v ∨ ∃ holders, s = .held v holders) := by
  obtain hkind | hkind := hkind
  · have hsaid : Served.said? ⟨report, none⟩ = some (if (Served.holders ⟨report, none⟩).isEmpty
        then .givenUp v else .held v (Served.holders ⟨report, none⟩)) := by
      simp only [Served.said?, hkind, hversion]
    refine ⟨by simp only [served, handle, hkind, hversion], _, hsaid, ?_⟩
    split
    · exact .inl rfl
    · exact .inr ⟨_, rfl⟩
  · refine ⟨by simp only [served, handle, hkind, hversion], _, ?_, .inl rfl⟩
    simp only [Served.said?, hkind, hversion]

theorem versions_eq_fail_iff : c.versions file = .fail ↔ c.directory.record? file = none := by
  unfold versions versions?
  cases c.directory.record? file with
  | none => exact iff_of_true rfl rfl
  | some r =>
    refine iff_of_false (fun h => ?_) nofun
    cases congrArg FileMessage.kind h

theorem get_eq_fail_iff : c.get file = .fail ↔
    ∀ (v : UInt64) (holders : MemberSet),
      ((c.directory.record? file).getD {}).versions[v]? = some holders → holders.isEmpty := by
  have hlatest : c.directory.latest? file = ((c.directory.record? file).getD {}).latest? := by
    rw [latest?]
    cases c.directory.record? file <;> rfl
  rw [← FileRecord.latest?_eq_none_iff, ← hlatest, get]
  cases c.directory.latest? file with
  | none => exact iff_of_true rfl rfl
  | some found =>
    refine iff_of_false (fun h => ?_) nofun
    cases congrArg FileMessage.kind h

/-- **After a deletion, what is recorded of a file is what has been said since.** The file is
unknown until a put is planned or a report names holders, puts are numbered from one again, and the
file can be got as long as some version was last said to have holders. A report changes nothing
exactly where it repeats the last word on its number, no matter when its put was planned. -/
theorem reports_after_deletion (c : Coordinator) (file : String)
    (later : List (List Member × FileMessage)) :
    let after := (c.delete file).1.serve later
    let said := Served.saidOf file after.2
    (after.1.versions file = .fail ↔ Said.known said = false) ∧
    (after.1.versions file = .fail → after.1.directory.nextVersion file = 1) ∧
    (after.1.get file = .fail ↔ ∀ (v : UInt64) (holders : MemberSet),
      Said.lastWord v said = some holders → holders.isEmpty) ∧
    ∀ (members : List Member) (report : FileMessage) (v : UInt64), report.file = file →
      (report.kind = .putOk ∨ report.kind = .putFail) → report.version = some v →
      ((after.1.handle members report).1.directory = after.1.directory ↔
        (Served.said? ⟨report, none⟩).bind (·.word? v) = some (Said.lastWord v said)) := by
  intro after said
  have hforgotten : (c.delete file).1.directory.record? file = none :=
    (record?_delete c file file).trans (if_pos rfl)
  have hnothing : Said.Recalls ((c.delete file).1.directory.record? file) [] :=
    hforgotten ▸ .nothing
  have hafter : Said.Recalls (after.1.directory.record? file) said := recalls_serve hnothing later
  have hunknown : after.1.versions file = .fail ↔ after.1.directory.record? file = none :=
    versions_eq_fail_iff
  refine ⟨?_, fun hfail => ?_, ?_, ?_⟩
  · rw [hunknown, ← hafter.known, Option.isSome_eq_false_iff, Option.isNone_iff_eq_none]
  · rw [nextVersion, recordOf_eq, hunknown.mp hfail]
    rfl
  · simp only [get_eq_fail_iff, hafter.versions]
  · rintro members report v rfl hkind hversion
    obtain ⟨hserved, s, hsaid, hs⟩ := served_report after.1 members hkind hversion
    rw [directory_handle_eq_iff, hserved, hsaid]
    exact hafter.apply_eq_iff hs

/-- A put is planned, and the file is deleted. That the put has failed is then nothing new, but if
it has succeeded the file is back. Where its number was given out again, either report is taken for
that of the new put, which is given up or can be got though nobody has reported it. -/
theorem late_success_after_deletion :
    let m : Member := ⟨"a", 1, 1⟩
    let plan := FileMessage.request .put .coordinator "a.txt"
    let success := Client.outcome "a.txt" 1 [m]
    let failure := Client.outcome "a.txt" 1 []
    let planned := (({} : Coordinator).handle [m] plan).1
    let deleted := planned.delete "a.txt"
    let replanned := (deleted.1.serve [([m], plan)]).1
    deleted.2.reply = some .ok ∧ deleted.1.versions "a.txt" = .fail ∧
    (deleted.1.handle [m] failure).1.directory = deleted.1.directory ∧
    (deleted.1.handle [m] success).1.directory ≠ deleted.1.directory ∧
    (deleted.1.serve [([m], success)]).1.get "a.txt" ≠ .fail ∧
    deleted.1.directory.nextVersion "a.txt" = 1 ∧ replanned.get "a.txt" = .fail ∧
    (replanned.handle [m] failure).1.directory ≠ replanned.directory ∧
    (deleted.1.serve [([m], plan), ([m], success)]).1.get "a.txt" ≠ .fail := by
  intro m plan success failure planned deleted replanned
  have hreports := reports_after_deletion planned "a.txt"
  -- That a version was last said to have a holder is what brings the file back.
  have hback (later : List (List Member × FileMessage)) (hlast : Said.lastWord 1
      (Served.saidOf "a.txt" (deleted.1.serve later).2) = some (.ofList [m])) :
      (deleted.1.serve later).1.get "a.txt" ≠ .fail := fun hfail =>
    absurd ((hreports later).2.2.1.mp hfail 1 _ hlast) (by decide +kernel)
  obtain ⟨hknown, hnumber, -, hreport⟩ := hreports []
  have hunknown : deleted.1.versions "a.txt" = .fail := hknown.mpr rfl
  refine ⟨by decide +kernel, hunknown, (hreport [m] failure 1 rfl (.inr rfl) rfl).mpr rfl,
    fun hsame => ?_, hback [([m], success)] (by decide +kernel), hnumber hunknown,
    by decide +kernel, fun hsame => ?_, hback [([m], plan), ([m], success)] (by decide +kernel)⟩
  · have hrepeats := (hreport [m] success 1 rfl (.inl rfl) rfl).mp hsame
    exact absurd hrepeats (by decide +kernel)
  · have hrepeats := ((hreports [([m], plan)]).2.2.2 [m] failure 1 rfl (.inr rfl) rfl).mp hsame
    exact absurd hrepeats (by decide +kernel)

end Coordinator

end ReplicaRing
