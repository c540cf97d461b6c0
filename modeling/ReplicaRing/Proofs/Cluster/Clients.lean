import ReplicaRing.Proofs.Cluster.Groups

/-!
# What clients do in a group that stands

A question to the coordinator is answered, a push to a member is confirmed, and a file is fetched
from the first holder that is tried.
-/
namespace ReplicaRing.Cluster

open Disk

variable {α β ε : Type} {W W' W'' : World} {x : ExceptT ε Act α} {f : α → ExceptT ε Act β} {a : α}
  {r : Except ε β} {fault : ε}

namespace Does

/-- A step that may fail, and does not. -/
theorem bindOk (hx : Does x.run W (.ok a) W') (hf : Does (f a).run W' r W'') :
    Does (x >>= f).run W r W'' := by
  rw [ExceptT.run_bind]
  exact hx.bind hf

/-- A step that may fail, and does. -/
theorem bindError (hx : Does x.run W (.error fault) W') :
    Does (x >>= f).run W (.error fault) W' := by
  rw [ExceptT.run_bind]
  exact hx.bind (.pure _)

theorem lift {act : Act α} (h : Does act W a W') :
    Does (ExceptT.lift (ε := ε) act).run W (.ok a) W' := by
  rw [ExceptT.run_lift, map_eq_pure_bind]
  exact h.bind (.pure _)

end Does

namespace Group

variable {g : Group} {P : String → Bytes → Prop} {files : Member → NameSet} {m target : Member}
  {name remote : String} {content : Bytes} {d : Disk} {k k' : Coordinator} {kind : FileKind}
  {reply : FileMessage} {source destination : FilePath}

/-- The file operations of a member that tries holders in some order. -/
def client (g : Group) (m : Member) (arrangement : Arrangement) : Client Act :=
  { Cluster.client (g.seat m) with arrangement }

variable (arrangement : Arrangement)

/-! ### The coordinator -/

namespace Stands

theorem does_coordinator (h : g.Stands P files W) (hm : m ∈ g.members) :
    Does (g.client m arrangement).coordinator W (some g.coordinator) W := by
  rw [← (h.ring m hm).2]
  exact does_ringOf.bind (.pure _)

theorem does_knownCoordinator (h : g.Stands P files W) (hm : m ∈ g.members) :
    Does (g.client m arrangement).knownCoordinator.run W (.ok g.coordinator) W := by
  refine Does.bindOk (.lift (h.does_coordinator _ hm)) ?_
  exact .pure _

theorem toList_ring (h : g.Stands P files W) (hm : m ∈ g.members) :
    (W.ring (g.seat m)).toList = g.members.toList := by
  rw [Ring.toList, (h.ring m hm).1]

/-- The coordinator is asked, and does what is asked. -/
theorem does_request (h : g.Stands P files W) (hrole : W.role (g.seat g.coordinator) = some k)
    (hsaid : Wire.Frame.Fits (Message.file (FileMessage.request kind .coordinator remote)))
    (hhandle : k.handle g.members.toList (FileMessage.request kind .coordinator remote) =
      (k', { reply := some reply })) :
    Does (network.request (α := FileMessage) g.coordinator
        (.file (FileMessage.request kind .coordinator remote))) W
      ((Heard.mk (Wire.Frame.bytes reply) true).reply .awaitingReply)
      (W.appoint (g.seat g.coordinator) k') := by
  rw [← h.toList_ring h.known] at hhandle
  exact Cluster.does_request hsaid h.log (h.reach _ h.known) rfl hrole hhandle _

theorem does_ask (h : g.Stands P files W) (hrole : W.role (g.seat g.coordinator) = some k)
    (hsaid : Wire.Frame.Fits (Message.file (FileMessage.request kind .coordinator remote)))
    (hhandle : k.handle g.members.toList (FileMessage.request kind .coordinator remote) =
      (k', { reply := some reply }))
    (hok : reply.kind = .ok) (hfits : Wire.Frame.Fits reply) :
    Does ((g.client m arrangement).ask g.coordinator kind remote).run W (.ok reply)
      (W.appoint (g.seat g.coordinator) k') := by
  have hrequest := h.does_request hrole hsaid hhandle
  rw [Heard.reply_bytes hfits] at hrequest
  refine Does.bindOk (.lift hrequest) ?_
  simp only [hok]
  exact .pure _

/-- An answer that does not fit a frame is not heard. -/
theorem does_ask_unanswered (h : g.Stands P files W)
    (hrole : W.role (g.seat g.coordinator) = some k)
    (hsaid : Wire.Frame.Fits (Message.file (FileMessage.request kind .coordinator remote)))
    (hhandle : k.handle g.members.toList (FileMessage.request kind .coordinator remote) =
      (k', { reply := some reply }))
    (hunfit : ¬ Wire.Frame.Fits reply) :
    Does ((g.client m arrangement).ask g.coordinator kind remote).run W
      (.error (.exchange (.io .endOfFile))) (W.appoint (g.seat g.coordinator) k') := by
  have hrequest := h.does_request hrole hsaid hhandle
  rw [Heard.reply_of_not_fits hunfit] at hrequest
  refine Does.bindOk (.lift hrequest) ?_
  exact .pure _

/-- A file that the coordinator does not know, or whose name is too long to ask for it. -/
theorem does_ask_unknown (h : g.Stands P files W) (hrole : W.role (g.seat g.coordinator) = some k)
    (hhandle : k.handle g.members.toList (FileMessage.request kind .coordinator remote) =
      (k, { reply := some .fail })) :
    ∃ fault, Does ((g.client m arrangement).ask g.coordinator kind remote).run W (.error fault)
      W := by
  by_cases hsaid : Wire.Frame.Fits (Message.file (FileMessage.request kind .coordinator remote))
  · have hrequest := h.does_request hrole hsaid hhandle
    rw [Heard.reply_bytes (by decide), appoint_self hrole] at hrequest
    exact ⟨_, Does.bindOk (.lift hrequest) (.pure _)⟩
  · have hrequest := does_request_unsaid hsaid (h.reach _ h.known) .awaitingReply
    exact ⟨_, Does.bindOk (.lift hrequest) (.pure _)⟩

/-! ### Pushing -/

theorem admits (h : g.Stands P files W) (hm : m ∈ g.members)
    (haccepted : Store.accepts name = true) (hfits : Fits (PartialName.ofName name))
    (hunstored : name ∉ files m) : (g.store files m).Admits W.disk name where
  accepted := haccepted
  fits := hfits
  unstored := hunstored
  receiving := rfl
  cancelled := rfl
  root := h.folder m hm
  folders := h.flat m hm

theorem does_look (f : Disk → α) : Does ((g.client m arrangement).look f) W (f W.disk) W :=
  does_onDisk (f := fun d => (d, f d)) rfl

theorem does_pushTo (h : g.Stands P files W) (htarget : target ∈ g.members)
    (hsource : W.disk.read source = .ok content)
    (hadmits : (g.store files target).Admits W.disk name) (hsize : content.length < UInt64.size) :
    ∃ after, Does ((g.client m arrangement).pushTo (Client.pushRequest name content.length) source
        target) W true (W.keep (g.seat target)
          { g.store files target with files := (files target).insert name } after) ∧
      W.disk.Touches after
        [(g.store files target).transit name, (g.store files target).place name] ∧
      after.lookup ((g.store files target).path name) = .ok (.file content) := by
  obtain ⟨after, hpush, htouch, hfound⟩ :=
    does_push h.log (h.reach target htarget) (h.store target htarget) h.tree hadmits hsize
  refine ⟨after, ?_, htouch, hfound⟩
  refine (does_look _ _).bind ?_
  rw [hsource]
  exact hpush.bind (.pure _)

/-- A file is pushed to each of some members, and all of them store it. -/
theorem does_pushAll (h : g.Stands P files W) (hsource : g.Readable W.disk source content)
    (hsize : content.length < UInt64.size) (hbelongs : P name content)
    (haccepted : Store.accepts name = true) (hfits : Fits (PartialName.ofName name))
    {targets : List Member} (hnodup : targets.Nodup)
    (htargets : ∀ target ∈ targets, target ∈ g.members ∧ name ∉ files target) :
    ∃ files' W', Does ((g.client m arrangement).pushAll name content.length source targets) W
        targets W' ∧
      g.Stands P files' W' ∧ W'.role = W.role ∧
      ∀ n other, other ∈ files' n ↔ other ∈ files n ∨ n ∈ targets ∧ other = name := by
  have hall : ∃ files' W', Does (targets.mapM fun target => do
        return (target, ← (g.client m arrangement).pushTo (Client.pushRequest name content.length)
          source target)) W (targets.map (·, true)) W' ∧
      g.Stands P files' W' ∧ W'.role = W.role ∧
      ∀ n other, other ∈ files' n ↔ other ∈ files n ∨ n ∈ targets ∧ other = name := by
    induction targets generalizing files W with
    | nil =>
      refine ⟨files, W, .pure [], h, rfl, fun n other => ?_⟩
      simp only [List.not_mem_nil, false_and, or_false]
    | cons target rest ih =>
      obtain ⟨htarget, hunstored⟩ := htargets target List.mem_cons_self
      obtain ⟨hnot, hnodup⟩ := List.nodup_cons.mp hnodup
      have hadmits := h.admits htarget haccepted hfits hunstored
      obtain ⟨after, hpush, htouch, hfound⟩ := h.does_pushTo arrangement
        htarget hsource.1 hadmits hsize
      have hsource' := hsource.touched htouch fun l => not_outside_of_mem htarget
      obtain ⟨files', W', hrest, hstands, hrole, hfiles⟩ :=
        ih (h.keep htarget hbelongs haccepted htouch hfound) hsource' hnodup
          fun other hother => by
            refine ⟨(htargets other (List.mem_cons_of_mem _ hother)).1, ?_⟩
            have hne : other ≠ target := fun heq => hnot (heq ▸ hother)
            rw [if_neg hne]
            exact (htargets other (List.mem_cons_of_mem _ hother)).2
      refine ⟨files', W', ?_, hstands, hrole, fun n other => ?_⟩
      · rw [List.mapM_cons]
        refine Does.bind (hpush.bind (.pure _)) ?_
        refine hrest.bind ?_
        exact .pure _
      · rw [hfiles, List.mem_cons]
        split
        · rename_i heq
          subst heq
          rw [mem_insert_iff, eq_comm (a := name)]
          tauto
        · tauto
  obtain ⟨files', W', hpushes, hrest⟩ := hall
  refine ⟨files', W', hpushes.bind ?_, hrest⟩
  have hconfirmed : ((targets.map (·, true)).filter (·.2)).map (·.1) = targets := by
    rw [List.filter_eq_self.mpr (by simp), List.map_map]
    exact List.map_id _
  rw [hconfirmed]
  exact .pure _

/-- The coordinator hears how a put ended. -/
theorem does_report (h : g.Stands P files W) (hm : m ∈ g.members)
    (hrole : W.role (g.seat g.coordinator) = some k) (planner : Member) (remote : String)
    (version : UInt64) (storedOn : List Member) (hstored : storedOn ≠ [])
    (hfits : Wire.Frame.Fits (Message.file (Client.outcome remote version storedOn))) :
    Does ((g.client m arrangement).report planner remote version storedOn) W ()
      (W.appoint (g.seat g.coordinator)
        { k with
          directory := k.directory.confirm remote version
            (Std.ExtTreeSet.ofList storedOn compare) }) := by
  have hkind : (Client.outcome remote version storedOn) =
      { FileMessage.request .putOk .coordinator remote with
        nodes := storedOn, version := some version } := by
    rw [Client.outcome, List.isEmpty_eq_false_iff.mpr hstored]
    rfl
  have hhandle : k.handle (W.ring (g.seat g.coordinator)).toList
      (Client.outcome remote version storedOn) =
      ({ k with
          directory := k.directory.confirm remote version
            (Std.ExtTreeSet.ofList storedOn compare) }, {}) := by
    rw [hkind]
    rfl
  refine (h.does_coordinator _ hm).bind ?_
  refine (does_send hfits h.log (h.reach _ h.known) (by rw [hkind]; rfl) hrole hhandle).bind ?_
  exact .pure _

/-! ### Fetching -/

theorem does_inRing (h : g.Stands P files W) (hm : m ∈ g.members) (htarget : target ∈ g.members) :
    Does ((g.client m arrangement).inRing target) W true W := by
  have hcontains : (W.ring (g.seat m)).contains target = true := by
    rw [Ring.contains, (h.ring m hm).1, ← Std.ExtTreeSet.mem_iff_contains]
    exact htarget
  rw [← hcontains]
  exact does_ringOf.bind (.pure _)

/-- A holder serves a file, which is at its destination then. -/
theorem does_fetchAt (h : g.Stands P files W) (htarget : target ∈ g.members)
    (hserves : (g.store files target).Serves W.disk name content)
    (hsize : content.length < UInt64.size) {sibling place : Location}
    (hsibling : W.disk.fileTarget destination.inTransit = .ok sibling)
    (hplace : W.disk.fileTarget destination = .ok place) :
    ∃ d, Does ((g.client m arrangement).fetchAt name destination target) W true
        { W with disk := d } ∧
      W.disk.Touches d [sibling, place] ∧ d.lookup destination = .ok (.file content) := by
  have hlength : Announces (announcement content.length).size content.length := by
    rintro n ⟨⟩
    exact UInt64.toNat_ofNat_of_lt' hsize
  obtain ⟨d, hreceive, htouch, hentry⟩ :=
    Transfer.exists_receive h.tree hsibling hplace hlength
  have hpull := Heard.pull_bytes W.disk destination content (fits_announcement content.length) rfl
  rw [hreceive] at hpull
  refine ⟨d, ?_, htouch, ?_⟩
  · have hask := Cluster.does_ask h.log (h.reach target htarget) (h.store target htarget) hserves
    refine hask.bind ?_
    refine (does_onDisk (f := (Heard.pull _ · destination)) hpull).bind ?_
    refine (does_note (W := { W with disk := d }) h.log _).bind ?_
    exact .pure _
  · have hplace' := htouch.folders.fileTarget_eq_ok.mp hplace
    refine lookup_eq_file.mpr ⟨_, (fileTarget_eq_ok.mp hplace').1, ?_, rfl⟩
    rw [hentry, if_pos rfl]

/-- A file is fetched from the first holder that is tried. -/
theorem does_fetch (h : g.Stands P files W) (hm : m ∈ g.members) {holders : List Member}
    (hne : holders ≠ []) (hholders : ∀ holder ∈ holders, holder ∈ g.members ∧ name ∈ files holder)
    (hbelongs : ∀ found, P name found → found = content) (hsize : content.length < UInt64.size)
    {sibling place : Location} (hsibling : W.disk.fileTarget destination.inTransit = .ok sibling)
    (hplace : W.disk.fileTarget destination = .ok place) :
    ∃ holder d, Does ((g.client m arrangement).fetch name holders destination).run W (.ok holder)
        { W with disk := d } ∧
      W.disk.Touches d [sibling, place] ∧ d.lookup destination = .ok (.file content) := by
  have horder := arrangement.order_perm name holders
  cases htried : arrangement.order name holders with
  | nil =>
    rw [htried] at horder
    exact absurd horder.symm.eq_nil hne
  | cons holder rest =>
    rw [htried] at horder
    obtain ⟨hmember, hstored⟩ := hholders holder (horder.mem_iff.mp List.mem_cons_self)
    obtain ⟨found, hfound, hserves⟩ := h.serves holder hmember name hstored
    cases hbelongs found hfound
    obtain ⟨d, hfetch, hafter⟩ := h.does_fetchAt arrangement hmember hserves hsize
      hsibling hplace
    refine ⟨holder, d, ?_, hafter⟩
    change Does ((g.client m arrangement).fetchFrom name destination
      (arrangement.order name holders)).run W _ _
    rw [htried, Client.fetchFrom]
    refine Does.bindOk (.lift (h.does_inRing _ hm hmember)) ?_
    refine Does.bindOk (.lift hfetch) ?_
    exact .pure _

/-- A file cannot be fetched if its bytes cannot be collected. -/
theorem does_fetchAt_refused (h : g.Stands P files W) (htarget : target ∈ g.members)
    (hserves : (g.store files target).Serves W.disk name content)
    (hrefused : ¬ W.disk.Collects destination) :
    Does ((g.client m arrangement).fetchAt name destination target) W false W := by
  obtain ⟨fault, hreceive⟩ :=
    Transfer.receive_refused hrefused (announcement content.length).size content
  have hpull := Heard.pull_bytes W.disk destination content (fits_announcement content.length) rfl
  rw [hreceive] at hpull
  refine (Cluster.does_ask h.log (h.reach target htarget) (h.store target htarget) hserves).bind ?_
  refine (does_onDisk (f := (Heard.pull _ · destination)) hpull).bind ?_
  exact (does_note h.log _).bind (.pure _)

/-- No other holder helps then. -/
theorem does_fetch_refused (h : g.Stands P files W) (hm : m ∈ g.members) {holders : List Member}
    (hholders : ∀ holder ∈ holders, holder ∈ g.members ∧ name ∈ files holder)
    (hrefused : ¬ W.disk.Collects destination) :
    Does ((g.client m arrangement).fetch name holders destination).run W
      (.error (.unavailable name)) W := by
  have hall (tried : List Member) (htried : ∀ holder ∈ tried, holder ∈ holders) :
      Does ((g.client m arrangement).fetchFrom name destination tried).run W
        (.error (.unavailable name)) W := by
    induction tried with
    | nil => exact .pure _
    | cons holder rest ih =>
      obtain ⟨htried, hrest⟩ := List.forall_mem_cons.mp htried
      obtain ⟨hmember, hstored⟩ := hholders holder htried
      obtain ⟨content, -, hserves⟩ := h.serves holder hmember name hstored
      refine Does.bindOk (.lift (h.does_inRing _ hm hmember)) ?_
      exact Does.bindOk (.lift (h.does_fetchAt_refused _ hmember hserves hrefused)) (ih hrest)
  exact hall _ fun holder htried => (arrangement.order_perm name holders).mem_iff.mp htried

end Stands

end Group

end ReplicaRing.Cluster
