import ReplicaRing.Proofs.Cluster.Operations
import ReplicaRing.Proofs.Directory.Holders
import ReplicaRing.Proofs.VersionedPaths

/-!
# Groups that follow from their history

The directory of the coordinator represents the history, and the stores have under each name what
the history says. From this follows what is heard, fetched and listed; and a put adds to the history
what it stores.
-/
namespace ReplicaRing

namespace History

variable {h : History} {file name : String} {v : UInt64} {content found : Bytes}

/-- A name of a version, and what was put as that version. -/
def Names (h : History) (name : String) (content : Bytes) : Prop :=
  content.length < UInt64.size ∧
    ∃ file v, name = StoredName.ofVersion file v ∧ h.content? file v = some content

theorem Names.add (hname : h.Names name found) (file : String) (content : Bytes) :
    (h.add file content).Names name found :=
  let ⟨hsize, g, v, hname, hfound⟩ := hname
  ⟨hsize, g, v, hname, content?_add hfound⟩

/-- A name stands for one content only. -/
theorem names_ofVersion (hname : h.Names (StoredName.ofVersion file v) content) :
    content.length < UInt64.size ∧ h.content? file v = some content := by
  obtain ⟨hsize, g, w, hname, hfound⟩ := hname
  obtain ⟨rfl, rfl⟩ := StoredName.ofVersion_eq_iff.mp hname
  exact ⟨hsize, hfound⟩

end History

namespace Coordinator

variable (k : Coordinator) (members : List Member) (file : String)

theorem handle_get : k.handle members (FileMessage.request .get .coordinator file) =
    (k, { reply := some (k.get file) }) := rfl

theorem handle_getVersions : k.handle members (FileMessage.request .getVersions .coordinator file) =
    (k, { reply := some (k.versions file) }) := rfl

theorem handle_put : k.handle members (FileMessage.request .put .coordinator file) =
    ((k.put members file).1, { reply := some (k.put members file).2 }) := rfl

end Coordinator

namespace Cluster

open Disk

variable {g : Group} {h : History} {files : Member → NameSet} {k : Coordinator} {W : World}
  {m : Member} {remote : String} {source destination : FilePath}
  {d : Disk} {places : List Location}

/-- A group whose directory and stores follow from its history. -/
structure Group.Follows (g : Group) (h : History) (files : Member → NameSet) (k : Coordinator)
    (W : World) : Prop where
  stands : g.Stands h.Names files W
  role : W.role (g.seat g.coordinator) = some k
  factor : 1 ≤ k.placement.factor
  represents : k.directory.Represents h fun m name => m ∈ g.members ∧ name ∈ files m

namespace Group.Follows

theorem touched (hf : g.Follows h files k W) (ht : W.disk.Touches d places)
    (haway : ∀ l ∈ places, g.Outside l) : g.Follows h files k { W with disk := d } :=
  { hf with stands := hf.stands.touched ht haway }

/-- What a member stores was put before. -/
theorem length_of_stored (hf : g.Follows h files k W) (hm : m ∈ g.members) {file : String}
    {v : UInt64} (hstored : StoredName.ofVersion file v ∈ files m) :
    v.toNat ≤ (h file).length := by
  obtain ⟨content, hname, -⟩ := hf.stands.serves m hm _ hstored
  have hfound := (History.names_ofVersion hname).2
  exact (History.content?_isSome.mp (by rw [hfound]; rfl)).2

/-- Who asks for a name that was put is heard: the name is shorter than those that it is stored
under. -/
theorem fits_request (hf : g.Follows h files k W) {file : String} (hput : h file ≠ [])
    (kind : FileKind) :
    Wire.Frame.Fits (Message.file (FileMessage.request kind .coordinator file)) := by
  obtain ⟨v, holders, -, -, hne, hstored⟩ := hf.represents.latest? hput
  obtain ⟨m, hm⟩ := exists_mem_of_isEmpty hne
  obtain ⟨hmember, hname⟩ := hstored m hm
  obtain ⟨content, -, hserves⟩ := hf.stands.serves m hmember _ hname
  exact Cluster.fits_request kind .coordinator
    ((StoredName.utf8ByteSize_le_ofVersion file v).trans hserves.fits.2)

variable (arrangement : Arrangement)

/-! ### Fetching -/

/-- A version is fetched from one of its holders. -/
theorem does_fetch (hf : g.Follows h files k W) (hm : m ∈ g.members) {file : String} {v : UInt64}
    {holders : MemberSet} (hne : holders.isEmpty = false)
    (hstored : ∀ n ∈ holders, n ∈ g.members ∧ StoredName.ofVersion file v ∈ files n)
    {sibling place : Location} (hsibling : W.disk.fileTarget destination.inTransit = .ok sibling)
    (hplace : W.disk.fileTarget destination = .ok place) :
    ∃ holder d content, h.content? file v = some content ∧
      Does ((g.client m arrangement).fetch (StoredName.ofVersion file v) holders.toList
        destination).run W (.ok holder) { W with disk := d } ∧
      W.disk.Touches d [sibling, place] ∧ d.lookup destination = .ok (.file content) := by
  have hlist : holders.toList ≠ [] := by
    rw [Ne, ← List.isEmpty_iff, Std.ExtTreeSet.isEmpty_toList, hne]
    exact Bool.false_ne_true
  obtain ⟨n, hn⟩ := List.exists_mem_of_ne_nil _ hlist
  obtain ⟨hmember, hname⟩ := hstored n (Std.ExtTreeSet.mem_toList.mp hn)
  obtain ⟨content, hbelongs, -⟩ := hf.stands.serves n hmember _ hname
  obtain ⟨hsize, hcontent⟩ := History.names_ofVersion hbelongs
  obtain ⟨holder, d, hfetch, hafter⟩ := hf.stands.does_fetch arrangement hm
    hlist (fun n hn => hstored n (Std.ExtTreeSet.mem_toList.mp hn))
    (fun found hfound => Option.some.inj ((History.names_ofVersion hfound).2.symm.trans hcontent))
    hsize hsibling hplace
  exact ⟨holder, d, content, hcontent, hfetch, hafter⟩

theorem answers_iff (hf : g.Follows h files k W) {kind : FileKind} {k' : Coordinator}
    {reply : FileMessage}
    (hhandle : k.handle g.members.toList
      (FileMessage.request kind .coordinator (RemoteName.flatten remote)) =
      (k', { reply := some reply })) :
    g.Answers W kind remote ↔ Wire.Frame.Fits reply := by
  refine ⟨fun hanswers => hanswers k hf.role reply (by rw [hhandle]; rfl), ?_⟩
  intro hfits k'' hk'' reply' hreply'
  cases hf.role.symm.trans hk''
  rw [hhandle] at hreply'
  cases hreply'
  exact hfits

/-- A question whose answer is not heard. -/
theorem does_ask_unanswered (hf : g.Follows h files k W) {kind : FileKind} {reply : FileMessage}
    (hput : h (RemoteName.flatten remote) ≠ [])
    (hhandle : k.handle g.members.toList
      (FileMessage.request kind .coordinator (RemoteName.flatten remote)) =
      (k, { reply := some reply }))
    (hunfit : ¬ g.Answers W kind remote) :
    Does ((g.client m arrangement).ask g.coordinator kind (RemoteName.flatten remote)).run W
      (.error (.exchange (.io .endOfFile))) W := by
  rw [hf.answers_iff hhandle] at hunfit
  have hask := hf.stands.does_ask_unanswered (m := m) arrangement hf.role
    (hf.fits_request hput kind) hhandle hunfit
  rwa [appoint_self hf.role] at hask

/-- The coordinator answers a get of a name that was put with the holders of the last version. -/
theorem does_ask_get (hf : g.Follows h files k W) (hput : h (RemoteName.flatten remote) ≠ [])
    (hanswers : g.Answers W .get remote) :
    ∃ (v : UInt64) (holders : MemberSet),
      Does ((g.client m arrangement).ask g.coordinator .get (RemoteName.flatten remote)).run W
        (.ok (k.get (RemoteName.flatten remote))) W ∧
      (k.get (RemoteName.flatten remote)).file =
        StoredName.ofVersion (RemoteName.flatten remote) v ∧
      (k.get (RemoteName.flatten remote)).nodes = holders.toList ∧
      v.toNat = (h (RemoteName.flatten remote)).length ∧ holders.isEmpty = false ∧
      ∀ n ∈ holders, n ∈ g.members ∧
        StoredName.ofVersion (RemoteName.flatten remote) v ∈ files n := by
  obtain ⟨v, holders, hlatest, hv, hne, hstored⟩ := hf.represents.latest? hput
  have hreply : k.get (RemoteName.flatten remote) =
      { FileMessage.ok with
        file := StoredName.ofVersion (RemoteName.flatten remote) v
        nodes := holders.toList
        version := some v } := by
    unfold Coordinator.get
    simp only [hlatest]
  have hask := hf.stands.does_ask (m := m) arrangement hf.role (hf.fits_request hput .get)
    (k.handle_get _ _) (by rw [hreply]; rfl) ((hf.answers_iff (k.handle_get _ _)).mp hanswers)
  rw [appoint_self hf.role] at hask
  exact ⟨v, holders, hask, by rw [hreply], by rw [hreply], hv, hne, hstored⟩

/-- The last put of a name is fetched. -/
theorem does_get (hf : g.Follows h files k W) (hm : m ∈ g.members)
    (hput : h (RemoteName.flatten remote) ≠ []) (hreceivable : g.Receivable W.disk destination)
    (hcollects : W.disk.Collects destination) (hanswers : g.Answers W .get remote) :
    ∃ holder d content, Does ((g.client m arrangement).get remote destination).run W (.ok holder)
        { W with disk := d } ∧
      g.Follows h files k { W with disk := d } ∧
      (h (RemoteName.flatten remote)).getLast? = some content ∧
      d.read destination = .ok content := by
  obtain ⟨v, holders, hask, hfile, hnodes, hv, hne, hstored⟩ :=
    hf.does_ask_get (m := m) arrangement hput hanswers
  obtain ⟨⟨place, hplace, houtside⟩, hsiblings⟩ := hreceivable
  obtain ⟨sibling, hsibling⟩ := hcollects
  have houtside' := hsiblings _ (fileTarget_eq_ok.mp hsibling).1
  obtain ⟨holder, d, content, hcontent, hfetch, htouch, hfound⟩ :=
    hf.does_fetch arrangement hm hne hstored hsibling hplace
  refine ⟨holder, d, content, ?_, hf.touched htouch ?_, ?_, read_eq_ok.mpr hfound⟩
  · refine Does.bindOk (hf.stands.does_knownCoordinator _ hm) ?_
    refine Does.bindOk hask ?_
    rw [hfile, hnodes]
    exact hfetch
  · simpa using ⟨houtside', houtside⟩
  · rw [← History.content?_length hv, hcontent]

/-- A file is not fetched if the coordinator cannot say where it is. -/
theorem does_get_unanswered (hf : g.Follows h files k W) (hm : m ∈ g.members)
    (hput : h (RemoteName.flatten remote) ≠ []) (hunfit : ¬ g.Answers W .get remote) :
    Does ((g.client m arrangement).get remote destination).run W
      (.error (.exchange (.io .endOfFile))) W := by
  refine Does.bindOk (hf.stands.does_knownCoordinator _ hm) ?_
  exact Does.bindError (hf.does_ask_unanswered _ hput (k.handle_get _ _) hunfit)

/-- A file is not fetched if its bytes cannot be collected. -/
theorem does_get_refused (hf : g.Follows h files k W) (hm : m ∈ g.members)
    (hput : h (RemoteName.flatten remote) ≠ []) (hrefused : ¬ W.disk.Collects destination)
    (hanswers : g.Answers W .get remote) :
    Does ((g.client m arrangement).get remote destination).run W
      (.error (.unavailable (StoredName.ofVersion (RemoteName.flatten remote)
        (UInt64.ofNat (h (RemoteName.flatten remote)).length)))) W := by
  obtain ⟨v, holders, hask, hfile, hnodes, hv, -, hstored⟩ :=
    hf.does_ask_get (m := m) arrangement hput hanswers
  refine Does.bindOk (hf.stands.does_knownCoordinator _ hm) ?_
  refine Does.bindOk hask ?_
  rw [hfile, hnodes, ← hv, UInt64.ofNat_toNat]
  exact hf.stands.does_fetch_refused _ hm
    (fun n hn => hstored n (Std.ExtTreeSet.mem_toList.mp hn)) hrefused

/-- A name that was never put is not fetched. -/
theorem does_get_unknown (hf : g.Follows h files k W) (hm : m ∈ g.members)
    (hnil : h (RemoteName.flatten remote) = []) :
    ∃ fault, Does ((g.client m arrangement).get remote destination).run W (.error fault) W := by
  have hreply : k.get (RemoteName.flatten remote) = .fail := by
    unfold Coordinator.get
    rw [hf.represents.latest?_of_nil hnil]
  have hhandle := k.handle_get g.members.toList (RemoteName.flatten remote)
  rw [hreply] at hhandle
  obtain ⟨fault, hask⟩ := hf.stands.does_ask_unknown (m := m) arrangement hf.role hhandle
  exact ⟨fault, Does.bindOk (hf.stands.does_knownCoordinator _ hm) (Does.bindError hask)⟩

/-- The versions of a name that was put are listed. -/
theorem does_listVersions (hf : g.Follows h files k W) (hm : m ∈ g.members)
    (hput : h (RemoteName.flatten remote) ≠ []) (hanswers : g.Answers W .getVersions remote) :
    Does ((g.client m arrangement).listVersions remote).run W
      (.ok (k.directory.recordOf (RemoteName.flatten remote)).versions) W := by
  have hreply : k.versions (RemoteName.flatten remote) =
      { FileMessage.ok with
        file := RemoteName.flatten remote
        versions := some (k.directory.recordOf (RemoteName.flatten remote)).versions } := by
    unfold Coordinator.versions Directory.versions?
    rw [hf.represents.record?_eq hput]
    rfl
  have hhandle := k.handle_getVersions g.members.toList (RemoteName.flatten remote)
  rw [hreply] at hhandle
  have hask := hf.stands.does_ask (m := m) arrangement hf.role (hf.fits_request hput .getVersions)
    hhandle rfl ((hf.answers_iff hhandle).mp hanswers)
  rw [appoint_self hf.role] at hask
  refine Does.bindOk (hf.stands.does_knownCoordinator _ hm) ?_
  exact Does.bindOk hask (.pure _)

theorem does_listVersions_unknown (hf : g.Follows h files k W) (hm : m ∈ g.members)
    (hnil : h (RemoteName.flatten remote) = []) :
    ∃ fault, Does ((g.client m arrangement).listVersions remote).run W (.error fault) W := by
  have hreply : k.versions (RemoteName.flatten remote) = .fail := by
    unfold Coordinator.versions Directory.versions?
    rw [hf.represents.unknown _ hnil]
    rfl
  have hhandle := k.handle_getVersions g.members.toList (RemoteName.flatten remote)
  rw [hreply] at hhandle
  obtain ⟨fault, hask⟩ := hf.stands.does_ask_unknown (m := m) arrangement hf.role hhandle
  exact ⟨fault, Does.bindOk (hf.stands.does_knownCoordinator _ hm) (Does.bindError hask)⟩

theorem does_listVersions_unanswered (hf : g.Follows h files k W) (hm : m ∈ g.members)
    (hput : h (RemoteName.flatten remote) ≠ []) (hunfit : ¬ g.Answers W .getVersions remote) :
    Does ((g.client m arrangement).listVersions remote).run W
      (.error (.exchange (.io .endOfFile))) W := by
  refine Does.bindOk (hf.stands.does_knownCoordinator _ hm) ?_
  exact Does.bindError (hf.does_ask_unanswered _ hput (k.handle_getVersions _ _) hunfit)

/-- Without a put or an answer, nothing is listed. -/
theorem does_listVersions_fails (hf : g.Follows h files k W) (hm : m ∈ g.members)
    (hnot : ¬ (h (RemoteName.flatten remote) ≠ [] ∧ g.Answers W .getVersions remote)) :
    ∃ fault, Does ((g.client m arrangement).listVersions remote).run W (.error fault) W := by
  by_cases hput : h (RemoteName.flatten remote) = []
  · exact hf.does_listVersions_unknown _ hm hput
  · exact ⟨_, hf.does_listVersions_unanswered _ hm hput fun hanswers => hnot ⟨hput, hanswers⟩⟩

/-- What is skipped is left out. -/
theorem filterMap_skipped {α β : Type} (l : List α) (p : α → Prop) [DecidablePred p] (f : α → β) :
    (l.map fun x => if p x then some (f x) else none).filterMap id = (l.filter p).map f := by
  rw [List.filterMap_map]
  induction l with
  | nil => rfl
  | cons x rest ih =>
    by_cases hx : p x
    · simpa [hx] using ih
    · simpa [hx] using ih

/-- A version is fetched to its path, if its bytes can be collected there, and is skipped if not. -/
theorem does_getVersion (hf : g.Follows h files k W) (hm : m ∈ g.members) {file : String}
    {v : UInt64} {holders : MemberSet} (hne : holders.isEmpty = false)
    (hstored : ∀ n ∈ holders, n ∈ g.members ∧ StoredName.ofVersion file v ∈ files n)
    (hreceivable : g.Receivable W.disk (destination.ofVersion v)) :
    ∃ d places, Does ((g.client m arrangement).getVersion file destination v holders) W
        (if W.disk.Collects (destination.ofVersion v) then
          some (v, (destination.ofVersion v).text) else none) { W with disk := d } ∧
      W.disk.Touches d places ∧
      (∀ l ∈ places, g.Outside l ∧ (W.disk.fileTarget (destination.ofVersion v) = .ok l ∨
        W.disk.fileTarget (destination.ofVersion v).inTransit = .ok l)) ∧
      (W.disk.Collects (destination.ofVersion v) →
        ∃ content place, h.content? file v = some content ∧
          W.disk.fileTarget (destination.ofVersion v) = .ok place ∧
          d.lookup (destination.ofVersion v) = .ok (.file content)) := by
  obtain ⟨⟨place, hplace, houtside⟩, hsiblings⟩ := hreceivable
  by_cases hcollects : W.disk.Collects (destination.ofVersion v)
  · obtain ⟨sibling, hsibling⟩ := id hcollects
    have houtside' := hsiblings _ (fileTarget_eq_ok.mp hsibling).1
    obtain ⟨holder, d, content, hcontent, hfetch, htouch, hfound⟩ :=
      hf.does_fetch arrangement hm hne hstored hsibling hplace
    rw [if_pos hcollects]
    refine ⟨d, [sibling, place], hfetch.bind (.pure _), htouch, ?_,
      fun _ => ⟨content, place, hcontent, hplace, hfound⟩⟩
    simpa using ⟨⟨houtside', .inr hsibling⟩, houtside, .inl hplace⟩
  · have hfetch := hf.stands.does_fetch_refused arrangement hm
      (fun n hn => hstored n (Std.ExtTreeSet.mem_toList.mp hn)) hcollects
    rw [if_neg hcollects]
    exact ⟨W.disk, [], hfetch.bind ((does_note hf.stands.log _).bind (.pure _)), .refl _ _,
      List.forall_mem_nil _, fun h => absurd h hcollects⟩

/-- Versions are fetched one after the other, and none disturbs another. -/
theorem does_getEach (hf : g.Follows h files k W) (hm : m ∈ g.members) {file : String}
    {entries : List (UInt64 × MemberSet)} (hdistinct : (entries.map (·.1)).Nodup)
    (hheld : ∀ entry ∈ entries, entry.2.isEmpty = false ∧
      ∀ n ∈ entry.2, n ∈ g.members ∧ StoredName.ofVersion file entry.1 ∈ files n)
    (hreceivable : ∀ entry ∈ entries, g.Receivable W.disk (destination.ofVersion entry.1)) :
    ∃ d places, Does (entries.mapM fun (version, holders) => ExceptT.lift (ε := StorageFault)
          ((g.client m arrangement).getVersion file destination version holders)).run W
        (.ok (entries.map fun entry =>
          if W.disk.Collects (destination.ofVersion entry.1) then
            some (entry.1, (destination.ofVersion entry.1).text) else none))
        { W with disk := d } ∧
      W.disk.Touches d places ∧
      (∀ l ∈ places, g.Outside l ∧ ∃ entry ∈ entries,
        W.disk.fileTarget (destination.ofVersion entry.1) = .ok l ∨
          W.disk.fileTarget (destination.ofVersion entry.1).inTransit = .ok l) ∧
      ∀ entry ∈ entries, W.disk.Collects (destination.ofVersion entry.1) →
        ∃ content, h.content? file entry.1 = some content ∧
          d.lookup (destination.ofVersion entry.1) = .ok (.file content) := by
  induction entries generalizing W with
  | nil =>
    exact ⟨W.disk, [], .pure _, .refl _ _, List.forall_mem_nil _, List.forall_mem_nil _⟩
  | cons entry rest ih =>
    obtain ⟨hnot, hdistinct⟩ := List.nodup_cons.mp hdistinct
    obtain ⟨hheld, hheldRest⟩ := List.forall_mem_cons.mp hheld
    obtain ⟨hreceivable, hreceivableRest⟩ := List.forall_mem_cons.mp hreceivable
    obtain ⟨d, places, hget, htouch, hplaces, hfound⟩ :=
      hf.does_getVersion arrangement hm hheld.1 hheld.2 hreceivable
    obtain ⟨d', places', hrest, htouch', hplaces', hfetched⟩ :=
      ih (hf.touched htouch fun l hl => (hplaces l hl).1) hdistinct hheldRest
        fun other hother => (hreceivableRest other hother).sameFolders htouch.folders
    simp only [← htouch.folders.collects, ← htouch.folders.fileTarget_eq_ok]
      at hrest hplaces' hfetched
    refine ⟨d', places ++ places', ?_, ?_, ?_, ?_⟩
    · rw [List.mapM_cons]
      refine Does.bindOk (.lift hget) ?_
      exact Does.bindOk hrest (.pure _)
    · exact (htouch.mono fun l hl => List.mem_append_left _ hl).trans
        (htouch'.mono fun l hl => List.mem_append_right _ hl)
    · intro l hl
      obtain hl | hl := List.mem_append.mp hl
      · exact ⟨(hplaces l hl).1, entry, List.mem_cons_self, (hplaces l hl).2⟩
      · obtain ⟨houtside, other, hother, htarget⟩ := hplaces' l hl
        exact ⟨houtside, other, List.mem_cons_of_mem _ hother, htarget⟩
    · refine List.forall_mem_cons.mpr ⟨fun hcollects => ?_, hfetched⟩
      obtain ⟨content, place, hcontent, hplace, hfound⟩ := hfound hcollects
      have hplace' := htouch.folders.fileTarget_eq_ok.mp hplace
      refine ⟨content, hcontent, htouch'.lookup_file hplace' (fun hmem => ?_) hfound⟩
      obtain ⟨-, other, hother, htarget | htarget⟩ := hplaces' place hmem
      · refine versionedPath_apart (fun heq => ?_) hplace htarget rfl
        exact hnot (List.mem_map.mpr ⟨other, hother, heq.symm⟩)
      · exact versionedPath_apart_inTransit hplace htarget rfl

/-- The newest versions of a name that was put are fetched, as far as their bytes can be
collected. -/
theorem does_getVersions (hf : g.Follows h files k W) (hm : m ∈ g.members)
    (hput : h (RemoteName.flatten remote) ≠ []) {count : Nat}
    (hreceivable : ∀ v ∈ newestOf (h (RemoteName.flatten remote)).length count,
      g.Receivable W.disk (destination.ofVersion (UInt64.ofNat v)))
    (hanswers : g.Answers W .getVersions remote) :
    ∃ (versions : List UInt64) (d : Disk),
      Does ((g.client m arrangement).getVersions remote count destination).run W
        (.ok (versions.map fun v => (v, (destination.ofVersion v).text))) { W with disk := d } ∧
      g.Follows h files k { W with disk := d } ∧
      versions.map UInt64.toNat =
        ((newestOf (h (RemoteName.flatten remote)).length count).filter fun v =>
          W.disk.Collects (destination.ofVersion (UInt64.ofNat v))) ∧
      ∀ v ∈ versions, ∃ content, h.content? (RemoteName.flatten remote) v = some content ∧
        d.read (destination.ofVersion v) = .ok content := by
  obtain ⟨hnumbers, hheld⟩ := hf.represents.newest (RemoteName.flatten remote) count
  obtain ⟨entries, hentries⟩ : ∃ entries, Client.newest
      (k.directory.recordOf (RemoteName.flatten remote)).versions count = entries := ⟨_, rfl⟩
  rw [hentries] at hnumbers hheld
  have hnumbers' : (entries.map (·.1)).map UInt64.toNat =
      newestOf (h (RemoteName.flatten remote)).length count := by
    rw [List.map_map]
    exact hnumbers
  have hdistinct : (entries.map (·.1)).Nodup := by
    refine List.Nodup.of_map UInt64.toNat ?_
    rw [hnumbers']
    exact (List.nodup_reverse.mpr List.nodup_range').sublist (List.take_sublist _ _)
  obtain ⟨d, places, hfetches, htouch, hplaces, hfetched⟩ :=
    hf.does_getEach arrangement hm hdistinct
      hheld fun entry hentry => by
        rw [← UInt64.ofNat_toNat (x := entry.1)]
        refine hreceivable entry.1.toNat ?_
        rw [← hnumbers']
        exact List.mem_map_of_mem (List.mem_map_of_mem hentry)
  refine ⟨(entries.map (·.1)).filter fun v => W.disk.Collects (destination.ofVersion v), d, ?_,
    hf.touched htouch fun l hl => (hplaces l hl).1, ?_, ?_⟩
  · refine Does.bindOk (hf.does_listVersions _ hm hput hanswers) ?_
    rw [hentries]
    refine Does.bindOk hfetches ?_
    have hskipped := filterMap_skipped entries
      (fun entry => W.disk.Collects (destination.ofVersion entry.1))
      (fun entry => (entry.1, (destination.ofVersion entry.1).text))
    rw [List.filter_map, List.map_map, Function.comp_def, Function.comp_def, ← hskipped]
    exact .pure _
  · rw [← hnumbers', List.filter_map (f := UInt64.toNat)]
    refine congrArg _ (List.filter_congr fun v _ => ?_)
    rw [Function.comp_apply, UInt64.ofNat_toNat]
  · intro v hv
    obtain ⟨hv, hcollects⟩ := List.mem_filter.mp hv
    obtain ⟨entry, hentry, rfl⟩ := List.mem_map.mp hv
    obtain ⟨content, hcontent, hfound⟩ := hfetched entry hentry (of_decide_eq_true hcollects)
    exact ⟨content, hcontent, read_eq_ok.mpr hfound⟩

/-! ### Putting -/

/-- A report is as long as the plan inside of a message, if it names all targets. -/
theorem fits_outcome {file : String} {v : UInt64} {targets storedOn : List Member}
    (hperm : storedOn.Perm targets)
    (hfits : Wire.Frame.Fits (Message.file
      { FileMessage.ok with file, nodes := targets, version := some v })) :
    Wire.Frame.Fits (Message.file (Client.outcome file v storedOn)) := by
  refine Nat.le_trans (Nat.le_of_eq ?_) hfits
  have hnodes : (storedOn.flatMap Wire.encode).length = (targets.flatMap Wire.encode).length :=
    (hperm.flatMap_right _).length_eq
  have hkind (kind : FileKind) : (Wire.encode kind).length = 4 := Wire.length_encodeVariant _ kind
  have hdestination (destination : Destination) : (Wire.encode destination).length = 4 :=
    Wire.length_encodeVariant _ destination
  simp only [Wire.length_encode_file, Wire.length_encode_fileMessage, hkind, hdestination,
    Wire.length_encode_list, hnodes, Client.outcome, FileMessage.request, FileMessage.ok,
    FileMessage.reply]

/-- The coordinator plans a put: some members, each once, shall store the next version. -/
theorem plan (hf : g.Follows h files k W) (file : String) :
    ∃ targets : List Member, targets ≠ [] ∧ targets.Nodup ∧
      (∀ target ∈ targets, target ∈ g.members) ∧ k.put g.members.toList file =
        ({ k with directory := (k.directory.reserve file).1 },
        { FileMessage.ok with
          file, nodes := targets, version := some (k.directory.nextVersion file) }) := by
  have hperm := k.placement.arrangement.order_perm
    (StoredName.ofVersion file (k.directory.nextVersion file)) g.members.toList
  have hsub : (k.placement.putTargets (StoredName.ofVersion file (k.directory.nextVersion file))
      g.members.toList).Sublist _ := List.take_sublist _ _
  have hne : k.placement.putTargets (StoredName.ofVersion file (k.directory.nextVersion file))
      g.members.toList ≠ [] := by
    have hmem := hperm.mem_iff.mpr (Std.ExtTreeSet.mem_toList.mpr hf.stands.known)
    rw [Placement.putTargets, Ne, List.take_eq_nil_iff, not_or]
    exact ⟨Nat.ne_of_gt hf.factor, List.ne_nil_of_mem hmem⟩
  refine ⟨_, hne, hsub.nodup (hperm.nodup_iff.mpr ?_),
    fun target htarget => Std.ExtTreeSet.mem_toList.mp (hperm.mem_iff.mp (hsub.subset htarget)), ?_⟩
  · exact nodup_toList g.members
  · unfold Coordinator.put
    dsimp only
    rw [List.isEmpty_eq_false_iff.mpr hne]
    rfl

/-- The coordinator hears that a put is stored, and the put belongs to the history. -/
theorem confirm (hf : g.Follows h files k W) {file : String} {content : Bytes}
    (hroom : (h file).length + 1 < UInt64.size) {files' : Member → NameSet} {W' : World}
    (hstands : g.Stands (h.add file content).Names files' W') {storedOn : List Member}
    (hne : storedOn ≠ [])
    (hstored : ∀ n ∈ storedOn, n ∈ g.members ∧
      StoredName.ofVersion file (k.directory.nextVersion file) ∈ files' n)
    (hgrows : ∀ n, ∀ name ∈ files n, name ∈ files' n) {k' : Coordinator}
    (hk' : k' = { k with
      directory := (k.directory.reserve file).1.confirm file (k.directory.nextVersion file)
        (Std.ExtTreeSet.ofList storedOn compare) }) :
    g.Follows (h.add file content) files' k' (W'.appoint (g.seat g.coordinator) k') where
  stands := hstands.appoint _ _
  role := if_pos rfl
  factor := by
    rw [hk']
    exact hf.factor
  represents := by
    have hmem (n : Member) : n ∈ Std.ExtTreeSet.ofList storedOn compare ↔ n ∈ storedOn := by
      rw [Std.ExtTreeSet.mem_ofList, List.contains_iff_mem]
    rw [hk']
    refine (hf.represents.mono fun n name hname => ⟨hname.1, hgrows n name hname.2⟩).put hroom ?_
      (fun n hn => hstored n ((hmem n).mp hn)) content
    obtain ⟨n, hn⟩ := List.exists_mem_of_ne_nil _ hne
    rw [Std.ExtTreeSet.isEmpty_eq_false_iff]
    rintro heq
    have hn := (hmem n).mpr hn
    rw [heq] at hn
    exact Std.ExtTreeSet.not_mem_empty hn

/-- The coordinator answers a put with members that shall store the next version, and do not store
it yet. -/
theorem does_ask_put (hf : g.Follows h files k W)
    (hroom : (h (RemoteName.flatten remote)).length + 1 < UInt64.size)
    (hplans : g.Plans W remote) {file : String} (hfile : RemoteName.flatten remote = file)
    {v : UInt64} (hv : k.directory.nextVersion file = v)
    (hstorable : Storable (StoredName.ofVersion file v)) :
    ∃ targets, Does ((g.client m arrangement).ask g.coordinator .put file).run W
        (.ok { FileMessage.ok with file, nodes := targets, version := some v })
        (W.appoint (g.seat g.coordinator) { k with directory := (k.directory.reserve file).1 }) ∧
      Wire.Frame.Fits
        (Message.file { FileMessage.ok with file, nodes := targets, version := some v }) ∧
      targets ≠ [] ∧ targets.Nodup ∧
      ∀ target ∈ targets, target ∈ g.members ∧ StoredName.ofVersion file v ∉ files target := by
  subst hfile hv
  obtain ⟨targets, hne, hnodup, htargets, hplan⟩ := hf.plan (RemoteName.flatten remote)
  have hhandle := k.handle_put g.members.toList (RemoteName.flatten remote)
  rw [hplan] at hhandle
  have hfits := hplans k hf.role _ (by rw [hhandle]; rfl)
  refine ⟨targets, ?_, hfits, hne, hnodup, fun target htarget => ⟨htargets target htarget, ?_⟩⟩
  · have hname := Store.fits_of_ofName hstorable.2
    have hsaid := Cluster.fits_request .put .coordinator
      ((StoredName.utf8ByteSize_le_ofVersion _ _).trans hname.2)
    exact hf.stands.does_ask arrangement hf.role hsaid hhandle rfl (Wire.Frame.fits_of_file hfits)
  · intro hstored
    have hle := hf.length_of_stored (htargets target htarget) hstored
    rw [hf.represents.nextVersion_toNat hroom] at hle
    exact absurd hle (Nat.not_succ_le_self _)

/-- What the members store that the coordinator chose, and what it is told, follows from the
history that the put belongs to. -/
theorem does_store (hf : g.Follows h files k W) (hm : m ∈ g.members) {content : Bytes}
    (hsource : g.Readable W.disk source content) (hsize : content.length < UInt64.size)
    {file : String} (hroom : (h file).length + 1 < UInt64.size) {v : UInt64}
    (hv : k.directory.nextVersion file = v) (hstorable : Storable (StoredName.ofVersion file v))
    {targets : List Member}
    (hfits : Wire.Frame.Fits
      (Message.file { FileMessage.ok with file, nodes := targets, version := some v }))
    (hne : targets ≠ []) (hnodup : targets.Nodup)
    (htargets : ∀ target ∈ targets,
      target ∈ g.members ∧ StoredName.ofVersion file v ∉ files target) :
    ∃ pushed after files' k',
      Does ((g.client m arrangement).pushAll (StoredName.ofVersion file v) content.length source
          targets)
        (W.appoint (g.seat g.coordinator) { k with directory := (k.directory.reserve file).1 })
        targets pushed ∧
      Does ((g.client m arrangement).report g.coordinator file v
        (targets.mergeSort (compare · · |>.isLE))) pushed () after ∧
      targets.mergeSort (compare · · |>.isLE) ≠ [] ∧
        g.Follows (h.add file content) files' k' after := by
  have hbelongs : (h.add file content).Names (StoredName.ofVersion file v) content :=
    ⟨hsize, _, _, rfl,
      History.content?_add_self (hv ▸ hf.represents.nextVersion_toNat hroom)⟩
  have hstands := (hf.stands.mono fun _ _ => (History.Names.add · file content)).appoint
    (g.seat g.coordinator) { k with directory := (k.directory.reserve file).1 }
  obtain ⟨files', pushed, hpush, hstands', hrole, hfiles⟩ := hstands.does_pushAll (m := m)
    arrangement hsource hsize hbelongs hstorable.1 hstorable.2 hnodup htargets
  have hsorted := List.mergeSort_perm targets (compare · · |>.isLE)
  have hstored : targets.mergeSort (compare · · |>.isLE) ≠ [] := fun hnil =>
    hne (hnil ▸ hsorted).symm.eq_nil
  have hreport := hstands'.does_report arrangement hm
    (by rw [hrole]; exact if_pos rfl) g.coordinator file v _ hstored (fits_outcome hsorted hfits)
  have hfollows := hf.confirm hroom hstands' hstored (fun n hn => by
      rw [hsorted.mem_iff] at hn
      exact ⟨(htargets n hn).1, (hfiles n _).mpr (.inr ⟨hn, by rw [hv]⟩)⟩)
    (fun n name hname => (hfiles n name).mpr (.inl hname)) rfl
  rw [hv] at hfollows
  exact ⟨pushed, _, files', _, hpush, hreport, hstored, hfollows⟩

/-- A put gets the next version of its name, and belongs to the history from then on. -/
theorem does_put (hf : g.Follows h files k W) (hm : m ∈ g.members) {content : Bytes}
    (hsource : g.Readable W.disk source content) (hsize : content.length < UInt64.size)
    (hstorable : Storable (StoredName.ofVersion (RemoteName.flatten remote)
      (UInt64.ofNat ((h (RemoteName.flatten remote)).length + 1))))
    (hroom : (h (RemoteName.flatten remote)).length + 1 < UInt64.size)
    (hplans : g.Plans W remote) :
    ∃ receipt W' files' k',
      Does ((g.client m arrangement).put source remote).run W (.ok receipt) W' ∧
      receipt.version.toNat = (h (RemoteName.flatten remote)).length + 1 ∧
      g.Follows (h.add (RemoteName.flatten remote) content) files' k' W' := by
  obtain ⟨file, hfile⟩ : ∃ file, RemoteName.flatten remote = file := ⟨_, rfl⟩
  obtain ⟨v, hv⟩ : ∃ v, k.directory.nextVersion file = v := ⟨_, rfl⟩
  have hversion : v.toNat = (h file).length + 1 :=
    hv ▸ hf.represents.nextVersion_toNat (hfile ▸ hroom)
  rw [hfile, ← hversion, UInt64.ofNat_toNat] at hstorable
  obtain ⟨targets, hask, hfits, hne, hnodup, htargets⟩ :=
    hf.does_ask_put (m := m) arrangement hroom hplans hfile hv hstorable
  rw [hfile] at hroom ⊢
  obtain ⟨pushed, after, files', k', hpush, hreport, hstored, hfollows⟩ :=
    hf.does_store arrangement hm hsource hsize hroom hv hstorable hfits hne hnodup htargets
  refine ⟨⟨v, targets.mergeSort (compare · · |>.isLE)⟩, after, files', k', ?_, hversion, hfollows⟩
  have hlook := Stands.does_look (g := g) (W := W) (m := m) arrangement (·.size source)
  rw [size_of_lookup (read_eq_ok.mp hsource.1)] at hlook
  refine Does.bindOk (.lift hlook) ?_
  refine Does.bindOk (.pure _) ?_
  refine Does.bindOk (hf.stands.does_knownCoordinator _ hm) ?_
  rw [hfile]
  refine Does.bindOk hask ?_
  refine Does.bindOk (.lift hpush) ?_
  refine Does.bindOk (.lift hreport) ?_
  rw [List.isEmpty_eq_false_iff.mpr hstored]
  exact Does.bindOk (.lift (does_note hfollows.stands.log _)) (.pure _)

end Group.Follows

end Cluster

end ReplicaRing
