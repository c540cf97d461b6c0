import ReplicaRing.Proofs.Cluster.Follows

/-!
# A group does what its history says

Every operation meets what it shall do in a group that follows from its history, and leaves a group
that follows from its history again; so every operation of a run meets what it shall do.
-/
namespace ReplicaRing.Cluster

open Disk

variable {g : Group} {h : History} {files : Member → NameSet} {k : Coordinator} {W : World}

namespace Group.Follows

/-- An operation does what it shall, and what it leaves follows from the history again. -/
theorem does_act (hf : g.Follows h files k W) {op : Operation} (hop : g.Allows h W op) :
    ∃ result W' files' k', Does (op.act g) W result W' ∧
      op.Meets g h W W'.disk result ∧
      g.Follows (op.record W.disk h) files' k' W' := by
  cases op with
  | write path content =>
    obtain ⟨l, hl, houtside⟩ := hop
    obtain ⟨d, hwrite, htouch, hfound⟩ := exists_write hl content
    exact ⟨true, { W with disk := d }, files, k, does_tryDisk hwrite,
      ⟨rfl, read_eq_ok.mpr hfound⟩, hf.touched htouch (by simpa using houtside)⟩
  | put m source remote =>
    obtain ⟨hm, ⟨content, hsource, hsize⟩, hstorable, hroom, hplans⟩ := hop
    obtain ⟨receipt, W', files', k', hdoes, hversion, hfollows⟩ :=
      hf.does_put .asGiven hm hsource hsize hstorable hroom hplans
    refine ⟨.ok receipt, W', files', k', hdoes, ⟨receipt, rfl, hversion⟩, ?_⟩
    rw [Operation.record, hsource.1]
    exact hfollows
  | get m arrangement remote destination =>
    obtain ⟨hm, hreceivable⟩ := hop
    by_cases hput : h (RemoteName.flatten remote) = []
    · obtain ⟨fault, hdoes⟩ := hf.does_get_unknown arrangement hm hput
      exact ⟨_, W, files, k, hdoes, ⟨iff_of_false nofun fun hmeets => hmeets.1 hput, nofun⟩, hf⟩
    by_cases hanswers : g.Answers W .get remote
    · by_cases hcollects : W.disk.Collects destination
      · obtain ⟨holder, d, content, hdoes, hfollows, hlast, hread⟩ :=
          hf.does_get _ hm hput hreceivable hcollects hanswers
        exact ⟨_, _, files, k, hdoes, ⟨iff_of_true ⟨holder, rfl⟩ ⟨hput, hanswers, hcollects⟩,
          fun _ _ => ⟨content, hlast, hread⟩⟩, hfollows⟩
      · exact ⟨_, W, files, k, hf.does_get_refused _ hm hput hcollects hanswers,
          ⟨iff_of_false nofun fun hmeets => hcollects hmeets.2.2, nofun⟩, hf⟩
    · exact ⟨_, W, files, k, hf.does_get_unanswered _ hm hput hanswers,
        ⟨iff_of_false nofun fun hmeets => hanswers hmeets.2.1, nofun⟩, hf⟩
  | getVersions m arrangement remote count destination =>
    obtain ⟨hm, hreceivable⟩ := hop
    by_cases hlists : h (RemoteName.flatten remote) ≠ [] ∧ g.Answers W .getVersions remote
    · obtain ⟨versions, d, hdoes, hfollows, hnumbers, hread⟩ :=
        hf.does_getVersions _ hm hlists.1 hreceivable hlists.2
      refine ⟨_, _, files, k, hdoes, ⟨iff_of_true ⟨_, rfl⟩ hlists, ?_⟩, hfollows⟩
      rintro _ ⟨⟩
      refine ⟨by rwa [List.map_map], fun entry hentry => ?_⟩
      obtain ⟨v, hv, rfl⟩ := List.mem_map.mp hentry
      exact ⟨rfl, hread v hv⟩
    · obtain ⟨fault, hdoes⟩ := hf.does_listVersions_fails arrangement hm hlists
      exact ⟨_, W, files, k, Does.bindError hdoes, ⟨iff_of_false nofun hlists, nofun⟩, hf⟩
  | listVersions m remote =>
    by_cases hlists : h (RemoteName.flatten remote) ≠ [] ∧ g.Answers W .getVersions remote
    · refine ⟨_, _, files, k, hf.does_listVersions .asGiven hop hlists.1 hlists.2,
        ⟨iff_of_true ⟨_, rfl⟩ hlists, ?_⟩, hf⟩
      rintro _ ⟨⟩
      exact hf.represents.map_toNat_versions _
    · obtain ⟨fault, hdoes⟩ := hf.does_listVersions_fails .asGiven hop hlists
      exact ⟨_, W, files, k, hdoes, ⟨iff_of_false nofun hlists, nofun⟩, hf⟩

end Group.Follows

/-- A group that starts follows from the empty history. -/
theorem Group.Starts.follows {c : Cluster} (hs : g.Starts c) :
    ∃ k, g.Follows .empty (fun _ => ∅) k c.world := by
  obtain ⟨k, hrole, hfactor, hdirectory⟩ := hs.role
  refine ⟨k, hs.stands.mono fun _ _ => False.elim, hrole, hfactor, ?_⟩
  rw [hdirectory]
  exact Directory.represents_empty

/-- Whatever operations lead to, follows from their history. -/
theorem Group.Reaches.follows {start c : Cluster} (hs : g.Starts start) (hr : g.Reaches start h c) :
    ∃ files k, g.Follows h files k c.world := by
  induction hr with
  | start => exact ⟨_, hs.follows⟩
  | step _ op hallowed ih =>
    obtain ⟨files, k, hf⟩ := ih
    obtain ⟨result, W', files', k', hdoes, -, hfollows⟩ := hf.does_act hallowed
    obtain ⟨c', hrun, hc'⟩ := hdoes _ rfl
    refine ⟨files', k', ?_⟩
    rw [hrun, hc']
    exact hfollows

/-- In every run of a group, whichever targets are chosen and whichever holders are tried first,
puts are numbered one after the other, and whatever is fetched is what was put. -/
theorem operations_follow_history {start c : Cluster} {op : Operation} (hstart : g.Starts start)
    (hreached : g.Reaches start h c) (hallowed : g.Allows h c.world op) :
    op.Meets g h c.world ((op.act g).run c).2.disk ((op.act g).run c).1 := by
  obtain ⟨files, k, hf⟩ := hreached.follows hstart
  obtain ⟨result, W', -, -, hdoes, hmeets, -⟩ := hf.does_act hallowed
  obtain ⟨c', hrun, rfl⟩ := hdoes c rfl
  rw [hrun]
  exact hmeets

/-! ### Two peers -/

def first : Member := ⟨"127.0.0.2", 9, 1⟩

def second : Member := ⟨"127.0.0.3", 9, 1⟩

/-- Two peers, the first of which coordinates. Each version gets one holder. -/
def twoPeers : Cluster :=
  ofPeers
    [{ member := first, coordinator := some { placement := { factor := 1 } } },
      { member := second }]
    ⟨.ofList [first, second], first, some first⟩ none

def two : Group where
  members := .ofList [first, second]
  coordinator := first
  seat m := .peer (if m = first then 0 else 1)
  root m := storeFolder (if m = first then 0 else 1)

theorem isTree_twoPeers : twoPeers.disk.IsTree :=
  (((isTree_empty.set_folder [] "home" rfl).set_folder [] "stores" rfl).set_folder
    ["stores"] "0" (by decide +kernel)).set_folder ["stores"] "1" (by decide +kernel)

theorem entry?_concat_ne_folder {d : Disk} {l : Location}
    (h : ∀ entry ∈ d.entries.toList, entry.2 = .folder → entry.1.dropLast ≠ l) (name : String) :
    d.entry? (l ++ [name]) ≠ some .folder := by
  rw [entry?_of_ne (List.concat_ne_nil _ _), Ne, ← Std.ExtTreeMap.mem_toList_iff_getElem?_eq_some]
  exact fun hmem => h _ hmem rfl List.dropLast_concat

theorem mem_two {m : Member} : m ∈ two.members ↔ m ∈ [first, second] := by
  rw [two, Std.ExtTreeSet.mem_ofList, List.contains_iff_mem]

theorem starts_two : two.Starts twoPeers where
  stands := {
    log := rfl
    known := mem_two.mpr List.mem_cons_self
    reach := by simp only [mem_two]; decide +kernel
    ring := by simp only [mem_two]; decide +kernel
    store := by simp only [mem_two]; decide +kernel
    apart := by simp only [mem_two]; decide +kernel
    tree := isTree_twoPeers
    folder := by simp only [mem_two]; decide +kernel
    flat := by
      have hflat : ∀ m ∈ [first, second], ∀ entry ∈ twoPeers.disk.entries.toList,
          entry.2 = .folder → entry.1.dropLast ≠ two.root m := by decide +kernel
      exact fun m hm => entry?_concat_ne_folder (hflat m (mem_two.mp hm))
    serves := fun m _ name hname => absurd hname Std.ExtTreeSet.not_mem_empty }
  role := ⟨_, rfl, Nat.le_refl 1, rfl⟩

/-- A file that is put. -/
def localFile : FilePath := homePath "source"

/-- All that was put under a name is fetched. -/
def fetchVersions : Operation := .getVersions second .asGiven "d/f.txt" 5 (homePath "out.txt")

/-- Two contents are put under one name by different members, and fetched by one of them. -/
theorem operations_follow_history_of_two_puts :
    ∃ h c, two.Reaches twoPeers h c ∧ h "d#f.txt" = [[1], [2, 3]] ∧
      ∃ fetched, ((fetchVersions.act two).run c).1 = .ok fetched ∧
        fetched.map (·.1.toNat) = [2, 1] ∧
        ((fetchVersions.act two).run c).2.disk.read (homePath "out_2.txt") = .ok [2, 3] := by
  -- Here it does not matter how the group came to its history.
  have hfetch (h : History) (c : Cluster) (hreached : two.Reaches twoPeers h c)
      (hhistory : h "d#f.txt" = [[1], [2, 3]]) (hallowed : two.Allows h c.world fetchVersions)
      (hanswers : two.Answers c.world .getVersions "d/f.txt")
      (hcollects : ∀ v ∈ newestOf 2 5,
        c.world.disk.Collects ((homePath "out.txt").ofVersion (UInt64.ofNat v))) :
      ∃ fetched, ((fetchVersions.act two).run c).1 = .ok fetched ∧
        fetched.map (·.1.toNat) = [2, 1] ∧
        ((fetchVersions.act two).run c).2.disk.read (homePath "out_2.txt") = .ok [2, 3] := by
    have hname : RemoteName.flatten "d/f.txt" = "d#f.txt" := by decide +kernel
    have hmeets := operations_follow_history starts_two hreached hallowed
    simp only [fetchVersions, Operation.Meets, hname, hhistory] at hmeets
    obtain ⟨fetched, hfetched⟩ := hmeets.1.mpr ⟨nofun, hanswers⟩
    obtain ⟨hnumbers, hread⟩ := hmeets.2 fetched hfetched
    have hnumbers : fetched.map (·.1.toNat) = [2, 1] :=
      hnumbers.trans (List.filter_eq_self.mpr fun v hv => decide_eq_true (hcollects v hv))
    refine ⟨fetched, hfetched, hnumbers, ?_⟩
    have hnewest : 2 ∈ fetched.map (·.1.toNat) := by
      rw [hnumbers]
      exact List.mem_cons_self
    obtain ⟨entry, hentry, hversion⟩ := List.mem_map.mp hnewest
    obtain ⟨-, content, hcontent, hout⟩ := hread entry hentry
    have hlast : h.content? "d#f.txt" 2 = some [2, 3] := by
      simp only [History.content?, hhistory]
      rfl
    have hpath : FilePath.ofVersion (homePath "out.txt") 2 = homePath "out_2.txt" := by
      decide +kernel
    have hentry : entry.1 = 2 := UInt64.toNat_inj.mp hversion
    rw [hentry] at hcontent hout
    rw [hlast] at hcontent
    cases hcontent
    rwa [hpath] at hout
  have hwritten : two.Reaches twoPeers _ _ :=
    .step .start (.write localFile [1]) (by decide +kernel)
  have hput : two.Reaches twoPeers _ _ :=
    hwritten.step (.put second localFile "d/f.txt") (by decide +kernel)
  have hwritten' : two.Reaches twoPeers _ _ :=
    hput.step (.write localFile [2, 3]) (by decide +kernel)
  have hput' : two.Reaches twoPeers _ _ :=
    hwritten'.step (.put first localFile "d/f.txt") (by decide +kernel)
  exact ⟨_, _, hput', by decide +kernel, hfetch _ _ hput' (by decide +kernel) (by decide +kernel)
    (by decide +kernel) (by decide +kernel)⟩

/-- A name of so many bytes. -/
def nameOfSize (n : Nat) : String := String.ofList (List.replicate n 'a')

theorem toList_nameOfSize (n : Nat) : (nameOfSize n).toList = List.replicate n 'a' := by
  rw [nameOfSize, String.toList_ofList]

theorem utf8ByteSize_nameOfSize (n : Nat) : (nameOfSize n).utf8ByteSize = n := by
  unfold nameOfSize
  induction n with
  | zero => rfl
  | succ n ih =>
    rw [List.replicate_succ, String.ofList_cons, String.utf8ByteSize_append, ih]
    exact Nat.add_comm 1 n

theorem not_mem_nameOfSize {c : Char} (hc : c ≠ 'a') (n : Nat) : c ∉ (nameOfSize n).toList := by
  rw [toList_nameOfSize]
  exact fun hmem => hc (List.eq_of_mem_replicate hmem)

theorem plain_nameOfSize {n : Nat} (hn : n ≠ 0) : Plain (nameOfSize n) := by
  have hmem : 'a' ∈ (nameOfSize n).toList := by
    rw [toList_nameOfSize]
    exact List.mem_replicate.mpr ⟨hn, rfl⟩
  have hne (short : String) (hshort : 'a' ∉ short.toList) : nameOfSize n ≠ short := by
    rintro rfl
    exact hshort hmem
  exact ⟨hne _ (by decide), not_mem_nameOfSize (by decide) n, hne _ (by decide), hne _ (by decide)⟩

theorem fits_nameOfSize {n : Nat} : Fits (nameOfSize n) ↔ n ≤ maxName := by
  rw [Fits, utf8ByteSize_nameOfSize, and_iff_right (not_mem_nameOfSize (by decide) n)]

/-- The name of a sibling is longer. -/
theorem not_fits_ofName {n : Nat} (hn : maxName < n + 9) :
    ¬ Fits (PartialName.ofName (nameOfSize n)) := by
  intro hfits
  have hsize := hfits.2
  rw [PartialName.ofName, String.utf8ByteSize_append, String.utf8ByteSize_append,
    utf8ByteSize_nameOfSize] at hsize
  have hdot : ".".utf8ByteSize = 1 := rfl
  have hpartial : ".partial".utf8ByteSize = 8 := rfl
  omega

/-- There may be a file at a path whose sibling has too long a name. Nothing is fetched to it. -/
theorem get_fails_beside_long_name :
    ∃ h c, two.Reaches twoPeers h c ∧ h "f.txt" = [[1, 2, 3]] ∧ first ∈ two.members ∧
      (two.Writable c.world.disk (homePath (nameOfSize 250)) ∧
        ∃ d, c.world.disk.write (homePath (nameOfSize 250)) [] = .ok d) ∧
      two.Answers c.world .get "f.txt" ∧
      (((Operation.get first .asGiven "f.txt" (homePath (nameOfSize 250))).act two).run c).1 =
        .error (.unavailable "f_1.txt") := by
  have hmember : first ∈ two.members := mem_two.mpr List.mem_cons_self
  have hfails (n : Nat) (hn : 246 < n) (h : History) (c : Cluster)
      (hreached : two.Reaches twoPeers h c) (hhistory : h "f.txt" = [[1, 2, 3]])
      (hanswers : two.Answers c.world .get "f.txt") :
      (((Operation.get first .asGiven "f.txt" (homePath (nameOfSize n))).act two).run c).1 =
        .error (.unavailable "f_1.txt") := by
    have hplain : Plain (nameOfSize n) := plain_nameOfSize (by omega)
    have hname : RemoteName.flatten "f.txt" = "f.txt" := by decide +kernel
    have hversion : StoredName.ofVersion "f.txt" (UInt64.ofNat [([1, 2, 3] : Bytes)].length) =
        "f_1.txt" := by decide +kernel
    obtain ⟨files, k, hf⟩ := hreached.follows starts_two
    have hrefused : ¬ c.world.disk.Collects (homePath (nameOfSize n)) := by
      rintro ⟨l, hl⟩
      rw [homePath, FilePath.inTransit_plain hplain,
        fileTarget_plain (PartialName.plain_ofName hplain.no_slash)] at hl
      exact not_fits_ofName (show maxName < n + 9 by rw [maxName]; omega) hl.1
    have hdoes := hf.does_get_refused .asGiven hmember (by rw [hname, hhistory]; nofun) hrefused
      hanswers
    obtain ⟨c', hrun, -⟩ := hdoes c rfl
    rw [hname, hhistory, hversion] at hrun
    exact congrArg Prod.fst hrun
  have hwritable (n : Nat) (hn : 0 < n ∧ n ≤ 255) (c : Cluster)
      (hfolder : c.world.disk.entry? homeFolder = some .folder)
      (hflat : ∀ entry ∈ c.world.disk.entries.toList,
        entry.2 = .folder → entry.1.dropLast ≠ homeFolder) :
      two.Writable c.world.disk (homePath (nameOfSize n)) ∧
        ∃ d, c.world.disk.write (homePath (nameOfSize n)) [] = .ok d := by
    have htarget := (fileTarget_plain (plain_nameOfSize (by omega))).mpr
      ⟨fits_nameOfSize.mpr hn.2, hfolder, rfl, entry?_concat_ne_folder hflat _⟩
    refine ⟨⟨_, htarget, fun m _ hprefix => ?_⟩, (exists_write htarget []).imp fun d hd => hd.1⟩
    simp [two, storeFolder, homeFolder] at hprefix
  have hwritten : two.Reaches twoPeers _ _ :=
    .step .start (.write localFile [1, 2, 3]) (by decide +kernel)
  have hput : two.Reaches twoPeers _ _ :=
    hwritten.step (.put first localFile "f.txt") (by decide +kernel)
  exact ⟨_, _, hput, by decide +kernel, hmember,
    hwritable 250 (by decide) _ (by decide +kernel) (by decide +kernel), by decide +kernel,
    hfails 250 (by decide) _ _ hput (by decide +kernel) (by decide +kernel)⟩

end ReplicaRing.Cluster
