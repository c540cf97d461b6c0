import ReplicaRing.Proofs.Directory.Versions

/-!
# Who holds what

All that a directory records of holders is a list of holdings, each a file, a version and a holder,
without repetition. Holdings are what is counted when holders are pruned or added. A directory is
determined by its holdings, the versions that it lists and the highest number of each file.
-/
namespace ReplicaRing.Directory

variable {d d' : Directory} {file g : String} {v w : UInt64} {m n : Member} {holders : MemberSet}
  {keep : Member → Bool}

theorem mem_entries : (file, v, holders) ∈ d.entries ↔ d.holders? file v = some holders := by
  simp only [entries, List.mem_flatMap, List.mem_map, Prod.exists, Prod.mk.injEq,
    Std.ExtTreeMap.mem_toList_iff_getElem?_eq_some, holders?_eq, Option.bind_eq_some_iff]
  constructor
  · rintro ⟨_, r, hr, _, _, hv, rfl, rfl, rfl⟩
    exact ⟨r, hr, hv⟩
  · rintro ⟨r, hr, hv⟩
    exact ⟨file, r, hr, v, holders, hv, rfl, rfl, rfl⟩

/-- No version is listed twice. -/
theorem pairwise_entries (d : Directory) :
    d.entries.Pairwise fun a b => ¬ (a.1 = b.1 ∧ a.2.1 = b.2.1) := by
  rw [entries, List.pairwise_flatMap]
  constructor
  · rintro ⟨file, r⟩ -
    rw [List.pairwise_map]
    exact Std.ExtTreeMap.distinct_keys_toList.imp fun hne heq =>
      hne (Std.LawfulEqCmp.compare_eq_iff_eq.mpr heq.2)
  · refine Std.ExtTreeMap.distinct_keys_toList.imp fun {a b} hne x hx y hy heq => hne ?_
    obtain ⟨_, -, rfl⟩ := List.mem_map.mp hx
    obtain ⟨_, -, rfl⟩ := List.mem_map.mp hy
    exact Std.LawfulEqCmp.compare_eq_iff_eq.mpr heq.1

/-- Every holder of every version of every file. -/
def holdings (d : Directory) : List (String × UInt64 × Member) :=
  d.entries.flatMap fun (file, version, holders) =>
    holders.toList.map fun m => (file, version, m)

theorem mem_holdings : (file, v, m) ∈ d.holdings ↔ d.Holds file v m := by
  simp only [holdings, List.mem_flatMap, List.mem_map, Prod.exists, Prod.mk.injEq, mem_entries,
    Std.ExtTreeSet.mem_toList, holds_iff_holders?]
  constructor
  · rintro ⟨_, _, holders, hv, _, hm, rfl, rfl, rfl⟩
    exact ⟨holders, hv, hm⟩
  · rintro ⟨holders, hv, hm⟩
    exact ⟨file, v, holders, hv, m, hm, rfl, rfl, rfl⟩

theorem nodup_holdings (d : Directory) : d.holdings.Nodup := by
  rw [List.Nodup, holdings, List.pairwise_flatMap]
  constructor
  · rintro ⟨file, v, holders⟩ -
    exact List.Pairwise.map _ (fun _ _ hne heq => hne (congrArg (·.2.2) heq)) (nodup_toList holders)
  · refine d.pairwise_entries.imp fun {a b} hne x hx y hy heq => hne ?_
    obtain ⟨_, -, rfl⟩ := List.mem_map.mp hx
    obtain ⟨_, -, rfl⟩ := List.mem_map.mp hy
    exact ⟨congrArg (·.1) heq, congrArg (·.2.1) heq⟩

/-- The highest number of a file, if there is a record of it. -/
def highest? (d : Directory) (file : String) : Option UInt64 :=
  (d.record? file).map (·.highestAssigned)

/-- A directory is what it records of every file. -/
theorem ext_holders? (hhighest : ∀ file, d.highest? file = d'.highest? file)
    (hholders : ∀ file v, d.holders? file v = d'.holders? file v) : d = d' := by
  refine ext_record? fun file => ?_
  have hfile := hhighest file
  have hversions (v : UInt64) := hholders file v
  simp only [holders?_eq] at hversions
  rw [highest?, highest?] at hfile
  cases hr : d.record? file with
  | none =>
    rw [hr, Option.map_none] at hfile
    exact (Option.map_eq_none_iff.mp hfile.symm).symm
  | some r =>
    rw [hr, Option.map_some] at hfile
    obtain ⟨r', hr', hhigh⟩ := Option.map_eq_some_iff.mp hfile.symm
    simp only [hr, hr', Option.bind_some] at hversions
    rw [hr', FileRecord.ext_versions hversions hhigh.symm]

/-- The holders of a version are those who hold it, if it is listed. -/
theorem holders?_congr (hlisted : (d.holders? file v).isSome = (d'.holders? file v).isSome)
    (hholds : ∀ m, d.Holds file v m ↔ d'.Holds file v m) :
    d.holders? file v = d'.holders? file v := by
  cases hv : d.holders? file v with
  | none =>
    rw [hv, Option.isSome_none] at hlisted
    exact (Option.isNone_iff_eq_none.mp (by rw [← Option.not_isSome, ← hlisted]; rfl)).symm
  | some holders =>
    rw [hv, Option.isSome_some] at hlisted
    obtain ⟨holders', hv'⟩ := Option.isSome_iff_exists.mp hlisted.symm
    rw [hv', Option.some.injEq]
    refine Std.ExtTreeSet.ext_mem fun m => ?_
    have hm := hholds m
    simp only [holds_iff_holders?, hv, hv', Option.some.injEq, exists_eq_left'] at hm
    exact hm

/-! ### Pruning -/

theorem highest?_prune : (d.prune keep).1.highest? file = d.highest? file := by
  rw [highest?, record?_prune, Option.map_map]
  rfl

theorem holds_prune : (d.prune keep).1.Holds file v m ↔ d.Holds file v m ∧ keep m = true := by
  simp only [holds_iff_holders?, holders?_prune, Option.map_eq_some_iff]
  constructor
  · rintro ⟨_, ⟨holders, hv, rfl⟩, hm⟩
    rw [mem_filter_iff] at hm
    exact ⟨⟨holders, hv, hm.1⟩, hm.2⟩
  · rintro ⟨⟨holders, hv, hm⟩, hkeep⟩
    exact ⟨_, ⟨holders, hv, rfl⟩, mem_filter_iff.mpr ⟨hm, hkeep⟩⟩

theorem entries_prune :
    (d.prune keep).1.entries =
      d.entries.map fun (file, version, holders) => (file, version, holders.filter keep) := by
  simp only [entries, prune, Std.ExtTreeMap.toList_map, List.flatMap_map, List.map_flatMap,
    List.map_map]
  rfl

/-- As many holders are pruned as there are holdings that are not kept. -/
theorem prune_count :
    (d.prune keep).2 = (d.holdings.filter fun holding => !keep holding.2.2).length := by
  rw [prune, holdings, List.filter_flatMap, List.length_flatMap, List.length_flatMap]
  refine congrArg List.sum (List.map_congr_left fun entry _ => ?_)
  rw [List.filter_map, List.length_map]
  rfl

/-! ### Adding a holder -/

theorem highest?_addHolder : (d.addHolder g w n).1.highest? file = d.highest? file := by
  rw [highest?, record?_addHolder]
  split
  · rw [Option.map_map]
    exact Option.map_congr fun r _ => r.join_highestAssigned w n
  · rfl

theorem isSome_holders?_addHolder :
    ((d.addHolder g w n).1.holders? file v).isSome = (d.holders? file v).isSome := by
  rw [holders?_addHolder]
  split
  · exact Option.isSome_map
  · rfl

/-- A member becomes a holder of a version that has one. -/
theorem holds_addHolder :
    (d.addHolder g w n).1.Holds file v m ↔
      d.Holds file v m ∨ (g = file ∧ w = v ∧ n = m) ∧ ∃ k, d.Holds file v k := by
  rw [exists_holds_iff]
  simp only [holds_iff_holders?, holders?_addHolder]
  by_cases hversion : g = file ∧ w = v
  · rw [if_pos hversion]
    simp only [hversion, true_and, Option.map_eq_some_iff]
    constructor
    · rintro ⟨_, ⟨holders, hv, rfl⟩, hm⟩
      split at hm
      · exact .inl ⟨holders, hv, hm⟩
      · rename_i hheld
        rw [Bool.not_eq_true] at hheld
        exact (mem_insert_iff.mp hm).symm.imp (fun hm => ⟨holders, hv, hm⟩)
          fun hn => ⟨hn, holders, hv, hheld⟩
    · rintro (⟨holders, hv, hm⟩ | ⟨hn, holders, hv, hheld⟩)
      · refine ⟨_, ⟨holders, hv, rfl⟩, ?_⟩
        split
        · exact hm
        · exact mem_insert_iff.mpr (.inr hm)
      · refine ⟨_, ⟨holders, hv, rfl⟩, ?_⟩
        rw [hheld, if_neg Bool.false_ne_true]
        exact mem_insert_iff.mpr (.inl hn)
  · rw [if_neg hversion]
    refine (or_iff_left fun h => hversion ⟨h.1.1, h.1.2.1⟩).symm

theorem addHolder_isNew :
    (d.addHolder file v m).2 = true ↔ (∃ k, d.Holds file v k) ∧ ¬ d.Holds file v m := by
  rw [exists_holds_iff]
  simp only [holds_iff_holders?, holders?_eq, addHolder]
  cases d.record? file with
  | none => simp
  | some r =>
    simp only [Option.bind_some]
    cases r.versions[v]? with
    | none => simp
    | some holders =>
      simp only [Option.some.injEq, exists_eq_left']
      split
      · rename_i hempty
        exact iff_of_false Bool.false_ne_true fun h => Bool.false_ne_true (h.1.symm.trans hempty)
      · rename_i hheld
        rw [Bool.not_eq_true', ← Bool.not_eq_true, Std.ExtTreeSet.contains_iff_mem]
        exact (and_iff_right (Bool.eq_false_iff.mpr hheld)).symm

/-- A new holder is one holding more. -/
theorem length_holdings_addHolder :
    (d.addHolder file v m).1.holdings.length =
      d.holdings.length + (if (d.addHolder file v m).2 then 1 else 0) := by
  split
  · rename_i hnew
    obtain ⟨hheld, hnot⟩ := addHolder_isNew.mp hnew
    have hnodup : ((file, v, m) :: d.holdings).Nodup :=
      List.nodup_cons.mpr ⟨mt mem_holdings.mp hnot, d.nodup_holdings⟩
    refine ((List.perm_ext_iff_of_nodup (nodup_holdings _) hnodup).mpr ?_).length_eq
    rintro ⟨g, w, n⟩
    rw [mem_holdings, holds_addHolder, List.mem_cons, mem_holdings, Prod.mk.injEq, Prod.mk.injEq,
      or_comm]
    refine or_congr_left ⟨fun h => ⟨h.1.1.symm, h.1.2.1.symm, h.1.2.2.symm⟩, ?_⟩
    rintro ⟨rfl, rfl, rfl⟩
    exact ⟨⟨rfl, rfl, rfl⟩, hheld⟩
  · rename_i hold
    rw [addHolder_isNew, not_and, not_not] at hold
    refine ((List.perm_ext_iff_of_nodup (nodup_holdings _) d.nodup_holdings).mpr ?_).length_eq
    rintro ⟨g, w, n⟩
    rw [mem_holdings, mem_holdings, holds_addHolder]
    refine or_iff_left_of_imp ?_
    rintro ⟨⟨rfl, rfl, rfl⟩, hheld⟩
    exact hold hheld

end ReplicaRing.Directory
