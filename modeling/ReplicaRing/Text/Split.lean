/-!
Cutting a text at the last occurrence of a separator. The text after the cut never holds the
separator, and nothing is lost: `splitLast?_eq_some_iff` says both at once.
-/
namespace ReplicaRing.Text

/-- The text before and after the last `sep`, or `none` when `sep` does not occur. -/
def splitLast? (sep : Char) : List Char → Option (List Char × List Char)
  | [] => none
  | c :: rest =>
    match splitLast? sep rest with
    | some (before, after) => some (c :: before, after)
    | none => if c = sep then some ([], rest) else none

theorem splitLast?_eq_none_iff {sep : Char} {s : List Char} :
    splitLast? sep s = none ↔ sep ∉ s := by
  induction s with
  | nil => simp [splitLast?]
  | cons c rest ih =>
    cases h : splitLast? sep rest with
    | none =>
      have hr : sep ∉ rest := ih.1 h
      by_cases hc : c = sep
      · simp [splitLast?, h, hc]
      · simp [splitLast?, h, hc, hr, Ne.symm hc]
    | some p =>
      have hr : sep ∈ rest := by
        rcases Decidable.em (sep ∈ rest) with hm | hm
        · exact hm
        · rw [ih.2 hm] at h; cases h
      simp [splitLast?, h, hr]

theorem splitLast?_eq_some_iff {sep : Char} {s before after : List Char} :
    splitLast? sep s = some (before, after) ↔ s = before ++ sep :: after ∧ sep ∉ after := by
  induction s generalizing before with
  | nil => simp [splitLast?]
  | cons c rest ih =>
    cases h : splitLast? sep rest with
    | none =>
      have hr : sep ∉ rest := splitLast?_eq_none_iff.1 h
      by_cases hc : c = sep
      · subst hc
        cases before with
        | nil => simp [splitLast?, h]; grind
        | cons b bs => simp [splitLast?, h]; grind
      · cases before with
        | nil => simp [splitLast?, h, hc]
        | cons b bs => simp [splitLast?, h, hc]; grind
    | some p =>
      obtain ⟨b', a'⟩ := p
      cases before with
      | nil =>
        have hm : sep ∈ rest := by
          rcases Decidable.em (sep ∈ rest) with hm | hm
          · exact hm
          · rw [splitLast?_eq_none_iff.2 hm] at h; cases h
        simp [splitLast?, h]; grind
      | cons b bs =>
        have := @ih bs
        simp [splitLast?, h]; grind

end ReplicaRing.Text
