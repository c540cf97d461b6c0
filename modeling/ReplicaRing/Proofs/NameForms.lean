import ReplicaRing.Proofs.StoredNames

/-!
# The form of a stored name

A name is read as a version if its stem ends in the delimiter and a numeral. More names are read
than are written: a numeral may have a plus sign or leading zeros, and where an extension follows,
nothing needs to stand before the delimiter. Those are not the names of the versions that they are
read as.
-/
namespace ReplicaRing

namespace Text

variable {text digits : List Char} {limit n : Nat} {c : Char} {v : UInt64}

/-- A numeral of `v`: ASCII digits, perhaps with a plus sign in front. -/
def Numeral (text : List Char) (v : UInt64) : Prop :=
  ∃ digits, (text = digits ∨ text = '+' :: digits) ∧ digits ≠ [] ∧
    (∀ c ∈ digits, c.isDigit = true) ∧ Nat.ofDigitChars 10 digits 0 = v.toNat

theorem unsigned?_eq_some_iff :
    unsigned? limit text = some n ↔
      ∃ digits, (text = digits ∨ text = '+' :: digits) ∧ digits ≠ [] ∧
        (∀ c ∈ digits, c.isDigit = true) ∧ Nat.ofDigitChars 10 digits 0 = n ∧ n < limit := by
  have hread (digits : List Char) :
      (if digits.isEmpty || !digits.all Char.isDigit then none
        else if Nat.ofDigitChars 10 digits 0 < limit then some (Nat.ofDigitChars 10 digits 0)
        else none) = some n ↔
      digits ≠ [] ∧ (∀ c ∈ digits, c.isDigit = true) ∧ Nat.ofDigitChars 10 digits 0 = n ∧
        n < limit := by
    simp only [Option.ite_none_left_eq_some, Option.ite_none_right_eq_some, Bool.or_eq_true,
      Bool.not_eq_true', not_or, Bool.not_eq_false, List.all_eq_true, List.isEmpty_iff,
      Option.some.injEq, and_assoc]
    grind
  unfold unsigned?
  split
  · rename_i rest
    refine (hread rest).trans ⟨fun h => ⟨rest, .inr rfl, h⟩, ?_⟩
    rintro ⟨digits, rfl | hrest, h⟩
    · exact absurd (h.2.1 '+' List.mem_cons_self) (by decide)
    · cases hrest
      exact h
  · rename_i hsign
    refine (hread text).trans ⟨fun h => ⟨text, .inl rfl, h⟩, ?_⟩
    rintro ⟨digits, rfl | rfl, h⟩
    · exact h
    · exact absurd rfl (hsign digits)

theorem word64?_eq_some_iff : word64? text = some v ↔ Numeral text v := by
  simp only [word64?, Option.map_eq_some_iff, unsigned?_eq_some_iff, Numeral]
  constructor
  · rintro ⟨n, ⟨digits, htext, hne, hdigits, hvalue, hlt⟩, rfl⟩
    refine ⟨digits, htext, hne, hdigits, ?_⟩
    rw [hvalue, UInt64.toNat_ofNat_of_lt' hlt]
  · rintro ⟨digits, htext, hne, hdigits, hvalue⟩
    exact ⟨v.toNat, ⟨digits, htext, hne, hdigits, hvalue, v.toNat_lt_size⟩, UInt64.ofNat_toNat⟩

/-! ### Canonical numerals -/

theorem digitChar_of_isDigit (hc : c.isDigit = true) :
    c.toNat - '0'.toNat < 10 ∧ Nat.digitChar (c.toNat - '0'.toNat) = c := by
  have hrange : 48 ≤ c.toNat ∧ c.toNat ≤ 57 := Char.isDigit_iff_toNat.mp hc
  have hzero : '0'.toNat = 48 := rfl
  refine ⟨by omega, Char.toNat_inj.mp ?_⟩
  rw [Nat.toNat_digitChar_of_lt_ten (by omega)]
  omega

/-- Digits behind those of a number are the last digits of another one. -/
theorem toDigits_append (hn : 0 < n) (hdigits : ∀ c ∈ digits, c.isDigit = true) :
    Nat.toDigits 10 n ++ digits = Nat.toDigits 10 (Nat.ofDigitChars 10 digits n) := by
  induction digits generalizing n with
  | nil => rw [List.append_nil, Nat.ofDigitChars_nil]
  | cons c digits ih =>
    obtain ⟨hlt, hchar⟩ := digitChar_of_isDigit (hdigits c List.mem_cons_self)
    have hnext : Nat.toDigits 10 n ++ [c] = Nat.toDigits 10 (10 * n + (c.toNat - '0'.toNat)) := by
      rw [← Nat.toDigits_append_toDigits (by decide) hn hlt, Nat.toDigits_of_lt_base hlt, hchar]
    rw [Nat.ofDigitChars_cons, ← ih (by omega) fun d hd => hdigits d (List.mem_cons_of_mem _ hd),
      ← hnext, List.append_assoc, List.singleton_append]

theorem toDigits_ofDigitChars (hne : digits ≠ []) (hdigits : ∀ c ∈ digits, c.isDigit = true)
    (hlead : digits.head? = some '0' → digits = ['0']) :
    Nat.toDigits 10 (Nat.ofDigitChars 10 digits 0) = digits := by
  cases digits with
  | nil => exact absurd rfl hne
  | cons c digits =>
    by_cases hc : c = '0'
    · rw [hlead (congrArg some hc)]
      rfl
    · obtain ⟨hlt, hchar⟩ := digitChar_of_isDigit (hdigits c List.mem_cons_self)
      have hpos : 0 < c.toNat - '0'.toNat := by
        by_contra hzero
        rw [Nat.eq_zero_of_not_pos hzero] at hchar
        exact hc hchar.symm
      rw [Nat.ofDigitChars_cons, Nat.mul_zero, Nat.zero_add,
        ← toDigits_append hpos fun d hd => hdigits d (List.mem_cons_of_mem _ hd),
        Nat.toDigits_of_lt_base hlt, hchar, List.singleton_append]

theorem eq_zero_of_head?_toDigits (h : (Nat.toDigits 10 n).head? = some '0') : n = 0 := by
  induction n using Nat.strongRecOn with
  | ind n ih =>
    rw [Nat.toDigits_eq_if (by decide)] at h
    split at h
    · rename_i hlt
      have hchar : (Nat.digitChar n).toNat = '0'.toNat :=
        congrArg Char.toNat (Option.some.inj h)
      have hzero : '0'.toNat = 48 := rfl
      rw [Nat.toNat_digitChar_of_lt_ten hlt] at hchar
      omega
    · rename_i hge
      rw [List.head?_append_of_ne_nil _ Nat.toDigits_ne_nil] at h
      have hzero := ih (n / 10) (by omega) h
      omega

/-- A numeral is canonical if it has neither a sign nor leading zeros. -/
theorem Numeral.eq_repr_iff (h : Numeral text v) :
    text = v.toNat.repr.toList ↔
      text.head? ≠ some '+' ∧ (text.head? = some '0' → text = ['0']) := by
  obtain ⟨digits, htext, hne, hdigits, hvalue⟩ := h
  rw [Nat.toList_repr]
  constructor
  · rintro heq
    rw [heq]
    refine ⟨fun hsign => ?_, fun hlead => ?_⟩
    · exact StoredName.not_mem_repr (by decide) _ (Nat.toList_repr ▸ List.mem_of_mem_head? hsign)
    · rw [eq_zero_of_head?_toDigits hlead]
      rfl
  · rintro ⟨hsign, hlead⟩
    obtain rfl | rfl := htext
    · rw [← hvalue, toDigits_ofDigitChars hne hdigits hlead]
    · exact absurd rfl hsign

end Text

namespace StoredName

open Text

variable {stored file : String} {v : UInt64} {name stem base number : List Char}
  {extension : Option (List Char)}

/-- How a name divides into its stem and its extension, if it has one: at the last dot, but not at
one that starts the name. -/
def Divides (name stem : List Char) : Option (List Char) → Prop
  | some extension => name = stem ++ '.' :: extension ∧ stem ≠ [] ∧ '.' ∉ extension
  | none => name = stem ∧ '.' ∉ stem.tail

theorem splitExtension_eq_iff :
    splitExtension name = (stem, extension) ↔ Divides name stem extension := by
  constructor
  · intro h
    unfold splitExtension at h
    split at h
    · rename_i before after hsplit
      obtain ⟨rfl, hafter⟩ := splitLast?_eq_some_iff.mp hsplit
      split at h
      · rename_i hempty
        cases h
        subst hempty
        exact ⟨rfl, hafter⟩
      · rename_i hne
        cases h
        exact ⟨rfl, hne, hafter⟩
    · rename_i hnone
      cases h
      exact ⟨rfl, fun hmem => splitLast?_eq_none_iff.mp hnone (List.mem_of_mem_tail hmem)⟩
  · intro h
    cases extension with
    | some extension =>
      obtain ⟨rfl, hne, hlast⟩ := h
      rw [splitExtension, splitLast?_eq_some_iff.mpr ⟨rfl, hlast⟩]
      exact if_neg hne
    | none =>
      obtain ⟨rfl, htail⟩ := h
      cases name with
      | nil => rfl
      | cons c rest =>
        by_cases hc : c = '.'
        · have hfirst : splitLast? '.' (c :: rest) = some ([], rest) :=
            splitLast?_eq_some_iff.mpr ⟨congrArg (· :: rest) hc, htail⟩
          rw [splitExtension, hfirst]
          rfl
        · have hnone : '.' ∉ c :: rest := fun hmem =>
            (List.mem_cons.mp hmem).elim (fun heq => hc heq.symm) htail
          rw [splitExtension, splitLast?_eq_none_iff.mpr hnone]

theorem Divides.unique {stem' : List Char} {extension' : Option (List Char)}
    (h : Divides name stem extension) (h' : Divides name stem' extension') :
    stem = stem' ∧ extension = extension' := by
  have hsplit := splitExtension_eq_iff.mpr h
  rw [splitExtension_eq_iff.mpr h'] at hsplit
  cases hsplit
  exact ⟨rfl, rfl⟩

/-- A name whose stem has the delimiter: what stands before and behind the last one. -/
structure Form (stored : String) (base text : List Char) (extension : Option (List Char)) :
    Prop where
  divides : Divides stored.toList (base ++ delimiter :: text) extension
  last : delimiter ∉ text

namespace Form

theorem cut (h : Form stored base number extension) :
    splitLast? delimiter (base ++ delimiter :: number) = some (base, number) :=
  splitLast?_eq_some_iff.mpr ⟨rfl, h.last⟩

theorem unique {base' number' : List Char} {extension' : Option (List Char)}
    (h : Form stored base number extension) (h' : Form stored base' number' extension') :
    base = base' ∧ number = number' ∧ extension = extension' := by
  obtain ⟨hstem, hextension⟩ := h.divides.unique h'.divides
  have hcut := h.cut
  rw [hstem, h'.cut] at hcut
  cases hcut
  exact ⟨rfl, rfl, hextension⟩

/-- What is read as a version is stored under the name that it was read from, if the number is
written as numbers are and a base is there in front of an extension. -/
theorem ofVersion_eq_iff (h : Form stored base number extension)
    (hfile : file.toList = joinExtension base extension) :
    ofVersion file v = stored ↔
      number = v.toNat.repr.toList ∧ ¬ (base = [] ∧ extension.isSome) := by
  have hdivides := h.divides
  rw [← String.toList_inj, toList_ofVersion, hfile]
  cases extension with
  | none =>
    obtain ⟨hstored, htail⟩ := hdivides
    have hbase : Divides base base none := by
      refine ⟨rfl, fun hmem => htail ?_⟩
      rw [List.tail_append_of_ne_nil (List.ne_nil_of_mem (List.mem_of_mem_tail hmem))]
      exact List.mem_append_left _ hmem
    rw [joinExtension, splitExtension_eq_iff.mpr hbase, hstored]
    simp [joinExtension, eq_comm]
  | some extension =>
    obtain ⟨hstored, -, hlast⟩ := hdivides
    by_cases hbase : base = []
    · -- The dot starts the name that is read, and so the number goes behind the extension.
      subst hbase
      have hhidden : Divides ('.' :: extension) ('.' :: extension) none := ⟨rfl, hlast⟩
      rw [joinExtension, List.nil_append, splitExtension_eq_iff.mpr hhidden, hstored]
      simp [joinExtension, delimiter]
    · have hnamed : Divides (base ++ '.' :: extension) base (some extension) := ⟨rfl, hbase, hlast⟩
      rw [joinExtension, splitExtension_eq_iff.mpr hnamed, hstored]
      simp [joinExtension, hbase, eq_comm]

end Form

theorem parse?_eq_some_iff :
    parse? stored = some (file, v) ↔
      ∃ base number extension, Form stored base number extension ∧ Numeral number v ∧
        file.toList = joinExtension base extension := by
  constructor
  · intro h
    cases hs : splitExtension stored.toList with
    | mk stem extension =>
      rw [parse?, hs] at h
      cases hcut : splitLast? delimiter stem with
      | none => simp [hcut] at h
      | some parts =>
        obtain ⟨base, number⟩ := parts
        simp only [hcut] at h
        obtain ⟨w, hw, heq⟩ := Option.map_eq_some_iff.mp h
        cases heq
        obtain ⟨rfl, hlast⟩ := splitLast?_eq_some_iff.mp hcut
        exact ⟨base, number, extension, ⟨splitExtension_eq_iff.mp hs, hlast⟩,
          word64?_eq_some_iff.mp hw, String.toList_ofList⟩
  · rintro ⟨base, number, extension, hform, hnumber, hfile⟩
    rw [parse?, splitExtension_eq_iff.mpr hform.divides]
    simp only [hform.cut, word64?_eq_some_iff.mpr hnumber, Option.map_some, ← hfile,
      String.ofList_toList]

theorem parse?_eq_none_iff :
    parse? stored = none ↔
      ∃ stem extension, Divides stored.toList stem extension ∧
        (delimiter ∉ stem ∨ ∃ base text, stem = base ++ delimiter :: text ∧ delimiter ∉ text ∧
          ∀ v, ¬ Numeral text v) := by
  constructor
  · intro hnone
    cases hs : splitExtension stored.toList with
    | mk stem extension =>
      have hdivides := splitExtension_eq_iff.mp hs
      refine ⟨stem, extension, hdivides, ?_⟩
      cases hcut : splitLast? delimiter stem with
      | none => exact .inl (splitLast?_eq_none_iff.mp hcut)
      | some parts =>
        obtain ⟨base, text⟩ := parts
        obtain ⟨rfl, hlast⟩ := splitLast?_eq_some_iff.mp hcut
        refine .inr ⟨base, text, rfl, hlast, fun v hnumber => ?_⟩
        have hread := parse?_eq_some_iff.mpr
          ⟨base, text, extension, ⟨hdivides, hlast⟩, hnumber, String.toList_ofList⟩
        rw [hnone] at hread
        cases hread
  · rintro ⟨stem, extension, hdivides, hbad⟩
    cases hparse : parse? stored with
    | none => rfl
    | some found =>
      obtain ⟨base, number, extension', hform, hnumber, -⟩ := parse?_eq_some_iff.mp hparse
      obtain ⟨rfl, rfl⟩ := hdivides.unique hform.divides
      obtain hnone | ⟨base', text, hstem, hlast, hno⟩ := hbad
      · exact absurd (List.mem_append_right _ List.mem_cons_self) hnone
      · obtain ⟨-, rfl, -⟩ := hform.unique ⟨hstem ▸ hdivides, hlast⟩
        exact absurd hnumber (hno _)

/-- **Which of the names that are read are written.** A name is read as a version just if its stem
has a delimiter and behind the last one a numeral. The version is stored under that very name just
if the numeral is the one that is written, without a sign and without leading zeros, and the name is
not one that has an extension and nothing in front of the delimiter. A name is refused just if its
stem has no delimiter, or behind the last one what is no numeral of a 64-bit number. -/
theorem written_iff_canonical (stored : String) :
    (∀ file v, parse stored = .ok (file, v) ↔
      ∃ base number extension, Form stored base number extension ∧ Numeral number v ∧
        file.toList = joinExtension base extension) ∧
    (∀ file v base number extension, parse stored = .ok (file, v) →
      Form stored base number extension →
        (ofVersion file v = stored ↔
          number = v.toNat.repr.toList ∧ ¬ (base = [] ∧ extension.isSome)) ∧
        (number = v.toNat.repr.toList ↔
          number.head? ≠ some '+' ∧ (number.head? = some '0' → number = ['0']))) ∧
    (parse stored = .error ⟨stored⟩ ↔
      ∃ stem extension, Divides stored.toList stem extension ∧
        (delimiter ∉ stem ∨ ∃ base text, stem = base ++ delimiter :: text ∧ delimiter ∉ text ∧
          ∀ v, ¬ Numeral text v)) := by
  have hok (file : String) (v : UInt64) :
      parse stored = .ok (file, v) ↔ parse? stored = some (file, v) := by
    rw [parse]
    cases parse? stored <;> simp
  have herror : parse stored = .error ⟨stored⟩ ↔ parse? stored = none := by
    rw [parse]
    cases parse? stored <;> simp
  refine ⟨fun file v => (hok file v).trans parse?_eq_some_iff, ?_, herror.trans parse?_eq_none_iff⟩
  intro file v base number extension hparse hform
  obtain ⟨base', number', extension', hform', hnumber, hfile⟩ :=
    parse?_eq_some_iff.mp ((hok file v).mp hparse)
  obtain ⟨rfl, rfl, rfl⟩ := hform.unique hform'
  exact ⟨hform.ofVersion_eq_iff hfile, hnumber.eq_repr_iff⟩

/-- A name with a sign in its number, and one without a base, are read, and stand for versions that
are stored under other names. -/
theorem written_iff_canonical_of_signed :
    Form "a_+3.txt" ['a'] ['+', '3'] (some "txt".toList) ∧ parse "a_+3.txt" = .ok ("a.txt", 3) ∧
      ofVersion "a.txt" 3 ≠ "a_+3.txt" ∧ parse "_7.txt" = .ok (".txt", 7) ∧
      ofVersion ".txt" 7 ≠ "_7.txt" := by
  have hsigned : Form "a_+3.txt" ['a'] ['+', '3'] (some "txt".toList) :=
    ⟨⟨rfl, by decide, by decide⟩, by decide⟩
  have hbare : Form "_7.txt" [] ['7'] (some "txt".toList) :=
    ⟨⟨rfl, by decide, by decide⟩, by decide⟩
  have hread : parse "a_+3.txt" = .ok ("a.txt", 3) := by decide +kernel
  have hreadBare : parse "_7.txt" = .ok (".txt", 7) := by decide +kernel
  refine ⟨hsigned, hread, fun heq => ?_, hreadBare, fun heq => ?_⟩
  · have hcanonical := (written_iff_canonical "a_+3.txt").2.1 _ _ _ _ _ hread hsigned
    exact (hcanonical.2.mp (hcanonical.1.mp heq).1).1 rfl
  · have hcanonical := (written_iff_canonical "_7.txt").2.1 _ _ _ _ _ hreadBare hbare
    exact (hcanonical.1.mp heq).2 ⟨rfl, rfl⟩

end StoredName

end ReplicaRing
