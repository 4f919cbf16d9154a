import RecordQuery.Proofs.Options.Frame
import RecordQuery.Proofs.Options.QueryString
import RecordQuery.Proofs.Text.Decoding

/-!
# Names of custom options in query strings

A query string has names as they are, and decodes them when it is read.

* `Options.contains_directive_eq_false`: which names set no directive.
* `Options.ofQueryString_eq_iff`: which names are read back.
* `Options.ofQueryString_setCustom`: both together.
-/

namespace RecordQuery.Options

/-! ## One custom option -/

section Custom

variable {name value : String} {o : Options} (h : empty.trySetCustom name (.text value) = .ok o)
include h

theorem eq_of_trySetCustom :
    isReserved name = false ∧ o = ⟨[(.custom name, .custom (.text value))]⟩ := by
  unfold trySetCustom at h
  split at h
  · cases h
  · cases h
    exact ⟨(Bool.not_eq_true _).mp ‹_›, rfl⟩

theorem encodedQueryString_custom :
    dropMark o.encodedQueryString.toList = name.toList ++ '=' :: Text.formEncode value.toList := by
  obtain ⟨-, rfl⟩ := eq_of_trySetCustom h
  rw [encodedQueryString, String.toList_ofList]
  simp [queryChars, dropMark, Key.name, Setting.chars, Value.plain]

/-- The names that are read set what is set. -/
theorem exists_name_of_contains {k : Key}
    (hk : (ofQueryString o.encodedQueryString).contains k = true) :
    ∃ pair ∈ Text.formPairs (name.toList ++ '=' :: Text.formEncode value.toList),
      pair.1 = k.name.toList := by
  obtain ⟨pair, hpair, hname⟩ := exists_pair_of_contains hk
  rw [encodedQueryString_custom h] at hpair
  refine ⟨pair, hpair, ?_⟩
  rw [Key.name_of_ofName? hname, String.toList_ofList]

/-- A name without `&` sets no directive unless it starts with the escape of a dollar sign. -/
theorem contains_directive_eq_false (hampersand : '&' ∉ name.toList)
    (hescape : ¬['%', '2', '4'] <+: name.toList) (d : Directive) :
    (ofQueryString o.encodedQueryString).contains (.directive d) = false := by
  by_contra hcontains
  obtain ⟨pair, hpair, hname⟩ := exists_name_of_contains h ((Bool.not_eq_false _).mp hcontains)
  rw [Text.name_of_mem_formPairs hampersand (Text.ampersand_not_mem_formEncode _) hpair] at hname
  have hprefix := List.takeWhile_prefix (l := name.toList) (· ≠ '=')
  have hhead := d.head?_name
  rw [← Key.name, ← hname] at hhead
  rcases Text.formDecode_dollar hhead with hdollar | hdollar
  · obtain ⟨rest, hrest⟩ := hprefix
    refine head?_ne_dollar (eq_of_trySetCustom h).1 ?_
    rw [← hrest, List.head?_append, hdollar]
    rfl
  · exact hescape (hdollar.trans hprefix)

theorem ofQueryString_eq_iff :
    ofQueryString o.encodedQueryString = o ↔
      '&' ∉ name.toList ∧ '=' ∉ name.toList ∧ Text.formDecode name.toList = name.toList := by
  obtain ⟨hname, ho⟩ := eq_of_trySetCustom h
  have hvalue := Text.ampersand_not_mem_formEncode value.toList
  constructor
  · intro heq
    have hcontains : (ofQueryString o.encodedQueryString).contains (.custom name) = true := by
      rw [heq, ho]
      simp [contains, Options.get?, Keyed.get?]
    obtain ⟨pair, hpair, hread⟩ := exists_name_of_contains h hcontains
    -- No name that is read from a parted one is long enough.
    have hseparators : ¬('&' ∈ name.toList ∨ '=' ∈ name.toList) := by
      intro hmem
      have hlt := Text.length_name_lt hvalue hmem hpair
      rw [hread] at hlt
      exact Nat.lt_irrefl _ hlt
    obtain ⟨hampersand, hequals⟩ := not_or.mp hseparators
    have hwhole : name.toList.takeWhile (· ≠ '=') = name.toList := by
      rw [← Text.formPair_name _ [], Text.formPair_append hequals]
    rw [Text.name_of_mem_formPairs hampersand hvalue hpair, hwhole] at hread
    exact ⟨hampersand, hequals, hread⟩
  · rintro ⟨hampersand, hequals, hdecode⟩
    have hsplit : '&' ∉ name.toList ++ '=' :: Text.formEncode value.toList := by
      simp [hampersand, hvalue]
    rw [ofQueryString, encodedQueryString_custom h, Text.formPairs_singleton hsplit (by simp),
      Text.formPair_append hequals, hdecode, Text.formDecode_formEncode, List.foldl_cons,
      setQueryPair_custom _ hname, String.ofList_toList, ho]
    rfl

end Custom

/-- A custom option that is set to a text is read back from its query string, alone and as it is,
if and only if its name has no `&`, `=` or `+` and no percent sign before two hexadecimal digits. Of
the other names, those with an `&` and those that start with `%24` are the only ones that can set a
directive. -/
theorem ofQueryString_setCustom {name value : String} {o : Options}
    (h : empty.trySetCustom name (.text value) = .ok o) :
    (ofQueryString o.encodedQueryString = o ↔
        '&' ∉ name.toList ∧ '=' ∉ name.toList ∧ '+' ∉ name.toList ∧
          ¬Text.HasEscape name.toList) ∧
      ('&' ∉ name.toList → ¬['%', '2', '4'] <+: name.toList →
        ∀ d, (ofQueryString o.encodedQueryString).contains (.directive d) = false) := by
  refine ⟨?_, contains_directive_eq_false h⟩
  rw [ofQueryString_eq_iff h, Text.formDecode_eq_self_iff]

/-- A name of blanks, percent signs and question marks, and a value full of separators. -/
theorem ofQueryString_setCustom_percent :
    ∃ o, empty.trySetCustom "?% %4ü" (.text "&$top=5+%24") = .ok o ∧
      ofQueryString o.encodedQueryString = o ∧
      ∀ d, (ofQueryString o.encodedQueryString).contains (.directive d) = false := by
  obtain ⟨hkept, hnone⟩ := @ofQueryString_setCustom "?% %4ü" "&$top=5+%24" _ rfl
  exact ⟨_, rfl, hkept.mpr (by decide), hnone (by decide) (by decide)⟩

/-- A name with `&` in it sets a directive, and is not read back. -/
theorem top?_ofQueryString_ampersand :
    ∃ o, empty.trySetCustom "a&$top" (.text "5") = .ok o ∧ o.top? = none ∧
      (ofQueryString o.encodedQueryString).top? = some 5 ∧
      ofQueryString o.encodedQueryString ≠ o := by
  let o : Options := ⟨[(.custom "a&$top", .custom (.text "5"))]⟩
  have htop : (ofQueryString o.encodedQueryString).top? = some 5 := by decide +kernel
  refine ⟨o, rfl, rfl, htop, fun heq => ?_⟩
  rw [heq] at htop
  cases htop

end RecordQuery.Options
