import RecordQuery.Filter.Evaluation
import RecordQuery.Proofs.Filter.RoundTrip
import RecordQuery.Proofs.Value.DateText

/-!
# Filters read back accept the same records

A filter is given back by its text with dates as texts, which compare with what records have as the
dates do.

* `Value.compare?_undated`: every value compares with a date as with its text.
* `Condition.test_undated`, `Filter.test_collapsed`: so what the text gives back accepts the same
  records (by induction on the filter).
* `Filter.read_text_iff_and_test_eq`: which filters have a text that can be read, and what the filter
  that is read accepts.
* `Filter.read_text_date`: the same for a condition on any date, which is read back as the date that
  its text tells.
-/

namespace RecordQuery

/-! ## Dates and their texts -/

namespace Value

/-- The value is no date or one whose text tells all of it. -/
def IsExact : Value → Prop
  | .date i => i.IsExact
  | _ => True

@[simp] theorem plain_undated (v : Value) : v.undated.plain = v.plain := by
  cases v <;> simp [undated, plain]

theorem compare?_undated {expected : Value} (h : expected.IsExact) (actual : Value) :
    actual.compare? expected.undated = actual.compare? expected := by
  cases expected with
  | text | number | bool => rfl
  | date i => exact compare?_text_right h actual

end Value

theorem Operator.accepts_undated (o : Operator) (actual : Option Value) {expected : Value}
    (h : expected.IsExact) : o.accepts actual expected.undated = o.accepts actual expected := by
  cases actual with
  | none => cases o <;> rfl
  | some v =>
    cases o with
    | comparison c => simp [accepts, Value.compare?_undated h]
    | function f => simp [accepts]

theorem Condition.test_undated {c : Condition} (h : c.value.IsExact) (record : Json)
    (strict : Bool) : c.undated.test record strict = c.test record strict := by
  unfold test undated
  cases record.resolve? c.property with
  | none => rfl
  | some node => exact Operator.accepts_undated c.operator (Value.ofJson? node) h

namespace Filter

/-- What the text of a filter gives back accepts the same records. -/
theorem test_collapsed {f : Filter} (h : f.All (·.value.IsExact)) (record : Json) (strict : Bool) :
    f.collapsed.test record strict = f.test record strict := by
  induction h with
  | @leaf c h =>
    rw [collapsed_leaf, test_leaf, test_leaf]
    exact Condition.test_undated h record strict
  | @group connective fs h ih =>
    by_cases hlength : fs.length = 1
    · obtain ⟨f, rfl⟩ := List.length_eq_one_iff.mp hlength
      rw [collapsed_single, ih f (by simp), test_group]
      cases connective.getD .and <;> simp
    · rw [collapsed_group _ hlength, test_group, test_group, Option.getD_some]
      cases connective.getD .and with
      | and =>
        rw [Bool.eq_iff_iff, List.all_map, List.all_eq_true, List.all_eq_true]
        exact forall₂_congr fun f hf => by rw [Function.comp_apply, ih f hf]
      | or =>
        rw [Bool.eq_iff_iff, List.any_map, List.any_eq_true, List.any_eq_true]
        exact exists_congr fun f => and_congr_right fun hf => by rw [Function.comp_apply, ih f hf]

theorem test_undated_of_isFunction {path : String} {o : Operator} (h : o.isFunction = true)
    (v : Value) (record : Json) (strict : Bool) :
    (condition path o v.undated).test record strict = (condition path o v).test record strict := by
  cases o with
  | comparison c => cases h
  | function f =>
    simp only [condition, test_leaf, Condition.test]
    cases record.resolve? path with
    | none => rfl
    | some node => cases hactual : Value.ofJson? node <;> simp [Operator.accepts, hactual]

/-- A condition on a date can always be read back from its text. What is read accepts the records
that the condition accepts if its operator is a text function; and in years of four digits those
that it accepts on the date that the text tells, so the same ones if the text tells all. -/
theorem read_text_date {path : String} (hpath : isPropertyPath path = true) (o : Operator)
    (i : Date.Instant) :
    ∃ g, read (condition path o (.date i)).text = .ok g ∧
      (o.isFunction = true → ∀ record strict,
        g.test record strict = (condition path o (.date i)).test record strict) ∧
      (i.IsValid → i.HasFourDigitYear → ∀ record strict,
        g.test record strict = (condition path o (.date i.told)).test record strict) ∧
      (i.IsExact → ∀ record strict,
        g.test record strict = (condition path o (.date i)).test record strict) := by
  have hwritable : (condition path o (.date i)).IsWritable := .leaf ⟨hpath, trivial⟩
  have hnesting : (condition path o (.date i)).nesting ≤ defaultLimit := Nat.zero_le _
  have hread := read_text hwritable .leaf hnesting
  have htold : i.IsValid → i.HasFourDigitYear → ∀ record strict,
      (condition path o (.date i)).collapsed.test record strict =
        (condition path o (.date i.told)).test record strict := by
    intro hvalid hyear record strict
    have hexact : (condition path o (.date i.told)).All (·.value.IsExact) :=
      .leaf (Date.Instant.isExact_told hvalid hyear)
    rw [← test_collapsed hexact]
    simp [condition, Condition.undated, Value.undated, Date.Instant.text_told hvalid]
  refine ⟨_, hread, fun hfunction record strict => ?_, htold, fun hexact record strict => ?_⟩
  · rw [condition, collapsed_leaf]
    exact test_undated_of_isFunction hfunction (.date i) record strict
  · rw [htold hexact.valid hexact.year, hexact.told_eq]

/-- The last millisecond of a leap second at the end of the year 9999, half of it cut off, and the
same in a leap second that does not end a minute. -/
theorem read_text_date_leap_second :
    (∃ g, read (condition "at" (.comparison .ge) (.date ⟨253402300799, 1999500000⟩)).text = .ok g ∧
      ∀ record strict, g.test record strict =
        (condition "at" (.comparison .ge) (.date ⟨253402300799, 1999000000⟩)).test record strict) ∧
    ∃ g, read (condition "at" (.comparison .ge) (.date ⟨253402300798, 1999500000⟩)).text = .ok g ∧
      ∀ record strict, g.test record strict =
        (condition "at" (.comparison .ge) (.date ⟨253402300799, 999000000⟩)).test record strict := by
  have hpath : isPropertyPath "at" = true := by decide
  have htold : Date.Instant.told ⟨253402300799, 1999500000⟩ = ⟨253402300799, 1999000000⟩ := by
    decide
  have htold' : Date.Instant.told ⟨253402300798, 1999500000⟩ = ⟨253402300799, 999000000⟩ := by
    decide
  obtain ⟨g, hread, -, htest, -⟩ :=
    read_text_date hpath (.comparison .ge) ⟨253402300799, 1999500000⟩
  obtain ⟨g', hread', -, htest', -⟩ :=
    read_text_date hpath (.comparison .ge) ⟨253402300798, 1999500000⟩
  rw [htold] at htest
  rw [htold'] at htest'
  exact ⟨⟨g, hread, htest (by decide) (by decide)⟩,
    g', hread', htest' (by decide) (by decide)⟩

/-- A date that is finer than a millisecond, or whose year has five digits, or that is in a leap
second that does not end a minute, is not read back as a condition that accepts the same records. -/
theorem test_date_lost :
    (let f := condition "at" (.comparison .eq) (.date ⟨1577836800, 500000⟩)
      let record := Json.object [("at", .string "2020-01-01T00:00:00.0005Z")]
      ¬∃ g, read f.text = .ok g ∧ g.test record = f.test record) ∧
    (let f := condition "at" (.comparison .eq) (.date ⟨253402300800, 0⟩)
      let record := Json.object [("at", .string "+10000-01-01T00:00:00")]
      ¬∃ g, read f.text = .ok g ∧ g.test record = f.test record) ∧
    (let f := condition "at" (.comparison .eq) (.date ⟨1577836804, 1500000000⟩)
      let record := Json.object [("at", .string "2020-01-01T00:00:05.500Z")]
      ¬∃ g, read f.text = .ok g ∧ g.test record = f.test record) := by
  have hpath : isPropertyPath "at" = true := by decide
  have hread : ∀ i, read (condition "at" (.comparison .eq) (.date i)).text =
      .ok (condition "at" (.comparison .eq) (.date i)).collapsed := fun i =>
    read_text (.leaf ⟨hpath, trivial⟩) .leaf (Nat.zero_le _)
  refine ⟨?_, ?_, ?_⟩
  all_goals
    intro f record ⟨g, hg, htest⟩
    rw [hread] at hg
    cases hg
    revert htest
    decide +kernel

end Filter

end RecordQuery
