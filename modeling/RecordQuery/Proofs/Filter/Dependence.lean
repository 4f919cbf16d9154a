import RecordQuery.Filter.Evaluation
import RecordQuery.Proofs.Filter.Canonical
import RecordQuery.Proofs.Path.Names

/-!
# What a filter reads of a record

A filter looks at a record along the paths of its conditions only, and at the value at the end of
each.

* `Filter.test_imp`: a filter accepts whatever it accepted when each of its conditions does (by
  induction on the filter), and `Filter.test_congr`: it depends on its conditions alone.
* `Json.outcome?`, `Condition.test_eq`: what a record has for a path, from which alone a condition is
  decided.
* `Condition.StartsAt`: the key that a condition asks the record for; all else in the record may
  differ (`Json.outcome?_congr`).
* `Filter.test_eq_of_outcomes`, `Filter.test_eq_of_fields`: so records with the same outcomes, and
  records with the same fields at those keys, are accepted alike.
* `Filter.test_put`, `Filter.test_erase`: another key may be given any value, or be taken out.
* `Filter.names_of_read`: a filter that has been read never asks for an empty key.
-/

namespace RecordQuery

/-! ## Filters and their conditions -/

namespace Filter

variable {f : Filter} {record record' : Json} {strict strict' : Bool}

/-- A filter accepts whatever it accepted if each of its conditions does. -/
theorem test_imp (h : f.All fun c => c.test record strict = true → c.test record' strict' = true) :
    f.test record strict = true → f.test record' strict' = true := by
  induction h with
  | leaf h => rwa [test_leaf, test_leaf]
  | @group connective fs h ih =>
    rw [test_group, test_group]
    cases connective.getD .and with
    | and =>
      simp only [List.all_eq_true]
      exact fun hall f hf => ih f hf (hall f hf)
    | or =>
      simp only [List.any_eq_true]
      rintro ⟨f, hf, haccepts⟩
      exact ⟨f, hf, ih f hf haccepts⟩

theorem test_congr (h : f.All fun c => c.test record strict = c.test record' strict') :
    f.test record strict = f.test record' strict' :=
  Bool.eq_iff_iff.mpr ⟨test_imp (h.imp fun _ => (· ▸ id)), test_imp (h.imp fun _ => (·.symm ▸ id))⟩

end Filter

/-! ## Outcomes of paths -/

/-- What the record has at the end of a path: nothing, something that is no value, or a value. -/
def Json.outcome? (path : String) (record : Json) : Option (Option Value) :=
  (record.resolve? path).map Value.ofJson?

namespace Condition

theorem test_eq (c : Condition) (record : Json) (strict : Bool) :
    c.test record strict =
      match record.outcome? c.property with
      | none => !strict
      | some actual => c.operator.accepts actual c.value := by
  rw [test, Json.outcome?]
  cases record.resolve? c.property <;> rfl

/-- The condition asks the record for this key first. The empty path asks for none. -/
def StartsAt (key : String) (c : Condition) : Prop := c.property ≠ "" ∧ firstName c.property = key

theorem outcome?_congr {c : Condition} {record record' : Json}
    (h : ∀ key, c.StartsAt key → record.field? key = record'.field? key) :
    record.outcome? c.property = record'.outcome? c.property :=
  congrArg (Option.map _) (Json.resolve?_congr fun hne => h _ ⟨hne, rfl⟩)

end Condition

/-! ## Records that a filter cannot tell apart -/

namespace Filter

section Records

variable {f : Filter} {record record' : Json}

theorem test_eq_of_outcomes (strict : Bool)
    (h : f.All fun c => record.outcome? c.property = record'.outcome? c.property) :
    f.test record strict = f.test record' strict :=
  test_congr (h.imp fun c hc => by rw [c.test_eq, c.test_eq, hc])

theorem test_eq_of_fields (strict : Bool)
    (h : ∀ key, record.field? key ≠ record'.field? key → f.All fun c => ¬ c.StartsAt key) :
    f.test record strict = f.test record' strict := by
  have hkeys : f.All fun c => ∀ key, record.field? key ≠ record'.field? key → ¬ c.StartsAt key :=
    all_forall fun key => all_forall (h key)
  refine test_eq_of_outcomes strict (hkeys.imp fun c hc => ?_)
  exact Condition.outcome?_congr fun key hstart => not_not.mp fun hne => hc key hne hstart

end Records

section Keys

variable {f : Filter} {key : String} (h : f.All fun c => ¬ c.StartsAt key)
include h

/-- A key at which no path starts may be given any value, whether or not the record has it. -/
theorem test_put (value : Json) (fields : List (String × Json)) (strict : Bool) :
    f.test (.object (Keyed.put key value fields)) strict = f.test (.object fields) strict := by
  refine test_eq_of_fields strict fun key' hne => ?_
  obtain rfl : key = key' := by
    by_contra hkey
    exact hne ((Keyed.get?_put key key' value fields).trans (if_neg hkey))
  exact h

/-- A key at which no path starts may be taken out of the record. -/
theorem test_erase (fields : List (String × Json)) (strict : Bool) :
    f.test (.object (Keyed.erase key fields)) strict = f.test (.object fields) strict := by
  refine test_eq_of_fields strict fun key' hne => ?_
  obtain rfl : key = key' := by
    by_contra hkey
    exact hne (Keyed.get?_erase_of_ne hkey fields)
  exact h

end Keys

/-- A filter that has been read asks for names only along its paths, and so never for an empty key. -/
theorem names_of_read {text : String} {limit : Nat} {f : Filter} (h : read text limit = .ok f) :
    f.All fun c => ∀ name ∈ c.property.toList.splitOn '.', IsName name := by
  obtain ⟨ls, hls⟩ := exists_isFilter_of_read h
  exact hls.isCanonical.isWritable.imp fun c hc => (isPropertyPath_iff c.property).mp hc.property

/-- A filter gives the same result on two objects that differ only in keys at which none of its paths
starts, whatever either of them has there, and on any two records in which each of its paths leads to
the same: to nothing, to something that is no value, or to the same value. The values have to be the
same and not just equal as numbers, since `0` and `-0` have different texts. -/
theorem test_reads_paths (f : Filter) (strict : Bool) :
    (∀ fields fields' : List (String × Json),
      (∀ key, Keyed.get? key fields ≠ Keyed.get? key fields' → f.All fun c => ¬ c.StartsAt key) →
      f.test (.object fields) strict = f.test (.object fields') strict) ∧
    ∀ record record' : Json,
      (f.All fun c => record.outcome? c.property = record'.outcome? c.property) →
      f.test record strict = f.test record' strict :=
  ⟨fun _ _ h => test_eq_of_fields strict h, fun _ _ h => test_eq_of_outcomes strict h⟩

/-- Keys taken out, added and changed to another kind of value, and a field that is null in one record
and an array in the other. -/
theorem test_reads_paths_other_keys :
    let f : Filter := .group (some .and)
      [.condition "owner.name" (.function .startsWith) (.text "b"),
        .condition "age" (.comparison .ne) (.number (.ofInt 18))]
    let owner : Json := .object [("name", .string "Bob")]
    f.test (.object [("age", .number (.integer 30)), ("note", .null), ("", .null), ("owner", owner)])
        true =
      f.test (.object [("owner", owner), ("tags", .array []), ("note", .object [("age", .null)]),
        ("age", .number (.integer 30))]) true ∧
    f.test (.object [("age", .null), ("owner", owner)]) false =
      f.test (.object [("owner", .object [("id", .null), ("name", .string "Bob")]),
        ("age", .array [])]) false := by
  intro f owner
  refine ⟨(test_reads_paths f true).1 _ _ fun key hne => ?_, (test_reads_paths f false).2 _ _ ?_⟩
  · refine .group (List.forall_mem_cons.mpr ⟨.leaf ?_, List.forall_mem_singleton.mpr (.leaf ?_)⟩)
    all_goals
      rintro ⟨-, rfl⟩
      exact hne rfl
  · exact .group (List.forall_mem_cons.mpr ⟨.leaf rfl, List.forall_mem_singleton.mpr (.leaf rfl)⟩)

end Filter

end RecordQuery
