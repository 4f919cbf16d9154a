import RecordQuery.Proofs.Filter.Dependence
import RecordQuery.Proofs.Page.Places

/-!
# Filters and paths that a record lacks

A condition on a path that the record lacks fails under strict evaluation and holds under lenient
evaluation. A filter has no negation, so what its conditions accept in addition, it accepts in
addition.

* `Filter.test_lenient`: so lenient evaluation accepts what strict evaluation accepts.
* `Filter.test_of_resolves`: both agree on a record that has all paths of the filter.
* `Filter.sublist_lenient`, `Options.total_lenient`: lenient evaluation keeps more of a list, and
  counts more.
-/

namespace RecordQuery

/-! ## Conditions -/

namespace Condition

/-- The record has something at the end of the condition's path. -/
def Resolves (record : Json) (c : Condition) : Prop := (record.resolve? c.property).isSome = true

theorem test_lenient {c : Condition} {record : Json} (h : c.test record true = true) :
    c.test record false = true := by
  unfold test at h ⊢
  cases hnode : record.resolve? c.property with
  | none => rfl
  | some node => rwa [hnode] at h

theorem test_of_resolves {c : Condition} {record : Json} (h : c.Resolves record)
    (strict strict' : Bool) : c.test record strict = c.test record strict' := by
  obtain ⟨node, hnode⟩ := Option.isSome_iff_exists.mp h
  rw [test, test, hnode]

end Condition

/-! ## Filters -/

namespace Filter

variable {f : Filter} {record : Json}

theorem test_lenient (h : f.test record true = true) : f.test record false = true :=
  test_imp (all_of_forall (fun _ => Condition.test_lenient) f) h

theorem test_of_resolves (h : f.All (·.Resolves record)) (strict strict' : Bool) :
    f.test record strict = f.test record strict' :=
  test_congr (h.imp fun _ hc => Condition.test_of_resolves hc strict strict')

/-- Lenient evaluation keeps what strict evaluation keeps, in the same order. -/
theorem sublist_lenient (f : Filter) (records : List Json) :
    (records.filter (f.test · true)).Sublist (records.filter (f.test · false)) :=
  List.monotone_filter_right _ fun _ => test_lenient

end Filter

/-! ## Pages -/

/-- Under lenient evaluation a page counts at least as many records, whatever routine sorts them. -/
theorem Options.total_lenient {α : Type} {sorting : Sorting α} {o : Options} {record : α → Json}
    {items : List α} {page page' : Page α}
    (hpage : o.page? sorting record items true = some page)
    (hpage' : o.page? sorting record items false = some page') {n : Nat}
    (h : page.total = some n) : ∃ m, page'.total = some m ∧ n ≤ m := by
  have hmatching : (o.matching record items true).Sublist (o.matching record items false) := by
    refine List.monotone_filter_right _ fun item hitem => ?_
    cases hfilter : o.filter? with
    | none => rfl
    | some f =>
      rw [hfilter] at hitem
      exact Filter.test_lenient hitem
  rw [total_page? hpage] at h
  rw [total_page? hpage']
  split at h
  · injection h with h
    exact ⟨_, if_pos ‹_›, h ▸ hmatching.length_le⟩
  · cases h

end RecordQuery
