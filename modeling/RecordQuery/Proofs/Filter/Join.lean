import Mathlib.Data.List.ReduceOption
import RecordQuery.Filter.Evaluation

/-!
# Filters that are joined step by step

* `Filter.Joining`: a step that joins filters to a filter. `Filter.joined` is the filter after steps.
* `Filter.Joining.run_eq`: one step gives a group that begins with what was there, and ends with what
  the step brings. `Filter.joined_group`: so do many.
* `Filter.IsGroupOf`: a group is told by its connective and its children, and accepts what all of
  them accept, or what one of them accepts, however they are arranged.
* `Filter.joined_flat`: joining gives one flat group under the connective that was given last.
-/

namespace RecordQuery.Filter

/-! ## Steps -/

/-- A step that joins filters to a filter. -/
inductive Joining where
  | join (others : List (Option Filter)) (connective : Option Connective)
  | and (g : Filter)
  | or (g : Filter)

namespace Joining

/-- The filter after a step. -/
def run : Joining → Filter → Filter
  | .join others connective, f => f.join others connective
  | .and g, f => f.and g
  | .or g, f => f.or g

/-- The filters that a step brings. -/
def added : Joining → List Filter
  | .join others _ => others.reduceOption
  | .and g | .or g => [g]

/-- The connective that a step gives. -/
def given? : Joining → Option Connective
  | .join _ connective => connective
  | .and _ => some .and
  | .or _ => some .or

end Joining

/-- The filter after steps, one after another. -/
def joined (f : Filter) (steps : List Joining) : Filter := steps.foldl (fun f step => step.run f) f

/-- What a group that a filter begins has of it: its children, or the filter itself if it is a
condition. -/
def parts : Filter → List Filter
  | .leaf c => [.leaf c]
  | .group _ fs => fs

/-- The connective that is set. -/
def connective? : Filter → Option Connective
  | .leaf _ => none
  | .group connective _ => connective

/-- A step gives a group of what was there and what it brings. Its connective is the one that the step
gives, or else the one that was set, or else `and`. -/
theorem Joining.run_eq (step : Joining) (f : Filter) :
    step.run f =
      .group (some ((step.given?.or f.connective?).getD .and)) (f.parts ++ step.added) := by
  have hjoin : ∀ others connective, f.join others connective =
      .group (some ((connective.or f.connective?).getD .and)) (f.parts ++ others.reduceOption) := by
    intro others connective
    cases f <;> cases connective <;> rfl
  cases step with
  | join others connective => exact hjoin others connective
  | and g => exact hjoin [some g] (some .and)
  | or g => exact hjoin [some g] (some .or)

theorem joined_group (steps : List Joining) (connective : Connective) (fs : List Filter) :
    joined (.group (some connective) fs) steps =
      .group (some ((steps.filterMap Joining.given?).getLast?.getD connective))
        (fs ++ steps.flatMap Joining.added) := by
  induction steps generalizing connective fs with
  | nil => simp [joined]
  | cons step rest ih =>
    have hstep : joined (.group (some connective) fs) (step :: rest) =
        joined (step.run (.group (some connective) fs)) rest := rfl
    rw [hstep, step.run_eq, ih]
    cases hgiven : step.given? <;>
      simp [hgiven, parts, connective?, List.getLast?_cons, List.append_assoc]

/-- Steps, one at least, give a group of what was there and of all that they bring, under the last
connective that they give, or else the one that was set, or else `and`. -/
theorem joined_eq (f : Filter) {steps : List Joining} (h : steps ≠ []) :
    f.joined steps =
      .group (some (((steps.filterMap Joining.given?).getLast?.or f.connective?).getD .and))
        (f.parts ++ steps.flatMap Joining.added) := by
  obtain ⟨step, rest, rfl⟩ := List.exists_cons_of_ne_nil h
  have hfirst : f.joined (step :: rest) = (step.run f).joined rest := rfl
  rw [hfirst, step.run_eq, joined_group]
  -- The last connective is that of the rest, and if it gives none, that of the first step.
  cases hgiven : step.given? <;> cases hlast : (rest.filterMap Joining.given?).getLast? <;>
    simp [hgiven, hlast, List.getLast?_cons, List.append_assoc]

theorem joinAll_eq (filters : List (Option Filter)) (connective : Option Connective) :
    joinAll filters connective =
      if filters = [] then none else some (empty.joined [.join filters connective]) := by
  cases filters <;> rfl

/-! ## Groups -/

/-- The filter is the group of these filters under this connective. It accepts what all of them, or
one of them, accept, and so does any group of the same filters, whatever their order and number. -/
structure IsGroupOf (g : Filter) (connective : Connective) (fs : List Filter) : Prop where
  eq_group : g = .group (some connective) fs
  test_and : connective = .and → ∀ record strict,
    g.test record strict = (fs.map fun f => f.test record strict).and
  test_or : connective = .or → ∀ record strict,
    g.test record strict = (fs.map fun f => f.test record strict).or
  test_rearranged : ∀ gs, gs ⊆ fs → fs ⊆ gs → ∀ record strict,
    (Filter.group (some connective) gs).test record strict = g.test record strict

theorem isGroupOf_group (connective : Connective) (fs : List Filter) :
    IsGroupOf (.group (some connective) fs) connective fs where
  eq_group := rfl
  test_and := by
    rintro rfl record strict
    simp [test_group, List.and]
  test_or := by
    rintro rfl record strict
    simp [test_group, List.or]
  test_rearranged gs hsub hsup record strict := by
    rw [test_group, test_group, Option.getD_some, Bool.eq_iff_iff]
    cases connective with
    | and =>
      simp only [List.all_eq_true]
      exact ⟨fun h f hf => h f (hsup hf), fun h f hf => h f (hsub hf)⟩
    | or =>
      simp only [List.any_eq_true]
      exact ⟨fun ⟨f, hf, h⟩ => ⟨f, hsub hf, h⟩, fun ⟨f, hf, h⟩ => ⟨f, hsup hf, h⟩⟩

/-- Steps of joining give one flat group of what the filter was and of all filters that the steps
bring, in order, under the connective that was given last; if none was given, under the one that was
set, and if none was set, under `and`. Joining a list is such a step from the empty filter, unless
the list is empty. -/
theorem joined_flat (f : Filter) {steps : List Joining} (hsteps : steps ≠ [])
    (filters : List (Option Filter)) (connective : Option Connective) :
    IsGroupOf (f.joined steps)
        (((steps.filterMap Joining.given?).getLast?.or f.connective?).getD .and)
        (f.parts ++ steps.flatMap Joining.added) ∧
      (joinAll filters connective = none ↔ filters = []) ∧
      ∀ g, joinAll filters connective = some g →
        g = empty.joined [.join filters connective] ∧
          g.IsGroupOf (connective.getD .and) filters.reduceOption := by
  refine ⟨?_, ?_, fun g hg => ?_⟩
  · rw [joined_eq f hsteps]
    exact isGroupOf_group _ _
  · simp [joinAll_eq]
  · rw [joinAll_eq] at hg
    split at hg
    · cases hg
    · injection hg with hg
      subst hg
      refine ⟨rfl, ?_⟩
      have hgroup : empty.joined [.join filters connective] =
          .group (some (connective.getD .and)) filters.reduceOption := by
        cases connective <;> rfl
      rw [hgroup]
      exact isGroupOf_group _ _

/-- A group without a connective that nothing is given, then a connective without filters, then a
list without one; and a list of which nothing is present. -/
theorem joined_flat_overridden :
    let a : Filter := .condition "a" (.comparison .eq) (.bool true)
    let b : Filter := .condition "b" (.comparison .eq) (.bool true)
    let start : Filter := .group none [.group (some .and) [a, b]]
    let steps : List Joining := [.join [none, some b] none, .and a, .join [] (some .or),
      .join [some start, none] none]
    let g := start.joined steps
    g.IsGroupOf .or [.group (some .and) [a, b], b, a, start] ∧
      g.test (.object [("b", .bool true)]) = true ∧
      joinAll [none] none = some (.group (some .and) []) ∧
      IsGroupOf (.group (some .and) []) .and [] := by
  intro a b start steps g
  have hsteps : steps ≠ [] := List.cons_ne_nil _ _
  obtain ⟨hgroup, -, hall⟩ := joined_flat start hsteps [none] none
  have hnone : joinAll [none] none = some (.group (some .and) []) := rfl
  refine ⟨hgroup, ?_, hnone, (hall _ hnone).2⟩
  rw [hgroup.test_or rfl]
  decide +kernel

end RecordQuery.Filter
