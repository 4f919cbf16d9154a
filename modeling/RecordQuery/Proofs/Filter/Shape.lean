import RecordQuery.Filter.Basic
import RecordQuery.Path

/-!
# The shape of filters

* `Filter.height`, `Filter.nesting`: how many groups stand on a path, the root counted or not.
* `Filter.All`: every condition has a property.
* `Filter.IsWritable`: every condition has a property path and no number that is not finite.
* `Filter.HasNoEmptyGroup`, `Filter.IsCanonical`: the filters with a text of their own, and those
  which their text gives back.
* `Filter.collapsed`: what the text of a filter gives back.
-/

namespace RecordQuery

namespace Filter

mutual

/-- The number of groups on the longest path, the filter itself included. -/
def height : Filter → Nat
  | .leaf _ => 0
  | .group _ fs => greatestHeight fs + 1

/-- The greatest number of groups on a path of one of the filters. -/
def greatestHeight : List Filter → Nat
  | [] => 0
  | f :: fs => max (height f) (greatestHeight fs)

end

/-- The number of groups below the root on the longest path. -/
def nesting (f : Filter) : Nat := greatestHeight f.children

@[simp] theorem height_leaf (c : Condition) : height (.leaf c) = 0 := by simp [height]

@[simp] theorem height_group (connective : Option Connective) (fs : List Filter) :
    height (.group connective fs) = greatestHeight fs + 1 := by simp [height]

theorem greatestHeight_le {fs : List Filter} {n : Nat} :
    greatestHeight fs ≤ n ↔ ∀ f ∈ fs, height f ≤ n := by
  induction fs with
  | nil => simp [greatestHeight]
  | cons f fs ih => rw [greatestHeight, Nat.max_le, ih, List.forall_mem_cons]

end Filter

/-- The value is no number or a finite one. -/
def Value.IsFinite : Value → Prop
  | .number x => x.isFinite = true
  | _ => True

/-- The value is no date. -/
def Value.IsUndated : Value → Prop
  | .date _ => False
  | _ => True

/-- The value as its text gives it back: a date is a text. -/
def Value.undated : Value → Value
  | .date i => .text (String.ofList i.text)
  | v => v

theorem Value.undated_eq {v : Value} (h : v.IsUndated) : v.undated = v := by
  cases v with
  | date i => exact h.elim
  | text | number | bool => rfl

/-- The condition has a property path and no number that is not finite. -/
structure Condition.IsWritable (c : Condition) : Prop where
  property : isPropertyPath c.property = true
  value : c.value.IsFinite

theorem Condition.isWritable_iff {c : Condition} :
    c.IsWritable ↔ isPropertyPath c.property = true ∧ c.value.IsFinite :=
  ⟨fun h => ⟨h.property, h.value⟩, fun h => ⟨h.1, h.2⟩⟩

/-- The condition as its text gives it back. -/
def Condition.undated (c : Condition) : Condition := { c with value := c.value.undated }

theorem Condition.undated_eq {c : Condition} (h : c.value.IsUndated) : c.undated = c := by
  rw [undated, Value.undated_eq h]

namespace Filter

/-- All conditions have the property. -/
inductive All (P : Condition → Prop) : Filter → Prop where
  | leaf {c : Condition} (h : P c) : All P (.leaf c)
  | group {connective : Option Connective} {fs : List Filter} (h : ∀ f ∈ fs, All P f) :
      All P (.group connective fs)

@[simp] theorem all_leaf {P : Condition → Prop} {c : Condition} : All P (.leaf c) ↔ P c :=
  ⟨fun (.leaf h) => h, .leaf⟩

@[simp] theorem all_group {P : Condition → Prop} {connective : Option Connective}
    {fs : List Filter} : All P (.group connective fs) ↔ ∀ f ∈ fs, All P f :=
  ⟨fun (.group h) => h, .group⟩

/-- What every condition has, the conditions of every filter have. -/
theorem all_of_forall {P : Condition → Prop} (h : ∀ c, P c) : ∀ f : Filter, f.All P
  | .leaf c => .leaf (h c)
  | .group _ fs => .group fun f _ => all_of_forall h f

/-- What every condition has for each index, it has for all of them. -/
theorem all_forall.{u} {ι : Sort u} {P : ι → Condition → Prop} :
    ∀ {f : Filter}, (∀ i, f.All (P i)) → f.All fun c => ∀ i, P i c
  | .leaf _, h => .leaf fun i => all_leaf.mp (h i)
  | .group _ _, h => .group fun f hf => all_forall fun i => all_group.mp (h i) f hf

theorem All.imp {P Q : Condition → Prop} {f : Filter} (hf : f.All P) (h : ∀ c, P c → Q c) :
    f.All Q := by
  induction hf with
  | leaf hc => exact .leaf (h _ hc)
  | group _ ih => exact .group ih

/-- All conditions are writable. -/
abbrev IsWritable (f : Filter) : Prop := f.All Condition.IsWritable

/-- Every group has a child. -/
inductive HasNoEmptyGroup : Filter → Prop where
  | leaf {c : Condition} : HasNoEmptyGroup (.leaf c)
  | group {connective : Option Connective} {fs : List Filter} (hne : fs ≠ [])
      (h : ∀ f ∈ fs, HasNoEmptyGroup f) : HasNoEmptyGroup (.group connective fs)

@[simp] theorem hasNoEmptyGroup_leaf (c : Condition) : HasNoEmptyGroup (.leaf c) := .leaf

@[simp] theorem hasNoEmptyGroup_group {connective : Option Connective} {fs : List Filter} :
    HasNoEmptyGroup (.group connective fs) ↔ fs ≠ [] ∧ ∀ f ∈ fs, f.HasNoEmptyGroup :=
  ⟨fun (.group hne h) => ⟨hne, h⟩, fun ⟨hne, h⟩ => .group hne h⟩

/-- All conditions are writable and without dates, and every group has a connective and two
children at least. -/
inductive IsCanonical : Filter → Prop where
  | leaf {c : Condition} (h : c.IsWritable) (hdate : c.value.IsUndated) : IsCanonical (.leaf c)
  | group {connective : Connective} {fs : List Filter} (hlength : 2 ≤ fs.length)
      (h : ∀ f ∈ fs, IsCanonical f) : IsCanonical (.group (some connective) fs)

@[simp] theorem isCanonical_leaf {c : Condition} :
    IsCanonical (.leaf c) ↔ c.IsWritable ∧ c.value.IsUndated :=
  ⟨fun (.leaf h hdate) => ⟨h, hdate⟩, fun ⟨h, hdate⟩ => .leaf h hdate⟩

@[simp] theorem isCanonical_group {connective : Connective} {fs : List Filter} :
    IsCanonical (.group (some connective) fs) ↔ 2 ≤ fs.length ∧ ∀ f ∈ fs, f.IsCanonical :=
  ⟨fun (.group hlength h) => ⟨hlength, h⟩, fun ⟨hlength, h⟩ => .group hlength h⟩

theorem IsCanonical.isWritable {f : Filter} (h : f.IsCanonical) : f.IsWritable := by
  induction h with
  | leaf h => exact .leaf h
  | group hlength h ih => exact .group ih

theorem IsCanonical.hasNoEmptyGroup {f : Filter} (h : f.IsCanonical) : f.HasNoEmptyGroup := by
  induction h with
  | leaf h => exact .leaf
  | group hlength h ih => exact .group (by rintro rfl; simp at hlength) ih

mutual

/-- The filter as its text gives it back: a group of one is its child, a group without a connective
has `and`, and a date is a text. -/
def collapsed : Filter → Filter
  | .leaf c => .leaf c.undated
  | .group connective fs =>
    match collapsedAll fs with
    | [f] => f
    | gs => .group (some (connective.getD .and)) gs

/-- The filters as their texts give them back. -/
def collapsedAll : List Filter → List Filter
  | [] => []
  | f :: fs => collapsed f :: collapsedAll fs

end

theorem collapsedAll_eq_map (fs : List Filter) : collapsedAll fs = fs.map collapsed := by
  induction fs with
  | nil => rfl
  | cons f fs ih => rw [collapsedAll, ih, List.map_cons]

@[simp] theorem collapsed_leaf (c : Condition) : collapsed (.leaf c) = .leaf c.undated := by
  simp [collapsed]

theorem collapsed_single (connective : Option Connective) (f : Filter) :
    collapsed (.group connective [f]) = f.collapsed := by
  simp [collapsed, collapsedAll]

theorem collapsed_group (connective : Option Connective) {fs : List Filter} (h : fs.length ≠ 1) :
    collapsed (.group connective fs) =
      .group (some (connective.getD .and)) (fs.map collapsed) := by
  rw [collapsed, collapsedAll_eq_map]
  split
  · rename_i g hg
    have := congrArg List.length hg
    simp only [List.length_map, List.length_singleton] at this
    exact absurd this h
  · rfl

/-- A canonical filter is given back as it is. -/
theorem IsCanonical.collapsed_eq {f : Filter} (h : f.IsCanonical) : f.collapsed = f := by
  induction h with
  | leaf h hdate =>
    rw [collapsed_leaf, Condition.undated_eq hdate]
  | @group connective fs hlength h ih =>
    rw [collapsed_group _ (by omega), List.map_congr_left ih, List.map_id']
    rfl

end Filter

end RecordQuery
