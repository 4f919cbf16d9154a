import RecordQuery.Proofs.SortOrder.Homogeneous

/-!
# Comparison the other way round

* `Mirrored`: two results of a comparison are the reverse of each other, or there is none in either.
* `Value.mirrored_compare?`: so it is with two values of any kinds. `Binary64.mirrored_compare?`,
  `Value.mirrored_map`, `Value.mirrored_bind`, `Value.mirrored_compareTexts?` are the cases of numbers,
  of a value with what a text is read as, and of texts.
* `SortOrder.compare_antisymmetric`: so it is with values, and so criteria and orders give two records
  the other way round the reverse.
-/

namespace RecordQuery

open Std (OrientedOrd OrientedCmp)

/-- The two results of a comparison are the reverse of each other, or there is none in either. -/
def Mirrored (r r' : Option Ordering) : Prop := r' = r.map Ordering.swap

theorem Mirrored.symm {r r' : Option Ordering} (h : Mirrored r r') : Mirrored r' r := by
  rw [Mirrored, h, Option.map_map]
  cases r with
  | none => rfl
  | some order => exact congrArg some Ordering.swap_swap.symm

theorem mirrored_some {α : Type} (cmp : α → α → Ordering) [OrientedCmp cmp] (a b : α) :
    Mirrored (some (cmp a b)) (some (cmp b a)) :=
  congrArg some OrientedCmp.eq_swap

/-- Numbers compare both ways or, if one of them is none, not at all. -/
theorem Binary64.mirrored_compare? (x y : Binary64) : Mirrored (x.compare? y) (y.compare? x) := by
  by_cases hx : x = .nan
  · subst hx
    cases y <;> rfl
  · by_cases hy : y = .nan
    · subst hy
      cases x <;> rfl
    · rw [compare?_eq hx hy, compare?_eq hy hx]
      exact mirrored_some _ x y

/-! ## Values -/

namespace Value

/-- A value compares with what a text is read as, if it is, both ways. -/
theorem mirrored_map {α : Type} [Ord α] [OrientedOrd α] (a : α) (read : Option α) :
    Mirrored (read.map (compare a ·)) (read.map (compare · a)) := by
  cases read with
  | none => rfl
  | some b => exact mirrored_some compare a b

theorem mirrored_bind (x : Binary64) (read : Option Binary64) :
    Mirrored (read.bind (x.compare? ·)) (read.bind (·.compare? x)) := by
  cases read with
  | none => rfl
  | some y => exact x.mirrored_compare? y

theorem mirrored_compareTexts? (s t : String) :
    Mirrored (compareTexts? s t) (compareTexts? t s) := by
  unfold compareTexts?
  cases Date.read? s.toList with
  | none =>
    cases Date.read? t.toList with
    | none => exact mirrored_some compare s t
    | some j => rfl
  | some i =>
    cases Date.read? t.toList with
    | none => rfl
    | some j => exact mirrored_some compare i j

/-- Two values compare both ways, with the reverse result, or not at all, whatever their kinds are. -/
theorem mirrored_compare? (x y : Value) : Mirrored (x.compare? y) (y.compare? x) := by
  cases x with
  | text s =>
    cases y with
    | text t => exact mirrored_compareTexts? s t
    | number b => exact (mirrored_bind b _).symm
    | bool b => exact (mirrored_map b _).symm
    | date j => exact (mirrored_map j _).symm
  | number a =>
    cases y with
    | text t => exact mirrored_bind a _
    | number b => exact a.mirrored_compare? b
    | bool | date => rfl
  | bool a =>
    cases y with
    | text t => exact mirrored_map a _
    | bool b => exact mirrored_some compare a b
    | number | date => rfl
  | date i =>
    cases y with
    | text t => exact mirrored_map i _
    | date j => exact mirrored_some compare i j
    | number | bool => rfl

/-- Values that may be missing, and of which those that do not compare are equal, give the reverse
the other way round. -/
theorem compareOptions_swap (x y : Option Value) :
    compareOptions y x = (compareOptions x y).swap := by
  cases x with
  | none => cases y <;> rfl
  | some x =>
    cases y with
    | none => rfl
    | some y =>
      have hmirrored : y.compare? x = (x.compare? y).map Ordering.swap := x.mirrored_compare? y
      rw [compareOptions, compareOptions, hmirrored]
      cases x.compare? y <;> rfl

end Value

/-! ## Criteria and orders -/

namespace SortOrder

theorem Criterion.compare_swap (c : Criterion) (a b : Json) :
    c.compare b a = (c.compare a b).swap := by
  rw [c.compare_eq_compareOptions, c.compare_eq_compareOptions,
    Value.compareOptions_swap (c.valueOf? a)]
  cases c.direction <;> rfl

/-- The first criterion under which two records differ is the same the other way round. -/
theorem compareBy_swap (a b : Json) (criteria : List Criterion) :
    compareBy b a criteria = (compareBy a b criteria).swap := by
  induction criteria with
  | nil => rfl
  | cons c rest ih => rw [compareBy, compareBy, Ordering.swap_then, c.compare_swap a b, ih]

/-- Values, and records under a criterion or under an order of any number of criteria, compare the
other way round as the reverse. Values that do not compare one way do not compare the other way. -/
theorem compare_antisymmetric :
    (∀ x y : Value, y.compare? x = (x.compare? y).map Ordering.swap) ∧
      (∀ (c : Criterion) (a b : Json), c.compare b a = (c.compare a b).swap) ∧
      ∀ (o : SortOrder) (a b : Json), o.compare b a = (o.compare a b).swap :=
  ⟨Value.mirrored_compare?, Criterion.compare_swap, fun o a b => compareBy_swap a b o.criteria⟩

end SortOrder

end RecordQuery
