import Mathlib.Order.Defs.LinearOrder
import RecordQuery.SortOrder

/-!
# Records that compare alike

A sort order compares values of different kinds as far as one can be read as the other, and what
does not compare counts as equal. On all records this is no order: three of them may go in a circle.
On records with values of one kind under each property it is.

* `Value.Kind`: numbers, truth values, texts that are dates, and texts that are none. `Kind.order`
  orders all values by what makes up those of a kind, which it orders as `Value.compare?` does.
* `SortOrder.Criterion.IsHomogeneous`: what records have at a property is of one kind.
* `SortOrder.exists_transCmp`: a sort order agrees on such records with a total preorder.
* `SortOrder.compare_trans_of_homogeneous`: so it is transitive on them, and
  `SortOrder.compare_circle` shows that it is not on others.
-/

namespace RecordQuery

open Date (Instant)
open Std (TransCmp OrientedCmp ReflCmp TransOrd)

instance : TransOrd Instant :=
  inferInstanceAs (TransCmp (compareLex (compareOn Instant.seconds) (compareOn Instant.nanos)))

namespace Binary64

/-- The infinities lie below and above all finite numbers. -/
def reach : Binary64 → Int
  | .infinite negative => if negative then -1 else 1
  | _ => 0

/-- The finite number in units of `2^-1074`. -/
def units : Binary64 → Int
  | .finite negative m e _ => scaled negative m e
  | _ => 0

theorem compare?_eq {x y : Binary64} (hx : x ≠ .nan) (hy : y ≠ .nan) :
    x.compare? y = some (compareLex (compareOn reach) (compareOn units) x y) := by
  cases x with
  | nan => exact absurd rfl hx
  | infinite a =>
    cases y with
    | nan => exact absurd rfl hy
    | infinite b => cases a <;> cases b <;> rfl
    | finite => cases a <;> rfl
  | finite =>
    cases y with
    | nan => exact absurd rfl hy
    | infinite b => cases b <;> rfl
    | finite => rfl

end Binary64

theorem transCmp_comap {α β : Type} (f : α → β) (cmp : β → β → Ordering) [TransCmp cmp] :
    TransCmp fun x y => cmp (f x) (f y) where
  eq_swap := OrientedCmp.eq_swap
  isLE_trans := TransCmp.isLE_trans

/-! ## Kinds of values -/

namespace Value

/-- Kinds of values that records have. -/
inductive Kind where
  | number | bool | dateText | otherText
deriving DecidableEq, Repr

namespace Kind

/-- All kinds. -/
def all : List Kind := [.number, .bool, .dateText, .otherText]

theorem mem_all (k : Kind) : k ∈ all := by cases k <;> decide

end Kind

/-- The value is of the kind. What is not a number is of none: JSON has no such number. -/
inductive Kind.Holds : Kind → Value → Prop where
  | number {x : Binary64} (h : x ≠ .nan) : Holds .number (.number x)
  | bool (b : Bool) : Holds .bool (.bool b)
  | dateText {s : String} {i : Instant} (h : Date.read? s.toList = some i) : Holds .dateText (.text s)
  | otherText {s : String} (h : Date.read? s.toList = none) : Holds .otherText (.text s)

/-- The kind of a value. -/
def kind? : Value → Option Kind
  | .number .nan | .date _ => none
  | .number _ => some .number
  | .bool _ => some .bool
  | .text s => if (Date.read? s.toList).isSome then some .dateText else some .otherText

theorem kind?_eq_some_iff {v : Value} {k : Kind} : v.kind? = some k ↔ k.Holds v := by
  constructor
  · intro h
    cases v with
    | number x =>
      cases x with
      | nan => cases h
      | infinite | finite =>
        cases h
        exact .number (by simp)
    | bool b =>
      cases h
      exact .bool b
    | date i => cases h
    | text s =>
      cases hs : Date.read? s.toList with
      | none =>
        simp only [kind?, hs, Option.isSome_none] at h
        cases h
        exact .otherText hs
      | some i =>
        simp only [kind?, hs, Option.isSome_some, if_true] at h
        cases h
        exact .dateText hs
  · rintro (hx | _ | hs | hs)
    · rename_i x
      cases x with
      | nan => exact absurd rfl hx
      | infinite | finite => rfl
    · rfl
    all_goals simp [kind?, hs]

instance (k : Kind) (v : Value) : Decidable (k.Holds v) := decidable_of_iff _ kind?_eq_some_iff

/-- The number that a value is; zero for other values. -/
def asNumber : Value → Binary64
  | .number x => x
  | _ => .zero false

/-- The truth value that a value is; false for other values. -/
def asBool : Value → Bool
  | .bool b => b
  | _ => false

/-- The text that a value is; empty for other values. -/
def asText : Value → String
  | .text s => s
  | _ => ""

/-- The instant that the text of a value writes; the start of 1970 for other values. -/
def asInstant (v : Value) : Instant := (Date.read? v.asText.toList).getD ⟨0, 0⟩

/-- The order of all values by what makes up those of a kind. -/
def Kind.order : Kind → Value → Value → Ordering
  | .number =>
    compareLex (compareOn fun v => v.asNumber.reach) (compareOn fun v => v.asNumber.units)
  | .bool => compareOn asBool
  | .dateText => compareOn asInstant
  | .otherText => compareOn asText

instance (k : Kind) : TransCmp k.order := by
  cases k with
  | number =>
    exact inferInstanceAs (TransCmp (compareLex (compareOn fun v : Value => v.asNumber.reach)
      (compareOn fun v => v.asNumber.units)))
  | bool => exact inferInstanceAs (TransCmp (compareOn asBool))
  | dateText => exact inferInstanceAs (TransCmp (compareOn asInstant))
  | otherText => exact inferInstanceAs (TransCmp (compareOn asText))

/-- Values of one kind compare, and they do as the order of the kind says. -/
theorem compare?_eq_order {k : Kind} {x y : Value} (hx : k.Holds x) (hy : k.Holds y) :
    x.compare? y = some (k.order x y) := by
  cases hx with
  | number hx => cases hy with | number hy => exact Binary64.compare?_eq hx hy
  | bool a => cases hy with | bool b => rfl
  | dateText hi =>
    cases hy with
    | dateText hj => simp [compare?, compareTexts?, hi, hj, Kind.order, compareOn, asInstant, asText]
  | otherText hs =>
    cases hy with
    | otherText ht => simp [compare?, compareTexts?, hs, ht, Kind.order, compareOn, asText]

/-- The order of values of a kind that may be missing: missing ones come first. -/
def Kind.optionOrder (k : Kind) : Option Value → Option Value → Ordering :=
  compareLex (compareOn Option.isSome) fun x y => k.order (x.getD (.text "")) (y.getD (.text ""))

instance (k : Kind) : TransCmp k.optionOrder :=
  have := transCmp_comap (fun x : Option Value => x.getD (.text "")) k.order
  inferInstanceAs (TransCmp (compareLex _ _))

/-- The order of values that may be missing: missing ones come first, and values that do not compare
are equal. -/
def compareOptions : Option Value → Option Value → Ordering
  | some x, some y => (x.compare? y).getD .eq
  | none, some _ => .lt
  | some _, none => .gt
  | none, none => .eq

theorem compareOptions_eq {k : Kind} {x y : Option Value} (hx : ∀ v ∈ x, k.Holds v)
    (hy : ∀ v ∈ y, k.Holds v) : compareOptions x y = k.optionOrder x y := by
  cases x with
  | none =>
    cases y with
    | none =>
      have hsame : k.optionOrder none none = .eq := ReflCmp.compare_self
      exact hsame.symm
    | some y => rfl
  | some x =>
    cases y with
    | none => rfl
    | some y => exact congrArg (·.getD .eq) (compare?_eq_order (hx x rfl) (hy y rfl))

end Value

/-! ## Criteria and orders -/

namespace SortOrder

namespace Criterion

/-- What the records have at the property is of one kind, as far as it is a value. -/
def IsHomogeneous (c : Criterion) (records : List Json) : Prop :=
  ∃ k : Value.Kind, ∀ r ∈ records, ∀ v ∈ c.valueOf? r, k.Holds v

instance (c : Criterion) (records : List Json) : Decidable (c.IsHomogeneous records) :=
  decidable_of_iff (∃ k ∈ Value.Kind.all, ∀ r ∈ records, ∀ v ∈ c.valueOf? r, k.Holds v)
    ⟨fun ⟨k, _, hk⟩ => ⟨k, hk⟩, fun ⟨k, hk⟩ => ⟨k, k.mem_all, hk⟩⟩

theorem compare_eq_compareOptions (c : Criterion) (a b : Json) :
    c.compare a b = match c.direction with
      | .ascending => Value.compareOptions (c.valueOf? a) (c.valueOf? b)
      | .descending => (Value.compareOptions (c.valueOf? a) (c.valueOf? b)).swap := rfl

/-- Records with values of a kind are compared by the order of the kind, in the direction of the
criterion. -/
theorem compare_eq (c : Criterion) {k : Value.Kind} {a b : Json}
    (ha : ∀ v ∈ c.valueOf? a, k.Holds v) (hb : ∀ v ∈ c.valueOf? b, k.Holds v) :
    c.compare a b = match c.direction with
      | .ascending => k.optionOrder (c.valueOf? a) (c.valueOf? b)
      | .descending => (k.optionOrder (c.valueOf? a) (c.valueOf? b)).swap := by
  rw [compare_eq_compareOptions, Value.compareOptions_eq ha hb]

/-- On homogeneous records a criterion agrees with a total preorder. -/
theorem exists_transCmp {c : Criterion} {records : List Json} (h : c.IsHomogeneous records) :
    ∃ cmp : Json → Json → Ordering, TransCmp cmp ∧
      ∀ a ∈ records, ∀ b ∈ records, c.compare a b = cmp a b := by
  obtain ⟨k, hk⟩ := h
  have hcompare := fun a ha b hb => c.compare_eq (hk a ha) (hk b hb)
  have htrans := transCmp_comap c.valueOf? k.optionOrder
  cases hdirection : c.direction with
  | ascending =>
    refine ⟨_, htrans, fun a ha b hb => ?_⟩
    rw [hcompare a ha b hb, hdirection]
  | descending =>
    refine ⟨_, @TransCmp.opposite _ _ htrans, fun a ha b hb => ?_⟩
    rw [hcompare a ha b hb, hdirection]
    exact OrientedCmp.eq_swap.symm

end Criterion

/-- On records that are homogeneous under each criterion an order agrees with a total preorder. -/
theorem exists_transCmp {o : SortOrder} {records : List Json}
    (h : ∀ c ∈ o.criteria, c.IsHomogeneous records) :
    ∃ cmp : Json → Json → Ordering, TransCmp cmp ∧
      ∀ a ∈ records, ∀ b ∈ records, o.compare a b = cmp a b := by
  obtain ⟨criteria⟩ := o
  induction criteria with
  | nil => exact ⟨fun _ _ => .eq, { eq_swap := rfl, isLE_trans := fun _ _ => rfl }, fun _ _ _ _ => rfl⟩
  | cons c rest ih =>
    obtain ⟨first, hfirst, hc⟩ := Criterion.exists_transCmp (h c List.mem_cons_self)
    obtain ⟨others, hothers, hrest⟩ := ih fun c hc => h c (List.mem_cons_of_mem _ hc)
    refine ⟨compareLex first others, inferInstance, fun a ha b hb => ?_⟩
    calc compare ⟨c :: rest⟩ a b = (c.compare a b).then (compare ⟨rest⟩ a b) := rfl
      _ = (first a b).then (others a b) := by rw [hc a ha b hb, hrest a ha b hb]

/-- A sort order is transitive on three records that are homogeneous under each criterion. -/
theorem compare_trans_of_homogeneous (o : SortOrder) {a b c : Json}
    (h : ∀ k ∈ o.criteria, k.IsHomogeneous [a, b, c]) (hab : o.compare a b ≠ .gt)
    (hbc : o.compare b c ≠ .gt) : o.compare a c ≠ .gt := by
  obtain ⟨cmp, hcmp, hagree⟩ := exists_transCmp h
  rw [hagree a (by simp) b (by simp)] at hab
  rw [hagree b (by simp) c (by simp)] at hbc
  rw [hagree a (by simp) c (by simp)]
  exact Ordering.isLE_iff_ne_gt.mp (TransCmp.isLE_trans (Ordering.isLE_iff_ne_gt.mpr hab)
    (Ordering.isLE_iff_ne_gt.mpr hbc))

/-- Dates in two spellings, the later one first, and a record without one. -/
theorem compare_trans_of_homogeneous_dates :
    let o : SortOrder := ⟨[⟨"on.day", .descending⟩, ⟨"n", .ascending⟩]⟩
    let day (s : String) := Json.object [("day", .string s)]
    let a := Json.object [("on", day "2020-01-02T01:00:00+01:00"), ("n", .number (.integer 7))]
    let b := Json.object [("n", .number (.integer 9)), ("on", day "2020-01-02")]
    let c := Json.object [("on", .null)]
    (∀ k ∈ o.criteria, k.IsHomogeneous [a, b, c]) ∧ o.compare a b ≠ .gt ∧ o.compare b c ≠ .gt ∧
      o.compare a c ≠ .gt := by
  intro o day a b c
  have hhomogeneous : ∀ k ∈ o.criteria, k.IsHomogeneous [a, b, c] := by decide +kernel
  have hab : o.compare a b ≠ .gt := by decide +kernel
  have hbc : o.compare b c ≠ .gt := by decide +kernel
  exact ⟨hhomogeneous, hab, hbc, compare_trans_of_homogeneous o hhomogeneous hab hbc⟩

/-- Texts are compared with each other character by character and with a number as numbers. So a
hundred as text lies before twenty as text, this before fifty, and fifty before the hundred. -/
theorem compare_circle :
    let o := single "v" .ascending
    let a := Json.object [("v", .string "100")]
    let b := Json.object [("v", .string "20")]
    let c := Json.object [("v", .number (.integer 50))]
    o.compare a b = .lt ∧ o.compare b c = .lt ∧ o.compare a c = .gt := by
  decide +kernel

end SortOrder

end RecordQuery
