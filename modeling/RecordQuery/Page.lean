import RecordQuery.Filter.Evaluation
import RecordQuery.Options.Basic
import RecordQuery.Sorting

/-!
# Pages

* `Page`: records that options ask for, and how many there are on all pages.
* `Options.arranged?`: the records that pass the filter, in the order asked for.
* `Options.cut`: the page that the options cut out of them.
* `Options.page?`: the page of records, whatever routine sorts them. Values of several kinds under a
  criterion may go in a circle, and on these a routine may break off.
* `Options.page`: the page of records that are sorted by merging.
-/

namespace RecordQuery

/-- A page of records. -/
structure Page (α : Type) where
  records : List α
  /-- how many records there are on all pages, if that is asked for -/
  total : Option Nat
deriving DecidableEq, Repr

namespace Options

variable {α : Type}

/-- The item passes the filter, if there is one. -/
def passes (o : Options) (record : α → Json) (strict : Bool) (item : α) : Bool :=
  match o.filter? with
  | some f => f.test (record item) strict
  | none => true

/-- The items that pass the filter, in the order asked for; without one in the order given. There is
no result if the routine that sorts them breaks off. -/
def arranged? (sorting : Sorting α) (o : Options) (record : α → Json) (items : List α)
    (strict : Bool := true) : Option (List α) :=
  let kept := items.filter (o.passes record strict)
  if o.sortOrder.criteria.isEmpty then some kept
  else sorting.run (fun x y => o.sortOrder.compare (record x) (record y)) kept

/-- The page that the options cut out of arranged items. The total counts the items before any are
passed over. -/
def cut (o : Options) (arranged : List α) : Page α :=
  let rest := arranged.drop (o.skip?.getD 0)
  { records := match o.top? with
      | some n => rest.take n
      | none => rest
    total := o.inlineCount?.map fun _ => arranged.length }

/-- The page of items that the options ask for, if the routine that sorts them does not break off. -/
def page? (sorting : Sorting α) (o : Options) (record : α → Json) (items : List α)
    (strict : Bool := true) : Option (Page α) :=
  (o.arranged? sorting record items strict).map o.cut

theorem isSome_page?_merge (o : Options) (record : α → Json) (items : List α) (strict : Bool) :
    (o.page? .merge record items strict).isSome := by
  simp only [page?, arranged?]
  split <;> rfl

/-- The page of items that the options ask for, sorted by merging. -/
def page (o : Options) (record : α → Json) (items : List α) (strict : Bool := true) : Page α :=
  (o.page? .merge record items strict).get (o.isSome_page?_merge record items strict)

theorem page?_merge (o : Options) (record : α → Json) (items : List α) (strict : Bool) :
    o.page? .merge record items strict = some (o.page record items strict) :=
  (Option.some_get _).symm

end Options

end RecordQuery
