import RecordQuery.Path
import RecordQuery.Text.Case
import RecordQuery.Value

/-!
# Sort orders

A list of properties with directions, separated by commas: `age desc, name`.

* `SortOrder.Criterion.read?`, `SortOrder.read`: the criterion or the order that a text writes.
* `SortOrder.text`: the text of an order.
* `SortOrder.compare`: the order of two records by the first criterion under which they differ.
-/

namespace RecordQuery

namespace SortOrder

/-- Least or greatest values first. -/
inductive Direction where
  | ascending | descending
deriving DecidableEq, Repr

/-- The word for a direction. -/
def Direction.word : Direction → String
  | .ascending => "asc"
  | .descending => "desc"

/-- The direction that a word in any mix of cases stands for. -/
def Direction.ofWord? (w : String) : Option Direction :=
  let lowered := Text.lower w.toList
  if lowered = Direction.ascending.word.toList then some .ascending
  else if lowered = Direction.descending.word.toList then some .descending
  else none

/-- A property path and a direction. -/
structure Criterion where
  property : String
  direction : Direction
deriving DecidableEq, Repr

namespace Criterion

/-- The criterion that a text writes: a property and perhaps a direction, blanks around them. -/
def read? (text : List Char) : Option Criterion :=
  match Text.words text with
  | [property] => some ⟨String.ofList property, .ascending⟩
  | [property, direction] =>
    (Direction.ofWord? (String.ofList direction)).map fun d => ⟨String.ofList property, d⟩
  | _ => none

/-- The text of a criterion. -/
def chars (c : Criterion) : List Char := c.property.toList ++ ' ' :: c.direction.word.toList

/-- What a record has at the property, if that is a value. -/
def valueOf? (c : Criterion) (record : Json) : Option Value :=
  (record.resolve? c.property).bind Value.ofJson?

/-- The order of two records: one without a value comes before one with a value, and values that do
not compare are equal. -/
def compare (c : Criterion) (a b : Json) : Ordering :=
  let order := match c.valueOf? a, c.valueOf? b with
    | some x, some y => (x.compare? y).getD .eq
    | none, some _ => .lt
    | some _, none => .gt
    | none, none => .eq
  match c.direction with
  | .ascending => order
  | .descending => order.swap

end Criterion

end SortOrder

/-- The criteria by which records are arranged, the first one first. -/
structure SortOrder where
  criteria : List SortOrder.Criterion
deriving DecidableEq, Repr

namespace SortOrder

/-- The order of nothing. -/
def empty : SortOrder := ⟨[]⟩

/-- The order with one more criterion. -/
def andThen (o : SortOrder) (property : String) (direction : Direction) : SortOrder :=
  ⟨o.criteria ++ [⟨property, direction⟩]⟩

/-- The order of one criterion. -/
def single (property : String) (direction : Direction) : SortOrder := empty.andThen property direction

/-- The order that a text writes. Pieces between commas that are no criterion are left out. -/
def read (text : String) : SortOrder := ⟨(text.toList.splitOn ',').filterMap Criterion.read?⟩

/-- The text of an order. -/
def text (o : SortOrder) : String :=
  String.ofList (List.intercalate [','] (o.criteria.map Criterion.chars))

/-- The order of two records by the first of the criteria under which they differ. -/
def compareBy (a b : Json) : List Criterion → Ordering
  | [] => .eq
  | c :: rest => (c.compare a b).then (compareBy a b rest)

/-- The order of two records. -/
def compare (o : SortOrder) (a b : Json) : Ordering := compareBy a b o.criteria

end SortOrder

end RecordQuery
