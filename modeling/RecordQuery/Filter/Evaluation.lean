import RecordQuery.Filter.Basic
import RecordQuery.Path
import RecordQuery.Text.Case

/-!
# Which records a filter accepts

* `Comparison.accepts`, `TextFunction.accepts`: when an operator holds of two values.
* `Condition.test`, `Filter.test`: when a condition or a filter accepts a record.
* `Filter.keep`: the records that a filter accepts.

A condition on a path that the record lacks does not hold if evaluation is `strict`, and holds
otherwise.
-/

namespace RecordQuery

/-- The comparison holds of two values in this order, `none` for values that do not compare. -/
def Comparison.accepts (c : Comparison) (order : Option Ordering) : Bool :=
  match c with
  | .eq => order = some .eq
  | .ne => order ≠ some .eq
  | .gt => order = some .gt
  | .ge => order = some .gt || order = some .eq
  | .lt => order = some .lt
  | .le => order = some .lt || order = some .eq

/-- The part stands somewhere in the text. -/
def Text.hasPart (part : List Char) : List Char → Bool
  | [] => part.isEmpty
  | c :: rest => part.isPrefixOf (c :: rest) || hasPart part rest

/-- The text function finds the part in the text. -/
def TextFunction.finds (f : TextFunction) (text part : List Char) : Bool :=
  match f with
  | .contains => Text.hasPart part text
  | .startsWith => part.isPrefixOf text
  | .endsWith => part.isSuffixOf text

/-- The operator holds of what the record has, `none` if that is no value, and the value of the
condition. Text functions read both as text in lower case. -/
def Operator.accepts (o : Operator) (actual : Option Value) (expected : Value) : Bool :=
  match o, actual with
  | .comparison c, _ => c.accepts (actual.bind (·.compare? expected))
  | .function f, some v => f.finds (Text.lower v.plain) (Text.lower expected.plain)
  | .function _, none => false

/-- The condition accepts the record. -/
def Condition.test (c : Condition) (record : Json) (strict : Bool := true) : Bool :=
  match record.resolve? c.property with
  | none => !strict
  | some node => c.operator.accepts (Value.ofJson? node) c.value

namespace Filter

mutual

/-- The filter accepts the record: all filters of a group under `and`, or one of them under `or`. -/
def accepts (strict : Bool) (record : Json) : Filter → Bool
  | .leaf c => c.test record strict
  | .group connective fs =>
    match connective.getD .and with
    | .and => acceptsAll strict record fs
    | .or => acceptsAny strict record fs

/-- All of the filters accept the record. -/
def acceptsAll (strict : Bool) (record : Json) : List Filter → Bool
  | [] => true
  | f :: fs => accepts strict record f && acceptsAll strict record fs

/-- One of the filters accepts the record. -/
def acceptsAny (strict : Bool) (record : Json) : List Filter → Bool
  | [] => false
  | f :: fs => accepts strict record f || acceptsAny strict record fs

end

/-- The filter accepts the record. -/
def test (f : Filter) (record : Json) (strict : Bool := true) : Bool := f.accepts strict record

/-- The records that the filter accepts, in their order. -/
def keep (f : Filter) (records : List Json) : List Json := records.filter fun r => f.test r

theorem acceptsAll_eq_all (strict : Bool) (record : Json) (fs : List Filter) :
    acceptsAll strict record fs = fs.all (accepts strict record) := by
  induction fs with
  | nil => simp [acceptsAll]
  | cons f fs ih => simp [acceptsAll, ih]

theorem acceptsAny_eq_any (strict : Bool) (record : Json) (fs : List Filter) :
    acceptsAny strict record fs = fs.any (accepts strict record) := by
  induction fs with
  | nil => simp [acceptsAny]
  | cons f fs ih => simp [acceptsAny, ih]

@[simp] theorem test_leaf (c : Condition) (record : Json) (strict : Bool) :
    (Filter.leaf c).test record strict = c.test record strict := by
  rw [test, accepts]

theorem test_group (connective : Option Connective) (fs : List Filter) (record : Json)
    (strict : Bool) :
    (Filter.group connective fs).test record strict =
      match connective.getD .and with
      | .and => fs.all (·.test record strict)
      | .or => fs.any (·.test record strict) := by
  cases h : connective.getD .and <;> simp [test, accepts, h, acceptsAll_eq_all, acceptsAny_eq_any]

end Filter

end RecordQuery
