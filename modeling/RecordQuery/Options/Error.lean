import RecordQuery.Filter.Error

/-!
# Why a value is no option

* `Options.Error`: the causes.
* `Options.Error.message`: their wording.
-/

namespace RecordQuery.Options

/-- What kind of JSON value an option wants. -/
inductive Shape where
  | count | texts | filter | object
deriving DecidableEq, Repr

/-- The wording of a shape. -/
def Shape.description : Shape → String
  | .count => "a non-negative integer"
  | .texts => "a string or a list of strings"
  | .filter => "filter text"
  | .object => "an object"

/-- Why a value is no option. -/
inductive Error where
  /-- a count is below zero -/
  | negativeCount (key : String) (value : Int)
  /-- the name of a custom option is empty or starts with a dollar sign -/
  | reservedName (name : String)
  /-- the text for a filter is none -/
  | invalidFilter (cause : Filter.Error)
  /-- the value has another shape than the option wants -/
  | wrongShape (key : String) (expected : Shape)
deriving DecidableEq, Repr

/-- The wording of an error. -/
def Error.message : Error → String
  | .negativeCount key value => s!"{key} must be a non-negative number, got {value}"
  | .reservedName name => s!"custom option name '{name}' must not start with '$'"
  | .invalidFilter cause => "invalid $filter: " ++ cause.message
  | .wrongShape key expected => key ++ " expects " ++ expected.description

end RecordQuery.Options
