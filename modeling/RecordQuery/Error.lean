import RecordQuery.Filter.Error
import RecordQuery.Options.Error
import RecordQuery.Settings

/-!
# Errors of all kinds

* `Error`: why a filter, an option or a setting is refused.
* `Error.code`, `Error.message`: the kind of error in one word, and its wording.
-/

namespace RecordQuery

/-- Why a filter, an option or a setting is refused. -/
inductive Error where
  | filter (cause : Filter.Error)
  | option (cause : Options.Error)
  | setting (cause : Settings.Error)
deriving DecidableEq, Repr

namespace Error

/-- The kind of an error in one word. -/
def code : Error → String
  | .filter _ => "invalid_filter"
  | .option _ => "invalid_option"
  | .setting _ => "configuration_error"

/-- The wording of the cause alone. -/
def cause : Error → String
  | .filter e => e.message
  | .option e => e.message
  | .setting e => e.message

/-- The wording of an error: its kind and its cause. -/
def message (e : Error) : String :=
  match e with
  | .filter _ => "Parse error: " ++ e.cause
  | .option _ => "Option error: " ++ e.cause
  | .setting _ => "Configuration error: " ++ e.cause

end Error

end RecordQuery
