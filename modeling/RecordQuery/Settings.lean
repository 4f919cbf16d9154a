import RecordQuery.Filter.Reader
import RecordQuery.Json.Basic
import RecordQuery.Text.Blank
import RecordQuery.Text.Case

/-!
# Settings

How filters are read and evaluated, taken from variables.

* `Settings`: whether a path that a record lacks fails a condition, and how deep parentheses nest.
* `Settings.load`: the settings that variables make, or why a variable is refused.
-/

namespace RecordQuery

/-- How filters are read and evaluated. -/
structure Settings where
  /-- a condition on a path that the record lacks does not hold -/
  strict : Bool := true
  /-- how deep parentheses nest at most -/
  maxDepth : Nat := Filter.defaultLimit
deriving DecidableEq, Repr

namespace Settings

-- Powers are those of core, whatever else is imported.
attribute [local instance (high)] instPowNat

/-- Why a variable is refused. -/
inductive Problem where
  | notBoolean (found : String)
  | notPositive (found : String)
  | zero
deriving DecidableEq, Repr

/-- The wording of a problem. -/
def Problem.message : Problem → String
  | .notBoolean found => s!"expected a boolean, got '{found}'"
  | .notPositive found => s!"expected a positive integer, got '{found}'"
  | .zero => "must be at least 1"

/-- The variable that is refused, and why. -/
structure Error where
  name : String
  problem : Problem
deriving DecidableEq, Repr

/-- The wording of an error. -/
def Error.message (e : Error) : String :=
  "Invalid value for " ++ e.name ++ ": " ++ e.problem.message

/-- The variable that says whether a missing path fails a condition. -/
def strictVariable : String := "SIFT_FAIL_ON_MISSING_ASSOCIATION"

/-- The variable that says how deep parentheses nest. -/
def depthVariable : String := "SIFT_MAX_FILTER_DEPTH"

/-- A truth value as a word or a digit, in any mix of cases and with blanks around it. -/
def readFlag (text : String) : Except Problem Bool :=
  let word := String.ofList (Text.lower (Text.trim text.toList))
  if word = "true" ∨ word = "1" ∨ word = "yes" then .ok true
  else if word = "false" ∨ word = "0" ∨ word = "no" then .ok false
  else .error (.notBoolean word)

/-- The number below `2^64` that digits write, perhaps after a plus sign. -/
def readWord? (text : List Char) : Option Nat :=
  let digits := match text with
    | '+' :: rest => rest
    | _ => text
  if digits ≠ [] ∧ digits.all Char.isDigit ∧ Nat.ofDigitChars 10 digits 0 < 2 ^ (64 : Nat) then
    some (Nat.ofDigitChars 10 digits 0)
  else none

/-- A depth of at least 1, with blanks around it. -/
def readDepth (text : String) : Except Problem Nat :=
  match readWord? (Text.trim text.toList) with
  | some 0 => .error .zero
  | some n => .ok n
  | none => .error (.notPositive text)

/-- Reads a variable, if it is set. -/
def readVariable {α : Type} (lookup : String → Option String) (name : String)
    (read : String → Except Problem α) (default : α) : Except Error α :=
  match lookup name with
  | none => .ok default
  | some text => (read text).mapError fun problem => ⟨name, problem⟩

/-- The settings that variables make. -/
def load (lookup : String → Option String) : Except Error Settings := do
  let default : Settings := {}
  let strict ← readVariable lookup strictVariable readFlag default.strict
  let maxDepth ← readVariable lookup depthVariable readDepth default.maxDepth
  return { strict, maxDepth }

/-- The settings in JSON. -/
def toJson (s : Settings) : Json :=
  .object [
    ("evaluation", .object [("fail_on_missing_association", .bool s.strict)]),
    ("parser", .object [("max_depth", .number (.integer s.maxDepth))])]

end Settings

end RecordQuery
