/-!
# Why a text is no filter

* `Filter.Error`: the causes, with the place in bytes of the token they concern.
* `Filter.Error.message`: their wording.
-/

namespace RecordQuery

/-- Why a text is no filter. A position counts the bytes of the text's UTF-8 form before the token
that the error concerns. -/
inductive Filter.Error where
  /-- there are no tokens -/
  | empty
  /-- a token stands where it cannot -/
  | unexpectedToken (position : Nat) (found : String)
  /-- the text ends where more has to follow -/
  | unexpectedEnd
  /-- a quoted text does not end -/
  | unterminatedString (position : Nat)
  /-- a word stands for a property and is no path -/
  | invalidProperty (position : Nat) (property : String)
  /-- a word stands for an operator and is none -/
  | unknownOperator (position : Nat) (operator : String)
  /-- `and` and `or` stand side by side without parentheses -/
  | mixedConnectives (position : Nat)
  /-- parentheses are nested deeper than the limit -/
  | tooDeep (limit : Nat)
deriving DecidableEq, Repr

/-- The wording of an error. -/
def Filter.Error.message : Filter.Error → String
  | .empty => "filter expression is empty"
  | .unexpectedToken position found => s!"unexpected token '{found}' at {position}"
  | .unexpectedEnd => "unexpected end of filter expression"
  | .unterminatedString position => s!"unterminated string literal starting at {position}"
  | .invalidProperty position property => s!"invalid property path '{property}' at {position}"
  | .unknownOperator position operator => s!"unknown operator '{operator}' at {position}"
  | .mixedConnectives position =>
    s!"'and' and 'or' mixed in one group at {position}; add parentheses"
  | .tooDeep limit => s!"filter nesting exceeds maximum depth of {limit}"

end RecordQuery
