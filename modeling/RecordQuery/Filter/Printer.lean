import RecordQuery.Filter.Basic

/-!
# The text of a filter

* `Condition.chars`: `property operator value`, or a call for text functions.
* `Filter.chars`: a group is its children with the connective between them, in parentheses if it
  stands inside another group; an empty group is nothing at all.
* `Filter.text`: the text of a filter that stands alone.
-/

namespace RecordQuery

/-- The text of a condition. The part searched for stands first in a containment, and the property
first in the other functions. -/
def Condition.chars (c : Condition) : List Char :=
  let property := c.property.toList
  let value := c.value.literal
  match c.operator with
  | .function .contains =>
    TextFunction.contains.word.toList ++ '(' :: value ++ ',' :: ' ' :: property ++ [')']
  | .function f => f.word.toList ++ '(' :: property ++ ',' :: ' ' :: value ++ [')']
  | .comparison o => property ++ ' ' :: o.word.toList ++ ' ' :: value

namespace Filter

/-- A connective with a blank on both sides. -/
def separator (c : Connective) : List Char := ' ' :: c.word.toList ++ [' ']

mutual

/-- The text of a filter; `nested` tells whether it stands inside a group. -/
def chars (nested : Bool) : Filter → List Char
  | .leaf c => c.chars
  | .group connective fs =>
    if fs.isEmpty then []
    else
      let body := List.intercalate (separator (connective.getD .and)) (childChars fs)
      if nested then '(' :: (body ++ [')']) else body

/-- The texts of the filters of a group. -/
def childChars : List Filter → List (List Char)
  | [] => []
  | f :: fs => chars true f :: childChars fs

end

/-- The text of a filter that stands alone. -/
def text (f : Filter) : String := String.ofList (f.chars false)

/-- The text of a filter that stands inside a group. -/
def nestedText (f : Filter) : String := String.ofList (f.chars true)

end Filter

end RecordQuery
