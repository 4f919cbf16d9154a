import RecordQuery.Json.Basic

/-!
# Property paths

Names with points between them, which lead from a record to a value inside it.

* `isPropertyPath`: the texts that a filter may use as a path.
* `Json.resolve?`: what a record has at the end of a path. Every text is followed, also one that
  no filter may use.
-/

namespace RecordQuery

/-- A letter from A to Z in either case, an underscore or a dollar sign. -/
def isNameStart (c : Char) : Bool := c.isAlpha || c == '_' || c == '$'

/-- A character that can start a name, or a decimal digit. -/
def isNamePart (c : Char) : Bool := isNameStart c || c.isDigit

/-- Reads names with single points between them. At the start of a name, one has to begin; within
a name it goes on, or a point ends it. -/
def isPathFrom (atStart : Bool) : List Char → Bool
  | [] => !atStart
  | c :: rest =>
    if atStart then isNameStart c && isPathFrom false rest
    else if c = '.' then isPathFrom true rest
    else isNamePart c && isPathFrom false rest

/-- Names with single points between them, none of them empty. -/
def isPropertyPath (path : String) : Bool := isPathFrom true path.toList

/-- What a record has at the end of a path: each piece between points is the key of a field. An
empty path leads nowhere, and so does a step from what is no object. -/
def Json.resolve? (path : String) (record : Json) : Option Json :=
  if path = "" then none
  else (path.toList.splitOn '.').foldlM (fun node name => node.field? (String.ofList name)) record

end RecordQuery
