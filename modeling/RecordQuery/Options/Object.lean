import RecordQuery.Options.Basic

/-!
# Options as JSON objects

* `Options.toJson`: the object of all options under their names.
* `Options.trySetJson`: sets a directive to a JSON value; null takes it out.
* `Options.ofJson?`: the options of an object, or why a value in it is refused.
* `Options.ofJson`: the options of an object, refused values left out.

Objects set directives only; other keys are passed over.
-/

namespace RecordQuery.Options

-- Powers are those of core, whatever else is imported.
attribute [local instance (high)] instPowNat

/-- The object of all options under their names. -/
def toJson (o : Options) : Json := .ofFields (o.entries.map fun (k, s) => (k.name, s.toJson))

/-- The directive that a key of an object sets. Two of them have a second spelling. -/
def setterOf? (key : String) : Option Directive :=
  if key = "$orderBy" then some (.text .orderBy)
  else if key = "$inlineCount" then some .inlineCount
  else Directive.ofName? key

/-- The integer that a JSON number equals, if it lies from `-2^63` to below `2^63`. Of the numbers
that are not written as integers, `-2^63` counts as out of reach. -/
def integerOf? : Json → Option Int
  | .number (.integer n) => if n < 2 ^ (63 : Nat) then some n else none
  | .number (.float x) => x.toInt?.filter fun n => n.natAbs < 2 ^ (63 : Nat)
  | _ => none

/-- The string that a JSON value is. -/
def stringOf? : Json → Option String
  | .string s => some s
  | _ => none

/-- The text that a string is, or that strings are with commas between them. -/
def textOf? : Json → Option String
  | .string s => some s
  | .array items => (items.mapM stringOf?).map joinTexts
  | _ => none

/-- Null or false: the total count is not wanted. -/
def isUnwanted : Json → Bool
  | .null | .bool false => true
  | _ => false

/-- Sets a directive to a JSON value. Null takes it out. -/
def trySetJson (o : Options) (d : Directive) (v : Json) : Except Error Options :=
  match d, v with
  | .inlineCount, v => .ok (o.setInlineCount !isUnwanted v)
  | d, .null => .ok (o.clear d)
  | .count k, v =>
    match integerOf? v with
    | some n => o.trySetCount k n
    | none => .error (.wrongShape d.name .count)
  | .text k, v =>
    match textOf? v with
    | some s => .ok (o.setText k s)
    | none => .error (.wrongShape d.name .texts)
  | .filter, .string s => o.trySetFilterText s
  | .filter, _ => .error (.wrongShape d.name .filter)

/-- Sets what one field of an object sets. -/
def trySetField (o : Options) (field : String × Json) : Except Error Options :=
  match setterOf? field.1 with
  | some d => o.trySetJson d field.2
  | none => .ok o

/-- The options of an object, or why the first value that is refused is. -/
def ofJson? : Json → Except Error Options
  | .object fields => fields.foldlM trySetField empty
  | _ => .error (.wrongShape "options" .object)

/-- The options of an object, refused values left out. What is no object has no options. -/
def ofJson : Json → Options
  | .object fields => fields.foldl (fun o field => o.orUnchanged (o.trySetField field)) empty
  | _ => empty

end RecordQuery.Options
