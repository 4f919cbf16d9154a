import RecordQuery.Json.Token

/-!
# Reading JSON

The tokens are read one by one. `Json.Reader` holds the arrays and objects that are open and what
stands next; `Json.Reader.step?` reads a token.

* `Json.read?`: the value that a text writes, with arrays and objects nested at most to a limit. A
  key that repeats keeps its first place and takes its last value.
-/

namespace RecordQuery.Json

/-- An array or object that waits for a value inside it, what it holds given latest first. -/
inductive Frame where
  | array (items : List Json)
  | object (fields : List (String × Json)) (key : String)

/-- Where in the innermost array or object the reader stands. What it holds is given latest
first. -/
inductive Place where
  /-- a value follows -/
  | value
  /-- at the start of an array -/
  | firstItem
  /-- after an item of an array -/
  | afterItem (items : List Json)
  /-- at the start of an object -/
  | firstKey
  /-- after a comma in an object -/
  | nextKey (fields : List (String × Json))
  /-- after a key -/
  | afterKey (fields : List (String × Json)) (key : String)
  /-- after a field of an object -/
  | afterField (fields : List (String × Json))
  /-- after the whole value -/
  | finished (value : Json)

/-- What has been read of a value. -/
structure Reader where
  /-- the arrays and objects around the place, innermost first -/
  outer : List Frame
  place : Place

namespace Reader

/-- Goes on after a value. -/
def complete (value : Json) : List Frame → Reader
  | [] => ⟨[], .finished value⟩
  | .array items :: outer => ⟨outer, .afterItem (value :: items)⟩
  | .object fields key :: outer => ⟨outer, .afterField ((key, value) :: fields)⟩

/-- Reads the first token of a value. -/
def beginValue? (limit : Nat) (outer : List Frame) : Lexeme → Option Reader
  | .string s => some (complete (.string s) outer)
  | .scalar v => some (complete v outer)
  | .beginArray => if outer.length < limit then some ⟨outer, .firstItem⟩ else none
  | .beginObject => if outer.length < limit then some ⟨outer, .firstKey⟩ else none
  | _ => none

/-- Reads one token. -/
def step? (limit : Nat) (r : Reader) (l : Lexeme) : Option Reader :=
  match r.place, l with
  | .value, l => beginValue? limit r.outer l
  | .firstItem, .endArray => some (complete (.array []) r.outer)
  | .firstItem, l => beginValue? limit (.array [] :: r.outer) l
  | .afterItem items, .comma => some ⟨.array items :: r.outer, .value⟩
  | .afterItem items, .endArray => some (complete (.array items.reverse) r.outer)
  | .firstKey, .endObject => some (complete (.object []) r.outer)
  | .firstKey, .string key => some ⟨r.outer, .afterKey [] key⟩
  | .nextKey fields, .string key => some ⟨r.outer, .afterKey fields key⟩
  | .afterKey fields key, .colon => some ⟨.object fields key :: r.outer, .value⟩
  | .afterField fields, .comma => some ⟨r.outer, .nextKey fields⟩
  | .afterField fields, .endObject => some (complete (.ofFields fields.reverse) r.outer)
  | _, _ => none

/-- The value when the text ends. -/
def finish? (r : Reader) : Option Json :=
  match r.place with
  | .finished v => some v
  | _ => none

end Reader

/-- How deep arrays and objects nest if nothing else is said. -/
def defaultLimit : Nat := 127

/-- The value that a text writes. -/
def read? (text : List Char) (limit : Nat := defaultLimit) : Option Json := do
  (← (← tokenize? text).foldlM (Reader.step? limit) ⟨[], .value⟩).finish?

end RecordQuery.Json
