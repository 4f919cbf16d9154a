import RecordQuery.Keyed
import RecordQuery.Number.Binary64

/-!
# JSON values

* `Json`: null, booleans, numbers, strings, arrays, and objects in the order of their keys.
* `Json.Number`: an integer from `-2^63` to below `2^64`, or a double precision number.
* `Json.field?`: the value of a key of an object.
-/

namespace RecordQuery

/-- A number in JSON: integers keep their exact value. -/
inductive Json.Number where
  | integer (n : Int)
  | float (x : Binary64)
deriving DecidableEq

/-- The double precision number nearest to a JSON number. -/
def Json.Number.toBinary64 : Json.Number → Binary64
  | .integer n => .ofInt n
  | .float x => x

/-- A JSON value. The keys of an object differ. -/
inductive Json where
  | null
  | bool (b : Bool)
  | number (n : Json.Number)
  | string (s : String)
  | array (items : List Json)
  | object (fields : List (String × Json))

instance : Inhabited Json := ⟨.null⟩

namespace Json

/-- A double precision number as JSON, which has none for infinities and what is not a number. -/
def ofBinary64 (x : Binary64) : Json := if x.isFinite then .number (.float x) else .null

/-- The object of keys and values that may repeat: a key keeps its first place and takes its last
value. -/
def ofFields (fields : List (String × Json)) : Json := .object (Keyed.putAll [] fields)

/-- The value of a key, if the value is an object that has it. -/
def field? (name : String) : Json → Option Json
  | .object fields => Keyed.get? name fields
  | _ => none

end Json

end RecordQuery
