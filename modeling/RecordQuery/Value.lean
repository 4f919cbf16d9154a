import RecordQuery.Date.Reader
import RecordQuery.Json.Basic
import RecordQuery.Number.Literal
import RecordQuery.Number.Shortest
import RecordQuery.Text.Blank
import RecordQuery.Text.Quoted

/-!
# Values

What a condition compares with, and what a record has at the end of a path.

* `Value`: text, number, truth value or point in time.
* `Value.literal`: the value as it stands in a filter; `Value.plain`: the same without quotes.
* `Value.ofWord`: the value that a word without quotes stands for in a filter.
* `Value.compare?`: the order of values of one kind, and of text against the other kinds where it
  can be read as a value of that kind.
-/

namespace RecordQuery

open Date (Instant)

/-- A text, a number, a truth value or a point in time. -/
inductive Value where
  | text (s : String)
  | number (x : Binary64)
  | bool (b : Bool)
  | date (i : Instant)

namespace Value

/-- Equality of values of one kind. Numbers are compared as numbers. -/
instance : BEq Value where
  beq
    | .text s, .text t => s == t
    | .number x, .number y => x == y
    | .bool a, .bool b => a == b
    | .date i, .date j => i == j
    | _, _ => false

/-- A truth value in text. -/
def boolText (b : Bool) : List Char :=
  if b then ['t', 'r', 'u', 'e'] else ['f', 'a', 'l', 's', 'e']

/-- The value as text without quotes. -/
def plain : Value → List Char
  | .text s => s.toList
  | .number x => x.text
  | .bool b => boolText b
  | .date i => i.text

/-- The value as it stands in a filter: texts and dates in quotes. -/
def literal : Value → List Char
  | .text s => Text.quoted s.toList
  | .number x => x.text
  | .bool b => boolText b
  | .date i => Text.quoted i.text

/-- The finite number that a text writes, blanks around it left out of account. -/
def readNumber? (text : List Char) : Option Binary64 := Binary64.readFinite? (Text.trim text)

/-- The truth value that a text writes, blanks around it left out of account. -/
def readBool? (text : List Char) : Option Bool :=
  if Text.trim text = boolText true then some true
  else if Text.trim text = boolText false then some false
  else none

/-- The value that a word without quotes stands for: a truth value, a finite number, or else the
word as text. -/
def ofWord (word : String) : Value :=
  if word = "true" then .bool true
  else if word = "false" then .bool false
  else match readNumber? word.toList with
    | some x => .number x
    | none => .text word

/-- The value of a JSON string, number or truth value. -/
def ofJson? : Json → Option Value
  | .string s => some (.text s)
  | .number n => some (.number n.toBinary64)
  | .bool b => some (.bool b)
  | _ => none

/-- The value in JSON: dates as text, and numbers that JSON lacks as null. -/
def toJson : Value → Json
  | .text s => .string s
  | .number x => .ofBinary64 x
  | .bool b => .bool b
  | .date i => .string (String.ofList i.text)

/-! ## Comparison -/

/-- Texts that are dates are compared as points in time and other texts character by character; a
date does not compare with a text that is none. -/
def compareTexts? (s t : String) : Option Ordering :=
  match Date.read? s.toList, Date.read? t.toList with
  | some i, some j => some (compare i j)
  | none, none => some (compare s t)
  | _, _ => none

/-- The order of two values. Text is read as a number, a truth value or a date when it is compared
with one; values that still differ in kind do not compare. -/
def compare? : Value → Value → Option Ordering
  | .number x, .number y => x.compare? y
  | .bool a, .bool b => some (compare a b)
  | .date i, .date j => some (compare i j)
  | .text s, .text t => compareTexts? s t
  | .date i, .text t => (Date.read? t.toList).map (compare i ·)
  | .text s, .date j => (Date.read? s.toList).map (compare · j)
  | .number x, .text t => (readNumber? t.toList).bind (x.compare? ·)
  | .text s, .number y => (readNumber? s.toList).bind (·.compare? y)
  | .bool a, .text t => (readBool? t.toList).map (compare a ·)
  | .text s, .bool b => (readBool? s.toList).map (compare · b)
  | _, _ => none

end Value

end RecordQuery
