import RecordQuery.Json.Basic
import RecordQuery.Number.Shortest
import RecordQuery.Text.Hexadecimal

/-!
# JSON text

Written without blanks. In strings the quote, the backslash and control characters are escaped and
all else stands for itself.

* `Json.stringText`, `Json.numberText`: the text of strings and numbers.
* `Json.text`: the text of a value.
-/

namespace RecordQuery.Json

open RecordQuery.Number (shortest)
open Text (hexDigit)

/-- A character within a string. -/
def escapeChar (c : Char) : List Char :=
  match c with
  | '"' => ['\\', '"']
  | '\\' => ['\\', '\\']
  | '\n' => ['\\', 'n']
  | '\r' => ['\\', 'r']
  | '\t' => ['\\', 't']
  | '\x08' => ['\\', 'b']
  | '\x0c' => ['\\', 'f']
  | _ =>
    if c.toNat < 32 then ['\\', 'u', '0', '0', hexDigit (c.toNat / 16), hexDigit (c.toNat % 16)]
    else [c]

/-- A string between double quotes. -/
def stringText (s : List Char) : List Char := '"' :: (s.flatMap escapeChar ++ ['"'])

/-- An integer in decimal digits. -/
def integerText (n : Int) : List Char :=
  (if n < 0 then ['-'] else []) ++ Nat.toDigits 10 n.natAbs

/-- The digits of a decimal with a point after the first, if there are more, and a power of ten
with its sign. -/
def scientificText (d : Number.Decimal) : List Char :=
  let digits := Nat.toDigits 10 d.digits
  let exponent : Int := d.exponent + (digits.length - 1 : Nat)
  digits.take 1 ++ (if digits.length = 1 then [] else '.' :: digits.drop 1) ++
    'e' :: (if exponent < 0 then '-' else '+') :: Nat.toDigits 10 exponent.natAbs

/-- A positive number in the fewest digits that read back. From `10^-5` to below `10^16` it stands
without exponent and with at least one digit after the point. -/
def magnitudeText (m : Nat) (e : Int) : List Char :=
  let d := shortest .even m e
  let leading : Int := d.exponent + ((Nat.toDigits 10 d.digits).length - 1 : Nat)
  if -5 ≤ leading ∧ leading < 16 then
    d.positional ++ (if 0 ≤ d.exponent then ['.', '0'] else [])
  else scientificText d

/-- A double precision number; what is not finite is null. -/
def floatText : Binary64 → List Char
  | .finite negative m e _ =>
    (if negative then ['-'] else []) ++ (if m = 0 then ['0', '.', '0'] else magnitudeText m e)
  | _ => ['n', 'u', 'l', 'l']

/-- A number. -/
def numberText : Json.Number → List Char
  | .integer n => integerText n
  | .float x => floatText x

mutual

/-- The text of a value. -/
def chars : Json → List Char
  | .null => ['n', 'u', 'l', 'l']
  | .bool true => ['t', 'r', 'u', 'e']
  | .bool false => ['f', 'a', 'l', 's', 'e']
  | .number n => numberText n
  | .string s => stringText s.toList
  | .array items => '[' :: (List.intercalate [','] (itemChars items) ++ [']'])
  | .object fields => '\x7b' :: (List.intercalate [','] (fieldChars fields) ++ ['\x7d'])

/-- The texts of the items of an array. -/
def itemChars : List Json → List (List Char)
  | [] => []
  | item :: items => chars item :: itemChars items

/-- The texts of the fields of an object: key, colon, value. -/
def fieldChars : List (String × Json) → List (List Char)
  | [] => []
  | (key, value) :: fields => (stringText key.toList ++ ':' :: chars value) :: fieldChars fields

end

/-- The text of a value. -/
def text (value : Json) : String := String.ofList value.chars

end RecordQuery.Json
