import RecordQuery.Date.Instant
import RecordQuery.Text.Blank

/-!
# Dates in text

Three forms are dates, tried in this order, blanks around them left out of account.

* `Date.readOffset?`: day, time and offset from universal time, every part with its full number of
  digits: `2020-06-01T12:00:00.5+02:00`.
* `Date.readPlain?`: day and time in universal time, with `T` between them, or with blanks or nothing
  between them and no fraction; parts may be shorter and the year longer if it has a sign.
* `Date.readDay?`: a day alone, which stands for its first moment.

`Date.read?` is the instant that a text denotes.
-/

namespace RecordQuery.Date

open Text (isBlank trim trimStart)

-- Powers are those of core, whatever else is imported.
attribute [local instance (high)] instPowNat

/-- At least `least` and at most `most` decimal digits: their value and the text after them. -/
def readDigits? (least most : Nat) (text : List Char) : Option (Nat × List Char) :=
  let digits := (text.takeWhile Char.isDigit).take most
  if least ≤ digits.length then
    some (Nat.ofDigitChars 10 digits 0, text.drop digits.length)
  else none

/-- The text after the mark that it has to begin with. -/
def expect? (mark : Char) : List Char → Option (List Char)
  | c :: rest => if c = mark then some rest else none
  | [] => none

/-- The nanoseconds of a fraction, if a point stands here, and the text after it. The digits past
the ninth do not count. -/
def readFraction? : List Char → Option (Nat × List Char)
  | '.' :: rest =>
    let digits := rest.takeWhile Char.isDigit
    if digits = [] then none
    else
      let kept := digits.take 9
      some (Nat.ofDigitChars 10 kept 0 * 10 ^ (9 - kept.length), rest.dropWhile Char.isDigit)
  | text => some (0, text)

/-! ## The full form -/

/-- An offset at the end of a text in minutes: `Z`, or a sign, hours and minutes of two digits
each. It is less than a day. -/
def readZone? : List Char → Option Int
  | ['Z'] | ['z'] => some 0
  | sign :: rest =>
    if sign = '+' ∨ sign = '-' ∨ sign = '−' then do
      let (hours, rest) ← readDigits? 2 2 rest
      let rest ← expect? ':' rest
      let (minutes, rest) ← readDigits? 2 2 rest
      if rest = [] ∧ hours ≤ 23 ∧ minutes ≤ 59 then
        let offset : Int := hours * 60 + minutes
        some (if sign = '+' then offset else -offset)
      else none
    else none
  | [] => none

/-- Day, time and offset, every part with its full number of digits. -/
def readOffset? (text : List Char) : Option Instant := do
  let (year, text) ← readDigits? 4 4 text
  let text ← expect? '-' text
  let (month, text) ← readDigits? 2 2 text
  let text ← expect? '-' text
  let (day, text) ← readDigits? 2 2 text
  let text ← expect? 'T' text <|> expect? 't' text <|> expect? ' ' text
  let (hour, text) ← readDigits? 2 2 text
  let text ← expect? ':' text
  let (minute, text) ← readDigits? 2 2 text
  let text ← expect? ':' text
  let (second, text) ← readDigits? 2 2 text
  let (nanos, text) ← readFraction? text
  let offset ← readZone? text
  Instant.ofParts? ⟨year, month, day⟩ ⟨hour, minute, second, nanos⟩ offset

/-! ## The forms without offset -/

/-- A year after blanks: one to four digits, or a sign and any number of digits. -/
def readYear? (text : List Char) : Option (Int × List Char) :=
  match trimStart text with
  | '-' :: rest => (readDigits? 1 rest.length rest).map fun (n, rest) => (-(n : Int), rest)
  | '+' :: rest => (readDigits? 1 rest.length rest).map fun (n, rest) => ((n : Int), rest)
  | rest => (readDigits? 1 4 rest).map fun (n, rest) => ((n : Int), rest)

/-- One or two digits after blanks. -/
def readPart? (text : List Char) : Option (Nat × List Char) := readDigits? 1 2 (trimStart text)

/-- The years that have dates. -/
def InRange (year : Int) : Prop := -262143 ≤ year ∧ year ≤ 262142

instance (year : Int) : Decidable (InRange year) := inferInstanceAs (Decidable (_ ∧ _))

/-- Year, month and day with hyphens between them. -/
def readDate? (text : List Char) : Option (Day × List Char) := do
  let (year, text) ← readYear? text
  let text ← expect? '-' text
  let (month, text) ← readPart? text
  let text ← expect? '-' text
  let (day, text) ← readPart? text
  if InRange year then some (⟨year, month, day⟩, text) else none

/-- Hour, minute and second with colons between them. -/
def readTime? (text : List Char) : Option (Time × List Char) := do
  let (hour, text) ← readPart? text
  let text ← expect? ':' text
  let (minute, text) ← readPart? text
  let text ← expect? ':' text
  let (second, text) ← readPart? text
  some (⟨hour, minute, second, 0⟩, text)

/-- Day and time in universal time, with `T` and perhaps a fraction. -/
def readMarked? (text : List Char) : Option Instant := do
  let (day, text) ← readDate? text
  let text ← expect? 'T' text
  let (time, text) ← readTime? text
  let (nanos, text) ← readFraction? text
  if text = [] then Instant.ofParts? day { time with nanos } 0 else none

/-- Day and time in universal time, with any number of blanks between them. -/
def readSpaced? (text : List Char) : Option Instant := do
  let (day, text) ← readDate? text
  let (time, text) ← readTime? (trimStart text)
  if text = [] then Instant.ofParts? day time 0 else none

/-- Day and time in universal time. -/
def readPlain? (text : List Char) : Option Instant := readMarked? text <|> readSpaced? text

/-- A day alone, which stands for its first moment. -/
def readDay? (text : List Char) : Option Instant := do
  let (day, text) ← readDate? text
  if text = [] ∧ day.IsValid then some day.midnight else none

/-- The instant that a text denotes. -/
def read? (text : List Char) : Option Instant :=
  let text := trim text
  readOffset? text <|> readPlain? text <|> readDay? text

end RecordQuery.Date
