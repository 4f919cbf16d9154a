import RecordQuery.Date.Calendar

/-!
# Points in time

* `Date.Instant`: seconds since the start of 1970 in universal time, and nanoseconds. During a leap
  second the seconds stay at the fifty-ninth and the nanoseconds run on from a thousand million.
* `Date.Instant.ofParts?`: the instant of a day, a time of day and an offset.
* `Date.Instant.text`: `YYYY-MM-DDTHH:MM:SS.mmmZ`.
-/

namespace RecordQuery.Date

/-- A point in time. -/
structure Instant where
  /-- seconds since the start of 1970 -/
  seconds : Int
  /-- nanoseconds within the second, from a thousand million on within a leap second -/
  nanos : Nat
deriving DecidableEq, Repr

/-- Instants in order of time: by seconds, then by nanoseconds. -/
def Instant.compare (a b : Instant) : Ordering :=
  (Ord.compare a.seconds b.seconds).then (Ord.compare a.nanos b.nanos)

instance : Ord Instant := ⟨Instant.compare⟩

/-- The midnight with which a day begins. -/
def Day.midnight (d : Day) : Instant := ⟨d.number * 86400, 0⟩

/-- A time of day. The second 60 is a leap second. -/
structure Time where
  hour : Nat
  minute : Nat
  second : Nat
  nanos : Nat
deriving DecidableEq, Repr

/-- The time is one of a day, a leap second allowed after any minute. -/
def Time.IsValid (t : Time) : Prop := t.hour ≤ 23 ∧ t.minute ≤ 59 ∧ t.second ≤ 60

instance (t : Time) : Decidable t.IsValid := inferInstanceAs (Decidable (_ ∧ _ ∧ _))

/-- The instant of a day and a time that is `offset` minutes ahead of universal time, if there is
such a day and such a time. -/
def Instant.ofParts? (d : Day) (t : Time) (offset : Int) : Option Instant :=
  if d.IsValid ∧ t.IsValid then
    let leap := t.second = 60
    some {
      seconds := d.number * 86400 + (t.hour * 3600 + t.minute * 60 + (if leap then 59 else t.second))
        - offset * 60
      nanos := if leap then t.nanos + 1000000000 else t.nanos }
  else none

/-- The decimal digits of a number, filled up with zeros to `width`. -/
def padded (width n : Nat) : List Char :=
  let digits := Nat.toDigits 10 n
  List.replicate (width - digits.length) '0' ++ digits

/-- A year of four digits, or outside of them a sign and at least four digits. -/
def yearText (year : Int) : List Char :=
  if 0 ≤ year ∧ year ≤ 9999 then padded 4 year.toNat
  else (if year < 0 then '-' else '+') :: padded 4 year.natAbs

/-- The instant in universal time to the millisecond, the rest cut off. -/
def Instant.text (i : Instant) : List Char :=
  let d := Day.ofNumber (i.seconds / 86400)
  let ofDay := (i.seconds % 86400).toNat
  let leap := 1000000000 ≤ i.nanos
  let second := ofDay % 60 + (if leap then 1 else 0)
  let nanos := if leap then i.nanos - 1000000000 else i.nanos
  yearText d.year ++ '-' :: padded 2 d.month ++ '-' :: padded 2 d.day ++ 'T' :: padded 2 (ofDay / 3600)
    ++ ':' :: padded 2 (ofDay / 60 % 60) ++ ':' :: padded 2 second ++ '.' :: padded 3 (nanos / 1000000)
    ++ ['Z']

end RecordQuery.Date
