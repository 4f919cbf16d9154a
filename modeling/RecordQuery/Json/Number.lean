import RecordQuery.Json.Basic
import RecordQuery.Number.Arithmetic
import RecordQuery.Number.Literal

/-!
# Numbers in JSON text

* `Json.Number.read?`: the number that a text writes, if it follows the rules of JSON.
* `Json.Number.takeDigits`: the digits of which a number is made, as many as fit into 64 bits.
* `Json.Number.scaled`: an integer times a power of ten, rounded at each step.

A number without point and exponent is an integer if it lies from `-2^63` to below `2^64`. Every
other one is made of its digits as an integer, which is rounded to double precision and then
multiplied with a power of ten or divided by one. Since each step rounds, the result may be a
neighbour of the double precision number nearest to what the text says.
-/

namespace RecordQuery.Json.Number

open RecordQuery.Number (readExponent?)

-- Powers are those of core, whatever else is imported.
attribute [local instance (high)] instPowNat

/-- The integer `± n`, if it lies from `-2^63` to below `2^64`. A zero with a sign is none. -/
def integerOf? (negative : Bool) (n : Nat) : Option Json.Number :=
  if negative then (if 0 < n ∧ n ≤ 2 ^ (63 : Nat) then some (.integer (-n)) else none)
  else if n < 2 ^ (64 : Nat) then some (.integer n) else none

/-- Takes decimal digits on to a number while it stays below `2^64`: the number, and the digits that
are left. -/
def takeDigits (n : Nat) : List Char → Nat × List Char
  | [] => (n, [])
  | c :: rest =>
    let next := 10 * n + (c.toNat - '0'.toNat)
    if next < 2 ^ (64 : Nat) then takeDigits next rest else (n, c :: rest)

/-- A power of ten, rounded. -/
def powerOfTen (n : Nat) : Binary64 := .ofInt (10 ^ n)

/-- The number `± n * 10^exponent` for `n` below `2^64`: `n` is rounded, and then multiplied with a
power of ten or divided by one or two of them, rounded each time. No power past `10^308` is a number,
and below `10^-616` nothing is left of `n`. -/
def scaled (negative : Bool) (n : Nat) (exponent : Int) : Binary64 :=
  let x := Binary64.ofRatio negative n 1
  if n = 0 ∨ exponent < -616 then .zero negative
  else if 308 < exponent then .infinite negative
  else if 0 ≤ exponent then x * powerOfTen exponent.toNat
  else if -308 ≤ exponent then x / powerOfTen (-exponent).toNat
  else x / powerOfTen 308 / powerOfTen (-exponent - 308).toNat

/-- The double precision number of these digits before and after the point and this exponent, unless
it is an infinity. Digits before the point that do not fit count as powers of ten, and digits after it
that do not fit count as nothing. -/
def floatOf? (negative : Bool) (whole fraction : List Char) (exponent : Int) : Option Json.Number :=
  let (n, wholeLeft) := takeDigits 0 whole
  let (n, fractionLeft) := takeDigits n fraction
  let places : Int := fraction.length - fractionLeft.length
  let x := scaled negative n (exponent + wholeLeft.length - places)
  if x.isFinite then some (.float x) else none

/-- The digits after a point, if one stands here, and the text after them. A point without digits is
none. -/
def readFraction? : List Char → Option (List Char × List Char)
  | '.' :: rest =>
    let digits := rest.takeWhile Char.isDigit
    if digits = [] then none else some (digits, rest.dropWhile Char.isDigit)
  | text => some ([], text)

/-- The number that a text writes: perhaps a minus sign, digits without needless zeros in front,
perhaps a point and digits, perhaps an exponent. Without the last two it is an integer if it is
not too great for one. -/
def read? (text : List Char) : Option Json.Number :=
  let negative := text.head? = some '-'
  let body := if negative then text.drop 1 else text
  let whole := body.takeWhile Char.isDigit
  let rest := body.dropWhile Char.isDigit
  if whole = [] ∨ (whole.head? = some '0' ∧ whole ≠ ['0']) then none
  else if rest = [] then
    integerOf? negative (Nat.ofDigitChars 10 whole 0) <|> floatOf? negative whole [] 0
  else do
    let (fraction, tail) ← readFraction? rest
    floatOf? negative whole fraction (← readExponent? (Nat.ofDigitChars 10 · 0) tail)

end RecordQuery.Json.Number
