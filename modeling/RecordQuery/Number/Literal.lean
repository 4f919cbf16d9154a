import RecordQuery.Number.Binary64

/-!
# Number literals

An optional sign and either decimal digits with an optional point among or beside them and an
optional exponent, or `inf`, `infinity` or `nan` in any mix of cases.

* `Number.Literal`: what a literal says, exactly.
* `Number.Literal.read?`: the literal that a text is.
* `Number.Literal.toBinary64`: the double precision number nearest to it.
* `Binary64.read?`: both steps.
-/

namespace RecordQuery.Number

-- Powers are those of core, whatever else is imported.
attribute [local instance (high)] instPowNat

/-- What a literal says. -/
inductive Literal where
  /-- the number `± digits * 10^exponent` -/
  | decimal (negative : Bool) (digits : Nat) (exponent : Int)
  /-- an infinity -/
  | infinity (negative : Bool)
  /-- not a number -/
  | nan
deriving DecidableEq

/-- A minus sign is `true`, a plus sign or none is `false`; then the text after the sign. -/
def readSign : List Char → Bool × List Char
  | '-' :: rest => (true, rest)
  | '+' :: rest => (false, rest)
  | text => (false, text)

/-- The digits of an exponent, which no longer counts once it has passed 65535. -/
def exponentValue (digits : List Char) : Nat :=
  digits.foldl (fun n c => if n < 65536 then 10 * n + (c.toNat - '0'.toNat) else n) 0

/-- The exponent that ends a literal: nothing at all, or `e`, an optional sign and digits, which
`value` reads. -/
def readExponent? (value : List Char → Nat) : List Char → Option Int
  | [] => some 0
  | c :: rest =>
    let (negative, digits) := readSign rest
    if (c = 'e' ∨ c = 'E') ∧ digits ≠ [] ∧ digits.all Char.isDigit then
      let n : Int := value digits
      some (if negative then -n else n)
    else none

/-- Decimal digits, an optional point among or beside them, and an optional exponent. -/
def readDecimal? (negative : Bool) (text : List Char) : Option Literal :=
  let whole := text.takeWhile Char.isDigit
  let rest := text.dropWhile Char.isDigit
  let (fraction, tail) : List Char × List Char := match rest with
    | '.' :: more => (more.takeWhile Char.isDigit, more.dropWhile Char.isDigit)
    | _ => ([], rest)
  if whole = [] ∧ fraction = [] then none
  else (readExponent? exponentValue tail).map fun exponent =>
    .decimal negative (Nat.ofDigitChars 10 (whole ++ fraction) 0) (exponent - fraction.length)

/-- The literal that a text is. -/
def Literal.read? (text : List Char) : Option Literal :=
  let (negative, rest) := readSign text
  let lowered := rest.map Char.toLower
  if lowered = ['i', 'n', 'f'] ∨ lowered = ['i', 'n', 'f', 'i', 'n', 'i', 't', 'y'] then
    some (.infinity negative)
  else if lowered = ['n', 'a', 'n'] then some .nan
  else readDecimal? negative rest

/-- The number `± digits * 10^exponent` under a rounding of quotients. Exponents are cut where the
result is an infinity or a zero whatever the digits are. -/
def roundDecimal (ofRatio : Bool → Nat → Nat → Binary64) (negative : Bool) (digits : Nat)
    (exponent : Int) : Binary64 :=
  if digits = 0 ∨ exponent + digits.log2 < -400 then .zero negative
  else if exponent > 400 then .infinite negative
  else ofRatio negative (digits * 10 ^ exponent.toNat) (10 ^ (-exponent).toNat)

/-- The number that a literal says, under a rounding of quotients. -/
def Literal.round (ofRatio : Bool → Nat → Nat → Binary64) : Literal → Binary64
  | .decimal negative digits exponent => roundDecimal ofRatio negative digits exponent
  | .infinity negative => .infinite negative
  | .nan => .nan

/-- The double precision number nearest to what a literal says. -/
def Literal.toBinary64 (l : Literal) : Binary64 := l.round Binary64.ofRatio

/-- The single precision number nearest to what a literal says. -/
def Literal.toSingle (l : Literal) : Binary64 := l.round Binary64.ofRatioSingle

end RecordQuery.Number

namespace RecordQuery

/-- The number that a text writes as a literal. -/
def Binary64.read? (text : List Char) : Option Binary64 :=
  (Number.Literal.read? text).map Number.Literal.toBinary64

/-- The finite number that a text writes as a literal. -/
def Binary64.readFinite? (text : List Char) : Option Binary64 :=
  (Binary64.read? text).filter Binary64.isFinite

end RecordQuery
