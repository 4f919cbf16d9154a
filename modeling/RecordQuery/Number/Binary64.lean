import RecordQuery.Number.Rounding

/-!
# Double precision numbers

* `Binary64`: not a number, an infinity, or a finite number `± m * 2^e`, with one form for each
  number and with a signed zero.
* `Binary64.compare?`: the numeric order, under which both zeros are equal and nothing compares
  with what is not a number. `==` is equality in this order; `=` tells the zeros apart.
* `Binary64.ofRatio`, `Binary64.ofInt`: the nearest number, ties to even.
* `Binary64.toInt?`: the integer that a number equals.
-/

namespace RecordQuery

open Number (Format)

-- Powers are those of core, whatever else is imported.
attribute [local instance (high)] instPowNat

/-- A double precision number. -/
inductive Binary64 where
  /-- not a number -/
  | nan
  /-- greater, or with a minus sign less, than every finite number -/
  | infinite (negative : Bool)
  /-- the number `± significand * 2^exponent` -/
  | finite (negative : Bool) (significand : Nat) (exponent : Int)
      (canonical : Format.double.IsCanonical significand exponent)
deriving DecidableEq

namespace Binary64

/-- Zero with the given sign. -/
def zero (negative : Bool) : Binary64 := .finite negative 0 (-1074) (by decide)

/-- The number `± m * 2^e` if it belongs to the format, and an infinity if not. -/
def ofParts (negative : Bool) (m : Nat) (e : Int) : Binary64 :=
  if h : Format.double.IsCanonical m e then .finite negative m e h else .infinite negative

/-- The number nearest to `± num / den`; what would need too great an exponent is infinite. -/
def ofRatio (negative : Bool) (num den : Nat) : Binary64 :=
  let (m, e) := Format.double.round num den
  ofParts negative m e

/-- The number of single precision nearest to `± num / den`, which is a number of double precision
too. -/
def ofRatioSingle (negative : Bool) (num den : Nat) : Binary64 :=
  let (m, e) := Format.single.round num den
  if e ≤ Format.single.greatestExponent then
    ofRatio negative (m * 2 ^ e.toNat) (2 ^ (-e).toNat)
  else .infinite negative

/-- The number nearest to an integer. -/
def ofInt (n : Int) : Binary64 := ofRatio (n < 0) n.natAbs 1

/-- Neither an infinity nor what is not a number. -/
def isFinite : Binary64 → Bool
  | .finite .. => true
  | _ => false

/-- The number `± m * 2^e` in units of `2^-1074`, the least distance between two numbers. -/
def scaled (negative : Bool) (m : Nat) (e : Int) : Int :=
  let magnitude : Int := m * 2 ^ (e + 1074).toNat
  if negative then -magnitude else magnitude

/-- The numeric order. -/
def compare? : Binary64 → Binary64 → Option Ordering
  | .nan, _ => none
  | _, .nan => none
  | .infinite a, .infinite b => some (compare b a)
  | .infinite a, .finite .. => some (if a then .lt else .gt)
  | .finite .., .infinite b => some (if b then .gt else .lt)
  | .finite a m e _, .finite b n k _ => some (compare (scaled a m e) (scaled b n k))

/-- Equality of numbers: both zeros are equal, and what is not a number equals nothing. -/
instance : BEq Binary64 := ⟨fun x y => x.compare? y == some .eq⟩

/-- The integer that the number equals. -/
def toInt? : Binary64 → Option Int
  | .finite negative m e _ =>
    let n := scaled negative m e
    if n % 2 ^ (1074 : Nat) = 0 then some (n / 2 ^ (1074 : Nat)) else none
  | _ => none

end Binary64

end RecordQuery
