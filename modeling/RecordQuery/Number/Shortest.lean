import RecordQuery.Number.Binary64

/-!
# The fewest digits that read back

* `Number.Decimal`: digits and a power of ten.
* `Number.readsBack`: a decimal lies among the reals that round to a number.
* `Number.candidate?`: the point of a grid of powers of ten that reads back and is nearest.
* `Number.shortest`: the candidate on the coarsest grid that has one, so that no decimal of fewer
  digits reads back.
* `Number.Decimal.positional`: the text of a decimal without an exponent.
-/

namespace RecordQuery.Number

-- Powers are those of core, whatever else is imported.
attribute [local instance (high)] instPowNat

/-- The number `digits * 10^exponent`. -/
structure Decimal where
  digits : Nat
  exponent : Int
deriving DecidableEq, Repr

/-- Which of two equally near decimals is taken. -/
inductive Tie where
  /-- the greater one -/
  | up
  /-- the one with even digits -/
  | even
deriving DecidableEq

/-- The decimal `d * 10^j` lies among the reals that round to `m * 2^e`. They reach half way to the
neighbours, and the ends belong to them if `m` is even. Below a power of two the neighbour is at
half the distance. -/
def readsBack (m : Nat) (e : Int) (d : Nat) (j : Int) : Bool :=
  let value := 4 * d * 10 ^ j.toNat * 2 ^ (-e).toNat
  let quarter := 2 ^ e.toNat * 10 ^ (-j).toNat
  let narrow := m = 2 ^ (52 : Nat) ∧ -1074 < e
  let lower := (if narrow then 4 * m - 1 else 4 * m - 2) * quarter
  let upper := (4 * m + 2) * quarter
  if m % 2 = 0 then lower ≤ value && value ≤ upper else lower < value && value < upper

/-- The multiple `d` of `10^j` nearest to `m * 2^e` that reads back. It is one of the two next to
the number. -/
def candidate? (tie : Tie) (m : Nat) (e j : Int) : Option Nat :=
  let num := m * 2 ^ e.toNat * 10 ^ (-j).toNat
  let den := 10 ^ j.toNat * 2 ^ (-e).toNat
  let d := num / den
  match readsBack m e d j, readsBack m e (d + 1) j with
  | true, true =>
    match compare (2 * (num % den)) den, tie with
    | .lt, _ => some d
    | .gt, _ => some (d + 1)
    | .eq, .up => some (d + 1)
    | .eq, .even => some (if d % 2 = 0 then d else d + 1)
  | true, false => some d
  | false, true => some (d + 1)
  | false, false => none

/-- The decimal of the fewest digits that reads back as `m * 2^e`, and of those the nearest. The
grids run from the first power of ten past the number down to `10^-324`, which is finer than the
least distance between two numbers. -/
def shortest (tie : Tie) (m : Nat) (e : Int) : Decimal :=
  let top := (Nat.toDigits 10 (m * 2 ^ e.toNat / 2 ^ (-e).toNat)).length
  let found := (List.range (top + 325)).findSome? fun (i : Nat) =>
    let j : Int := top - i
    (candidate? tie m e j).map fun d => ⟨d, j⟩
  found.getD ⟨m * 2 ^ e.toNat * 5 ^ (-e).toNat, min e 0⟩

/-- The decimal without an exponent: zeros fill up to the point, and digits stand on both sides of
it or there is none. -/
def Decimal.positional (d : Decimal) : List Char :=
  let digits := Nat.toDigits 10 d.digits
  let places := (-d.exponent).toNat
  if places = 0 then digits ++ List.replicate d.exponent.toNat '0'
  else
    let padded := List.replicate (places + 1 - digits.length) '0' ++ digits
    padded.take (padded.length - places) ++ '.' :: padded.drop (padded.length - places)

end RecordQuery.Number

namespace RecordQuery

open Number

/-- A number as it is written in filters and query strings: the fewest digits that read back,
without an exponent and without a fraction of zero. -/
def Binary64.text : Binary64 → List Char
  | .nan => ['N', 'a', 'N']
  | .infinite negative => (if negative then ['-'] else []) ++ ['i', 'n', 'f']
  | .finite negative m e _ =>
    (if negative then ['-'] else []) ++
      (if m = 0 then ['0'] else (shortest .up m e).positional)

end RecordQuery
