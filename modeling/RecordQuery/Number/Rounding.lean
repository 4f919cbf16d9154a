/-!
# Rounding to a binary format

* `Number.roundQuotient`: a quotient of naturals rounded to the nearest integer, ties to even.
* `Number.Format`: a binary floating-point format, and which pairs `m * 2^e` belong to it.
* `Number.Format.round`: the value of a format nearest to a quotient, ties to even, as if the
  format had no greatest exponent.
-/

namespace RecordQuery.Number

-- Powers are those of core, whatever else is imported.
attribute [local instance (high)] instPowNat

/-- The integer nearest to `num / den`; of two equally near ones the even one. -/
def roundQuotient (num den : Nat) : Nat :=
  let q := num / den
  let r := num % den
  if 2 * r < den ∨ (2 * r = den ∧ q % 2 = 0) then q else q + 1

/-- A rounded quotient is within half a unit of the exact one, and nearer if it is odd. -/
theorem roundQuotient_near {num den : Nat} (h : 0 < den) :
    2 * (roundQuotient num den * den) ≤ 2 * num + den ∧
      2 * num ≤ 2 * (roundQuotient num den * den) + den ∧
      (roundQuotient num den % 2 = 1 →
        2 * (roundQuotient num den * den) < 2 * num + den ∧
          2 * num < 2 * (roundQuotient num den * den) + den) := by
  have hdiv : den * (num / den) + num % den = num := Nat.div_add_mod num den
  have hlt : num % den < den := Nat.mod_lt _ h
  simp only [roundQuotient]
  generalize num / den = q at *
  generalize num % den = r at *
  have hsucc : (q + 1) * den = den * q + den := by rw [Nat.add_mul, Nat.mul_comm]; simp
  have hcomm : q * den = den * q := Nat.mul_comm ..
  generalize den * q = p at *
  split <;> omega

/-- A binary floating-point format. Its finite magnitudes are `m * 2^e` for `m` of at most
`precision` bits and `e` within the bounds. -/
structure Format where
  /-- how many bits the significand has -/
  precision : Nat
  /-- the exponent of the least magnitudes -/
  leastExponent : Int
  /-- the exponent of the greatest magnitudes -/
  greatestExponent : Int

/-- Double precision: 53 bits. -/
def Format.double : Format := ⟨53, -1074, 971⟩

/-- Single precision: 24 bits. -/
def Format.single : Format := ⟨24, -149, 104⟩

/-- The pair `m * 2^e` is the one way in which the format writes its value: all bits of the
significand are used unless the exponent is the least one. -/
def Format.IsCanonical (f : Format) (m : Nat) (e : Int) : Prop :=
  m < 2 ^ f.precision ∧ f.leastExponent ≤ e ∧ e ≤ f.greatestExponent ∧
    (2 ^ (f.precision - 1) ≤ m ∨ e = f.leastExponent)

instance (f : Format) (m : Nat) (e : Int) : Decidable (f.IsCanonical m e) :=
  inferInstanceAs (Decidable (_ ∧ _ ∧ _ ∧ (_ ∨ _)))

/-- The exponent at which the significand of `num / den` uses all bits, or the least exponent if
that is greater or the quotient is zero. -/
def Format.exponentFor (f : Format) (num den : Nat) : Int :=
  let low : Int := num.log2 - den.log2 - f.precision
  let fits := num * 2 ^ (-low).toNat < 2 ^ f.precision * (den * 2 ^ low.toNat)
  if num = 0 then f.leastExponent else max f.leastExponent (if fits then low else low + 1)

/-- The nearest `m * 2^e` to `num / den` with a significand of the format; of two equally near
ones that with the even significand. The exponent may pass the greatest one. -/
def Format.round (f : Format) (num den : Nat) : Nat × Int :=
  let e := f.exponentFor num den
  let m := roundQuotient (num * 2 ^ (-e).toNat) (den * 2 ^ e.toNat)
  if m = 2 ^ f.precision then (2 ^ (f.precision - 1), e + 1) else (m, e)

end RecordQuery.Number
