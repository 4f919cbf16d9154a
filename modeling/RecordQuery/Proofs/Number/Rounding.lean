import Mathlib
import RecordQuery.Number.Binary64

/-!
# The quotients that round to a number

* `RoundsTo`: the rationals that a positive number `m * 2^e` is nearest to. They reach half way to
  its neighbours, and the ends belong to them if `m` is even.
* `IsNearest`: the integer that a rational is nearest to, of which there is one
  (`IsNearest.unique`), and to which a quotient is rounded (`isNearest_roundQuotient`).
* `exponentFor_eq`: the exponent of a quotient from bounds on it.
* `Format.round_eq`: a quotient that rounds to a number of double precision is rounded to it.
-/

namespace RecordQuery.Number

/-! ## Powers with integer exponents -/

/-- `b ^ e⁺ = b ^ e * b ^ e⁻`: the split that keeps powers in the naturals. -/
theorem pow_toNat_eq {b : ℚ} (hb : b ≠ 0) (e : Int) : b ^ e.toNat = b ^ e * b ^ (-e).toNat := by
  rw [← zpow_natCast, ← zpow_natCast, ← zpow_add₀ hb]
  congr 1
  omega

theorem cast_scaled_div (num den : Nat) (e : Int) :
    ((num * 2 ^ (-e).toNat : Nat) : ℚ) / ((den * 2 ^ e.toNat : Nat) : ℚ) = num / den / 2 ^ e := by
  have hpow : (0 : ℚ) < 2 ^ (-e).toNat := by positivity
  push_cast
  rw [pow_toNat_eq (by norm_num) e, ← mul_assoc, mul_div_mul_right _ _ hpow.ne', div_div]

theorem cast_decimal_div (digits : Nat) (exponent : Int) :
    ((digits * 10 ^ exponent.toNat : Nat) : ℚ) / ((10 ^ (-exponent).toNat : Nat) : ℚ) =
      digits * 10 ^ exponent := by
  push_cast
  rw [pow_toNat_eq (by norm_num) exponent]
  field_simp

/-! ## The two steps of a rounding -/

/-- The integer is nearest to `x`, and even if `x` is half way between two. -/
structure IsNearest (x : ℚ) (m : Nat) : Prop where
  low : (m : ℚ) - 1 / 2 ≤ x
  high : x ≤ m + 1 / 2
  odd : m % 2 = 1 → (m : ℚ) - 1 / 2 < x ∧ x < m + 1 / 2

/-- Integers that are nearest to the same number are at most a unit apart, and if they were, one of
them would be odd and half a unit away. -/
private theorem IsNearest.le {x : ℚ} {m n : Nat} (hm : IsNearest x m) (hn : IsNearest x n) :
    m ≤ n := by
  by_contra hlt
  have hle : (n : ℚ) + 1 ≤ m := by exact_mod_cast not_le.mp hlt
  obtain rfl : m = n + 1 := by
    have hle' : (m : ℚ) ≤ n + 1 := by linarith [hm.low, hn.high]
    have : m ≤ n + 1 := by exact_mod_cast hle'
    omega
  have hhalf : x = n + 1 / 2 := le_antisymm hn.high (by have := hm.low; push_cast at this; linarith)
  rcases Nat.mod_two_eq_zero_or_one n with heven | hodd
  · have hstrict := (hm.odd (by omega)).1
    push_cast at hstrict
    linarith
  · exact absurd hhalf (hn.odd hodd).2.ne

theorem IsNearest.unique {x : ℚ} {m n : Nat} (hm : IsNearest x m) (hn : IsNearest x n) : m = n :=
  Nat.le_antisymm (hm.le hn) (hn.le hm)

theorem isNearest_roundQuotient (num : Nat) {den : Nat} (hden : den ≠ 0) :
    IsNearest (num / den) (roundQuotient num den) := by
  have hpos : (0 : ℚ) < den := by positivity
  obtain ⟨hlow, hhigh, hodd⟩ := @roundQuotient_near num den (Nat.pos_of_ne_zero hden)
  generalize roundQuotient num den = n at *
  have hlow' : (2 * (n * den) : ℚ) ≤ 2 * num + den := by exact_mod_cast hlow
  have hhigh' : (2 * num : ℚ) ≤ 2 * (n * den) + den := by exact_mod_cast hhigh
  constructor
  · rw [le_div_iff₀ hpos]
    linarith
  · rw [div_le_iff₀ hpos]
    linarith
  · intro hn
    obtain ⟨hlt, hlt'⟩ := hodd hn
    have hlow' : (2 * (n * den) : ℚ) < 2 * num + den := by exact_mod_cast hlt
    have hhigh' : (2 * num : ℚ) < 2 * (n * den) + den := by exact_mod_cast hlt'
    rw [lt_div_iff₀ hpos, div_lt_iff₀ hpos]
    exact ⟨by linarith, by linarith⟩

theorem log2_bounds {n : Nat} (h : n ≠ 0) :
    (2 : ℚ) ^ (n.log2 : Int) ≤ n ∧ (n : ℚ) < 2 ^ ((n.log2 : Int) + 1) := by
  constructor
  · rw [zpow_natCast]
    exact_mod_cast Nat.log2_self_le h
  · have hlt := Nat.lt_log2_self (n := n)
    rw [← Nat.cast_succ, zpow_natCast]
    exact_mod_cast hlt

/-- A quotient lies between the powers of two next to the difference of the logarithms. -/
private theorem div_bounds {num den : Nat} (hnum : num ≠ 0) (hden : den ≠ 0) :
    (2 : ℚ) ^ ((num.log2 : Int) - den.log2 - 1) ≤ num / den ∧
      (num : ℚ) / den < 2 ^ ((num.log2 : Int) - den.log2 + 1) := by
  obtain ⟨hn, hn'⟩ := log2_bounds hnum
  obtain ⟨hd, hd'⟩ := log2_bounds hden
  have hpos : (0 : ℚ) < den := by positivity
  constructor
  · rw [le_div_iff₀ hpos]
    calc (2 : ℚ) ^ ((num.log2 : Int) - den.log2 - 1) * den
        ≤ 2 ^ ((num.log2 : Int) - den.log2 - 1) * 2 ^ ((den.log2 : Int) + 1) := by gcongr
      _ = 2 ^ (num.log2 : Int) := by rw [← zpow_add₀ (by norm_num)]; congr 1; omega
      _ ≤ num := hn
  · rw [div_lt_iff₀ hpos]
    calc (num : ℚ) < 2 ^ ((num.log2 : Int) + 1) := hn'
      _ = 2 ^ ((num.log2 : Int) - den.log2 + 1) * 2 ^ (den.log2 : Int) := by
        rw [← zpow_add₀ (by norm_num)]; congr 1; omega
      _ ≤ 2 ^ ((num.log2 : Int) - den.log2 + 1) * den := by gcongr

/-- The exponent of a quotient is the one at which its significand uses all bits, or the least
exponent if that is greater. -/
theorem exponentFor_bounds {num den : Nat} (hnum : num ≠ 0) (hden : den ≠ 0) :
    ∃ k : Int, Format.double.exponentFor num den = max (-1074) k ∧
      (2 : ℚ) ^ (k + 52) ≤ num / den ∧ (num : ℚ) / den < 2 ^ (k + 53) := by
  obtain ⟨hlow, hhigh⟩ := div_bounds hnum hden
  rw [show (num.log2 : Int) - den.log2 - 1 = (num.log2 : Int) - den.log2 - 53 + 52 by omega] at hlow
  rw [show (num.log2 : Int) - den.log2 + 1 = (num.log2 : Int) - den.log2 - 53 + 54 by omega] at hhigh
  have hexp : Format.double.exponentFor num den =
      max (-1074) (if num * 2 ^ (-((num.log2 : Int) - den.log2 - 53)).toNat <
        2 ^ 53 * (den * 2 ^ ((num.log2 : Int) - den.log2 - 53).toNat)
        then (num.log2 : Int) - den.log2 - 53 else (num.log2 : Int) - den.log2 - 53 + 1) :=
    if_neg hnum
  rw [hexp]
  generalize (num.log2 : Int) - den.log2 - 53 = low at *
  have hfits : num * 2 ^ (-low).toNat < 2 ^ 53 * (den * 2 ^ low.toNat) ↔
      (num : ℚ) / den < 2 ^ (low + 53) := by
    have hpos : (0 : ℚ) < ((den * 2 ^ low.toNat : Nat) : ℚ) := by positivity
    rw [Int.add_comm low, zpow_add₀ (by norm_num), ← div_lt_iff₀ (by positivity), ← cast_scaled_div,
      div_lt_iff₀ hpos]
    norm_cast
  by_cases hf : (num : ℚ) / den < 2 ^ (low + 53)
  · exact ⟨low, by rw [if_pos (hfits.mpr hf)], hlow, hf⟩
  · refine ⟨low + 1, by rw [if_neg (mt hfits.mp hf)], ?_, ?_⟩
    · rw [show low + 1 + 52 = low + 53 by omega]
      exact not_lt.mp hf
    · rw [show low + 1 + 53 = low + 54 by omega]
      exact hhigh

/-- An exponent at which the significand of a quotient uses all bits, or the least exponent if
that leaves bits unused, is the exponent of the quotient. -/
theorem exponentFor_eq {num den : Nat} {e : Int} (hnum : num ≠ 0) (hden : den ≠ 0)
    (hle : -1074 ≤ e) (hlow : (2 : ℚ) ^ (e + 52) ≤ num / den ∨ e = -1074)
    (hhigh : (num : ℚ) / den < 2 ^ (e + 53)) : Format.double.exponentFor num den = e := by
  obtain ⟨k, hk, hklow, hkhigh⟩ := exponentFor_bounds hnum hden
  have hmono (a b : Int) : (2 : ℚ) ^ a < 2 ^ b → a < b :=
    (zpow_lt_zpow_iff_right₀ (by norm_num)).mp
  rw [hk]
  have hke := hmono _ _ (hklow.trans_lt hhigh)
  rcases hlow with hlow | rfl
  · have := hmono _ _ (hlow.trans_lt hkhigh)
    omega
  · omega

/-! ## Rounding -/

/-- The number `m * 2^e` is the one of double precision that `x` rounds to. The quarters are those
of its unit: the ends are two of them away, or one below a power of two, where the neighbour is at
half the distance. -/
def RoundsTo (x : ℚ) (m : Nat) (e : Int) : Prop :=
  let quarters := 4 * x / 2 ^ e
  let lower : ℚ := if m = 2 ^ 52 ∧ -1074 < e then 4 * m - 1 else 4 * m - 2
  if m % 2 = 0 then lower ≤ quarters ∧ quarters ≤ 4 * m + 2
  else lower < quarters ∧ quarters < 4 * m + 2

theorem RoundsTo.near {x : ℚ} {m : Nat} {e : Int} (h : RoundsTo x m e) :
    IsNearest (x / 2 ^ e) m := by
  simp only [RoundsTo, mul_div_assoc] at h
  have hlower : (4 * m - 2 : ℚ) ≤ if m = 2 ^ 52 ∧ -1074 < e then 4 * (m : ℚ) - 1 else 4 * m - 2 := by
    split <;> linarith
  generalize (if m = 2 ^ 52 ∧ -1074 < e then 4 * (m : ℚ) - 1 else 4 * m - 2) = lower at *
  split at h
  · exact ⟨by linarith, by linarith, by omega⟩
  · exact ⟨by linarith, by linarith, fun _ => ⟨by linarith, by linarith⟩⟩

/-- What rounds to a power of two is within a quarter of a unit below it. -/
theorem RoundsTo.near_of_pow {x : ℚ} {e : Int} (h : RoundsTo x (2 ^ 52) e) (he : -1074 < e) :
    (2 : ℚ) ^ 52 - 1 / 4 ≤ x / 2 ^ e := by
  simp only [RoundsTo, mul_div_assoc, he, and_self, if_true] at h
  norm_num at h ⊢
  linarith

/-- A quotient is rounded to the nearest integer in the unit of its exponent. Past the significands
this is the least one of the next exponent. -/
theorem Format.round_of_isNearest {num den m : Nat} {e : Int} (hden : den ≠ 0)
    (hexp : Format.double.exponentFor num den = e) (h : IsNearest (num / den / 2 ^ e) m) :
    Format.double.round num den = if m = 2 ^ 53 then (2 ^ 52, e + 1) else (m, e) := by
  have hscaled : den * 2 ^ e.toNat ≠ 0 := by positivity
  have hround : roundQuotient (num * 2 ^ (-e).toNat) (den * 2 ^ e.toNat) = m :=
    (isNearest_roundQuotient _ hscaled).unique (by rwa [cast_scaled_div])
  simp only [Format.round, hexp, hround]
  rfl

/-- A quotient that is less than a quarter of a unit below a power of two has the next lower exponent,
and is rounded up to the power. -/
private theorem Format.round_of_below_pow {num den : Nat} {e : Int} (hnum : num ≠ 0) (hden : den ≠ 0)
    (he : -1074 < e) (hquarter : (2 : ℚ) ^ 52 - 1 / 4 ≤ num / den / 2 ^ e)
    (hlt : (num : ℚ) / den / 2 ^ e < 2 ^ 52) : Format.double.round num den = (2 ^ 52, e) := by
  have hpow : (0 : ℚ) < 2 ^ (e - 1) := by positivity
  have hdouble : (num : ℚ) / den / 2 ^ (e - 1) = 2 * (num / den / 2 ^ e) := by
    rw [show (2 : ℚ) ^ e = 2 ^ (e - 1) * 2 by rw [← zpow_add_one₀ (by norm_num), Int.sub_add_cancel]]
    field_simp
  have hnear : IsNearest (num / den / 2 ^ (e - 1)) (2 ^ 53) := by
    rw [hdouble]
    constructor
    all_goals norm_num at hquarter hlt ⊢
    all_goals linarith
  have hexp : Format.double.exponentFor num den = e - 1 := by
    refine exponentFor_eq hnum hden (by omega) (.inl ?_) ?_
    · rw [Int.add_comm, zpow_add₀ (by norm_num), ← le_div_iff₀ hpow, hdouble]
      norm_num at hquarter ⊢
      linarith
    · rw [Int.add_comm, zpow_add₀ (by norm_num), ← div_lt_iff₀ hpow, hdouble]
      norm_num at hlt ⊢
      linarith
  rw [Format.round_of_isNearest hden hexp hnear, if_pos rfl, Int.sub_add_cancel]

theorem Format.round_eq {num den m : Nat} {e : Int} (hnum : num ≠ 0) (hden : den ≠ 0)
    (hc : Format.double.IsCanonical m e) (h : RoundsTo (num / den) m e) :
    Format.double.round num den = (m, e) := by
  obtain ⟨hm, hle, -, hnorm⟩ := hc
  simp only [Format.double] at hm hle hnorm
  have hpow : (0 : ℚ) < 2 ^ e := by positivity
  have hm' : (m : ℚ) + 1 ≤ 2 ^ 53 := by exact_mod_cast hm
  have htop : (num : ℚ) / den < 2 ^ (e + 53) := by
    rw [Int.add_comm, zpow_add₀ (by norm_num), ← div_lt_iff₀ hpow]
    exact lt_of_le_of_lt h.near.high (by norm_num at hm' ⊢; linarith)
  by_cases hfull : (2 : ℚ) ^ (e + 52) ≤ num / den ∨ e = -1074
  · -- The quotient has the exponent of the number.
    rw [Format.round_of_isNearest hden (exponentFor_eq hnum hden hle hfull htop) h.near,
      if_neg (by omega)]
  · -- The quotient is below a power of two.
    obtain ⟨hlt, hne⟩ := not_or.mp hfull
    rw [Int.add_comm, zpow_add₀ (by norm_num), ← le_div_iff₀ hpow, not_le] at hlt
    obtain rfl : m = 2 ^ 52 := by
      have : (m : ℚ) < 2 ^ 52 + 1 := by linarith [h.near.low]
      have : m < 2 ^ 52 + 1 := by exact_mod_cast this
      omega
    exact Format.round_of_below_pow hnum hden (by omega) (h.near_of_pow (by omega))
      (by exact_mod_cast hlt)

end RecordQuery.Number
