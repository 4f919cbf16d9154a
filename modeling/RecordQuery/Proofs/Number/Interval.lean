import RecordQuery.Number.Literal
import RecordQuery.Proofs.Number.Rounding

/-!
# What rounds to a number

* `RoundsTo.between`: the rationals that round to a number are an interval.
* `Format.roundsTo_of_round_eq`: a quotient rounds to the number that it is rounded to.
* `roundsTo_of_roundDecimal`: a decimal that is read as a finite number other than zero rounds to it.
-/

namespace RecordQuery.Number

theorem RoundsTo.between {x y z : ℚ} {m : Nat} {e : Int} (hx : RoundsTo x m e)
    (hz : RoundsTo z m e) (hxy : x ≤ y) (hyz : y ≤ z) : RoundsTo y m e := by
  have hlow : 4 * x / 2 ^ e ≤ 4 * y / 2 ^ e := by gcongr
  have hhigh : 4 * y / 2 ^ e ≤ 4 * z / 2 ^ e := by gcongr
  simp only [RoundsTo] at *
  generalize (if m = 2 ^ 52 ∧ -1074 < e then 4 * (m : ℚ) - 1 else 4 * m - 2) = lower at *
  by_cases heven : m % 2 = 0
  · rw [if_pos heven] at *
    exact ⟨hx.1.trans hlow, hhigh.trans hz.2⟩
  · rw [if_neg heven] at *
    exact ⟨hx.1.trans_le hlow, hhigh.trans_lt hz.2⟩

/-- At an exponent that leaves no bit of the significand unused, or at the least exponent, a number
rounds to the integer nearest to it. -/
private theorem roundsTo_of_near {x : ℚ} {n : Nat} {k : Int} (hlow : (2 : ℚ) ^ (k + 52) ≤ x)
    (h : IsNearest (x / 2 ^ max (-1074) k) n) : RoundsTo x n (max (-1074) k) := by
  obtain ⟨hnear, hnear', hodd⟩ := h
  simp only [RoundsTo, mul_div_assoc]
  by_cases hnarrow : n = 2 ^ 52 ∧ -1074 < max (-1074) k
  · -- The quotient is not below the power of two, or its exponent would be lower.
    have hfull : (2 : ℚ) ^ 52 ≤ x / 2 ^ max (-1074) k := by
      rw [le_div_iff₀ (by positivity), ← zpow_natCast, ← zpow_add₀ (by norm_num)]
      exact (zpow_le_zpow_right₀ (by norm_num) (by push_cast; omega)).trans hlow
    obtain ⟨rfl, hexponent⟩ := hnarrow
    rw [if_pos (by norm_num), if_pos ⟨rfl, hexponent⟩]
    push_cast at hnear' ⊢
    exact ⟨by linarith, by linarith⟩
  · rw [if_neg hnarrow]
    split
    · exact ⟨by linarith, by linarith⟩
    · obtain ⟨hlt, hlt'⟩ := hodd (by omega)
      exact ⟨by linarith, by linarith⟩

/-- What is within half a unit below the end of an exponent rounds to the first number of the
next one. -/
private theorem roundsTo_of_carry {x : ℚ} {e : Int} (he : -1074 ≤ e)
    (hnear : (2 : ℚ) ^ 53 - 1 / 2 ≤ x / 2 ^ e) (htop : x / 2 ^ e < 2 ^ 53) :
    RoundsTo x (2 ^ 52) (e + 1) := by
  have hhalf : x / 2 ^ (e + 1) = x / 2 ^ e / 2 := by rw [zpow_add_one₀ (by norm_num), div_div]
  have hexponent : -1074 < e + 1 := by omega
  simp only [RoundsTo, mul_div_assoc, hhalf, hexponent, and_self, if_true]
  norm_num at hnear htop ⊢
  exact ⟨by linarith, by linarith⟩

theorem Format.roundsTo_of_round_eq {num den m : Nat} {e : Int} (hnum : num ≠ 0) (hden : den ≠ 0)
    (h : Format.double.round num den = (m, e)) : RoundsTo (num / den) m e := by
  obtain ⟨k, hk, hlow, hhigh⟩ := exponentFor_bounds hnum hden
  have hscaled : den * 2 ^ (Format.double.exponentFor num den).toNat ≠ 0 := by positivity
  have hnear :=
    isNearest_roundQuotient (num * 2 ^ (-Format.double.exponentFor num den).toNat) hscaled
  simp only [Format.round] at h
  rw [cast_scaled_div, hk] at hnear
  rw [hk] at h
  generalize roundQuotient _ _ = n at *
  split at h
  · rename_i hcarry
    obtain ⟨rfl, rfl⟩ := Prod.mk.inj h
    have htop : (num : ℚ) / den / 2 ^ max (-1074) k < 2 ^ 53 := by
      rw [div_lt_iff₀ (by positivity), ← zpow_natCast, ← zpow_add₀ (by norm_num)]
      refine hhigh.trans_le (zpow_le_zpow_right₀ (by norm_num) ?_)
      push_cast
      omega
    rw [hcarry] at hnear
    exact roundsTo_of_carry (le_max_left ..) (by exact_mod_cast hnear.low) htop
  · obtain ⟨rfl, rfl⟩ := Prod.mk.inj h
    exact roundsTo_of_near hlow hnear

/-- A decimal that is read as a finite number other than zero rounds to it. -/
theorem roundsTo_of_roundDecimal {negative negative' : Bool} {digits m : Nat} {exponent e : Int}
    {hc : Format.double.IsCanonical m e} (hm : m ≠ 0)
    (h : roundDecimal Binary64.ofRatio negative digits exponent = .finite negative' m e hc) :
    RoundsTo (digits * 10 ^ exponent) m e := by
  simp only [roundDecimal] at h
  split at h
  · -- What is cut at small exponents is zero.
    simp only [Binary64.zero, Binary64.finite.injEq] at h
    exact absurd h.2.1.symm hm
  · rename_i hcut
    split at h
    · cases h
    · simp only [Binary64.ofRatio, Binary64.ofParts] at h
      split at h
      · simp only [Binary64.finite.injEq] at h
        rw [← cast_decimal_div]
        refine Format.roundsTo_of_round_eq ?_ (by positivity) (Prod.ext h.2.1 h.2.2)
        have hdigits : digits ≠ 0 := fun hzero => hcut (.inl hzero)
        positivity
      · cases h

end RecordQuery.Number
