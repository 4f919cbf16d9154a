import RecordQuery.Proofs.Number.ReadBack
import RecordQuery.Value

/-!
# Integers read from their digits

* `nearestDouble`: the integer of double precision nearest to an integer. `nearestDouble_near`
  says how near it is.
* `nearestDouble_eq_self_iff`, `nearestDouble_lt_iff`: which integers double precision has, and
  which ones below `2^63` it takes to `2^63`.
* `toInt?_finite_iff`: which integer a number of double precision is.
* `toInt?_ofRatio`: an integer is rounded to the nearest one of double precision.
* `Value.readNumber?_toDigits`: so this is what is read from its decimal digits.
-/

namespace RecordQuery

open Number

namespace Number

/-! ## Rounded quotients between integers -/

theorem le_roundQuotient {num den m : Nat} (h : 0 < den) (hm : m * den ≤ num) :
    m ≤ roundQuotient num den := by
  have hnear : 2 * num ≤ 2 * (roundQuotient num den * den) + den := (roundQuotient_near h).2.1
  by_contra hlt
  have hmul : (roundQuotient num den + 1) * den ≤ m * den := Nat.mul_le_mul_right _ (by omega)
  rw [Nat.add_mul] at hmul
  omega

theorem roundQuotient_le {num den m : Nat} (h : 0 < den) (hm : num ≤ m * den) :
    roundQuotient num den ≤ m := by
  have hnear : 2 * (roundQuotient num den * den) ≤ 2 * num + den := (roundQuotient_near h).1
  by_contra hlt
  have hmul : (m + 1) * den ≤ roundQuotient num den * den := Nat.mul_le_mul_right _ (by omega)
  rw [Nat.add_mul] at hmul
  omega

theorem roundQuotient_mul {den : Nat} (h : 0 < den) (q : Nat) : roundQuotient (q * den) den = q :=
  Nat.le_antisymm (roundQuotient_le h (Nat.le_refl _)) (le_roundQuotient h (Nat.le_refl _))

/-! ## The nearest integer of double precision -/

/-- How many of the last bits of an integer double precision has no room for. -/
def droppedBits (n : Nat) : Nat := n.log2 - 52

/-- The integer that double precision has nearest to an integer; of two equally near ones the one
with the even significand. -/
def nearestDouble (n : Nat) : Nat :=
  roundQuotient n (2 ^ droppedBits n) * 2 ^ droppedBits n

theorem nearestDouble_near (n : Nat) :
    2 * nearestDouble n ≤ 2 * n + 2 ^ droppedBits n ∧
      2 * n ≤ 2 * nearestDouble n + 2 ^ droppedBits n := by
  obtain ⟨hlow, hhigh, -⟩ := @roundQuotient_near n (2 ^ droppedBits n) (by positivity)
  exact ⟨hlow, hhigh⟩

/-- Double precision has the integers that are fewer than `2^53` times a power of two. -/
theorem nearestDouble_eq_self_iff {n : Nat} :
    nearestDouble n = n ↔ ∃ m e, m < 2 ^ 53 ∧ n = m * 2 ^ e := by
  constructor
  · intro heq
    have hle : roundQuotient n (2 ^ droppedBits n) ≤ 2 ^ 53 := by
      refine roundQuotient_le (by positivity) ?_
      calc n ≤ 2 ^ (n.log2 + 1) := Nat.lt_log2_self.le
        _ ≤ 2 ^ 53 * 2 ^ droppedBits n := by
          rw [← pow_add, droppedBits]
          exact Nat.pow_le_pow_right (by decide) (by omega)
    by_cases hcarry : roundQuotient n (2 ^ droppedBits n) = 2 ^ 53
    · refine ⟨1, 53 + droppedBits n, by decide, ?_⟩
      rw [one_mul, pow_add, ← hcarry]
      exact heq.symm
    · exact ⟨_, droppedBits n, by omega, heq.symm⟩
  · rintro ⟨m, e, hm, rfl⟩
    by_cases hne : m * 2 ^ e = 0
    · simp [hne, nearestDouble, roundQuotient]
    · have hlog : (m * 2 ^ e).log2 < 53 + e := by
        rw [Nat.log2_lt hne, pow_add]
        gcongr
      obtain ⟨k, hk⟩ : ∃ k, e = k + droppedBits (m * 2 ^ e) :=
        ⟨e - droppedBits (m * 2 ^ e), by rw [droppedBits]; omega⟩
      have hfactor : m * 2 ^ e = m * 2 ^ k * 2 ^ droppedBits (m * 2 ^ e) := by
        rw [mul_assoc, ← pow_add, ← hk]
      rw [nearestDouble]
      generalize droppedBits (m * 2 ^ e) = d at *
      rw [hfactor, roundQuotient_mul (by positivity)]

/-- Double precision has the integers up to `2^53`. -/
theorem nearestDouble_eq_self {n : Nat} (hn : n ≤ 2 ^ 53) : nearestDouble n = n := by
  refine nearestDouble_eq_self_iff.mpr ?_
  by_cases hmax : n = 2 ^ 53
  · exact ⟨1, 53, by decide, hmax⟩
  · exact ⟨n, 0, by omega, by simp⟩

/-- The last 512 of the integers below `2^63` are taken to `2^63`. -/
theorem nearestDouble_lt_iff {n : Nat} (hn : n < 2 ^ 63) :
    nearestDouble n < 2 ^ 63 ↔ n < 2 ^ 63 - 512 := by
  by_cases hlow : n < 2 ^ 62
  · have hdropped : 2 ^ droppedBits n ≤ 2 ^ 9 := by
      by_cases hne : n = 0
      · simp [hne, droppedBits]
      · have hlog : n.log2 < 62 := (Nat.log2_lt hne).mpr hlow
        rw [droppedBits]
        exact Nat.pow_le_pow_right (by decide) (by omega)
    have hnear := (nearestDouble_near n).1
    omega
  · have hlog : n.log2 = 62 := (Nat.log2_eq_iff (by omega)).mpr ⟨by omega, by omega⟩
    rw [nearestDouble, droppedBits, hlog, roundQuotient]
    norm_num
    split <;> omega

/-! ## Rounding an integer -/

/-- The 53 bits to which an integer is rounded, or `2^53` if they carry over. -/
def significand (n : Nat) : Nat := roundQuotient (n * 2 ^ (52 - n.log2)) (2 ^ droppedBits n)

theorem significand_bounds {n : Nat} (hne : n ≠ 0) :
    2 ^ 52 ≤ significand n ∧ significand n ≤ 2 ^ 53 := by
  have hpow : 2 ^ n.log2 * 2 ^ (52 - n.log2) = 2 ^ 52 * 2 ^ droppedBits n := by
    rw [← pow_add, ← pow_add, droppedBits]
    congr 1
    omega
  constructor
  · refine le_roundQuotient (by positivity) ?_
    rw [← hpow]
    exact Nat.mul_le_mul_right _ (Nat.log2_self_le hne)
  · refine roundQuotient_le (by positivity) ?_
    calc n * 2 ^ (52 - n.log2) ≤ 2 ^ (n.log2 + 1) * 2 ^ (52 - n.log2) :=
          Nat.mul_le_mul_right _ Nat.lt_log2_self.le
      _ = 2 * (2 ^ n.log2 * 2 ^ (52 - n.log2)) := by ring
      _ = 2 ^ 53 * 2 ^ droppedBits n := by rw [hpow]; ring

/-- The significand of an integer stands for the nearest integer of double precision, here in units
of the least distance between two numbers. -/
theorem significand_mul (n : Nat) :
    significand n * 2 ^ ((n.log2 : Int) - 52 + 1074).toNat = nearestDouble n * 2 ^ 1074 := by
  rcases Nat.le_total n.log2 52 with hlog | hlog
  · have hzero : droppedBits n = 0 := Nat.sub_eq_zero_of_le hlog
    have hround (q : Nat) : roundQuotient q 1 = q := by simpa using roundQuotient_mul Nat.one_pos q
    rw [significand, nearestDouble, hzero, pow_zero, hround, hround, mul_one, mul_assoc, ← pow_add]
    congr 2
    omega
  · rw [significand, nearestDouble, Nat.sub_eq_zero_of_le hlog, pow_zero, mul_one, mul_assoc,
      ← pow_add, droppedBits]
    congr 2
    omega

theorem round_integer {n : Nat} (hne : n ≠ 0) :
    Format.double.round n 1 = if significand n = 2 ^ 53 then (2 ^ 52, (n.log2 : Int) - 52 + 1)
      else (significand n, (n.log2 : Int) - 52) := by
  obtain ⟨hlow, hhigh⟩ := log2_bounds hne
  have hexp : Format.double.exponentFor n 1 = (n.log2 : Int) - 52 := by
    refine exponentFor_eq hne (by decide) (by omega) (.inl ?_) ?_
    · rw [Int.sub_add_cancel, Nat.cast_one, div_one]
      exact hlow
    · rw [Nat.cast_one, div_one, show (n.log2 : Int) - 52 + 53 = n.log2 + 1 by omega]
      exact hhigh
  simp only [Format.round, hexp]
  rw [one_mul, show (-((n.log2 : Int) - 52)).toNat = 52 - n.log2 by omega,
    show ((n.log2 : Int) - 52).toNat = droppedBits n by rw [droppedBits]; omega]
  rfl

theorem toInt?_finite_iff {negative : Bool} {m : Nat} {e : Int}
    (hc : Format.double.IsCanonical m e) {v : Int} :
    (Binary64.finite negative m e hc).toInt? = some v ↔
      Binary64.scaled negative m e = v * 2 ^ 1074 := by
  have hunit : (2 : Int) ^ 1074 ≠ 0 := by positivity
  simp only [Binary64.toInt?]
  constructor
  · intro h
    split at h <;> cases h
    exact (Int.ediv_mul_cancel (Int.dvd_of_emod_eq_zero ‹_›)).symm
  · intro h
    rw [h, if_pos (Int.mul_emod_left _ _), Int.mul_ediv_cancel _ hunit]

theorem toInt?_finite {n m : Nat} {e : Int} (hc : Format.double.IsCanonical m e)
    (h : m * 2 ^ (e + 1074).toNat = n * 2 ^ 1074) :
    (Binary64.finite false m e hc).toInt? = some (n : Int) := by
  have hcast := congrArg (Nat.cast (R := Int)) h
  simp only [Nat.cast_mul, Nat.cast_pow, Nat.cast_ofNat] at hcast
  exact (toInt?_finite_iff hc).mpr hcast

/-- An integer is rounded to the nearest one of double precision. -/
theorem toInt?_ofRatio {n : Nat} (hne : n ≠ 0) (hn : n < 2 ^ 64) :
    (Binary64.ofRatio false n 1).isFinite = true ∧
      (Binary64.ofRatio false n 1).toInt? = some (nearestDouble n : Int) := by
  obtain ⟨hlow, hhigh⟩ := significand_bounds hne
  have hlog : n.log2 < 64 := (Nat.log2_lt hne).mpr hn
  have hvalue := significand_mul n
  by_cases hcarry : significand n = 2 ^ 53
  · have hc : Format.double.IsCanonical (2 ^ 52) ((n.log2 : Int) - 52 + 1) := by
      refine ⟨by decide, ?_, ?_, .inl (by decide)⟩ <;> simp only [Format.double] <;> omega
    have hround : Binary64.ofRatio false n 1 = .finite false _ _ hc := by
      rw [Binary64.ofRatio, round_integer hne, if_pos hcarry]
      exact dif_pos hc
    rw [hround]
    refine ⟨rfl, toInt?_finite hc ?_⟩
    rw [← hvalue, hcarry, show ((n.log2 : Int) - 52 + 1 + 1074).toNat =
      ((n.log2 : Int) - 52 + 1074).toNat + 1 by omega]
    ring
  · have hc : Format.double.IsCanonical (significand n) ((n.log2 : Int) - 52) := by
      refine ⟨?_, ?_, ?_, .inl hlow⟩ <;> simp only [Format.double] <;> omega
    have hround : Binary64.ofRatio false n 1 = .finite false _ _ hc := by
      rw [Binary64.ofRatio, round_integer hne, if_neg hcarry]
      exact dif_pos hc
    rw [hround]
    exact ⟨rfl, toInt?_finite hc hvalue⟩

/-! ## Reading digits -/

theorem read?_toDigits (n : Nat) :
    Literal.read? (Nat.toDigits 10 n) = some (.decimal false n 0) := by
  have hdigits : ∀ c ∈ Nat.toDigits 10 n ++ [], c.isDigit = true := by
    rw [List.append_nil]
    exact fun c hc => Nat.isDigit_of_mem_toDigits (by decide) (by decide) hc
  have hvalue : Nat.ofDigitChars 10 (Nat.toDigits 10 n) 0 = n := Nat.ofDigitChars_ten_toDigits
  have hread := readDecimal?_digits false Nat.toDigits_ne_nil hdigits
  obtain ⟨c, rest, hcons⟩ := List.exists_cons_of_ne_nil (Nat.toDigits_ne_nil (n := n) (b := 10))
  rw [hcons] at hdigits hvalue hread ⊢
  refine (read?_digits false rest (hdigits c (by simp))).trans ?_
  simpa [hvalue] using hread

/-- A decimal without an exponent is rounded as the integer that it is. -/
theorem toInt?_roundDecimal {n : Nat} (hn : n < 2 ^ 64) :
    (roundDecimal Binary64.ofRatio false n 0).isFinite = true ∧
      (roundDecimal Binary64.ofRatio false n 0).toInt? = some (nearestDouble n : Int) := by
  by_cases hne : n = 0
  · subst hne
    decide +kernel
  · have hround : roundDecimal Binary64.ofRatio false n 0 = Binary64.ofRatio false n 1 := by
      rw [roundDecimal, if_neg (by omega), if_neg (by decide)]
      simp
    rw [hround]
    exact toInt?_ofRatio hne hn

end Number

/-- The number read from the digits of an integer is the nearest integer of double precision. -/
theorem Value.readNumber?_toDigits {n : Nat} (hn : n < 2 ^ 64) :
    ∃ x, Value.readNumber? (Nat.toDigits 10 n) = some x ∧
      x.toInt? = some (nearestDouble n : Int) := by
  obtain ⟨hfinite, hinteger⟩ := toInt?_roundDecimal hn
  have hblank : ∀ c ∈ Nat.toDigits 10 n, Text.isBlank c = false := fun c hc =>
    Text.isBlank_of_isDigit (Nat.isDigit_of_mem_toDigits (by decide) (by decide) hc)
  refine ⟨_, ?_, hinteger⟩
  rw [Value.readNumber?, Text.trim_eq_self hblank, Binary64.readFinite?, Binary64.read?,
    read?_toDigits, Option.map_some, Option.filter_some]
  exact if_pos hfinite

end RecordQuery
