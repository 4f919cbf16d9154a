import RecordQuery.Number.Literal
import RecordQuery.Number.Shortest
import RecordQuery.Proofs.Number.Rounding
import RecordQuery.Text.Blank

/-!
# Numbers read back from their text

* `shortest_roundsTo`: the decimal of a number rounds to the number.
* `positional_digits`: the text of a decimal is digits, perhaps with a point among them, which have
  the value of the decimal.
* `roundDecimal_eq`: a decimal that rounds to a number is read as the number.
* `Binary64.readFinite?_text`: a finite number is read back from its text, the sign of a zero
  included.
-/

namespace RecordQuery.Number

/-! ## The shortest decimal -/

/-- The bounds in the naturals are those on the rationals that round to a number. -/
theorem readsBack_iff {m d : Nat} {e j : Int} (hm : m ≠ 0) :
    readsBack m e d j = true ↔ RoundsTo (d * 10 ^ j) m e := by
  have hquarter : (0 : ℚ) < 2 ^ e.toNat * 10 ^ (-j).toNat := by positivity
  have hvalue : (4 * d * 10 ^ j.toNat * 2 ^ (-e).toNat : ℚ) =
      4 * (d * 10 ^ j) / 2 ^ e * (2 ^ e.toNat * 10 ^ (-j).toNat) := by
    rw [pow_toNat_eq (by norm_num) e, pow_toNat_eq (by norm_num) j]
    field_simp
  have hlower : ((if m = 2 ^ 52 ∧ -1074 < e then 4 * m - 1 else 4 * m - 2 : Nat) : ℚ) =
      if m = 2 ^ 52 ∧ -1074 < e then 4 * (m : ℚ) - 1 else 4 * m - 2 := by
    split <;> push_cast [Nat.cast_sub (by omega : 1 ≤ 4 * m), Nat.cast_sub (by omega : 2 ≤ 4 * m)] <;>
      rfl
  have hupper : ((4 * m + 2 : Nat) : ℚ) = 4 * m + 2 := by push_cast; rfl
  -- Each comparison of naturals is one of rationals, scaled by a quarter of the unit.
  have hle (a : Nat) : a * (2 ^ e.toNat * 10 ^ (-j).toNat) ≤ 4 * d * 10 ^ j.toNat * 2 ^ (-e).toNat ↔
      (a : ℚ) ≤ 4 * (d * 10 ^ j) / 2 ^ e := by
    rw [← mul_le_mul_iff_left₀ hquarter, ← hvalue]
    exact_mod_cast Iff.rfl
  have hge (a : Nat) : 4 * d * 10 ^ j.toNat * 2 ^ (-e).toNat ≤ a * (2 ^ e.toNat * 10 ^ (-j).toNat) ↔
      4 * (d * 10 ^ j) / 2 ^ e ≤ (a : ℚ) := by
    rw [← mul_le_mul_iff_left₀ hquarter, ← hvalue]
    exact_mod_cast Iff.rfl
  simp only [RoundsTo, readsBack, ← hlower, ← hupper]
  generalize (if m = 2 ^ 52 ∧ -1074 < e then 4 * m - 1 else 4 * m - 2) = lower
  split
  · rw [Bool.and_eq_true, decide_eq_true_eq, decide_eq_true_eq, hle, hge]
  · rw [Bool.and_eq_true, decide_eq_true_eq, decide_eq_true_eq, ← not_le, ← not_le, hle, hge, not_le,
      not_le]

theorem roundsTo_self (m : Nat) (e : Int) : RoundsTo (m * 2 ^ e) m e := by
  have hpow : (0 : ℚ) < 2 ^ e := by positivity
  simp only [RoundsTo, ← mul_assoc, mul_div_cancel_right₀ _ hpow.ne']
  split
  · exact ⟨by split <;> linarith, by linarith⟩
  · exact ⟨by split <;> linarith, by linarith⟩

theorem readsBack_of_candidate? {tie : Tie} {m d : Nat} {e j : Int}
    (h : candidate? tie m e j = some d) : readsBack m e d j = true := by
  simp only [candidate?] at h
  generalize m * 2 ^ e.toNat * 10 ^ (-j).toNat / (10 ^ j.toNat * 2 ^ (-e).toNat) = q at h
  split at h
  · split at h <;> (try split at h) <;> (injection h with h; subst h; assumption)
  · injection h with h; subst h; assumption
  · injection h with h; subst h; assumption
  · cases h

theorem shortest_roundsTo (tie : Tie) {m : Nat} (hm : m ≠ 0) (e : Int) :
    RoundsTo ((shortest tie m e).digits * 10 ^ (shortest tie m e).exponent) m e := by
  simp only [shortest]
  generalize ((Nat.toDigits 10 (m * 2 ^ e.toNat / 2 ^ (-e).toNat)).length) = top
  cases hfound : (List.range (top + 325)).findSome? fun (i : Nat) =>
    (candidate? tie m e ((top : Int) - i)).map fun d => (⟨d, top - i⟩ : Decimal) with
  | some d =>
    obtain ⟨i, -, hi⟩ := List.exists_of_findSome?_eq_some hfound
    obtain ⟨digits, hdigits, rfl⟩ := Option.map_eq_some_iff.mp hi
    exact (readsBack_iff hm).mp (readsBack_of_candidate? hdigits)
  | none =>
    -- The decimal is exact: a power of two below one is a power of five over one of ten.
    have hexact : ((m * 2 ^ e.toNat * 5 ^ (-e).toNat : Nat) : ℚ) * 10 ^ min e 0 = m * 2 ^ e := by
      push_cast
      rcases le_total 0 e with he | he
      · rw [min_eq_right he, show (-e).toNat = 0 by omega, ← zpow_natCast (2 : ℚ) e.toNat,
          Int.toNat_of_nonneg he]
        simp
      · rw [min_eq_left he, show e.toNat = 0 by omega, ← zpow_natCast (5 : ℚ) (-e).toNat,
          Int.toNat_of_nonneg (by omega), show (10 : ℚ) = 5 * 2 by norm_num, mul_zpow, zpow_neg]
        field_simp
    show RoundsTo (((m * 2 ^ e.toNat * 5 ^ (-e).toNat : Nat) : ℚ) * 10 ^ min e 0) m e
    rw [hexact]
    exact roundsTo_self m e

/-! ## The text of a decimal -/

theorem ofDigitChars_lt {digits : List Char} (h : ∀ c ∈ digits, c.isDigit = true) :
    Nat.ofDigitChars 10 digits 0 < 10 ^ digits.length := by
  induction digits with
  | nil => simp
  | cons c rest ih =>
    have hrest := ih fun d hd => h d (List.mem_cons_of_mem _ hd)
    have hc := Text.toNat_of_isDigit (h c (by simp))
    have hdigit : c.toNat - '0'.toNat ≤ 9 := Nat.sub_le_of_le_add hc.2
    rw [Nat.ofDigitChars_cons, Nat.ofDigitChars_eq_ofDigitChars_zero, List.length_cons, Nat.pow_succ,
      Nat.mul_zero, Nat.zero_add]
    have := Nat.mul_le_mul_left (10 ^ rest.length) hdigit
    omega

/-- The text of a decimal has digits and perhaps a point with digits on both sides, and has the
value of the decimal. -/
theorem positional_digits (d : Decimal) :
    ∃ whole fraction : List Char, whole ≠ [] ∧ (∀ c ∈ whole ++ fraction, c.isDigit = true) ∧
      d.positional = whole ++ (if fraction = [] then [] else '.' :: fraction) ∧
      (Nat.ofDigitChars 10 (whole ++ fraction) 0 : ℚ) * 10 ^ (-(fraction.length : Int)) =
        d.digits * 10 ^ d.exponent := by
  have hdigits : ∀ c ∈ Nat.toDigits 10 d.digits, c.isDigit = true := fun c hc =>
    Nat.isDigit_of_mem_toDigits (by decide) (by decide) hc
  have hzeros : ∀ n, ∀ c ∈ List.replicate n '0', c.isDigit = true := by
    intro n c hc
    rw [List.eq_of_mem_replicate hc]; rfl
  by_cases hplaces : (-d.exponent).toNat = 0
  · refine ⟨Nat.toDigits 10 d.digits ++ List.replicate d.exponent.toNat '0', [], ?_, ?_, ?_, ?_⟩
    · simp [Nat.toDigits_ne_nil]
    · intro c hc
      rw [List.append_nil] at hc
      exact (List.mem_append.mp hc).elim (hdigits c) (hzeros _ c)
    · simp [Decimal.positional, hplaces]
    · obtain ⟨n, hn⟩ : ∃ n : Nat, d.exponent = n := ⟨d.exponent.toNat, by omega⟩
      rw [List.append_nil, Nat.ofDigitChars_append, Nat.ofDigitChars_ten_toDigits,
        Nat.ofDigitChars_replicate_zero, hn]
      simp [mul_comm]
  · -- Zeros fill the digits up to one place more than the fraction has.
    obtain ⟨n, hn⟩ : ∃ n : Nat, d.exponent = -n := ⟨(-d.exponent).toNat, by omega⟩
    have hn' : (-d.exponent).toNat = n := by omega
    obtain ⟨padded, hpadded⟩ : ∃ padded, padded =
      List.replicate (n + 1 - (Nat.toDigits 10 d.digits).length) '0' ++ Nat.toDigits 10 d.digits :=
      ⟨_, rfl⟩
    have hlen : n + 1 ≤ padded.length := by
      rw [hpadded, List.length_append, List.length_replicate]; omega
    have hdrop : (padded.drop (padded.length - n)).length = n := by
      rw [List.length_drop]; omega
    refine ⟨padded.take (padded.length - n), padded.drop (padded.length - n), ?_, ?_, ?_, ?_⟩
    · intro h
      have := congrArg List.length h
      rw [List.length_take, List.length_nil] at this
      omega
    · rw [List.take_append_drop, hpadded]
      exact fun c hc => (List.mem_append.mp hc).elim (hzeros _ c) (hdigits c)
    · have hne : padded.drop (padded.length - n) ≠ [] := by
        intro h
        rw [h] at hdrop; exact hplaces (by rw [hn', ← hdrop]; rfl)
      rw [if_neg hne, Decimal.positional, if_neg hplaces, hn', ← hpadded]
    · rw [List.take_append_drop, hdrop, hpadded, Nat.ofDigitChars_append,
        Nat.ofDigitChars_replicate_zero, Nat.mul_zero, Nat.ofDigitChars_ten_toDigits, hn]

theorem takeWhile_isDigit_append {digits : List Char} (h : ∀ c ∈ digits, c.isDigit = true)
    (rest : List Char) (hrest : ∀ c ∈ rest.head?, c.isDigit = false) :
    (digits ++ rest).takeWhile Char.isDigit = digits ∧
      (digits ++ rest).dropWhile Char.isDigit = rest := by
  rw [List.takeWhile_append_of_pos h, List.dropWhile_append_of_pos h]
  cases rest with
  | nil => simp
  | cons c rest => simp [hrest c rfl]

theorem readDecimal?_digits (negative : Bool) {whole fraction : List Char} (hne : whole ≠ [])
    (h : ∀ c ∈ whole ++ fraction, c.isDigit = true) :
    readDecimal? negative (whole ++ (if fraction = [] then [] else '.' :: fraction)) =
      some (.decimal negative (Nat.ofDigitChars 10 (whole ++ fraction) 0) (-fraction.length)) := by
  have hwhole : ∀ c ∈ whole, c.isDigit = true := fun c hc => h c (List.mem_append_left _ hc)
  have hfraction : ∀ c ∈ fraction, c.isDigit = true := fun c hc => h c (List.mem_append_right _ hc)
  split
  · subst fraction
    obtain ⟨htake, hdrop⟩ := takeWhile_isDigit_append hwhole [] (by simp)
    rw [List.append_nil] at htake hdrop
    simp [readDecimal?, htake, hdrop, hne, readExponent?]
  · obtain ⟨htake, hdrop⟩ := takeWhile_isDigit_append hwhole ('.' :: fraction) (by simp)
    obtain ⟨htake', hdrop'⟩ := takeWhile_isDigit_append hfraction [] (by simp)
    rw [List.append_nil] at htake' hdrop'
    simp [readDecimal?, htake, hdrop, htake', hdrop', hne, readExponent?]

theorem read?_digits (negative : Bool) {c : Char} (rest : List Char) (hc : c.isDigit = true) :
    Literal.read? ((if negative then ['-'] else []) ++ c :: rest) =
      readDecimal? negative (c :: rest) := by
  have hsign : readSign ((if negative then ['-'] else []) ++ c :: rest) = (negative, c :: rest) := by
    cases negative with
    | true => rfl
    | false =>
      show readSign (c :: rest) = _
      unfold readSign
      split
      · rename_i heq; injection heq with heq; subst heq; cases hc
      · rename_i heq; injection heq with heq; subst heq; cases hc
      · rfl
  have hlower : c.toLower = c := by
    simp only [Char.isDigit, Bool.and_eq_true, decide_eq_true_eq] at hc
    rw [Char.toLower, dif_neg]
    intro h
    exact absurd (Nat.le_trans h.1 hc.2) (by decide)
  have hne : ∀ d : Char, d.isDigit = false → ∀ l, c :: rest.map Char.toLower ≠ d :: l := by
    rintro d hd l heq
    injection heq with heq
    rw [heq, hd] at hc
    cases hc
  unfold Literal.read?
  simp only [hsign, List.map_cons, hlower]
  rw [if_neg (not_or.mpr ⟨hne _ rfl _, hne _ rfl _⟩), if_neg (hne _ rfl _)]

/-! ## Reading back -/

/-- What the cut at small exponents leaves out is less than half of the least positive number. -/
private theorem cut_le_half_least : (2 : ℚ) * 10 ^ (-401 : Int) ≤ 2 ^ (-1075 : Int) := by
  have hpow : (2 : ℚ) ^ (1 + 1075) ≤ 10 ^ 401 :=
    calc (2 : ℚ) ^ (1 + 1075) ≤ 2 ^ (3 * 401) := by gcongr <;> norm_num
      _ = (2 ^ 3) ^ 401 := pow_mul ..
      _ ≤ 10 ^ 401 := by gcongr; norm_num
  rw [pow_add, pow_one] at hpow
  rw [zpow_neg, zpow_neg, ← div_eq_mul_inv, div_le_iff₀ (by positivity), ← div_eq_inv_mul,
    le_div_iff₀ (by positivity)]
  exact_mod_cast hpow

/-- A decimal that rounds to a number of double precision is read as it. -/
theorem roundDecimal_eq (negative : Bool) {digits m : Nat} {exponent e : Int} (hm : m ≠ 0)
    (hc : Format.double.IsCanonical m e) (h : RoundsTo (digits * 10 ^ exponent) m e)
    (hexponent : exponent ≤ 0) :
    roundDecimal Binary64.ofRatio negative digits exponent = .finite negative m e hc := by
  have hle : -1074 ≤ e := hc.2.1
  have hm' : (1 : ℚ) ≤ m := by exact_mod_cast Nat.pos_of_ne_zero hm
  have hleast : (2 : ℚ) ^ (-1075 : Int) ≤ digits * 10 ^ exponent := by
    have hpow : (0 : ℚ) < 2 ^ e := by positivity
    have hhalf : (1 / 2 : ℚ) ≤ digits * 10 ^ exponent / 2 ^ e := by linarith [h.near.low]
    calc (2 : ℚ) ^ (-1075 : Int) = 1 / 2 * 2 ^ (-1074 : Int) := by
          rw [show (-1075 : Int) = -1 + -1074 by rfl, zpow_add₀ (by norm_num), zpow_neg_one, one_div]
      _ ≤ 1 / 2 * 2 ^ e := by gcongr; norm_num
      _ ≤ digits * 10 ^ exponent := (le_div_iff₀ hpow).mp hhalf
  have hdigits : digits ≠ 0 := by
    rintro rfl
    have : (0 : ℚ) < 2 ^ (-1075 : Int) := by positivity
    simp only [Nat.cast_zero, zero_mul] at hleast
    linarith
  -- The number is too great for the cut at small exponents.
  have hcut : ¬exponent + digits.log2 < -400 := by
    intro hlt
    have hlog : (digits : ℚ) < 2 * 10 ^ digits.log2 := by
      calc (digits : ℚ) < 2 ^ (digits.log2 + 1) := by exact_mod_cast Nat.lt_log2_self
        _ = 2 * 2 ^ digits.log2 := by ring
        _ ≤ 2 * 10 ^ digits.log2 := by gcongr; norm_num
    have hsmall : (digits : ℚ) * 10 ^ exponent < 2 * 10 ^ (-401 : Int) := by
      calc (digits : ℚ) * 10 ^ exponent < 2 * 10 ^ digits.log2 * 10 ^ exponent := by gcongr
        _ = 2 * 10 ^ (exponent + digits.log2) := by
          rw [add_comm, zpow_add₀ (by norm_num), zpow_natCast]; ring
        _ ≤ 2 * 10 ^ (-401 : Int) := by gcongr <;> [norm_num; omega]
    exact absurd (hleast.trans_lt hsmall) (not_lt.mpr cut_le_half_least)
  have hround : Format.double.round (digits * 10 ^ exponent.toNat) (10 ^ (-exponent).toNat) =
      (m, e) :=
    Format.round_eq (by positivity) (by positivity) hc (by rw [cast_decimal_div]; exact h)
  rw [roundDecimal, if_neg (not_or.mpr ⟨hdigits, hcut⟩), if_neg (by omega), Binary64.ofRatio, hround]
  exact dif_pos hc

end RecordQuery.Number

namespace RecordQuery

open Number

/-- The text of a finite number is perhaps a minus sign, then digits and perhaps a point with digits
on both sides, and the number is what they round to. -/
theorem Binary64.text_finite (negative : Bool) (m : Nat) (e : Int)
    (hc : Format.double.IsCanonical m e) :
    ∃ whole fraction : List Char, whole ≠ [] ∧ (∀ c ∈ whole ++ fraction, c.isDigit = true) ∧
      Binary64.text (.finite negative m e hc) = (if negative then ['-'] else []) ++
        (whole ++ (if fraction = [] then [] else '.' :: fraction)) ∧
      roundDecimal ofRatio negative (Nat.ofDigitChars 10 (whole ++ fraction) 0) (-fraction.length) =
        .finite negative m e hc := by
  by_cases hm : m = 0
  · subst hm
    obtain rfl : e = -1074 := hc.2.2.2.resolve_left (by decide)
    exact ⟨['0'], [], by simp, by simp, by simp [Binary64.text], by
      simp [roundDecimal, Nat.ofDigitChars_cons, Binary64.zero]⟩
  · obtain ⟨whole, fraction, hne, hdigits, htext, hvalue⟩ := positional_digits (shortest .up m e)
    refine ⟨whole, fraction, hne, hdigits, by rw [Binary64.text, if_neg hm, htext], ?_⟩
    refine roundDecimal_eq negative hm hc ?_ (by omega)
    rw [hvalue]
    exact shortest_roundsTo .up hm e

theorem Binary64.readFinite?_text {x : Binary64} (h : x.isFinite = true) :
    Binary64.readFinite? x.text = some x := by
  rcases x with _ | _ | ⟨negative, m, e, hc⟩
  · cases h
  · cases h
  · obtain ⟨whole, fraction, hne, hdigits, htext, hvalue⟩ := Binary64.text_finite negative m e hc
    have hread : Literal.read? (Binary64.text (.finite negative m e hc)) =
        some (.decimal negative (Nat.ofDigitChars 10 (whole ++ fraction) 0) (-fraction.length)) := by
      obtain ⟨c, rest, rfl⟩ := List.exists_cons_of_ne_nil hne
      rw [htext, List.cons_append, read?_digits negative _ (hdigits c (by simp)), ← List.cons_append,
        readDecimal?_digits negative hne hdigits]
    rw [Binary64.readFinite?, Binary64.read?, hread]
    simp only [Option.map_some, Literal.toBinary64, Literal.round, hvalue]
    rfl

/-- The text of a finite number is not empty and has digits, a minus sign and a point alone. -/
theorem Binary64.text_chars {x : Binary64} (h : x.isFinite = true) :
    (∃ c ∈ x.text.head?, c.isDigit = true ∨ c = '-') ∧
      ∀ c ∈ x.text, c.isDigit = true ∨ c = '-' ∨ c = '.' := by
  rcases x with _ | _ | ⟨negative, m, e, hc⟩
  · cases h
  · cases h
  · obtain ⟨whole, fraction, hne, hdigits, htext, -⟩ := Binary64.text_finite negative m e hc
    obtain ⟨c, rest, rfl⟩ := List.exists_cons_of_ne_nil hne
    rw [htext]
    constructor
    · cases negative with
      | true => exact ⟨'-', rfl, .inr rfl⟩
      | false => exact ⟨c, rfl, .inl (hdigits c (by simp))⟩
    · intro d hd
      rcases List.mem_append.mp hd with hd | hd
      · cases negative with
        | true => exact .inr (.inl (List.mem_singleton.mp hd))
        | false => cases hd
      · rcases List.mem_append.mp hd with hd | hd
        · exact .inl (hdigits d (List.mem_append_left _ hd))
        · split at hd
          · cases hd
          · rcases List.mem_cons.mp hd with rfl | hd
            · exact .inr (.inr rfl)
            · exact .inl (hdigits d (List.mem_append_right _ hd))

end RecordQuery
