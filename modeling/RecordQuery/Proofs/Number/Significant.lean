import RecordQuery.Proofs.Filter.Spelling
import RecordQuery.Proofs.Number.Shortest
import RecordQuery.Proofs.Text.Trim

/-!
# The significant digits of numerals

* `significantDigits`: the digits of a numeral before its exponent, without the zeros at both ends.
* `exists_decimal_of_readNumber?`: what is read from a text is what its significant digits round to
  at some power of ten.
* `length_significantDigits_text_le`: the text of a number has no more than the digits of its
  shortest decimal.
* `length_significantDigits_text_min`: so no text of fewer significant digits is read as the number.
* `Binary64.text_word_of_fewest_digits`: the text of a number as a word of a filter.
-/

namespace RecordQuery.Number

open Text (dropEnds isBlank)

/-! ## Digits before the exponent -/

/-- A character that does not begin an exponent. -/
def isBeforeExponent (c : Char) : Bool := c ≠ 'e' && c ≠ 'E'

/-- The digits of a numeral before its exponent. -/
def mantissaDigits (text : List Char) : List Char :=
  (text.takeWhile isBeforeExponent).filter Char.isDigit

/-- The digits of a numeral before its exponent, without the zeros at both ends. -/
def significantDigits (text : List Char) : List Char := dropEnds (· == '0') (mantissaDigits text)

theorem isBeforeExponent_of_isDigit {c : Char} (h : c.isDigit = true) :
    isBeforeExponent c = true := by
  simp only [isBeforeExponent, Bool.and_eq_true, decide_eq_true_eq]
  constructor <;> rintro rfl <;> cases h

theorem isBeforeExponent_of_isBlank {c : Char} (h : isBlank c = true) :
    isBeforeExponent c = true := by
  simp only [isBeforeExponent, Bool.and_eq_true, decide_eq_true_eq]
  constructor <;> rintro rfl <;> revert h <;> decide

theorem mantissaDigits_of_all {text : List Char} (h : ∀ c ∈ text, isBeforeExponent c = true) :
    mantissaDigits text = text.filter Char.isDigit := by
  rw [mantissaDigits, List.takeWhile_eq_self_iff.mpr h]

theorem mantissaDigits_append {before : List Char} (h : ∀ c ∈ before, isBeforeExponent c = true)
    (text : List Char) :
    mantissaDigits (before ++ text) = before.filter Char.isDigit ++ mantissaDigits text := by
  rw [mantissaDigits, List.takeWhile_append_of_pos h, List.filter_append, mantissaDigits]

theorem mantissaDigits_trim (text : List Char) : mantissaDigits (Text.trim text) = mantissaDigits text := by
  obtain ⟨before, after, htext, hbefore, hafter⟩ := Text.exists_dropEnds isBlank text
  have hnone : ∀ blanks : List Char, (∀ c ∈ blanks, isBlank c = true) →
      blanks.filter Char.isDigit = [] := by
    intro blanks hblanks
    refine List.filter_eq_nil_iff.mpr fun c hc hdigit => ?_
    have := Text.isBlank_of_isDigit hdigit
    rw [hblanks c hc] at this
    cases this
  rw [Text.trim_eq_dropEnds]
  generalize dropEnds isBlank text = trimmed at *
  rw [htext, List.append_assoc,
    mantissaDigits_append fun c hc => isBeforeExponent_of_isBlank (hbefore c hc), hnone _ hbefore,
    List.nil_append, mantissaDigits, mantissaDigits, List.takeWhile_append]
  split
  · rw [List.takeWhile_eq_self_iff.mpr fun c hc => isBeforeExponent_of_isBlank (hafter c hc),
      List.filter_append, hnone _ hafter, List.append_nil,
      (List.takeWhile_prefix _).eq_of_length ‹_›]
  · rfl

/-- The value of digits is that of the significant ones, up to a power of ten. -/
theorem exists_ofDigitChars_eq (digits : List Char) :
    ∃ k, Nat.ofDigitChars 10 digits 0 =
      Nat.ofDigitChars 10 (dropEnds (· == '0') digits) 0 * 10 ^ k := by
  obtain ⟨before, after, hdigits, hbefore, hafter⟩ := Text.exists_dropEnds (· == '0') digits
  have hzeros : ∀ zeros : List Char, (∀ c ∈ zeros, (c == '0') = true) →
      zeros = List.replicate zeros.length '0' := by
    intro zeros h
    exact List.eq_replicate_iff.mpr ⟨rfl, fun c hc => by simpa using h c hc⟩
  refine ⟨after.length, ?_⟩
  generalize dropEnds (· == '0') digits = significant at *
  rw [hdigits, hzeros before hbefore, hzeros after hafter, Nat.ofDigitChars_append,
    Nat.ofDigitChars_append, Nat.ofDigitChars_replicate_zero, Nat.ofDigitChars_replicate_zero,
    Nat.mul_zero, List.length_replicate, Nat.mul_comm]

/-! ## Digits that are read -/

theorem mantissaDigits_digits {digits : List Char} (h : ∀ c ∈ digits, c.isDigit = true)
    (rest : List Char) : mantissaDigits (digits ++ rest) = digits ++ mantissaDigits rest := by
  rw [mantissaDigits_append fun c hc => isBeforeExponent_of_isDigit (h c hc),
    List.filter_eq_self.mpr h]

theorem mantissaDigits_readSign (text : List Char) :
    mantissaDigits (readSign text).2 = mantissaDigits text := by
  unfold readSign
  split <;> rfl

/-- What ends a literal has no digits before its exponent. -/
theorem mantissaDigits_of_readExponent? {value : List Char → Nat} {text : List Char} {n : Int}
    (h : readExponent? value text = some n) : mantissaDigits text = [] := by
  cases text with
  | nil => rfl
  | cons c rest =>
    simp only [readExponent?] at h
    split at h
    · rename_i hexponent
      rcases hexponent.1 with rfl | rfl <;> rfl
    · cases h

/-- The digits of a decimal are those of its text before the exponent. -/
theorem digits_of_readDecimal? {negative negative' : Bool} {text : List Char} {digits : Nat}
    {exponent : Int} (h : readDecimal? negative text = some (.decimal negative' digits exponent)) :
    digits = Nat.ofDigitChars 10 (mantissaDigits text) 0 := by
  have hsplit (cs : List Char) : mantissaDigits cs =
      cs.takeWhile Char.isDigit ++ mantissaDigits (cs.dropWhile Char.isDigit) := by
    rw [← mantissaDigits_digits fun c => List.mem_takeWhile_imp, List.takeWhile_append_dropWhile]
  rw [hsplit]
  simp only [readDecimal?] at h
  generalize text.takeWhile Char.isDigit = whole at h ⊢
  generalize text.dropWhile Char.isDigit = rest at h ⊢
  split at h <;> split at h
  · cases h
  · rename_i more _
    obtain ⟨n, hn, hliteral⟩ := Option.map_eq_some_iff.mp h
    injection hliteral with _ hdigits
    rw [← hdigits]
    show _ = Nat.ofDigitChars 10 (whole ++ mantissaDigits more) 0
    rw [hsplit more, mantissaDigits_of_readExponent? hn, List.append_nil]
  · cases h
  · obtain ⟨n, hn, hliteral⟩ := Option.map_eq_some_iff.mp h
    injection hliteral with _ hdigits
    rw [← hdigits, mantissaDigits_of_readExponent? hn]

theorem digits_of_read? {text : List Char} {negative : Bool} {digits : Nat} {exponent : Int}
    (h : Literal.read? text = some (.decimal negative digits exponent)) :
    digits = Nat.ofDigitChars 10 (mantissaDigits text) 0 := by
  unfold Literal.read? at h
  simp only at h
  split at h
  · cases h
  · split at h
    · cases h
    · rw [digits_of_readDecimal? h, mantissaDigits_readSign]

/-- What is read from a text is what its significant digits round to at some power of ten. -/
theorem exists_decimal_of_readNumber? {text : List Char} {negative : Bool} {m : Nat} {e : Int}
    {hc : Format.double.IsCanonical m e}
    (h : Value.readNumber? text = some (.finite negative m e hc)) (hm : m ≠ 0) :
    ∃ (d : Nat) (j : Int), d < 10 ^ (significantDigits text).length ∧ RoundsTo (d * 10 ^ j) m e := by
  obtain ⟨hread, -⟩ := Option.filter_eq_some_iff.mp h
  obtain ⟨literal, hliteral, hround⟩ := Option.map_eq_some_iff.mp hread
  cases literal with
  | infinity => cases hround
  | nan => cases hround
  | decimal negative' digits exponent =>
    obtain ⟨k, hk⟩ := exists_ofDigitChars_eq (mantissaDigits text)
    have hdigits := digits_of_read? hliteral
    rw [mantissaDigits_trim, hk] at hdigits
    refine ⟨Nat.ofDigitChars 10 (significantDigits text) 0, k + exponent, ?_, ?_⟩
    · exact ofDigitChars_lt fun c hc =>
        (List.mem_filter.mp ((Text.dropEnds_infix _ _).subset hc)).2
    · have := roundsTo_of_roundDecimal hm hround
      rw [hdigits] at this
      rw [zpow_add₀ (by norm_num), zpow_natCast, ← mul_assoc]
      exact_mod_cast this

/-! ## Digits that are written -/

/-- The digits in the text of a decimal are its own, with zeros before and after them. -/
theorem exists_filter_positional (d : Decimal) :
    ∃ before after, d.positional.filter Char.isDigit =
      List.replicate before '0' ++ Nat.toDigits 10 d.digits ++ List.replicate after '0' := by
  have hdigits : (Nat.toDigits 10 d.digits).filter Char.isDigit = Nat.toDigits 10 d.digits :=
    List.filter_eq_self.mpr fun c => Nat.isDigit_of_mem_toDigits (by decide) (by decide)
  have hzeros (n : Nat) : (List.replicate n '0').filter Char.isDigit = List.replicate n '0' :=
    List.filter_eq_self.mpr fun c hc => by rw [List.eq_of_mem_replicate hc]; rfl
  by_cases hplaces : (-d.exponent).toNat = 0
  · exact ⟨0, d.exponent.toNat, by
      rw [Decimal.positional, if_pos hplaces, List.filter_append, hdigits, hzeros]; rfl⟩
  · refine ⟨(-d.exponent).toNat + 1 - (Nat.toDigits 10 d.digits).length, 0, ?_⟩
    rw [Decimal.positional, if_neg hplaces, List.filter_append,
      List.filter_cons_of_neg (by decide), ← List.filter_append, List.take_append_drop,
      List.filter_append, hzeros, hdigits, List.replicate_zero, List.append_nil]

/-- The text of a number has no more significant digits than its shortest decimal has digits. -/
theorem length_significantDigits_text_le (negative : Bool) {m : Nat} {e : Int}
    (hc : Format.double.IsCanonical m e) (hm : m ≠ 0) :
    (significantDigits (Binary64.text (.finite negative m e hc))).length ≤
      (Nat.toDigits 10 (shortest .up m e).digits).length := by
  have hchars := (Binary64.text_chars (x := .finite negative m e hc) rfl).2
  obtain ⟨before, after, hfilter⟩ := exists_filter_positional (shortest .up m e)
  have hzeros (n : Nat) : ∀ c ∈ List.replicate n '0', (c == '0') = true := by
    intro c hc
    rw [List.eq_of_mem_replicate hc]; rfl
  have hdigits : mantissaDigits (Binary64.text (.finite negative m e hc)) =
      List.replicate before '0' ++ Nat.toDigits 10 (shortest .up m e).digits ++
        List.replicate after '0' := by
    rw [mantissaDigits_of_all, Binary64.text, if_neg hm, List.filter_append, hfilter]
    · cases negative <;> rfl
    · intro c hc
      rcases hchars c hc with hdigit | rfl | rfl
      · exact isBeforeExponent_of_isDigit hdigit
      · rfl
      · rfl
  rw [significantDigits, hdigits, Text.dropEnds_append (hzeros before) (hzeros after)]
  exact (Text.dropEnds_infix _ _).length_le

theorem length_significantDigits_text_min {x : Binary64} {text : List Char}
    (h : Value.readNumber? text = some x) :
    (significantDigits x.text).length ≤ (significantDigits text).length := by
  have hfinite : x.isFinite = true := (Option.filter_eq_some_iff.mp h).2
  rcases x with _ | _ | ⟨negative, m, e, hc⟩
  · cases hfinite
  · cases hfinite
  · by_cases hm : m = 0
    · have hzero : significantDigits (Binary64.text (.finite negative m e hc)) = [] := by
        rw [Binary64.text, if_pos hm]
        cases negative <;> rfl
      rw [hzero]
      exact Nat.zero_le _
    · obtain ⟨d, j, hd, hrounds⟩ := exists_decimal_of_readNumber? h hm
      have hlength : 0 < (significantDigits text).length := by
        by_contra hnone
        rw [Nat.eq_zero_of_not_pos hnone, Nat.pow_zero, Nat.lt_one_iff] at hd
        have := hrounds.pos hm
        simp [hd] at this
      calc (significantDigits (Binary64.text (.finite negative m e hc))).length
          ≤ (Nat.toDigits 10 (shortest .up m e).digits).length :=
            length_significantDigits_text_le negative hc hm
        _ ≤ (significantDigits text).length :=
            (Nat.length_toDigits_le_iff (by decide) hlength).mpr
              (shortest_lt .up hm hc.2.1 hd hrounds)

end RecordQuery.Number

namespace RecordQuery

open Number (significantDigits)

/-! ## The text of a number as a word -/

/-- The text of a finite number is perhaps a minus sign, then digits and perhaps a point with digits
on both sides. It is one word, which stands for the very number, and nothing of fewer significant
digits is read as it. -/
theorem Binary64.text_word_of_fewest_digits {x : Binary64} (h : x.isFinite = true) :
    (∃ (negative : Bool) (whole fraction : List Char), whole ≠ [] ∧
      (∀ c ∈ whole ++ fraction, c.isDigit = true) ∧
      x.text = (if negative then ['-'] else []) ++
        (whole ++ (if fraction = [] then [] else '.' :: fraction))) ∧
    Filter.tokenize (String.ofList x.text) = .ok [⟨.word (String.ofList x.text), 0⟩] ∧
    Value.ofWord (String.ofList x.text) = .number x ∧
    ∀ text : List Char, Value.readNumber? text = some x →
      (significantDigits x.text).length ≤ (significantDigits text).length := by
  refine ⟨?_, ?_, Value.ofWord_text h, fun text => Number.length_significantDigits_text_min⟩
  · rcases x with _ | _ | ⟨negative, m, e, hc⟩
    · cases h
    · cases h
    · obtain ⟨whole, fraction, hne, hdigits, htext, -⟩ := Binary64.text_finite negative m e hc
      exact ⟨negative, whole, fraction, hne, hdigits, htext⟩
  · have hlayout : Filter.Layout 0 _ [⟨(Value.number x).lexeme, 0⟩] := .lexeme
      (Value.isWritten_lexeme h) (Filter.Lexeme.endsBefore_of_isSeam Filter.isSeam_nil _) .nil
    have hscan := hlayout.scan (s := Filter.Scanner.start) rfl trivial
    rw [List.append_nil, Value.lexeme_chars] at hscan
    rw [Filter.tokenize, String.toList_ofList]
    exact hscan

/-- The least positive number has one significant digit in 326 characters; the negative zero keeps
its sign. -/
theorem Binary64.text_word_of_fewest_digits_least :
    (∃ hc, (Binary64.finite false 1 (-1074) hc).isFinite = true ∧
      (Binary64.finite false 1 (-1074) hc).text.length = 326 ∧
      significantDigits (Binary64.finite false 1 (-1074) hc).text = ['5'] ∧
      Value.ofWord (String.ofList (Binary64.finite false 1 (-1074) hc).text) =
        .number (.finite false 1 (-1074) hc)) ∧
    Value.ofWord (String.ofList (Binary64.zero true).text) = .number (.zero true) := by
  refine ⟨⟨by decide +kernel, rfl, by decide +kernel, by decide +kernel, ?_⟩, ?_⟩
  · exact (Binary64.text_word_of_fewest_digits rfl).2.2.1
  · exact (Binary64.text_word_of_fewest_digits (x := .zero true) rfl).2.2.1

end RecordQuery
