import RecordQuery.Text.Hexadecimal
import RecordQuery.Text.Utf8

/-!
# Form encoding

The encoding of names and values in the query part of an address.

* `Text.formEncode`: letters, digits and `*-._` stand for themselves, a blank becomes `+`, and
  every other byte of the text's UTF-8 form becomes `%` and two upper case hexadecimal digits.
* `Text.formDecode`: `+` is a blank, `%` and two hexadecimal digits are a byte, and all else
  stands for itself; bytes that are not UTF-8 become U+FFFD.
* `Text.formPairs`: the names and values of a query, cut at `&` and then at the first `=`.
* `Text.formDecode_formEncode`: a text comes back from its encoding.
-/

namespace RecordQuery.Text

/-- Letters, digits and `*-._` stand for themselves in form encoding. -/
def isFormPlain (c : Char) : Bool := c.isAlphanum || ['*', '-', '.', '_'].contains c

/-- A percent sign and the two upper case hexadecimal digits of a byte. -/
def percentByte (b : UInt8) : List Char :=
  ['%', (hexDigit (b.toNat / 16)).toUpper, (hexDigit (b.toNat % 16)).toUpper]

/-- The form encoding of one character. -/
def formEncodeChar (c : Char) : List Char :=
  if c = ' ' then ['+']
  else if isFormPlain c then [c]
  else (String.utf8EncodeChar c).flatMap percentByte

/-- The form encoding of a text. -/
def formEncode (text : List Char) : List Char := text.flatMap formEncodeChar

/-- The bytes that a form-encoded text stands for. A percent sign that two hexadecimal digits do
not follow stands for itself. -/
def formBytes : List Char → List UInt8
  | [] => []
  | '+' :: rest => 0x20 :: formBytes rest
  | '%' :: high :: low :: rest =>
    match hexValue? high, hexValue? low with
    | some h, some l => UInt8.ofNat (16 * h + l) :: formBytes rest
    | _, _ => 0x25 :: formBytes (high :: low :: rest)
  | c :: rest => String.utf8EncodeChar c ++ formBytes rest

/-- The text that a form-encoded text stands for. -/
def formDecode (text : List Char) : List Char := decodeLossy (formBytes text)

/-- The name and the value of one piece of a query, still encoded: the value is what follows the
first `=`, and empty if there is none. -/
def formPair (piece : List Char) : List Char × List Char :=
  (piece.takeWhile (· ≠ '='), (piece.dropWhile (· ≠ '=')).drop 1)

/-- The names and values of a query, decoded. Empty pieces stand for nothing. -/
def formPairs (query : List Char) : List (List Char × List Char) :=
  ((query.splitOn '&').filter fun piece => !piece.isEmpty).map fun piece =>
    let (name, value) := formPair piece
    (formDecode name, formDecode value)

/-! ## Reading back -/

/-- A percent sign and two digits are read as the byte they write. -/
theorem formBytes_percentByte (b : UInt8) (rest : List Char) :
    formBytes (percentByte b ++ rest) = b :: formBytes rest := by
  have high : b.toNat / 16 < 16 := by have := b.toNat_lt; omega
  have low : b.toNat % 16 < 16 := by omega
  simp only [percentByte, List.cons_append, List.nil_append, formBytes,
    hexValue?_toUpper_hexDigit high, hexValue?_toUpper_hexDigit low]
  rw [Nat.div_add_mod, UInt8.ofNat_toNat]

theorem formBytes_of_ne {c : Char} (plus : c ≠ '+') (percent : c ≠ '%') (rest : List Char) :
    formBytes (c :: rest) = String.utf8EncodeChar c ++ formBytes rest := by
  rw [formBytes]
  · exact plus
  · intro _ _ _ eq
    exact absurd eq percent

theorem formBytes_plain {c : Char} (h : isFormPlain c = true) (rest : List Char) :
    formBytes (c :: rest) = String.utf8EncodeChar c ++ formBytes rest := by
  have plus : c ≠ '+' := by rintro rfl; revert h; decide
  have percent : c ≠ '%' := by rintro rfl; revert h; decide
  exact formBytes_of_ne plus percent rest

theorem formBytes_formEncodeChar (c : Char) (rest : List Char) :
    formBytes (formEncodeChar c ++ rest) = String.utf8EncodeChar c ++ formBytes rest := by
  unfold formEncodeChar
  split
  · next h => subst h; rfl
  · split
    · next h => exact formBytes_plain h rest
    · generalize String.utf8EncodeChar c = bytes
      induction bytes with
      | nil => rfl
      | cons b bytes ih =>
        rw [List.flatMap_cons, List.append_assoc, formBytes_percentByte, ih, List.cons_append]

theorem formBytes_formEncode (text : List Char) : formBytes (formEncode text) = utf8 text := by
  induction text with
  | nil => rfl
  | cons c text ih =>
    simp only [formEncode, utf8, List.flatMap_cons] at *
    rw [formBytes_formEncodeChar, ih]

/-- A text comes back from its encoding, also where it holds the characters that the encoding
uses. -/
theorem formDecode_formEncode (text : List Char) : formDecode (formEncode text) = text := by
  rw [formDecode, formBytes_formEncode, decodeLossy_utf8]

theorem formBytes_eq_utf8 {text : List Char} (h : ∀ c ∈ text, c ≠ '+' ∧ c ≠ '%') :
    formBytes text = utf8 text := by
  induction text with
  | nil => rfl
  | cons c rest ih =>
    obtain ⟨plus, percent⟩ := h c (by simp)
    rw [formBytes_of_ne plus percent, ih fun d hd => h d (by simp [hd])]
    rfl

/-- A text without `+` and `%` stands for itself. -/
theorem formDecode_of_ne {text : List Char} (h : ∀ c ∈ text, c ≠ '+' ∧ c ≠ '%') :
    formDecode text = text := by
  rw [formDecode, formBytes_eq_utf8 h, decodeLossy_utf8]

/-! ## Queries -/

private theorem isFormPlain_toUpper_hexDigit :
    ∀ n < 16, isFormPlain (hexDigit n).toUpper = true := by decide

/-- The characters of an encoding stand for themselves, for a blank or before digits. -/
theorem isFormPlain_of_mem_formEncode {text : List Char} {c : Char} (h : c ∈ formEncode text) :
    isFormPlain c = true ∨ c = '+' ∨ c = '%' := by
  obtain ⟨d, -, hc⟩ := List.mem_flatMap.mp h
  unfold formEncodeChar at hc
  split at hc
  · exact .inr (.inl (List.mem_singleton.mp hc))
  · split at hc
    · rw [List.mem_singleton.mp hc]
      exact .inl ‹_›
    · obtain ⟨b, -, hb⟩ := List.mem_flatMap.mp hc
      have := b.toNat_lt
      rcases List.mem_cons.mp hb with rfl | hb
      · exact .inr (.inr rfl)
      · rcases List.mem_cons.mp hb with rfl | hb
        · exact .inl (isFormPlain_toUpper_hexDigit _ (by omega))
        · rw [List.mem_singleton.mp hb]
          exact .inl (isFormPlain_toUpper_hexDigit _ (by omega))

/-- An encoding does not part a query. -/
theorem ampersand_not_mem_formEncode (text : List Char) : '&' ∉ formEncode text := by
  intro h
  rcases isFormPlain_of_mem_formEncode h with h | h | h <;> revert h <;> decide

theorem formPair_append {name : List Char} (h : '=' ∉ name) (value : List Char) :
    formPair (name ++ '=' :: value) = (name, value) := by
  have hname : ∀ c ∈ name, decide (c ≠ '=') = true := by
    intro c hc
    refine decide_eq_true ?_
    rintro rfl
    exact h hc
  rw [formPair, List.takeWhile_append_of_pos hname, List.dropWhile_append_of_pos hname]
  simp

end RecordQuery.Text
