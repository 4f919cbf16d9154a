import RecordQuery.Filter.Printer
import RecordQuery.Proofs.Filter.Grammar
import RecordQuery.Proofs.Filter.Layout
import RecordQuery.Proofs.Filter.Shape
import RecordQuery.Proofs.Number.ReadBack

/-!
# The lexemes of a filter

* `Value.lexeme`, `Condition.lexemes`, `Filter.lexemes`: the lexemes in the text of a value, a
  condition and a filter.
* `Value.isValue_lexeme`, `Condition.isCondition_lexemes`: they write it, dates as texts.
* `Condition.spelled`, `Filter.spelled`: the text is those lexemes with blanks between them.
-/

namespace RecordQuery

open RecordQuery.Filter (Lexeme Spelled IsSeam isWordChar isWritten_word)

/-! ## Characters of words -/

/-- The visible characters of ASCII but parentheses, comma and quote are those of words. -/
theorem isWordChar_of_visible {c : Char} (h : 0x21 ≤ c.toNat) (h' : c.toNat ≤ 0x7E)
    (hne : c.toNat ≠ 0x27 ∧ c.toNat ≠ 0x28 ∧ c.toNat ≠ 0x29 ∧ c.toNat ≠ 0x2C) :
    isWordChar c = true := by
  obtain ⟨hquote, hopen, hclose, hcomma⟩ := hne
  simp only [isWordChar, Text.isBlank_of_visible h h', Bool.and_eq_true, Bool.not_false, true_and,
    decide_eq_true_eq]
  refine ⟨⟨⟨?_, ?_⟩, ?_⟩, ?_⟩ <;> rintro rfl <;> contradiction

theorem isWordChar_of_isDigit {c : Char} (h : c.isDigit = true) : isWordChar c = true := by
  have hdigit := Text.toNat_of_isDigit h
  exact isWordChar_of_visible (by omega) (by omega) (by omega)

theorem isWordChar_of_isAlpha {c : Char} (h : c.isAlpha = true) : isWordChar c = true := by
  simp only [Char.isAlpha, Char.isUpper, Char.isLower, Bool.or_eq_true, Bool.and_eq_true,
    decide_eq_true_eq, ge_iff_le, UInt32.le_iff_toNat_le] at h
  have h' : (65 ≤ c.toNat ∧ c.toNat ≤ 90) ∨ (97 ≤ c.toNat ∧ c.toNat ≤ 122) := h
  exact isWordChar_of_visible (by omega) (by omega) (by omega)

theorem isWordChar_of_isNameStart {c : Char} (h : isNameStart c = true) : isWordChar c = true := by
  simp only [isNameStart, Bool.or_eq_true, beq_iff_eq] at h
  rcases h with (h | rfl) | rfl
  · exact isWordChar_of_isAlpha h
  · decide
  · decide

theorem isWordChar_of_isPathFrom {cs : List Char} {atStart : Bool}
    (h : isPathFrom atStart cs = true) : ∀ c ∈ cs, isWordChar c = true := by
  induction cs generalizing atStart with
  | nil => simp
  | cons d rest ih =>
    have hd : isWordChar d = true ∧ ∃ next, isPathFrom next rest = true := by
      unfold isPathFrom at h
      split at h
      · rw [Bool.and_eq_true] at h
        exact ⟨isWordChar_of_isNameStart h.1, _, h.2⟩
      · split at h
        · subst d
          exact ⟨by decide, _, h⟩
        · rw [Bool.and_eq_true, isNamePart, Bool.or_eq_true] at h
          exact ⟨h.1.elim isWordChar_of_isNameStart isWordChar_of_isDigit, _, h.2⟩
    obtain ⟨hd, next, hrest⟩ := hd
    intro c hc
    rcases List.mem_cons.mp hc with rfl | hc
    · exact hd
    · exact ih hrest c hc

/-- A property path is written as a word. -/
theorem isWritten_property {property : String} (h : isPropertyPath property = true) :
    (Lexeme.word property).IsWritten := by
  refine ⟨?_, isWordChar_of_isPathFrom h⟩
  intro hnil
  rw [isPropertyPath, hnil] at h
  cases h

/-! ## Values -/

namespace Value

/-- The lexeme of a value. -/
def lexeme : Value → Lexeme
  | .text s => .quoted s
  | .number x => .word (String.ofList x.text)
  | .bool b => .word (String.ofList (boolText b))
  | .date i => .quoted (String.ofList i.text)

@[simp] theorem lexeme_chars (v : Value) : v.lexeme.chars = v.literal := by
  cases v <;> simp [lexeme, Lexeme.chars, literal]

/-- The text of a finite number is written as a word. -/
theorem isWritten_text {x : Binary64} (h : x.isFinite = true) :
    (Lexeme.word (String.ofList x.text)).IsWritten := by
  obtain ⟨⟨c, hc, -⟩, hchars⟩ := Binary64.text_chars h
  simp only [Lexeme.IsWritten, String.toList_ofList]
  constructor
  · intro hnil
    rw [hnil] at hc
    cases hc
  · intro d hd
    rcases hchars d hd with hd | rfl | rfl
    · exact isWordChar_of_isDigit hd
    · decide
    · decide

theorem isWritten_lexeme {v : Value} (h : v.IsFinite) : v.lexeme.IsWritten := by
  cases v with
  | text | date => trivial
  | bool b => cases b <;> exact isWritten_word (by decide) (by decide)
  | number x => exact isWritten_text h

/-- A finite number is what its text stands for without quotes. -/
theorem ofWord_text {x : Binary64} (h : x.isFinite = true) :
    ofWord (String.ofList x.text) = .number x := by
  obtain ⟨⟨c, hc, hdigit⟩, -⟩ := Binary64.text_chars h
  have hne : ∀ w : String, ∀ d, w.toList.head? = some d → d.isDigit = false → d ≠ '-' →
      String.ofList x.text ≠ w := by
    rintro w d hd hno hno' rfl
    rw [String.toList_ofList, hc] at hd
    cases hd
    rcases hdigit with hdigit | hminus
    · rw [hno] at hdigit; cases hdigit
    · exact hno' hminus
  have hblank : ∀ d ∈ x.text, Text.isBlank d = false := by
    intro d hd
    have hword : isWordChar d = true := (isWritten_text h).2 d (by rwa [String.toList_ofList])
    simp only [isWordChar, Bool.and_eq_true, Bool.not_eq_true'] at hword
    exact hword.1.1.1.1
  rw [ofWord, if_neg (hne "true" 't' rfl rfl (by decide)),
    if_neg (hne "false" 'f' rfl rfl (by decide)), String.toList_ofList, readNumber?,
    Text.trim_eq_self hblank, Binary64.readFinite?_text h]

/-- The lexeme of a value writes it, a date as a text. -/
theorem isValue_lexeme {v : Value} (h : v.IsFinite) : Filter.IsValue v.lexeme v.undated := by
  cases v with
  | text s => exact .quoted s
  | date i => exact .quoted _
  | bool b => cases b <;> exact .word _
  | number x =>
    have hword := Filter.IsValue.word (String.ofList x.text)
    rwa [ofWord_text h] at hword

end Value

/-! ## Conditions -/

namespace Condition

/-- The lexemes of a condition. -/
def lexemes (c : Condition) : List Lexeme :=
  match c.operator with
  | .comparison o => [.word c.property, .word o.word, c.value.lexeme]
  | .function .contains =>
    [.word TextFunction.contains.word, .opening, c.value.lexeme, .comma, .word c.property, .closing]
  | .function f => [.word f.word, .opening, .word c.property, .comma, c.value.lexeme, .closing]

/-- The lexemes of a condition write it, a date as a text. -/
theorem isCondition_lexemes {c : Condition} (h : c.IsWritable) :
    Filter.IsCondition c.lexemes c.undated := by
  obtain ⟨property, operator, value⟩ := c
  obtain ⟨hproperty, hvalue⟩ := h
  have hlexeme := Value.isValue_lexeme hvalue
  match operator with
  | .comparison o => exact .comparison o hproperty hlexeme
  | .function .contains => exact .contains hproperty hlexeme
  | .function .startsWith => exact .call (by decide) hproperty hlexeme
  | .function .endsWith => exact .call (by decide) hproperty hlexeme

theorem isWritten_comparison (o : Comparison) : (Lexeme.word o.word).IsWritten := by
  cases o <;> exact isWritten_word (by decide) (by decide)

theorem isWritten_function (f : TextFunction) : (Lexeme.word f.word).IsWritten := by
  cases f <;> exact isWritten_word (by decide) (by decide)

/-- The text of a call, with its two arguments as lexemes. -/
private theorem spelled_call (f : TextFunction) {l l' : Lexeme} (hl : l.IsWritten)
    (hl' : l'.IsWritten) :
    Spelled (f.word.toList ++ '(' :: l.chars ++ ',' :: ' ' :: l'.chars ++ [')'])
      [.word f.word, .opening, l, .comma, l', .closing] := by
  have hargument : Spelled (l'.chars ++ [')']) [l', .closing] :=
    (Spelled.nil.closing).lexeme_seam hl' (Filter.isSeam_closing [])
  have harguments : Spelled (l.chars ++ ',' :: ' ' :: (l'.chars ++ [')']))
      [l, .comma, l', .closing] :=
    hargument.space.comma.lexeme_seam hl (Filter.isSeam_comma _)
  have hname := harguments.opening.lexeme_seam (isWritten_function f) (Filter.isSeam_opening _)
  simpa using hname

/-- The text of a condition is its lexemes with blanks between them. -/
theorem spelled {c : Condition} (h : c.IsWritable) : Spelled c.chars c.lexemes := by
  obtain ⟨property, operator, value⟩ := c
  obtain ⟨hproperty, hvalue⟩ := h
  have hp := isWritten_property hproperty
  have hv := Value.isWritten_lexeme hvalue
  match operator with
  | .comparison o =>
    have hlast : Spelled value.literal [value.lexeme] := by
      simpa using Spelled.nil.lexeme_seam hv Filter.isSeam_nil
    have hcomparison : Spelled (o.word.toList ++ ' ' :: value.literal)
        [.word o.word, value.lexeme] :=
      hlast.space.lexeme_seam (isWritten_comparison o) (Filter.isSeam_space _)
    have hall := hcomparison.space.lexeme_seam hp (Filter.isSeam_space _)
    simpa [Condition.chars, lexemes] using hall
  | .function .contains =>
    simpa [Condition.chars, lexemes] using spelled_call .contains hv hp
  | .function .startsWith =>
    simpa [Condition.chars, lexemes] using spelled_call .startsWith hp hv
  | .function .endsWith =>
    simpa [Condition.chars, lexemes] using spelled_call .endsWith hp hv

end Condition

/-! ## Filters -/

namespace Filter

mutual

/-- The lexemes of a filter; `nested` tells whether it stands inside a group. -/
def lexemes (nested : Bool) : Filter → List Lexeme
  | .leaf c => c.lexemes
  | .group connective fs =>
    if fs.isEmpty then []
    else
      let body := List.intercalate [.word (connective.getD .and).word] (childLexemes fs)
      if nested then .opening :: (body ++ [.closing]) else body

/-- The lexemes of the filters of a group. -/
def childLexemes : List Filter → List (List Lexeme)
  | [] => []
  | f :: fs => lexemes true f :: childLexemes fs

end

/-- The lexemes of the filters of a group with the connective between them. -/
def bodyLexemes (connective : Connective) (fs : List Filter) : List Lexeme :=
  List.intercalate [.word connective.word] (fs.map (lexemes true))

theorem childLexemes_eq_map (fs : List Filter) : childLexemes fs = fs.map (lexemes true) := by
  induction fs with
  | nil => rfl
  | cons f fs ih => rw [childLexemes, ih, List.map_cons]

theorem childChars_eq_map (fs : List Filter) : childChars fs = fs.map (chars true) := by
  induction fs with
  | nil => rfl
  | cons f fs ih => rw [childChars, ih, List.map_cons]

@[simp] theorem lexemes_leaf (nested : Bool) (c : Condition) :
    lexemes nested (.leaf c) = c.lexemes := by
  simp [lexemes]

@[simp] theorem lexemes_nil (nested : Bool) (connective : Option Connective) :
    lexemes nested (.group connective []) = [] := by
  simp [lexemes]

/-- Outside of groups the lexemes of a group are its body. -/
@[simp] theorem lexemes_group (connective : Option Connective) (fs : List Filter) :
    lexemes false (.group connective fs) = bodyLexemes (connective.getD .and) fs := by
  cases fs with
  | nil => rw [lexemes_nil]; rfl
  | cons f fs => simp [lexemes, childLexemes_eq_map, bodyLexemes]

theorem lexemes_nested (connective : Option Connective) {fs : List Filter} (h : fs ≠ []) :
    lexemes true (.group connective fs) =
      .opening :: (bodyLexemes (connective.getD .and) fs ++ [.closing]) := by
  have hfalse : fs.isEmpty = false := by simpa using h
  simp [lexemes, hfalse, childLexemes_eq_map, bodyLexemes]

@[simp] theorem bodyLexemes_single (connective : Connective) (f : Filter) :
    bodyLexemes connective [f] = lexemes true f := by
  simp [bodyLexemes]

@[simp] theorem bodyLexemes_cons (connective : Connective) (f g : Filter) (fs : List Filter) :
    bodyLexemes connective (f :: g :: fs) =
      lexemes true f ++ .word connective.word :: bodyLexemes connective (g :: fs) := by
  simp [bodyLexemes, List.intercalate_cons_cons]

/-- A body begins with its first filter, and the connective follows if anything does. -/
theorem bodyLexemes_eq (connective : Connective) (f : Filter) (fs : List Filter) :
    ∃ tail, bodyLexemes connective (f :: fs) = lexemes true f ++ tail ∧
      (tail = [] ∨ ∃ ls, tail = .word connective.word :: ls) := by
  cases fs with
  | nil => exact ⟨[], by simp, .inl rfl⟩
  | cons g fs => exact ⟨_, bodyLexemes_cons connective f g fs, .inr ⟨_, rfl⟩⟩

theorem isWritten_connective (c : Connective) : (Lexeme.word c.word).IsWritten := by
  cases c <;> exact isWritten_word (by decide) (by decide)

/-- The texts of filters with a connective between them are their lexemes with the connective
between them. -/
theorem spelled_body (connective : Connective) {fs : List Filter}
    (h : ∀ f ∈ fs, Spelled (chars true f) (lexemes true f)) :
    Spelled (List.intercalate (separator connective) (fs.map (chars true)))
      (bodyLexemes connective fs) := by
  induction fs with
  | nil => exact Spelled.nil
  | cons f fs ih =>
    cases fs with
    | nil => simpa using h f (by simp)
    | cons g fs =>
      have hrest := ih fun d hd => h d (by simp [hd])
      have hword := hrest.space.lexeme_seam (isWritten_connective connective) (isSeam_space _)
      have hall := (h f (by simp)).append hword.space (isSeam_space _)
      rw [bodyLexemes_cons]
      simpa [List.intercalate_cons_cons, separator] using hall

/-- The text of a filter is its lexemes with blanks between them. -/
theorem spelled {f : Filter} (h : f.IsWritable) (nested : Bool) :
    Spelled (f.chars nested) (f.lexemes nested) := by
  induction h generalizing nested with
  | leaf h => simpa [chars] using Condition.spelled h
  | @group connective fs h ih =>
    have hbody := spelled_body (connective.getD .and) fun f hf => ih f hf true
    rw [chars, childChars_eq_map]
    by_cases hnil : fs = []
    · subst hnil
      exact Spelled.nil
    · rw [if_neg (by simpa using hnil)]
      cases nested with
      | false => simpa using hbody
      | true =>
        rw [lexemes_nested connective hnil]
        exact (hbody.append Spelled.nil.closing (isSeam_closing [])).opening

end Filter

end RecordQuery
