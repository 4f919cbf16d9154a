import RecordQuery.Json.Printer
import RecordQuery.Json.Reader
import RecordQuery.Proofs.Number.ReadBack

/-!
# JSON read back from its text

* `Json.IsAtom`: strings, and other scalars whose text is read as them. Numbers that are no integers
  need not be, since their reading rounds more than once.
* `Json.isAtom_integer`: the naturals below `2^64` are.
* `Json.Scanner.flushed?`: the tokens that are finished once the text does not go on with a scalar.
  `Json.tokenize?_object`: the tokens of the text of an object.
* `Json.read?_object`: an object of atoms under different keys is read back from its text.
-/

namespace RecordQuery.Json

open Text (hexDigit hexValue?)
open Scanner (isBare)

/-! ## Runs in pieces -/

section Runs

variable {σ α : Type} {f : σ → α → Option σ} {s t : σ}

theorem foldlM_append_of_eq {xs : List α} (h : xs.foldlM f s = some t) (ys : List α) :
    (xs ++ ys).foldlM f s = ys.foldlM f t := by
  rw [List.foldlM_append, h]
  rfl

theorem foldlM_cons_of_eq {x : α} (h : f s x = some t) (xs : List α) :
    (x :: xs).foldlM f s = xs.foldlM f t := by
  rw [List.foldlM_cons, h]
  rfl

end Runs

/-! ## Atoms -/

/-- A value without parts that its text is read as. -/
inductive IsAtom : Json → Prop where
  | string (s : String) : IsAtom (.string s)
  | bare {v : Json} (hbare : ∀ c ∈ v.chars, isBare c = true) (hread : scalarOf? v.chars = some v) :
      IsAtom v

/-- A text without quotes that a value is written as and that is read as it. -/
theorem isAtom_of_text {v : Json} {text : List Char} (htext : v.chars = text)
    (hbare : ∀ c ∈ text, isBare c = true) (hread : scalarOf? text = some v) : IsAtom v :=
  .bare (htext ▸ hbare) (htext ▸ hread)

theorem isAtom_null : IsAtom .null :=
  isAtom_of_text (by rw [chars]) (List.all_eq_true.mp (by decide)) (by simp [scalarOf?])

theorem isAtom_bool (b : Bool) : IsAtom (.bool b) := by
  cases b with
  | false => exact isAtom_of_text (by rw [chars]) (List.all_eq_true.mp (by decide)) (by simp [scalarOf?])
  | true => exact isAtom_of_text (by rw [chars]) (List.all_eq_true.mp (by decide)) (by simp [scalarOf?])

theorem scalarOf?_of_read? {text : List Char} {n : Json.Number} (h : Number.read? text = some n) :
    scalarOf? text = some (.number n) := by
  have hwords : ∀ word ∈ [['n', 'u', 'l', 'l'], ['t', 'r', 'u', 'e'], ['f', 'a', 'l', 's', 'e']],
      text ≠ word := by
    rintro word hword rfl
    have hnone : ∀ word ∈ [['n', 'u', 'l', 'l'], ['t', 'r', 'u', 'e'], ['f', 'a', 'l', 's', 'e']],
        Number.read? word = none := by decide
    rw [hnone _ hword] at h
    cases h
  rw [scalarOf?, if_neg (hwords _ (by simp)), if_neg (hwords _ (by simp)),
    if_neg (hwords _ (by simp)), h]
  rfl

theorem isAtom_number {n : Json.Number} (hbare : ∀ c ∈ numberText n, isBare c = true)
    (h : Number.read? (numberText n) = some n) : IsAtom (.number n) :=
  isAtom_of_text (by rw [chars]) hbare (scalarOf?_of_read? h)

theorem isBare_of_isDigit {c : Char} (h : c.isDigit = true) : isBare c = true := by
  simp [isBare, Char.isAlphanum, h]

theorem isBare_of_mem_toDigits {n : Nat} {c : Char} (h : c ∈ Nat.toDigits 10 n) :
    isBare c = true :=
  isBare_of_isDigit (Nat.isDigit_of_mem_toDigits (by decide) (by decide) h)

/-- The digits of a positive number do not begin with a zero. -/
theorem head?_toDigits {n : Nat} (h : n ≠ 0) : (Nat.toDigits 10 n).head? ≠ some '0' := by
  induction n using Nat.strongRecOn with
  | _ n ih =>
    rw [Nat.toDigits_eq_if (by decide)]
    split
    · rename_i hlt
      have hall : ∀ d < 10, d ≠ 0 → [Nat.digitChar d].head? ≠ some '0' := by decide
      exact hall n hlt h
    · rename_i hge
      rw [List.head?_append_of_ne_nil _ Nat.toDigits_ne_nil]
      exact ih (n / 10) (by omega) (by omega)

/-- A natural below `2^64` is read back from its digits. -/
theorem Number.read?_toDigits {n : Nat} (hn : n < 2 ^ 64) :
    Number.read? (Nat.toDigits 10 n) = some (.integer n) := by
  have hdigits : ∀ c ∈ Nat.toDigits 10 n, c.isDigit = true := fun c hc =>
    Nat.isDigit_of_mem_toDigits (by decide) (by decide) hc
  have hsign : (Nat.toDigits 10 n).head? ≠ some '-' := by
    intro hhead
    have hdash := hdigits '-' (List.mem_of_mem_head? (by rw [hhead]; rfl))
    revert hdash
    decide
  have hzero : ¬((Nat.toDigits 10 n).head? = some '0' ∧ Nat.toDigits 10 n ≠ ['0']) := by
    rintro ⟨hhead, hne⟩
    by_cases h : n = 0
    · exact hne (by rw [h]; rfl)
    · exact head?_toDigits h hhead
  obtain ⟨htake, hdrop⟩ := Number.takeWhile_isDigit_append hdigits [] (by simp)
  rw [List.append_nil] at htake hdrop
  simp only [Number.read?, hsign, decide_false, Bool.false_eq_true, if_false, htake, hdrop,
    Nat.toDigits_ne_nil, hzero, or_self, if_true, Nat.ofDigitChars_ten_toDigits,
    Number.integerOf?]
  rw [if_pos hn]
  rfl

theorem isAtom_integer {n : Nat} (hn : n < 2 ^ 64) : IsAtom (.number (.integer n)) := by
  have htext : numberText (.integer n) = Nat.toDigits 10 n := by
    simp [numberText, integerText]
  refine isAtom_number ?_ ?_
  · rw [htext]
    exact fun c hc => isBare_of_mem_toDigits hc
  · rw [htext]
    exact Number.read?_toDigits hn

/-! ## Texts of numbers -/

theorem isBare_of_mem_positional {d : RecordQuery.Number.Decimal} {c : Char} (h : c ∈ d.positional) :
    isBare c = true := by
  obtain ⟨whole, fraction, -, hdigits, htext, -⟩ := Number.positional_digits d
  rw [htext] at h
  rcases List.mem_append.mp h with hc | hc
  · exact isBare_of_isDigit (hdigits c (List.mem_append_left _ hc))
  · split at hc
    · cases hc
    · rcases List.mem_cons.mp hc with rfl | hc
      · decide
      · exact isBare_of_isDigit (hdigits c (List.mem_append_right _ hc))

theorem isBare_of_mem_scientificText {d : RecordQuery.Number.Decimal} {c : Char}
    (h : c ∈ scientificText d) : isBare c = true := by
  simp only [scientificText, List.mem_append, List.mem_cons] at h
  rcases h with (hc | hc) | rfl | rfl | hc
  · exact isBare_of_mem_toDigits (List.mem_of_mem_take hc)
  · split at hc
    · cases hc
    · rcases List.mem_cons.mp hc with rfl | hc
      · decide
      · exact isBare_of_mem_toDigits (List.mem_of_mem_drop hc)
  · decide
  · split <;> decide
  · exact isBare_of_mem_toDigits hc

/-- The text of a finite number has no character that ends a scalar. -/
theorem isBare_of_mem_floatText {x : Binary64} (hx : x.isFinite = true) {c : Char}
    (h : c ∈ floatText x) : isBare c = true := by
  have hzero : ∀ c ∈ ['0', '.', '0'], isBare c = true :=
    List.all_eq_true.mp (by decide)
  cases x with
  | nan | infinite => cases hx
  | finite negative m e _ =>
    rcases List.mem_append.mp h with hc | hc
    · split at hc
      · rw [List.mem_singleton.mp hc]
        decide
      · cases hc
    · split at hc
      · exact hzero c hc
      · simp only [magnitudeText] at hc
        split at hc
        · rcases List.mem_append.mp hc with hc | hc
          · exact isBare_of_mem_positional hc
          · split at hc
            · exact hzero c (List.mem_cons_of_mem _ hc)
            · cases hc
        · exact isBare_of_mem_scientificText hc

/-- A double precision number in JSON, if it is read back from its text. -/
theorem isAtom_ofBinary64 {x : Binary64}
    (h : x.isFinite = true → Number.read? (floatText x) = some (.float x)) :
    IsAtom (.ofBinary64 x) := by
  unfold ofBinary64
  split
  · rename_i hx
    exact isAtom_number (fun c hc => isBare_of_mem_floatText hx hc) (h hx)
  · exact isAtom_null

/-! ## Tokens -/

/-- The token of a value without parts. -/
def lexeme : Json → Lexeme
  | .string s => .string s
  | v => .scalar v

/-- The tokens of the field of an object: key, colon, value. -/
def fieldLexemes (field : String × Json) : List Lexeme :=
  [.string field.1, .colon, field.2.lexeme]

/-- The text of the field of an object. -/
def fieldText (field : String × Json) : List Char :=
  stringText field.1.toList ++ ':' :: field.2.chars

theorem fieldChars_eq_map (fields : List (String × Json)) :
    fieldChars fields = fields.map fieldText := by
  induction fields with
  | nil => rw [fieldChars]; rfl
  | cons field rest ih =>
    rw [fieldChars, ih]
    rfl

namespace Scanner

/-- The tokens that are finished once the text does not go on with a scalar, latest first. -/
def flushed? (s : Scanner) : Option (List Lexeme) :=
  match s.mode with
  | .gap => some s.done
  | .bare letters => (scalarOf? letters.reverse).map fun v => .scalar v :: s.done
  | _ => none

variable {s : Scanner} {done : List Lexeme} {letters : List Char}

/-- A character that cannot belong to a scalar ends the one before it. -/
theorem step?_of_not_bare (hs : s.flushed? = some done) {c : Char} (hc : isBare c = false) :
    s.step? c = begin? done c := by
  obtain ⟨before, mode⟩ := s
  cases mode with
  | gap =>
    cases hs
    rfl
  | bare letters =>
    obtain ⟨v, hv, rfl⟩ := Option.map_eq_some_iff.mp hs
    simp [step?, hc, hv]
  | string | escape | hex | surrogate | surrogateEscape => cases hs

/-- The four digits of a control character are read as the character. -/
theorem foldlM_controlDigits {c : Char} (hc : c.toNat < 32) :
    ['\\', 'u', '0', '0', hexDigit (c.toNat / 16), hexDigit (c.toNat % 16)].foldlM step?
      ⟨done, .string letters⟩ = some ⟨done, .string (c :: letters)⟩ := by
  have hhigh : hexValue? (hexDigit (c.toNat / 16)) = some (c.toNat / 16) :=
    Text.hexValue?_hexDigit (by omega)
  have hlow : hexValue? (hexDigit (c.toNat % 16)) = some (c.toNat % 16) :=
    Text.hexValue?_hexDigit (by omega)
  have hzeros : ['\\', 'u', '0', '0'].foldlM step? ⟨done, .string letters⟩ =
      some ⟨done, .hex letters none 1 0⟩ := rfl
  have hunit : codeUnit? letters none c.toNat = some (.string (c :: letters)) := by
    simp only [codeUnit?]
    rw [if_neg (by omega), if_neg (by omega), Char.ofNat_toNat]
  have hvalue : 16 * (c.toNat / 16) + c.toNat % 16 = c.toNat := Nat.div_add_mod ..
  refine (foldlM_append_of_eq hzeros _).trans ?_
  simp [step?, hhigh, hlow, hvalue, hunit]

theorem foldlM_escapeChar (c : Char) :
    (escapeChar c).foldlM step? ⟨done, .string letters⟩ = some ⟨done, .string (c :: letters)⟩ := by
  unfold escapeChar
  split
  iterate 7 rfl
  rename_i hquote hbackslash _ _ _ _ _
  split
  · exact foldlM_controlDigits ‹_›
  · rename_i hlow
    simp only [List.foldlM_cons, List.foldlM_nil, step?]
    rw [if_neg hquote, if_neg hbackslash, if_neg hlow]
    rfl

theorem foldlM_escaped (cs : List Char) (letters : List Char) :
    (cs.flatMap escapeChar).foldlM step? ⟨done, .string letters⟩ =
      some ⟨done, .string (cs.reverse ++ letters)⟩ := by
  induction cs generalizing letters with
  | nil => rfl
  | cons c rest ih =>
    rw [List.flatMap_cons, foldlM_append_of_eq (foldlM_escapeChar c), ih]
    simp

theorem foldlM_stringText (text : String) :
    (stringText text.toList).foldlM step? ⟨done, .gap⟩ = some ⟨.string text :: done, .gap⟩ := by
  have hopen : step? ⟨done, .gap⟩ '"' = some ⟨done, .string []⟩ := rfl
  have hclose : step? ⟨done, .string text.toList.reverse⟩ '"' =
      some ⟨.string text :: done, .gap⟩ := by
    simp [step?]
  rw [stringText, foldlM_cons_of_eq hopen, foldlM_append_of_eq (foldlM_escaped text.toList []),
    List.append_nil, foldlM_cons_of_eq hclose]
  rfl

theorem begin?_of_isBare {c : Char} (hc : isBare c = true) :
    begin? done c = some ⟨done, .bare [c]⟩ := by
  unfold begin?
  split
  case h_12 => exact if_pos hc
  all_goals exact absurd hc (by decide)

theorem foldlM_bare {cs : List Char} (hbare : ∀ c ∈ cs, isBare c = true) (letters : List Char) :
    cs.foldlM step? ⟨done, .bare letters⟩ = some ⟨done, .bare (cs.reverse ++ letters)⟩ := by
  induction cs generalizing letters with
  | nil => rfl
  | cons c rest ih =>
    have hstep : step? ⟨done, .bare letters⟩ c = some ⟨done, .bare (c :: letters)⟩ :=
      if_pos (hbare c (by simp))
    rw [foldlM_cons_of_eq hstep, ih fun d hd => hbare d (by simp [hd])]
    simp

theorem foldlM_atom {v : Json} (hv : IsAtom v) (done : List Lexeme) :
    ∃ s, v.chars.foldlM step? ⟨done, .gap⟩ = some s ∧ s.flushed? = some (v.lexeme :: done) := by
  cases hv with
  | string text =>
    refine ⟨⟨.string text :: done, .gap⟩, ?_, rfl⟩
    rw [chars]
    exact foldlM_stringText text
  | bare hbare hread =>
    have hlexeme : v.lexeme = .scalar v := by
      cases v with
      | string text =>
        have hquote : isBare '"' = true := hbare '"' (by rw [chars]; exact List.mem_cons_self)
        exact absurd hquote (by decide)
      | null | bool | number | array | object => rfl
    cases htext : v.chars with
    | nil =>
      rw [htext] at hread
      cases hread
    | cons c rest =>
      rw [htext] at hbare hread
      have hbegin : step? ⟨done, .gap⟩ c = some ⟨done, .bare [c]⟩ :=
        begin?_of_isBare (hbare c (by simp))
      refine ⟨⟨done, .bare (rest.reverse ++ [c])⟩, ?_, ?_⟩
      · rw [foldlM_cons_of_eq hbegin]
        exact foldlM_bare (fun d hd => hbare d (by simp [hd])) [c]
      · simp [flushed?, hread, hlexeme]

theorem foldlM_fieldText {field : String × Json} (hfield : IsAtom field.2) (done : List Lexeme) :
    ∃ s, (fieldText field).foldlM step? ⟨done, .gap⟩ = some s ∧
      s.flushed? = some ((fieldLexemes field).reverse ++ done) := by
  obtain ⟨s, hs, hflushed⟩ := foldlM_atom hfield (.colon :: .string field.1 :: done)
  refine ⟨s, ?_, hflushed⟩
  have hcolon : step? ⟨.string field.1 :: done, .gap⟩ ':' =
      some ⟨.colon :: .string field.1 :: done, .gap⟩ := rfl
  rw [fieldText, foldlM_append_of_eq (foldlM_stringText field.1), foldlM_cons_of_eq hcolon]
  exact hs

/-- Further fields, each after a comma, are read as their tokens, each after a comma. -/
theorem foldlM_further {fields : List (String × Json)} (hfields : ∀ f ∈ fields, IsAtom f.2)
    (hs : s.flushed? = some done) :
    ∃ s', (fields.flatMap fun f => ',' :: fieldText f).foldlM step? s = some s' ∧
      s'.flushed? = some ((fields.flatMap fun f => .comma :: fieldLexemes f).reverse ++ done) := by
  induction fields generalizing s done with
  | nil => exact ⟨s, rfl, hs⟩
  | cons field rest ih =>
    have hcomma : s.step? ',' = some ⟨.comma :: done, .gap⟩ := by
      rw [step?_of_not_bare hs (by decide)]
      rfl
    obtain ⟨s₁, hs₁, hflushed₁⟩ := foldlM_fieldText (hfields field (by simp)) (.comma :: done)
    obtain ⟨s₂, hs₂, hflushed₂⟩ := ih (fun f hf => hfields f (by simp [hf])) hflushed₁
    refine ⟨s₂, ?_, by simpa using hflushed₂⟩
    rw [List.flatMap_cons, List.cons_append, foldlM_cons_of_eq hcomma, foldlM_append_of_eq hs₁]
    exact hs₂

end Scanner

/-- The tokens between the braces of an object. -/
def bodyLexemes : List (String × Json) → List Lexeme
  | [] => []
  | field :: rest => fieldLexemes field ++ rest.flatMap fun f => .comma :: fieldLexemes f

theorem intercalate_comma (piece : List Char) (pieces : List (List Char)) :
    List.intercalate [','] (piece :: pieces) = piece ++ pieces.flatMap (',' :: ·) := by
  induction pieces generalizing piece with
  | nil => simp
  | cons next rest ih => rw [List.intercalate_cons_cons, ih]; simp

/-- The text of an object of atoms has the tokens of its fields between braces. -/
theorem tokenize?_object {fields : List (String × Json)} (hfields : ∀ f ∈ fields, IsAtom f.2) :
    tokenize? (chars (.object fields)) =
      some (.beginObject :: (bodyLexemes fields ++ [.endObject])) := by
  have hopen : Scanner.step? ⟨[], .gap⟩ '\x7b' = some ⟨[.beginObject], .gap⟩ := rfl
  have hbody : ∃ s, (List.intercalate [','] (fieldChars fields)).foldlM Scanner.step?
      ⟨[.beginObject], .gap⟩ = some s ∧
      s.flushed? = some ((bodyLexemes fields).reverse ++ [.beginObject]) := by
    rw [fieldChars_eq_map]
    cases fields with
    | nil => exact ⟨_, rfl, rfl⟩
    | cons field rest =>
      obtain ⟨s₁, hs₁, hflushed₁⟩ :=
        Scanner.foldlM_fieldText (hfields field (by simp)) [.beginObject]
      obtain ⟨s₂, hs₂, hflushed₂⟩ :=
        Scanner.foldlM_further (fun f hf => hfields f (List.mem_cons_of_mem _ hf)) hflushed₁
      refine ⟨s₂, ?_, by simpa [bodyLexemes] using hflushed₂⟩
      rw [List.map_cons, intercalate_comma, foldlM_append_of_eq hs₁, List.flatMap_map]
      exact hs₂
  obtain ⟨s, hs, hflushed⟩ := hbody
  have hclose : s.step? '\x7d' =
      some ⟨.endObject :: ((bodyLexemes fields).reverse ++ [.beginObject]), .gap⟩ := by
    rw [Scanner.step?_of_not_bare hflushed (by decide)]
    rfl
  rw [tokenize?, chars, foldlM_cons_of_eq hopen, foldlM_append_of_eq hs, foldlM_cons_of_eq hclose]
  simp [Scanner.finish?]

/-! ## Reading the tokens -/

namespace Reader

variable {limit : Nat} {outer : List Frame}

theorem beginValue?_lexeme (v : Json) :
    beginValue? limit outer v.lexeme = some (complete v outer) := by
  cases v <;> rfl

/-- Further fields, each after a comma, are taken into the object. -/
theorem foldlM_further (fields done : List (String × Json)) :
    (fields.flatMap fun f => .comma :: fieldLexemes f).foldlM (step? limit)
      ⟨outer, .afterField done⟩ = some ⟨outer, .afterField (fields.reverse ++ done)⟩ := by
  induction fields generalizing done with
  | nil => rfl
  | cons field rest ih =>
    have hfield : (.comma :: fieldLexemes field).foldlM (step? limit) ⟨outer, .afterField done⟩ =
        some ⟨outer, .afterField (field :: done)⟩ := by
      simp [fieldLexemes, step?, beginValue?_lexeme, complete]
    rw [List.flatMap_cons, foldlM_append_of_eq hfield, ih]
    simp

end Reader

/-- An object of atoms under different keys is read back from its text. -/
theorem read?_object {fields : List (String × Json)} (hfields : ∀ f ∈ fields, IsAtom f.2)
    (hkeys : (Keyed.keys fields).Nodup) :
    read? (chars (.object fields)) = some (.object fields) := by
  have hbody : (bodyLexemes fields ++ [Lexeme.endObject]).foldlM (Reader.step? defaultLimit)
      ⟨[], .firstKey⟩ = some ⟨[], .finished (.object fields)⟩ := by
    cases fields with
    | nil => rfl
    | cons field rest =>
      have hfirst : (fieldLexemes field).foldlM (Reader.step? defaultLimit) ⟨[], .firstKey⟩ =
          some ⟨[], .afterField [field]⟩ := by
        simp [fieldLexemes, Reader.step?, Reader.beginValue?_lexeme, Reader.complete]
      have hobject : ofFields (field :: rest) = .object (field :: rest) :=
        congrArg Json.object (Keyed.putAll_of_nodup hkeys)
      rw [bodyLexemes, List.append_assoc, foldlM_append_of_eq hfirst,
        foldlM_append_of_eq (Reader.foldlM_further rest [field])]
      simp [Reader.step?, Reader.complete, hobject]
  have hopen : Reader.step? defaultLimit ⟨[], .value⟩ .beginObject = some ⟨[], .firstKey⟩ := rfl
  simp only [read?, tokenize?_object hfields, Option.bind_eq_bind, Option.bind_some,
    foldlM_cons_of_eq hopen, hbody]
  rfl

end RecordQuery.Json
