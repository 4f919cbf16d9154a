import RecordQuery.Filter.Token
import RecordQuery.Text.Utf8

/-!
# Lexemes and the texts they are written in

* `Layout`: a text that is lexemes in their order with blanks between them, and the places of the
  lexemes. Two words or two quoted texts need a blank between them.
* `Layout.scan`: the scanner finds in such a text the lexemes, each at its place.
* `Spelled`: a layout with the places left out. Texts are spelled piece by piece: `Spelled.lexeme`,
  `Spelled.blank`, `Spelled.append`.
* `Scanner.isQuoting_foldl`: whether a quoted text is open depends on the number of quotes alone.
* `Spelled.tokens_prefix`, `Spelled.tokens_suffix`: a spelled text keeps its lexemes at the start and
  at the end of a text, whatever the rest of the text is.
-/

namespace RecordQuery.Filter

open Text (isBlank utf8)

/-! ## Layouts -/

/-- A word is not empty and has characters of words alone; other lexemes can be written as they
are. -/
def Lexeme.IsWritten : Lexeme → Prop
  | .word letters => letters.toList ≠ [] ∧ ∀ c ∈ letters.toList, isWordChar c = true
  | _ => True

theorem isWritten_word {letters : String} (hne : letters.toList ≠ [])
    (h : letters.toList.all isWordChar = true) : (Lexeme.word letters).IsWritten :=
  ⟨hne, List.all_eq_true.mp h⟩

/-- A text that can follow a lexeme at once: it does not go on with the word or double the quote. -/
def Lexeme.EndsBefore (rest : List Char) : Lexeme → Prop
  | .word _ => ∀ c ∈ rest.head?, isWordChar c = false
  | .quoted _ => ∀ c ∈ rest.head?, c ≠ '\''
  | _ => True

/-- A text after `position` bytes that is the lexemes of the tokens with blanks between them. -/
inductive Layout : Nat → List Char → List Token → Prop where
  | nil {position : Nat} : Layout position [] []
  | blank {position : Nat} {c : Char} {cs : List Char} {ts : List Token} (hc : isBlank c = true)
      (rest : Layout (position + c.utf8Size) cs ts) : Layout position (c :: cs) ts
  | lexeme {position : Nat} {l : Lexeme} {cs : List Char} {ts : List Token} (hl : l.IsWritten)
      (hends : l.EndsBefore cs) (rest : Layout (position + (utf8 l.chars).length) cs ts) :
      Layout position (l.chars ++ cs) (⟨l, position⟩ :: ts)

/-! ## Scanning a lexeme -/

namespace Scanner

/-- The tokens that are finished once the text does not go on with the last one, latest first. -/
def flushed (s : Scanner) : List Token :=
  match s.mode with
  | .gap => s.done
  | .word start letters => wordToken start letters :: s.done
  | .quoted .. => s.done
  | .quote start letters => quotedToken start letters :: s.done

/-- What follows does not go on with the last token. -/
def Ready (s : Scanner) (rest : List Char) : Prop :=
  match s.mode with
  | .gap => True
  | .word .. => ∀ c ∈ rest.head?, isWordChar c = false
  | .quoted .. => False
  | .quote .. => ∀ c ∈ rest.head?, c ≠ '\''

/-- The scanner after a lexeme. -/
def after (s : Scanner) (l : Lexeme) : Scanner :=
  let next := s.position + (utf8 l.chars).length
  match l with
  | .word letters => ⟨next, s.flushed, .word s.position letters.toList.reverse⟩
  | .quoted text => ⟨next, s.flushed, .quote s.position text.toList.reverse⟩
  | l => ⟨next, ⟨l, s.position⟩ :: s.flushed, .gap⟩

@[simp] theorem after_position (s : Scanner) (l : Lexeme) :
    (s.after l).position = s.position + (utf8 l.chars).length := by
  cases l <;> rfl

@[simp] theorem after_flushed (s : Scanner) (l : Lexeme) :
    (s.after l).flushed = ⟨l, s.position⟩ :: s.flushed := by
  cases l <;> simp [after, flushed, wordToken, quotedToken]

theorem after_ready (s : Scanner) {l : Lexeme} {rest : List Char} (h : l.EndsBefore rest) :
    (s.after l).Ready rest := by
  cases l with
  | word letters => exact h
  | quoted text => exact h
  | opening | closing | comma => trivial

theorem step_of_ready {s : Scanner} {c : Char} {rest : List Char} (h : s.Ready (c :: rest)) :
    s.step c = begin s.position s.flushed c := by
  obtain ⟨position, done, mode⟩ := s
  cases mode with
  | gap => rfl
  | word start letters => exact if_neg (by rw [h c rfl]; decide)
  | quoted start letters => exact h.elim
  | quote start letters => exact if_neg (h c rfl)

theorem finish_of_ready {s : Scanner} (h : s.Ready []) : s.finish = .ok s.flushed.reverse := by
  obtain ⟨position, done, mode⟩ := s
  cases mode with
  | quoted start letters => exact h.elim
  | gap | word | quote => rfl

/-- Characters of words lengthen a word. -/
theorem foldl_word (letters : List Char) (h : ∀ c ∈ letters, isWordChar c = true)
    (position start : Nat) (done : List Token) (read : List Char) :
    letters.foldl step ⟨position, done, .word start read⟩ =
      ⟨position + (utf8 letters).length, done, .word start (letters.reverse ++ read)⟩ := by
  induction letters generalizing position read with
  | nil => rfl
  | cons c rest ih =>
    have hc : isWordChar c = true := h c (by simp)
    have hstep : step ⟨position, done, .word start read⟩ c =
        ⟨position + c.utf8Size, done, .word start (c :: read)⟩ := if_pos hc
    rw [List.foldl_cons, hstep, ih (fun d hd => h d (by simp [hd]))]
    simp [utf8, Nat.add_assoc]

/-- Within a quoted text an escaped text is read as itself. -/
theorem foldl_escape (text : List Char) (position start : Nat) (done : List Token)
    (read : List Char) :
    (Text.escape text).foldl step ⟨position, done, .quoted start read⟩ =
      ⟨position + (utf8 (Text.escape text)).length, done, .quoted start (text.reverse ++ read)⟩ := by
  induction text generalizing position read with
  | nil => rfl
  | cons c rest ih =>
    by_cases hc : c = '\''
    · subst hc
      have hstep : step (step ⟨position, done, .quoted start read⟩ '\'') '\'' =
          ⟨position + 1 + 1, done, .quoted start ('\'' :: read)⟩ := rfl
      rw [Text.escape, if_pos rfl, List.foldl_cons, List.foldl_cons, hstep, ih]
      have hsize : ('\'').utf8Size = 1 := rfl
      simp [utf8, hsize]
      omega
    · have hstep : step ⟨position, done, .quoted start read⟩ c =
          ⟨position + c.utf8Size, done, .quoted start (c :: read)⟩ := if_neg hc
      rw [Text.escape, if_neg hc, List.foldl_cons, hstep, ih]
      simp [utf8, Nat.add_assoc]

/-- A word begins with its first character. -/
private theorem begin_wordChar {c : Char} (h : isWordChar c = true) (position : Nat)
    (done : List Token) :
    begin position done c = ⟨position + c.utf8Size, done, .word position [c]⟩ := by
  simp only [isWordChar, Bool.and_eq_true, Bool.not_eq_true', decide_eq_true_eq] at h
  obtain ⟨⟨⟨⟨hblank, hopen⟩, hclose⟩, hcomma⟩, hquote⟩ := h
  rw [begin]
  simp only [hblank, hopen, hclose, hcomma, hquote, if_false, Bool.false_eq_true]

/-- The characters of a lexeme are read as the lexeme. -/
theorem foldl_lexeme {s : Scanner} {l : Lexeme} {rest : List Char} (hl : l.IsWritten)
    (hready : s.Ready (l.chars ++ rest)) : l.chars.foldl step s = s.after l := by
  cases l with
  | opening | closing | comma => exact step_of_ready hready
  | word letters =>
    obtain ⟨c, cs, hcs⟩ := List.exists_cons_of_ne_nil hl.1
    simp only [Lexeme.chars, hcs] at hready ⊢
    have hword : ∀ d ∈ c :: cs, isWordChar d = true := hcs ▸ hl.2
    rw [List.foldl_cons, step_of_ready hready, begin_wordChar (hword c (by simp)),
      foldl_word cs fun d hd => hword d (by simp [hd])]
    simp [after, Lexeme.chars, hcs, utf8, Nat.add_assoc]
  | quoted text =>
    simp only [Lexeme.chars, Text.quoted] at hready ⊢
    have hbegin : begin s.position s.flushed '\'' =
        ⟨s.position + 1, s.flushed, .quoted s.position []⟩ := rfl
    rw [List.foldl_cons, step_of_ready hready, hbegin, List.foldl_append, foldl_escape]
    have hsize : ('\'').utf8Size = 1 := rfl
    simp [step, after, Lexeme.chars, Text.quoted, utf8, hsize]
    omega

end Scanner

/-- The scanner finds the lexemes of a layout, each at its place. -/
theorem Layout.scan {position : Nat} {cs : List Char} {ts : List Token} (h : Layout position cs ts)
    {s : Scanner} (hposition : s.position = position) (hready : s.Ready cs) :
    (cs.foldl Scanner.step s).finish = .ok (s.flushed.reverse ++ ts) := by
  induction h generalizing s with
  | nil => rw [List.foldl_nil, Scanner.finish_of_ready hready, List.append_nil]
  | @blank position c cs ts hc rest ih =>
    have hstep : s.step c = ⟨s.position + c.utf8Size, s.flushed, .gap⟩ := by
      rw [Scanner.step_of_ready hready, Scanner.begin, if_pos hc]
    rw [List.foldl_cons, hstep]
    exact ih (by rw [← hposition]) trivial
  | @lexeme position l cs ts hl hends rest ih =>
    rw [List.foldl_append, Scanner.foldl_lexeme hl hready,
      ih (by rw [Scanner.after_position, hposition]) (Scanner.after_ready s hends),
      Scanner.after_flushed, List.reverse_cons, hposition]
    simp

/-! ## Spelling -/

/-- A text before which every lexeme ends: it begins with a blank, a parenthesis or a comma. -/
def IsSeam (rest : List Char) : Prop := ∀ c ∈ rest.head?, isWordChar c = false ∧ c ≠ '\''

theorem Lexeme.endsBefore_of_isSeam {rest : List Char} (h : IsSeam rest) (l : Lexeme) :
    l.EndsBefore rest := by
  cases l with
  | word letters => intro c hc; exact (h c hc).1
  | quoted text => intro c hc; exact (h c hc).2
  | opening | closing | comma => trivial

theorem Lexeme.EndsBefore.append {l : Lexeme} {cs rest : List Char} (h : l.EndsBefore cs)
    (hrest : IsSeam rest) : l.EndsBefore (cs ++ rest) := by
  cases cs with
  | nil => exact Lexeme.endsBefore_of_isSeam hrest l
  | cons c cs => cases l <;> exact h

/-- A layout may be followed by another that begins with a seam. -/
theorem Layout.append {position : Nat} {cs cs' : List Char} {ts ts' : List Token}
    (h : Layout position cs ts) (h' : Layout (position + (utf8 cs).length) cs' ts')
    (hseam : IsSeam cs') : Layout position (cs ++ cs') (ts ++ ts') := by
  induction h with
  | nil => exact h'
  | blank hc rest ih =>
    refine .blank hc (ih ?_)
    simpa [utf8, Nat.add_assoc] using h'
  | @lexeme position l cs ts hl hends rest ih =>
    rw [List.append_assoc]
    refine .lexeme hl (hends.append hseam) (ih ?_)
    simpa [utf8, Nat.add_assoc] using h'

/-- The text is the lexemes in their order with blanks between them, wherever it stands. -/
def Spelled (cs : List Char) (ls : List Lexeme) : Prop :=
  ∀ position, ∃ ts, Layout position cs ts ∧ ts.map Token.lexeme = ls

namespace Spelled

variable {c : Char} {cs cs' : List Char} {l : Lexeme} {ls ls' : List Lexeme}

theorem nil : Spelled [] [] := by
  intro position
  exact ⟨[], .nil, rfl⟩

theorem blank (hc : isBlank c = true) (h : Spelled cs ls) : Spelled (c :: cs) ls := by
  intro position
  obtain ⟨ts, hts, hls⟩ := h (position + c.utf8Size)
  exact ⟨ts, .blank hc hts, hls⟩

theorem space (h : Spelled cs ls) : Spelled (' ' :: cs) ls := h.blank (by decide)

theorem lexeme (hl : l.IsWritten) (hends : l.EndsBefore cs) (h : Spelled cs ls) :
    Spelled (l.chars ++ cs) (l :: ls) := by
  intro position
  obtain ⟨ts, hts, hls⟩ := h (position + (utf8 l.chars).length)
  exact ⟨_, .lexeme hl hends hts, by rw [List.map_cons, hls]⟩

theorem opening (h : Spelled cs ls) : Spelled ('(' :: cs) (.opening :: ls) :=
  h.lexeme (l := .opening) trivial trivial

theorem closing (h : Spelled cs ls) : Spelled (')' :: cs) (.closing :: ls) :=
  h.lexeme (l := .closing) trivial trivial

theorem comma (h : Spelled cs ls) : Spelled (',' :: cs) (.comma :: ls) :=
  h.lexeme (l := .comma) trivial trivial

/-- A lexeme before a seam. -/
theorem lexeme_seam (hl : l.IsWritten) (hseam : IsSeam cs) (h : Spelled cs ls) :
    Spelled (l.chars ++ cs) (l :: ls) :=
  h.lexeme hl (Lexeme.endsBefore_of_isSeam hseam l)

theorem append (h : Spelled cs ls) (h' : Spelled cs' ls') (hseam : IsSeam cs') :
    Spelled (cs ++ cs') (ls ++ ls') := by
  intro position
  obtain ⟨ts, hts, hls⟩ := h position
  obtain ⟨ts', hts', hls'⟩ := h' (position + (utf8 cs).length)
  exact ⟨ts ++ ts', hts.append hts' hseam, by rw [List.map_append, hls, hls']⟩

/-- A spelled text has its lexemes as tokens. -/
theorem tokenize {text : String} (h : Spelled text.toList ls) :
    ∃ ts, Filter.tokenize text = .ok ts ∧ ts.map Token.lexeme = ls := by
  obtain ⟨ts, hts, hls⟩ := h 0
  exact ⟨ts, hts.scan rfl trivial, hls⟩

end Spelled

theorem isSeam_nil : IsSeam [] := by simp [IsSeam]

theorem isSeam_space (cs : List Char) : IsSeam (' ' :: cs) := by
  rintro c ⟨⟩
  decide

theorem isSeam_opening (cs : List Char) : IsSeam ('(' :: cs) := by
  rintro c ⟨⟩
  decide

theorem isSeam_closing (cs : List Char) : IsSeam (')' :: cs) := by
  rintro c ⟨⟩
  decide

theorem isSeam_comma (cs : List Char) : IsSeam (',' :: cs) := by
  rintro c ⟨⟩
  decide

/-! ## Open quotes -/

namespace Scanner

/-- A quoted text is open. -/
def isQuoting (s : Scanner) : Bool :=
  match s.mode with
  | .quoted .. => true
  | _ => false

/-- Outside of quotes, only a quote opens a quoted text. -/
theorem isQuoting_begin (position : Nat) (done : List Token) (c : Char) :
    (begin position done c).isQuoting = decide (c = '\'') := by
  by_cases hc : c = '\''
  · subst hc; rfl
  · simp only [begin, hc, if_false]
    repeat' split
    all_goals rfl

/-- A quote opens a quoted text or closes it, and no other character does. -/
theorem isQuoting_step (s : Scanner) (c : Char) :
    (s.step c).isQuoting = (s.isQuoting ^^ decide (c = '\'')) := by
  obtain ⟨position, done, mode⟩ := s
  cases mode with
  | gap =>
    show (begin position done c).isQuoting = (false ^^ _)
    rw [isQuoting_begin, Bool.false_xor]
  | word start letters =>
    simp only [step]
    split
    · have hc : c ≠ '\'' := by rintro rfl; contradiction
      simp [isQuoting, hc]
    · simpa [isQuoting] using isQuoting_begin position _ c
  | quoted start letters => by_cases hc : c = '\'' <;> simp [step, isQuoting, hc]
  | quote start letters =>
    by_cases hc : c = '\''
    · simp [step, isQuoting, hc]
    · simpa [step, isQuoting, hc] using isQuoting_begin position _ c

/-- Whether a quoted text is open depends on the number of quotes. -/
theorem isQuoting_foldl (cs : List Char) (s : Scanner) :
    (cs.foldl step s).isQuoting = (s.isQuoting ^^ decide (cs.count '\'' % 2 = 1)) := by
  induction cs generalizing s with
  | nil => simp
  | cons c rest ih =>
    rw [List.foldl_cons, ih, isQuoting_step, List.count_cons, Bool.xor_assoc]
    congr 1
    by_cases hc : c = '\''
    · rcases Nat.mod_two_eq_zero_or_one (rest.count '\'') with h | h <;>
        simp [hc, h, Nat.add_mod]
    · simp [hc]

/-- A text that ends within quotes has no tokens. -/
theorem isQuoting_of_finish {s : Scanner} {ts : List Token} (h : s.finish = .ok ts) :
    s.isQuoting = false := by
  obtain ⟨position, done, mode⟩ := s
  cases mode with
  | quoted start letters => cases h
  | gap | word | quote => rfl

/-- Outside of quotes every token ends before a seam. -/
theorem ready_of_isSeam {s : Scanner} (h : s.isQuoting = false) {rest : List Char}
    (hseam : IsSeam rest) : s.Ready rest := by
  obtain ⟨position, done, mode⟩ := s
  cases mode with
  | gap => trivial
  | word start letters => intro c hc; exact (hseam c hc).1
  | quoted start letters => cases h
  | quote start letters => intro c hc; exact (hseam c hc).2

end Scanner

/-! ## Texts around other texts -/

namespace Scanner

theorem suffix_begin (position : Nat) (done : List Token) (c : Char) :
    done <:+ (begin position done c).done := by
  unfold begin
  repeat' split
  all_goals simp

/-- A step keeps the finished tokens. -/
theorem suffix_step (s : Scanner) (c : Char) : s.done <:+ (s.step c).done := by
  obtain ⟨position, done, mode⟩ := s
  cases mode with
  | gap => exact suffix_begin position done c
  | word start letters =>
    simp only [step]
    split
    · exact List.suffix_rfl
    · exact (List.suffix_cons _ done).trans (suffix_begin position _ c)
  | quoted start letters =>
    simp only [step]
    split <;> exact List.suffix_rfl
  | quote start letters =>
    simp only [step]
    split
    · exact List.suffix_rfl
    · exact (List.suffix_cons _ done).trans (suffix_begin position _ c)

/-- A run keeps the finished tokens. -/
theorem suffix_foldl (cs : List Char) (s : Scanner) : s.done <:+ (cs.foldl step s).done := by
  induction cs generalizing s with
  | nil => exact List.suffix_rfl
  | cons c rest ih => exact (suffix_step s c).trans (ih (s.step c))

theorem suffix_flushed (s : Scanner) : s.done <:+ s.flushed := by
  obtain ⟨position, done, mode⟩ := s
  cases mode <;> simp [flushed]

theorem flushed_of_finish {s : Scanner} {ts : List Token} (h : s.finish = .ok ts) :
    s.flushed.reverse = ts := by
  obtain ⟨position, done, mode⟩ := s
  cases mode <;> cases h <;> rfl

/-- The tokens that have ended stay, whatever follows. -/
theorem prefix_of_finish {s : Scanner} {cs : List Char} {ts : List Token} (hready : s.Ready cs)
    (h : (cs.foldl step s).finish = .ok ts) : s.flushed.reverse <+: ts := by
  cases cs with
  | nil => rw [← flushed_of_finish h]; exact List.prefix_rfl
  | cons c rest =>
    have hstep : s.flushed <:+ (s.step c).done := by
      rw [step_of_ready hready]
      exact suffix_begin _ _ c
    have hall := (hstep.trans (suffix_foldl rest _)).trans (suffix_flushed _)
    rw [← flushed_of_finish h]
    exact List.reverse_prefix.mpr hall

end Scanner

section

variable {text : String} {cs rest : List Char} {ls : List Lexeme} {ts : List Token}

/-- The lexemes of a spelled text are the first ones, if the text after it begins with a seam. -/
theorem Spelled.tokens_prefix (h : Spelled cs ls) (hseam : IsSeam rest)
    (htext : text.toList = cs ++ rest) (hts : Filter.tokenize text = .ok ts) :
    ∃ ts₁ ts₂, ts = ts₁ ++ ts₂ ∧ ts₁.map Token.lexeme = ls := by
  obtain ⟨ts₁, hlayout, hls⟩ := h 0
  rw [Filter.tokenize, htext, List.foldl_append] at hts
  have hfinish := hlayout.scan (s := Scanner.start) rfl trivial
  have hflushed : _ = ts₁ := Scanner.flushed_of_finish hfinish
  obtain ⟨ts₂, rfl⟩ := Scanner.prefix_of_finish
    (Scanner.ready_of_isSeam (Scanner.isQuoting_of_finish hfinish) hseam) hts
  exact ⟨_, ts₂, rfl, by rw [hflushed, hls]⟩

/-- The lexemes of a spelled text that begins with a seam are the last ones, whatever stands before
it: a quoted text that is open before it is open after it. -/
theorem Spelled.tokens_suffix (h : Spelled rest ls) (hseam : IsSeam rest)
    (htext : text.toList = cs ++ rest) (hts : Filter.tokenize text = .ok ts) :
    ∃ ts₁ ts₂, ts = ts₁ ++ ts₂ ∧ ts₂.map Token.lexeme = ls := by
  obtain ⟨ts₀, hlayout, -⟩ := h 0
  have hcount : decide (rest.count '\'' % 2 = 1) = false := by
    have hend := Scanner.isQuoting_of_finish (hlayout.scan (s := Scanner.start) rfl trivial)
    rw [Scanner.isQuoting_foldl] at hend
    simpa [Scanner.start, Scanner.isQuoting] using hend
  rw [Filter.tokenize, htext, List.foldl_append] at hts
  have hquoting := Scanner.isQuoting_of_finish hts
  rw [Scanner.isQuoting_foldl, hcount, Bool.xor_false] at hquoting
  obtain ⟨ts₂, hlayout, hls⟩ := h (cs.foldl Scanner.step Scanner.start).position
  rw [hlayout.scan rfl (Scanner.ready_of_isSeam hquoting hseam)] at hts
  cases hts
  exact ⟨_, ts₂, rfl, hls⟩

end

end RecordQuery.Filter
