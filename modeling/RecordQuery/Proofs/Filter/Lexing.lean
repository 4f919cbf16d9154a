import Mathlib.Data.List.Chain
import RecordQuery.Proofs.Filter.Layout

/-!
# Exact lexing

What a text has to look like to have certain tokens, with all its gaps told apart.

* `Piece`, `textOf`: a token with the gap before it, and the text of pieces in a row.
* `IsSpaced`: the gaps are blank, each token can be written and stands at its place, and there is a
  gap between two words and between two quoted texts.
* `IsLaidOut`: a text is spaced pieces and a last gap; these are its tokens.
* `BreaksOff`: a text is spaced pieces, a gap, and a quoted text that does not end.
* `Scanner.Describes`: what the state of the scanner tells of the text read so far. Each step keeps
  it (`Scanner.Describes.step`), so what is scanned is laid out.
* `IsSpaced.hasRead`: the scanner reads spaced pieces as their tokens (by induction on the pieces).
* `tokenize_exact`: which texts have tokens, which ones they are, and where the other texts break
  off.
-/

namespace RecordQuery.Filter

open Text (isBlank utf8)

/-! ## Layouts with gaps -/

/-- A token and the gap before it. -/
structure Piece where
  gap : List Char
  token : Token

/-- A gap has blank characters alone. -/
def IsGap (gap : List Char) : Prop := ∀ c ∈ gap, isBlank c = true

/-- The text of pieces that stand in a row. -/
def textOf (ps : List Piece) : List Char := ps.flatMap fun p => p.gap ++ p.token.lexeme.chars

/-- Two words, or two quoted texts: without a gap between them they would be read as one. -/
def Lexeme.Merges : Lexeme → Lexeme → Prop
  | .word _, .word _ => True
  | .quoted _, .quoted _ => True
  | _, _ => False

/-- The pieces can stand in a row: the tokens are where they say and do not merge. -/
structure IsSpaced (ps : List Piece) : Prop where
  gaps : ∀ p ∈ ps, IsGap p.gap
  lexemes : ∀ p ∈ ps, p.token.lexeme.IsWritten
  positions : ∀ before p after, ps = before ++ p :: after →
    p.token.position = (utf8 (textOf before ++ p.gap)).length
  apart : ps.IsChain fun p q => p.token.lexeme.Merges q.token.lexeme → q.gap ≠ []

/-- The text is the tokens, each in its place, with gaps around them. -/
def IsLaidOut (text : List Char) (tokens : List Token) : Prop :=
  ∃ ps last, IsSpaced ps ∧ IsGap last ∧ text = textOf ps ++ last ∧ tokens = ps.map Piece.token

/-- The text has a quote at this place, outside of quoted texts, and all quotes after it come in
pairs of neighbours, so that none of them ends the quoted text. -/
def BreaksOff (text : List Char) (position : Nat) : Prop :=
  ∃ ps gap body, IsSpaced (ps ++ [⟨gap, ⟨.quoted body, position⟩⟩]) ∧
    text = textOf ps ++ (gap ++ '\'' :: Text.escape body.toList)

@[simp] theorem textOf_nil : textOf [] = [] := rfl

@[simp] theorem textOf_concat (ps : List Piece) (p : Piece) :
    textOf (ps ++ [p]) = textOf ps ++ (p.gap ++ p.token.lexeme.chars) := by
  simp [textOf]

theorem Lexeme.endsBefore_chars {l l' : Lexeme} (h : l'.IsWritten) (rest : List Char) :
    l.EndsBefore (l'.chars ++ rest) ↔ ¬l.Merges l' := by
  have hword : ∀ w, l' = .word w →
      ∃ c cs, l'.chars = c :: cs ∧ isWordChar c = true ∧ c ≠ '\'' := by
    rintro w rfl
    obtain ⟨hne, hall⟩ := h
    obtain ⟨c, cs, hcs⟩ := List.exists_cons_of_ne_nil hne
    have hc := hall c (by simp [hcs])
    refine ⟨c, cs, hcs, hc, ?_⟩
    rintro rfl
    cases hc
  cases l with
  | opening | closing | comma => simp [EndsBefore, Merges]
  | word v =>
    cases l' with
    | opening | closing | comma | quoted =>
      simp only [Merges, not_false_eq_true, iff_true]
      rintro c ⟨⟩
      decide
    | word w =>
      obtain ⟨c, cs, hcs, hc, -⟩ := hword w rfl
      simp [hcs, EndsBefore, Merges, hc]
  | quoted s =>
    cases l' with
    | opening | closing | comma =>
      simp only [Merges, not_false_eq_true, iff_true]
      rintro c ⟨⟩
      decide
    | quoted t => simp [EndsBefore, Merges, chars, Text.quoted]
    | word w =>
      obtain ⟨c, cs, hcs, -, hc⟩ := hword w rfl
      simp [hcs, EndsBefore, Merges, hc]

/-- A lexeme ends before a gap, or before what follows if the gap is empty. -/
theorem Lexeme.endsBefore_gap {l : Lexeme} {gap rest : List Char} (hgap : IsGap gap)
    (h : gap = [] → l.EndsBefore rest) : l.EndsBefore (gap ++ rest) := by
  cases gap with
  | nil => exact h rfl
  | cons c gap =>
    have hc : isBlank c = true := hgap c (by simp)
    refine endsBefore_of_isSeam ?_ l
    rintro d ⟨⟩
    constructor
    · simp [isWordChar, hc]
    · rintro rfl
      cases hc

theorem isSpaced_nil : IsSpaced [] where
  gaps := by simp
  lexemes := by simp
  positions := by simp
  apart := .nil

theorem isSpaced_concat {ps : List Piece} {p : Piece} :
    IsSpaced (ps ++ [p]) ↔ IsSpaced ps ∧ IsGap p.gap ∧ p.token.lexeme.IsWritten ∧
      p.token.position = (utf8 (textOf ps ++ p.gap)).length ∧
      ∀ q ∈ ps.getLast?, q.token.lexeme.Merges p.token.lexeme → p.gap ≠ [] := by
  constructor
  · intro h
    have happart := List.isChain_append.mp h.apart
    refine ⟨⟨?_, ?_, ?_, happart.1⟩, h.gaps p (by simp), h.lexemes p (by simp),
      h.positions ps p [] rfl, fun q hq => happart.2.2 q hq p rfl⟩
    · exact fun q hq => h.gaps q (by simp [hq])
    · exact fun q hq => h.lexemes q (by simp [hq])
    · rintro before q after rfl
      exact h.positions before q (after ++ [p]) (by simp)
  · rintro ⟨h, hgap, hlexeme, hposition, hmerges⟩
    refine ⟨?_, ?_, ?_, ?_⟩
    · simpa [or_imp, forall_and] using ⟨h.gaps, hgap⟩
    · simpa [or_imp, forall_and] using ⟨h.lexemes, hlexeme⟩
    · intro before q after heq
      rcases List.eq_nil_or_concat' after with rfl | ⟨after, last, rfl⟩
      · obtain ⟨rfl, hpq⟩ := List.append_inj' heq rfl
        cases hpq
        exact hposition
      · rw [← List.cons_append, ← List.append_assoc] at heq
        exact h.positions before q after (List.append_inj' heq rfl).1
    · refine h.apart.append (.singleton p) fun q hq => ?_
      rintro _ ⟨⟩
      exact hmerges q hq

/-- The last lexeme may be exchanged for one of the same kind. -/
theorem IsSpaced.exchange {ps : List Piece} {gap : List Char} {l l' : Lexeme} {position : Nat}
    (h : IsSpaced (ps ++ [⟨gap, ⟨l, position⟩⟩])) (hl : l'.IsWritten)
    (hkind : ∀ k : Lexeme, k.Merges l' → k.Merges l) :
    IsSpaced (ps ++ [⟨gap, ⟨l', position⟩⟩]) := by
  obtain ⟨hps, hgap, -, hposition, hmerges⟩ := isSpaced_concat.mp h
  exact isSpaced_concat.mpr ⟨hps, hgap, hl, hposition, fun q hq hql => hmerges q hq (hkind _ hql)⟩

/-! ## What is scanned is laid out -/

namespace Scanner

/-- The scanner has read the text: its finished tokens are those of some pieces, after which the
text goes on as the mode says. -/
def Describes (s : Scanner) (text : List Char) : Prop :=
  s.position = (utf8 text).length ∧ ∃ ps gap, s.done = (ps.map Piece.token).reverse ∧
    match s.mode with
    | .gap => IsSpaced ps ∧ IsGap gap ∧ text = textOf ps ++ gap ∧
        (gap = [] → ∀ p ∈ ps.getLast?, ∀ rest, p.token.lexeme.EndsBefore rest)
    | .word start letters => IsSpaced (ps ++ [⟨gap, wordToken start letters⟩]) ∧
        text = textOf ps ++ (gap ++ letters.reverse)
    | .quoted start letters => IsSpaced (ps ++ [⟨gap, quotedToken start letters⟩]) ∧
        text = textOf ps ++ (gap ++ '\'' :: Text.escape letters.reverse)
    | .quote start letters => IsSpaced (ps ++ [⟨gap, quotedToken start letters⟩]) ∧
        text = textOf ps ++ (gap ++ Text.quoted letters.reverse)

theorem length_utf8_append (text rest : List Char) :
    (utf8 (text ++ rest)).length = (utf8 text).length + (utf8 rest).length := by
  simp [utf8]

theorem length_utf8_concat (text : List Char) (c : Char) :
    (utf8 (text ++ [c])).length = (utf8 text).length + c.utf8Size := by
  simp [utf8]

theorem isSpaced_begin {ps : List Piece} {gap : List Char} (l : Lexeme) (hps : IsSpaced ps)
    (hgap : IsGap gap) (hl : l.IsWritten)
    (hends : gap = [] → ∀ p ∈ ps.getLast?, p.token.lexeme.EndsBefore l.chars) :
    IsSpaced (ps ++ [⟨gap, ⟨l, (utf8 (textOf ps ++ gap)).length⟩⟩]) := by
  refine isSpaced_concat.mpr ⟨hps, hgap, hl, rfl, fun q hq hmerges hnil => ?_⟩
  have hq := hends hnil q hq
  rw [← List.append_nil l.chars] at hq
  exact (Lexeme.endsBefore_chars hl []).mp hq hmerges

/-- A character that is a whole token, whatever follows it, ends a piece. -/
theorem describes_single {ps : List Piece} {c : Char} {l : Lexeme} (hps : IsSpaced ps)
    (gap : List Char) (hgap : IsGap gap)
    (hends : gap = [] → ∀ p ∈ ps.getLast?, p.token.lexeme.EndsBefore [c]) (hl : l.chars = [c])
    (hwritten : l.IsWritten) (hrest : ∀ rest, l.EndsBefore rest) :
    Describes ⟨(utf8 (textOf ps ++ gap)).length + c.utf8Size,
      ⟨l, (utf8 (textOf ps ++ gap)).length⟩ :: (ps.map Piece.token).reverse, .gap⟩
      (textOf ps ++ gap ++ [c]) := by
  refine ⟨(length_utf8_concat ..).symm, ps ++ [⟨gap, ⟨l, (utf8 (textOf ps ++ gap)).length⟩⟩], [],
    by simp, ?_, by simp [IsGap], by simp [hl], fun _ p hp => ?_⟩
  · exact isSpaced_begin l hps hgap hwritten (by rwa [hl])
  · simp only [List.getLast?_concat, Option.mem_def, Option.some.injEq] at hp
    subst p
    exact hrest

/-- The character after pieces and a gap lengthens the gap or begins a token. -/
theorem describes_begin {ps : List Piece} {c : Char} (hps : IsSpaced ps) (gap : List Char)
    (hgap : IsGap gap)
    (hends : gap = [] → ∀ p ∈ ps.getLast?, p.token.lexeme.EndsBefore [c]) :
    (begin (utf8 (textOf ps ++ gap)).length (ps.map Piece.token).reverse c).Describes
      (textOf ps ++ gap ++ [c]) := by
  have hlength := length_utf8_concat (textOf ps ++ gap) c
  unfold begin
  by_cases hblank : isBlank c = true
  · rw [if_pos hblank]
    refine ⟨hlength.symm, ps, gap ++ [c], rfl, hps, ?_, by simp, by simp⟩
    simpa [IsGap, or_imp, forall_and] using ⟨hgap, hblank⟩
  rw [if_neg hblank]
  by_cases hopening : c = '('
  · rw [if_pos hopening]
    exact describes_single (l := .opening) hps gap hgap hends (by rw [hopening]; rfl) trivial
      fun _ => trivial
  rw [if_neg hopening]
  by_cases hclosing : c = ')'
  · rw [if_pos hclosing]
    exact describes_single (l := .closing) hps gap hgap hends (by rw [hclosing]; rfl) trivial
      fun _ => trivial
  rw [if_neg hclosing]
  by_cases hcomma : c = ','
  · rw [if_pos hcomma]
    exact describes_single (l := .comma) hps gap hgap hends (by rw [hcomma]; rfl) trivial
      fun _ => trivial
  rw [if_neg hcomma]
  by_cases hquote : c = '\''
  · rw [if_pos hquote]
    subst hquote
    refine ⟨hlength.symm, ps, gap, rfl, ?_, by simp [Text.escape]⟩
    exact isSpaced_begin (.quoted (String.ofList [])) hps hgap trivial hends
  · rw [if_neg hquote]
    have hword : isWordChar c = true := by
      simp [isWordChar, hblank, hopening, hclosing, hcomma, hquote]
    refine ⟨hlength.symm, ps, gap, rfl, ?_, by simp⟩
    exact isSpaced_begin (.word (String.ofList [c])) hps hgap
      (by simp [Lexeme.IsWritten, hword]) (by simpa using hends)

/-- The character after a token that it does not go on with. -/
theorem describes_begin_after {ps : List Piece} {p : Piece} {c : Char} (hps : IsSpaced (ps ++ [p]))
    (hends : p.token.lexeme.EndsBefore [c]) :
    (begin (utf8 (textOf (ps ++ [p]))).length (p.token :: (ps.map Piece.token).reverse) c).Describes
      (textOf (ps ++ [p]) ++ [c]) := by
  have hbegin := describes_begin (c := c) hps [] (by simp [IsGap]) fun _ q hq => by
    simp only [List.getLast?_concat, Option.mem_def, Option.some.injEq] at hq
    rwa [← hq]
  simpa using hbegin

/-- Reading a character, the scanner still describes the text. -/
theorem Describes.step {s : Scanner} {text : List Char} (h : s.Describes text) (c : Char) :
    (s.step c).Describes (text ++ [c]) := by
  obtain ⟨position, done, mode⟩ := s
  obtain ⟨rfl, ps, gap, rfl, h⟩ := h
  have hlength := length_utf8_concat text c
  cases mode with
  | gap =>
    obtain ⟨hps, hgap, rfl, hends⟩ := h
    exact describes_begin hps gap hgap fun hnil p hp => hends hnil p hp [c]
  | word start letters =>
    obtain ⟨hps, htext⟩ := h
    unfold Scanner.step
    by_cases hc : isWordChar c = true
    · simp only [if_pos hc]
      refine ⟨hlength.symm, ps, gap, rfl, hps.exchange ?_ ?_, by simp [htext]⟩
      · have hold := (isSpaced_concat.mp hps).2.2.1
        simp only [wordToken, Lexeme.IsWritten, String.toList_ofList] at hold
        simpa [Lexeme.IsWritten, or_imp, forall_and, hc] using hold.2
      · intro k hk
        cases k <;> exact hk
    · simp only [if_neg hc]
      have htext' : text = textOf (ps ++ [⟨gap, wordToken start letters⟩]) := by
        simp [htext, wordToken]
      rw [htext']
      refine describes_begin_after hps ?_
      rintro d ⟨⟩
      simpa using hc
  | quoted start letters =>
    obtain ⟨hps, htext⟩ := h
    unfold Scanner.step
    by_cases hc : c = '\''
    · simp only [if_pos hc]
      exact ⟨hlength.symm, ps, gap, rfl, hps, by simp [htext, Text.quoted, hc]⟩
    · simp only [if_neg hc]
      refine ⟨hlength.symm, ps, gap, rfl, hps.exchange trivial ?_, ?_⟩
      · intro k hk
        cases k <;> exact hk
      · simp [htext, Text.escape, hc]
  | quote start letters =>
    obtain ⟨hps, htext⟩ := h
    unfold Scanner.step
    by_cases hc : c = '\''
    · simp only [if_pos hc]
      refine ⟨hlength.symm, ps, gap, rfl, hps.exchange trivial ?_, ?_⟩
      · intro k hk
        cases k <;> exact hk
      · simp [htext, Text.quoted, Text.escape, hc]
    · simp only [if_neg hc]
      have htext' : text = textOf (ps ++ [⟨gap, quotedToken start letters⟩]) := by
        simp [htext, quotedToken, Lexeme.chars]
      rw [htext']
      refine describes_begin_after hps ?_
      rintro d ⟨⟩
      exact hc

theorem describes_start : start.Describes [] :=
  ⟨rfl, [], [], rfl, isSpaced_nil, by simp [IsGap], rfl, by simp⟩

theorem describes_foldl (rest : List Char) {s : Scanner} {text : List Char} (h : s.Describes text) :
    (rest.foldl step s).Describes (text ++ rest) := by
  induction rest generalizing s text with
  | nil => simpa using h
  | cons c rest ih =>
    rw [List.foldl_cons, List.append_cons]
    exact ih (h.step c)

/-- At the end of a text its tokens are laid out, or it has broken off. -/
theorem Describes.finish {s : Scanner} {text : List Char} (h : s.Describes text) :
    match s.finish with
    | .ok tokens => IsLaidOut text tokens
    | .error e => ∃ position, e = .unterminatedString position ∧ BreaksOff text position := by
  obtain ⟨position, done, mode⟩ := s
  obtain ⟨rfl, ps, gap, rfl, h⟩ := h
  cases mode with
  | gap =>
    obtain ⟨hps, hgap, rfl, -⟩ := h
    exact ⟨ps, gap, hps, hgap, rfl, by simp⟩
  | word start letters =>
    obtain ⟨hps, rfl⟩ := h
    exact ⟨_, [], hps, by simp [IsGap], by simp [wordToken], by simp⟩
  | quoted start letters =>
    obtain ⟨hps, rfl⟩ := h
    exact ⟨start, rfl, ps, gap, _, hps, by simp⟩
  | quote start letters =>
    obtain ⟨hps, rfl⟩ := h
    exact ⟨_, [], hps, by simp [IsGap], by simp [quotedToken, Lexeme.chars], by simp⟩

end Scanner

theorem isLaidOut_of_tokenize {text : String} {tokens : List Token}
    (h : tokenize text = .ok tokens) : IsLaidOut text.toList tokens := by
  have hend := (Scanner.describes_foldl text.toList Scanner.describes_start).finish
  rwa [show Scanner.finish _ = .ok tokens from h] at hend

theorem breaksOff_of_tokenize {text : String} {e : Error} (h : tokenize text = .error e) :
    ∃ position, e = .unterminatedString position ∧ BreaksOff text.toList position := by
  have hend := (Scanner.describes_foldl text.toList Scanner.describes_start).finish
  rwa [show Scanner.finish _ = .error e from h] at hend

/-! ## What is laid out is scanned -/

namespace Scanner

/-- The scanner has read the pieces and is ready for what their last token does not go on with. -/
structure HasRead (s : Scanner) (ps : List Piece) : Prop where
  position : s.position = (utf8 (textOf ps)).length
  flushed : s.flushed = (ps.map Piece.token).reverse
  ready : ∀ rest, (∀ p ∈ ps.getLast?, p.token.lexeme.EndsBefore rest) → s.Ready rest

/-- A gap ends the token before it, if it is not empty. -/
theorem foldl_gap {gap rest : List Char} (hgap : IsGap gap) {s : Scanner}
    (hready : s.Ready (gap ++ rest)) :
    (gap.foldl step s).position = s.position + (utf8 gap).length ∧
      (gap.foldl step s).flushed = s.flushed ∧ (gap.foldl step s).Ready rest := by
  induction gap generalizing s with
  | nil => exact ⟨rfl, rfl, hready⟩
  | cons c gap ih =>
    have hstep : s.step c = ⟨s.position + c.utf8Size, s.flushed, .gap⟩ := by
      rw [step_of_ready hready, begin, if_pos (hgap c (by simp))]
    obtain ⟨hposition, hflushed, hnext⟩ :=
      ih (s := s.step c) (fun d hd => hgap d (by simp [hd])) (by rw [hstep]; trivial)
    rw [List.foldl_cons, hposition, hflushed, hstep]
    refine ⟨?_, rfl, hstep ▸ hnext⟩
    simp [utf8, Nat.add_assoc]

/-- Before the next lexeme the last token ends, with or without a gap. -/
theorem HasRead.ready_piece {s : Scanner} {ps : List Piece} {p : Piece} (h : s.HasRead ps)
    (hps : IsSpaced (ps ++ [p])) (rest : List Char) :
    s.Ready (p.gap ++ (p.token.lexeme.chars ++ rest)) := by
  obtain ⟨-, hgap, hlexeme, -, hmerges⟩ := isSpaced_concat.mp hps
  apply h.ready
  intro q hq
  refine Lexeme.endsBefore_gap hgap fun hnil => ?_
  exact (Lexeme.endsBefore_chars hlexeme rest).mpr fun hqp => hmerges q hq hqp hnil

theorem HasRead.concat {s : Scanner} {ps : List Piece} {p : Piece} (h : s.HasRead ps)
    (hps : IsSpaced (ps ++ [p])) :
    ((p.gap ++ p.token.lexeme.chars).foldl step s).HasRead (ps ++ [p]) := by
  obtain ⟨-, hgap, hlexeme, htoken, -⟩ := isSpaced_concat.mp hps
  obtain ⟨hposition, hflushed, hready⟩ := foldl_gap hgap (h.ready_piece hps [])
  rw [List.foldl_append, foldl_lexeme hlexeme hready]
  refine ⟨?_, ?_, fun rest hrest => after_ready _ (hrest p (by simp))⟩
  · rw [after_position, hposition, h.position, textOf_concat]
    simp [utf8, Nat.add_assoc]
  · have hp : (⟨p.token.lexeme, (p.gap.foldl step s).position⟩ : Token) = p.token := by
      rw [hposition, h.position, ← length_utf8_append, ← htoken]
    rw [after_flushed, hp, hflushed, h.flushed]
    simp

end Scanner

theorem IsSpaced.hasRead {ps : List Piece} (h : IsSpaced ps) :
    ((textOf ps).foldl Scanner.step Scanner.start).HasRead ps := by
  induction ps using List.reverseRecOn with
  | nil => exact ⟨rfl, rfl, fun rest _ => trivial⟩
  | append_singleton ps p ih =>
    rw [textOf_concat, List.foldl_append]
    exact (ih (isSpaced_concat.mp h).1).concat h

theorem IsLaidOut.tokenize {text : String} {tokens : List Token}
    (h : IsLaidOut text.toList tokens) : tokenize text = .ok tokens := by
  obtain ⟨ps, last, hps, hlast, htext, rfl⟩ := h
  have hread := hps.hasRead
  have hready : ((textOf ps).foldl Scanner.step Scanner.start).Ready (last ++ []) :=
    hread.ready _ fun p _ => Lexeme.endsBefore_gap hlast fun _ =>
      Lexeme.endsBefore_of_isSeam isSeam_nil _
  obtain ⟨-, hflushed, hend⟩ := Scanner.foldl_gap hlast hready
  rw [Filter.tokenize, htext, List.foldl_append, Scanner.finish_of_ready hend, hflushed,
    hread.flushed, List.reverse_reverse]

/-- The quote that opens a text that does not end is found. -/
theorem BreaksOff.tokenize {text : String} {position : Nat} (h : BreaksOff text.toList position) :
    tokenize text = .error (.unterminatedString position) := by
  obtain ⟨ps, gap, body, hps, htext⟩ := h
  obtain ⟨hold, hgap, -, hposition, -⟩ := isSpaced_concat.mp hps
  have hread := hold.hasRead
  obtain ⟨hstart, -, hready⟩ := Scanner.foldl_gap hgap (hread.ready_piece hps [])
  have hplace : (gap.foldl Scanner.step ((textOf ps).foldl Scanner.step Scanner.start)).position =
      position := by
    rw [hstart, hread.position, ← Scanner.length_utf8_append, ← hposition]
  have hbegin : ∀ done, Scanner.begin position done '\'' =
      ⟨position + 1, done, .quoted position []⟩ := fun _ => rfl
  rw [Filter.tokenize, htext, List.foldl_append, List.foldl_append, List.foldl_cons,
    Scanner.step_of_ready hready, hplace, hbegin, Scanner.foldl_escape]
  rfl

/-! ## Both directions -/

theorem exists_tokenize_eq_error (text : String) :
    (∃ e, tokenize text = .error e) ↔ text.toList.count '\'' % 2 = 1 := by
  have hquoting := Scanner.isQuoting_foldl text.toList Scanner.start
  rw [show Scanner.start.isQuoting = false from rfl, Bool.false_xor] at hquoting
  unfold tokenize
  generalize text.toList.foldl Scanner.step Scanner.start = s at *
  obtain ⟨position, done, mode⟩ := s
  cases mode with
  | quoted start letters => simpa [Scanner.finish, Scanner.isQuoting] using hquoting
  | gap | word | quote => simpa [Scanner.finish, Scanner.isQuoting] using hquoting

/-- A text has no tokens if and only if its quotes are odd in number, and it breaks off at the quote
that the error tells. Any other text has one list of tokens, which is the only one that is laid out
in it; and what is laid out is found. -/
theorem tokenize_exact (text : String) :
    ((∃ e, tokenize text = .error e) ↔ text.toList.count '\'' % 2 = 1) ∧
      (∀ e, tokenize text = .error e ↔
        ∃ position, e = .unterminatedString position ∧ BreaksOff text.toList position) ∧
      ((∃! tokens, tokenize text = .ok tokens) ↔ text.toList.count '\'' % 2 = 0) ∧
      ∀ tokens, tokenize text = .ok tokens ↔ IsLaidOut text.toList tokens := by
  have herror := exists_tokenize_eq_error text
  refine ⟨herror, fun e => ⟨breaksOff_of_tokenize, ?_⟩, ?_,
    fun tokens => ⟨isLaidOut_of_tokenize, IsLaidOut.tokenize⟩⟩
  · rintro ⟨position, rfl, h⟩
    exact h.tokenize
  · have heven : text.toList.count '\'' % 2 = 0 ↔ ¬∃ e, tokenize text = .error e := by
      rw [herror]
      omega
    rw [heven]
    cases tokenize text with
    | error e => simp
    | ok tokens => simp

end RecordQuery.Filter
