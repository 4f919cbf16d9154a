import RecordQuery.Proofs.Filter.Grammar
import RecordQuery.Proofs.Filter.Lexing

/-!
# Where reading fails

Lexemes are viable if some text that begins with them can be read. An error points at the first
token with which the lexemes are no longer viable.

* `Accepts`, `Viable`: the lexemes of the texts that can be read, and the starts of such lexemes.
* `accepts_iff`: these are the lexemes that can be written and that the grammar has.
* `Reader.exists_completion`: from each state a reader can come to the end of a filter, so what has
  been read is viable.
* `Error.Blames`: which token an error points at, and `Reader.blames_of_step`: it is the one at
  which a step fails.
* `read_error_blames`: the tokens before the one that the error points at are viable, and with it
  they are not.
-/

namespace RecordQuery.Filter

variable {limit : Nat}

/-! ## Viable lexemes -/

/-- The lexemes are those of a text that can be read. -/
def Accepts (limit : Nat) (ls : List Lexeme) : Prop :=
  ∃ text tokens f, tokenize text = .ok tokens ∧ tokens.map Token.lexeme = ls ∧
    read text limit = .ok f

/-- The lexemes are the first ones of a text that can be read. -/
def Viable (limit : Nat) (ls : List Lexeme) : Prop := ∃ rest, Accepts limit (ls ++ rest)

/-- The token is written in the text, after as many bytes as its position tells. -/
def Token.StandsIn (t : Token) (text : List Char) : Prop :=
  ∃ before after, text = before ++ (t.lexeme.chars ++ after) ∧
    t.position = (Text.utf8 before).length

theorem isWritten_of_tokenize {text : String} {tokens : List Token}
    (h : tokenize text = .ok tokens) : ∀ t ∈ tokens, t.lexeme.IsWritten := by
  obtain ⟨ps, last, hps, -, -, rfl⟩ := isLaidOut_of_tokenize h
  intro t ht
  obtain ⟨p, hp, rfl⟩ := List.mem_map.mp ht
  exact hps.lexemes p hp

theorem standsIn_of_tokenize {text : String} {before after : List Token} {t : Token}
    (h : tokenize text = .ok (before ++ t :: after)) : t.StandsIn text.toList := by
  obtain ⟨ps, last, hps, -, htext, htokens⟩ := isLaidOut_of_tokenize h
  obtain ⟨ps₁, ps₂, rfl, -, hrest⟩ := List.map_eq_append_iff.mp htokens.symm
  obtain ⟨p, ps₂, rfl, rfl, -⟩ := List.map_eq_cons_iff.mp hrest
  exact ⟨textOf ps₁ ++ p.gap, textOf ps₂ ++ last, by simp [htext, textOf],
    hps.positions ps₁ p ps₂ rfl⟩

/-- Lexemes that can be written are the lexemes of a text: blanks keep them apart. -/
theorem exists_tokenize_eq {ls : List Lexeme} (h : ∀ l ∈ ls, l.IsWritten) :
    ∃ text tokens, tokenize text = .ok tokens ∧ tokens.map Token.lexeme = ls := by
  have hspelled : ∃ cs, Spelled cs ls := by
    induction ls with
    | nil => exact ⟨[], .nil⟩
    | cons l ls ih =>
      obtain ⟨cs, hcs⟩ := ih fun k hk => h k (by simp [hk])
      exact ⟨_, hcs.space.lexeme_seam (h l (by simp)) (isSeam_space cs)⟩
  obtain ⟨cs, hcs⟩ := hspelled
  rw [← String.toList_ofList (l := cs)] at hcs
  obtain ⟨tokens, htokens, hls⟩ := hcs.tokenize
  exact ⟨_, tokens, htokens, hls⟩

theorem read_eq_ofTokens {text : String} {tokens : List Token} (h : tokenize text = .ok tokens)
    (limit : Nat) : read text limit = ofTokens limit tokens := by
  rw [read, h]
  rfl

/-- The lexemes of the texts that can be read are those that can be written and that the grammar
has. -/
theorem accepts_iff {ls : List Lexeme} :
    Accepts limit ls ↔ (∀ l ∈ ls, l.IsWritten) ∧ ∃ f, IsFilter limit 0 ls f := by
  constructor
  · rintro ⟨text, tokens, f, htokens, rfl, hread⟩
    rw [read_eq_ofTokens htokens] at hread
    refine ⟨?_, f, ofTokens_eq_ok.mp hread⟩
    simpa using isWritten_of_tokenize htokens
  · rintro ⟨hwritten, f, hf⟩
    obtain ⟨text, tokens, htokens, rfl⟩ := exists_tokenize_eq hwritten
    exact ⟨text, tokens, f, htokens, rfl, by rw [read_eq_ofTokens htokens, ofTokens_eq_ok.mpr hf]⟩

/-! ## What has been read is viable -/

/-- The condition can be finished. -/
def Part.CanEnd (limit : Nat) (outer : List Before) (before : Before) (part : Part) : Prop :=
  ∃ ls c, (∀ l ∈ ls, l.IsWritten) ∧
    Reads limit ⟨outer, .condition before part⟩ ls ⟨outer, .after (before.finish (.leaf c))⟩

theorem Part.CanEnd.advance {outer : List Before} {before : Before} {part next : Part} {l : Lexeme}
    (h : next.CanEnd limit outer before) (hl : l.IsWritten)
    (hpart : ∀ position, Reader.stepPart part ⟨l, position⟩ = .ok (.inl next)) :
    part.CanEnd limit outer before := by
  obtain ⟨ls, c, hwritten, hreads⟩ := h
  exact ⟨l :: ls, c, by simpa [hl] using hwritten, hreads.advance next hpart⟩

theorem Part.canEnd_of_last {outer : List Before} {before : Before} {part : Part} {l : Lexeme}
    {c : Condition} (hl : l.IsWritten)
    (hpart : ∀ position, Reader.stepPart part ⟨l, position⟩ = .ok (.inr c)) :
    part.CanEnd limit outer before :=
  ⟨[l], c, by simpa using hl, .last hpart⟩

/-- The letter a, which can be a property. -/
theorem isWritten_letter : (Lexeme.word "a").IsWritten := isWritten_word (by decide) (by decide)

theorem isWritten_eq : (Lexeme.word Comparison.eq.word).IsWritten :=
  isWritten_word (by decide) (by decide)

/-- Every start of a condition can be finished. -/
theorem Part.canEnd (limit : Nat) (outer : List Before) (before : Before) (part : Part) :
    part.CanEnd limit outer before := by
  have hproperty : ∀ position, Reader.propertyOf ⟨.word "a", position⟩ = .ok "a" :=
    propertyOf_word (by decide)
  have harguments : ∀ c, (Part.arguments c).CanEnd limit outer before := fun c =>
    canEnd_of_last (l := .closing) trivial fun _ => rfl
  have hneedleComma : ∀ v, (Part.needleComma v).CanEnd limit outer before := fun v =>
    (harguments ⟨"a", .function .contains, v⟩).advance isWritten_letter fun position => by
      simp only [Reader.stepPart, hproperty]
      rfl
  have hneedle : ∀ v, (Part.needle v).CanEnd limit outer before := fun v =>
    (hneedleComma v).advance (l := .comma) trivial fun _ => rfl
  have hsubjectComma : ∀ f p, (Part.subjectComma f p).CanEnd limit outer before := fun f p =>
    (harguments ⟨p, .function f, .text ""⟩).advance (l := .quoted "") trivial fun _ => rfl
  have hsubject : ∀ f p, (Part.subject f p).CanEnd limit outer before := fun f p =>
    (hsubjectComma f p).advance (l := .comma) trivial fun _ => rfl
  have hcomparison : ∀ p c, (Part.comparison p c).CanEnd limit outer before := fun p c =>
    canEnd_of_last (l := .quoted "") trivial fun _ => rfl
  have hcall : ∀ f, f ≠ .contains → (Part.call f).CanEnd limit outer before := by
    intro f hf
    refine (hsubject f "a").advance isWritten_letter fun position => ?_
    cases f with
    | contains => exact absurd rfl hf
    | startsWith | endsWith =>
      simp only [Reader.stepPart, hproperty]
      rfl
  cases part with
  | name f => exact (hcomparison f.word .eq).advance isWritten_eq fun _ => rfl
  | property p => exact (hcomparison p .eq).advance isWritten_eq fun _ => rfl
  | comparison p c => exact hcomparison p c
  | needle v => exact hneedle v
  | needleComma v => exact hneedleComma v
  | subject f p => exact hsubject f p
  | subjectComma f p => exact hsubjectComma f p
  | arguments c => exact harguments c
  | call f =>
    cases f with
    | contains => exact (hneedle (.text "")).advance (l := .quoted "") trivial fun _ => rfl
    | startsWith | endsWith => exact hcall _ (by decide)

/-- All open parentheses can be closed after a term. -/
theorem exists_closing (limit : Nat) (outer : List Before) (level : Level) :
    ∃ ls level', (∀ l ∈ ls, l.IsWritten) ∧
      Reads limit ⟨outer, .after level⟩ ls ⟨[], .after level'⟩ := by
  induction outer generalizing level with
  | nil => exact ⟨[], level, by simp, .nil⟩
  | cons before outer ih =>
    obtain ⟨ls, level', hwritten, hreads⟩ := ih (before.finish level.filter)
    refine ⟨.closing :: ls, level', ?_, .cons _ (fun _ => rfl) hreads⟩
    simpa [Lexeme.IsWritten] using hwritten

/-- From each state the reader can come to the end of a filter. -/
theorem Reader.exists_completion (limit : Nat) (r : Reader) :
    ∃ ls level, (∀ l ∈ ls, l.IsWritten) ∧ Reads limit r ls ⟨[], .after level⟩ := by
  obtain ⟨outer, place⟩ := r
  have hcondition : ∀ before part, ∃ ls level, (∀ l ∈ ls, l.IsWritten) ∧
      Reads limit ⟨outer, .condition before part⟩ ls ⟨[], .after level⟩ := by
    intro before part
    obtain ⟨ls, c, hwritten, hreads⟩ := part.canEnd limit outer before
    obtain ⟨ls', level, hwritten', hreads'⟩ :=
      exists_closing limit outer (before.finish (.leaf c))
    refine ⟨ls ++ ls', level, ?_, hreads.append hreads'⟩
    simpa [or_imp, forall_and] using ⟨hwritten, hwritten'⟩
  cases place with
  | after level => exact exists_closing limit outer level
  | condition before part => exact hcondition before part
  | term before =>
    obtain ⟨ls, level, hwritten, hreads⟩ := hcondition before (.property "a")
    refine ⟨.word "a" :: ls, level, ?_, .cons _ (fun _ => rfl) hreads⟩
    simpa [isWritten_letter] using hwritten

theorem viable_of_foldlM {ts : List Token} {r : Reader} (hwritten : ∀ t ∈ ts, t.lexeme.IsWritten)
    (h : ts.foldlM (Reader.step limit) Reader.start = .ok r) :
    Viable limit (ts.map Token.lexeme) := by
  obtain ⟨ls, level, hls, hreads⟩ := r.exists_completion limit
  obtain ⟨ts', hmap⟩ := exists_tokens ls
  have hrun : (ts ++ ts').foldlM (Reader.step limit) Reader.start = .ok ⟨[], .after level⟩ := by
    rw [List.foldlM_append, h]
    exact hreads _ hmap
  have hfilter := ofTokens_eq_ok.mp (ofTokens_of_foldlM hrun)
  rw [List.map_append, hmap] at hfilter
  refine ⟨ls, accepts_iff.mpr ⟨?_, _, hfilter⟩⟩
  simpa [or_imp, forall_and] using ⟨hwritten, hls⟩

/-- Tokens at which the reader fails are not viable. -/
theorem not_viable_of_foldlM {ts : List Token} {e : Error}
    (h : ts.foldlM (Reader.step limit) Reader.start = .error e) :
    ¬Viable limit (ts.map Token.lexeme) := by
  rintro ⟨rest, haccepts⟩
  obtain ⟨-, f, hf⟩ := accepts_iff.mp haccepts
  obtain ⟨level, -, hreads⟩ := hf.reads [] rfl
  obtain ⟨ts', rfl⟩ := exists_tokens rest
  have hrun : (ts ++ ts').foldlM (Reader.step limit) Reader.start = .ok ⟨[], .after level⟩ :=
    hreads _ List.map_append
  rw [List.foldlM_append, h] at hrun
  cases hrun

/-! ## The token of an error -/

/-- The error points at the token: it tells its place, or complains of too many parentheses when it
is one more. -/
inductive Error.Blames (limit : Nat) : Error → Token → Prop where
  | unexpectedToken (t : Token) : Blames limit (.unexpectedToken t.position t.text) t
  | invalidProperty (position : Nat) (word : String) :
      Blames limit (.invalidProperty position word) ⟨.word word, position⟩
  | unknownOperator (position : Nat) (word : String) :
      Blames limit (.unknownOperator position word) ⟨.word word, position⟩
  | mixedConnectives (position : Nat) (c : Connective) :
      Blames limit (.mixedConnectives position) ⟨.word c.word, position⟩
  | tooDeep (position : Nat) : Blames limit (.tooDeep limit) ⟨.opening, position⟩

namespace Reader

theorem blames_of_property {position : Nat} {word : String} {e : Error}
    (h : property position word = .error e) : e.Blames limit ⟨.word word, position⟩ := by
  unfold property at h
  split at h <;> cases h
  exact .invalidProperty position word

theorem blames_of_propertyOf {t : Token} {e : Error} (h : propertyOf t = .error e) :
    e.Blames limit t := by
  obtain ⟨l, position⟩ := t
  cases l with
  | word w => exact blames_of_property h
  | opening | closing | comma | quoted => cases h; exact .unexpectedToken _

theorem blames_of_valueOf {t : Token} {e : Error} (h : valueOf t = .error e) :
    e.Blames limit t := by
  obtain ⟨l, position⟩ := t
  cases l with
  | word | quoted => cases h
  | opening | closing | comma => cases h; exact .unexpectedToken _

theorem blames_of_comparisonOf {t : Token} {e : Error} (h : comparisonOf t = .error e) :
    e.Blames limit t := by
  obtain ⟨l, position⟩ := t
  cases l with
  | word w =>
    simp only [comparisonOf] at h
    split at h <;> cases h
    exact .unknownOperator position w
  | opening | closing | comma | quoted => cases h; exact .unexpectedToken _

theorem blames_of_expect {l : Lexeme} {t : Token} {e : Error} (h : expect l t = .error e) :
    e.Blames limit t := by
  unfold expect at h
  split at h <;> cases h
  exact .unexpectedToken t

/-- A result of which something is made fails with its own error. -/
theorem eq_error_of_bind {α β : Type} {x : Except Error α} {f : α → β} {e : Error}
    (h : (do return f (← x)) = Except.error e) : x = .error e := by
  rcases bind_eq_error.mp h with h | ⟨a, -, h⟩
  · exact h
  · cases h

theorem blames_of_stepPart {part : Part} {t : Token} {e : Error}
    (h : stepPart part t = .error e) : e.Blames limit t := by
  cases part with
  | name f =>
    simp only [stepPart] at h
    split at h
    · cases h
    · exact blames_of_comparisonOf (eq_error_of_bind h)
  | property p => exact blames_of_comparisonOf (eq_error_of_bind h)
  | comparison p c => exact blames_of_valueOf (eq_error_of_bind h)
  | call f =>
    cases f with
    | contains => exact blames_of_valueOf (eq_error_of_bind h)
    | startsWith | endsWith => exact blames_of_propertyOf (eq_error_of_bind h)
  | needle v => exact blames_of_expect (eq_error_of_bind h)
  | needleComma v => exact blames_of_propertyOf (eq_error_of_bind h)
  | subject f p => exact blames_of_expect (eq_error_of_bind h)
  | subjectComma f p => exact blames_of_valueOf (eq_error_of_bind h)
  | arguments c => exact blames_of_expect (eq_error_of_bind h)

theorem blames_of_stepTerm {outer : List Before} {before : Before} {t : Token} {e : Error}
    (h : stepTerm limit outer before t = .error e) : e.Blames limit t := by
  obtain ⟨l, position⟩ := t
  cases l with
  | opening =>
    simp only [stepTerm] at h
    split at h <;> cases h
    exact .tooDeep position
  | word w =>
    simp only [stepTerm] at h
    split at h
    · cases h
    · exact blames_of_property (eq_error_of_bind h)
  | closing | comma | quoted => cases h; exact .unexpectedToken _

theorem blames_of_stepAfter {outer : List Before} {level : Level} {t : Token} {e : Error}
    (h : stepAfter outer level t = .error e) : e.Blames limit t := by
  obtain ⟨l, position⟩ := t
  cases l with
  | word w =>
    cases hc : Connective.ofWord? w with
    | none =>
      simp only [stepAfter, hc] at h
      cases h
      exact .unexpectedToken _
    | some c =>
      obtain rfl := Connective.word_of_ofWord? hc
      cases level with
      | single f =>
        simp only [stepAfter, hc] at h
        cases h
      | joined c' fs =>
        simp only [stepAfter, hc] at h
        split at h <;> cases h
        exact .mixedConnectives position c
  | closing =>
    cases outer with
    | nil => cases h; exact .unexpectedToken _
    | cons before outer => cases h
  | opening | comma | quoted => cases h; exact .unexpectedToken _

theorem blames_of_step {r : Reader} {t : Token} {e : Error} (h : step limit r t = .error e) :
    e.Blames limit t := by
  obtain ⟨outer, place⟩ := r
  cases place with
  | term before => exact blames_of_stepTerm h
  | after level => exact blames_of_stepAfter h
  | condition before part =>
    rcases bind_eq_error.mp h with hpart | ⟨result, -, hresult⟩
    · exact blames_of_stepPart hpart
    · cases result <;> cases hresult

end Reader

/-! ## Errors of texts -/

/-- Reading a text that has tokens fails at the first token with which they are not viable, and
points at it; or the text ends, and its tokens are viable and no filter. -/
theorem read_error_blames {text : String} {tokens : List Token} {e : Error}
    (htokens : tokenize text = .ok tokens) (hne : tokens ≠ []) (h : read text limit = .error e) :
    (∃ before t after, tokens = before ++ t :: after ∧ e.Blames limit t ∧
        t.StandsIn text.toList ∧ Viable limit (before.map Token.lexeme) ∧
        ¬Viable limit ((before ++ [t]).map Token.lexeme)) ∨
      (e = .unexpectedEnd ∧ Viable limit (tokens.map Token.lexeme) ∧
        ¬Accepts limit (tokens.map Token.lexeme)) := by
  have hwritten := isWritten_of_tokenize htokens
  rw [read_eq_ofTokens htokens] at h
  have hread := h
  rw [ofTokens, if_neg (by simpa using hne)] at h
  rcases bind_eq_error.mp h with hrun | ⟨r, hrun, hfinish⟩
  · obtain ⟨before, t, after, r, rfl, hbefore, hstep⟩ := exists_of_foldlM_eq_error hrun
    have hfail : (before ++ [t]).foldlM (Reader.step limit) Reader.start = .error e := by
      rw [List.foldlM_append, hbefore]
      exact bind_eq_error.mpr (.inr ⟨r, rfl, bind_eq_error.mpr (.inl hstep)⟩)
    exact .inl ⟨before, t, after, rfl, Reader.blames_of_step hstep, standsIn_of_tokenize htokens,
      viable_of_foldlM (fun u hu => hwritten u (by simp [hu])) hbefore, not_viable_of_foldlM hfail⟩
  · refine .inr ⟨?_, viable_of_foldlM hwritten hrun, fun haccepts => ?_⟩
    · unfold Reader.finish at hfinish
      split at hfinish <;> cases hfinish
      rfl
    · obtain ⟨-, f, hf⟩ := accepts_iff.mp haccepts
      rw [ofTokens_eq_ok.mpr hf] at hread
      cases hread

/-- The second connective differs from the first, after a character of two bytes. -/
theorem read_error_blames_connective :
    read "(a eq 'é') or b eq c and" 1 = .error (.mixedConnectives 22) ∧
      ∃ before t after, tokenize "(a eq 'é') or b eq c and" = .ok (before ++ t :: after) ∧
        t.position = 22 ∧ Viable 1 (before.map Token.lexeme) ∧
        ¬Viable 1 ((before ++ [t]).map Token.lexeme) := by
  have h : read "(a eq 'é') or b eq c and" 1 = .error (.mixedConnectives 22) := by rfl
  have htokens : ∃ t ts, tokenize "(a eq 'é') or b eq c and" = .ok (t :: ts) := ⟨_, _, by rfl⟩
  obtain ⟨u, us, htokens⟩ := htokens
  rcases read_error_blames htokens (by simp) h with ⟨before, t, after, hts, hblames, -, hviable⟩ |
    ⟨⟨⟩, -⟩
  cases hblames
  exact ⟨h, before, _, after, by rw [htokens, hts], rfl, hviable⟩

end RecordQuery.Filter
