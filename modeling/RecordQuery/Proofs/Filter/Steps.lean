import RecordQuery.Filter.Reader

/-!
# The steps of a reader

* `Reader.Moves`: from which state a reader goes to which other one on a token, and
  `Reader.moves_of_step`: what it does is one of these.
* `Reads`: the reader goes from one state to another on some lexemes.
* `Reads.append`, `Reads.cons`: runs are put together from runs and steps.
* `foldlM_invariant`: what holds along a run if each step preserves it.
* `exists_of_foldlM_eq_error`: the token at which a run fails.
-/

namespace RecordQuery.Filter

variable {limit : Nat}

/-- A computation that gives a result gives one at each of its steps. -/
theorem bind_eq_ok {α β : Type} {x : Except Error α} {f : α → Except Error β} {b : β} :
    x >>= f = .ok b ↔ ∃ a, x = .ok a ∧ f a = .ok b := by
  cases x with
  | error e => exact ⟨nofun, nofun⟩
  | ok a =>
    constructor
    · exact fun h => ⟨a, rfl, h⟩
    · rintro ⟨_, ⟨⟩, h⟩
      exact h

/-- A computation that fails does so at one of its steps. -/
theorem bind_eq_error {α β : Type} {x : Except Error α} {f : α → Except Error β} {e : Error} :
    x >>= f = .error e ↔ x = .error e ∨ ∃ a, x = .ok a ∧ f a = .error e := by
  cases x with
  | error e' =>
    constructor
    · rintro ⟨⟩
      exact .inl rfl
    · rintro (⟨⟨⟩⟩ | ⟨_, ⟨⟩, _⟩)
      rfl
  | ok a =>
    constructor
    · exact fun h => .inr ⟨a, rfl, h⟩
    · rintro (h | ⟨_, ⟨⟩, h⟩)
      · cases h
      · exact h

/-! ## Single steps -/

/-- The steps of a reader. -/
inductive Reader.Moves (limit : Nat) : Reader → Token → Reader → Prop where
  | opening {outer : List Before} {before : Before} {position : Nat}
      (hdepth : outer.length + 1 ≤ limit) :
      Moves limit ⟨outer, .term before⟩ ⟨.opening, position⟩ ⟨before :: outer, .term .nothing⟩
  | name {outer : List Before} {before : Before} {position : Nat} (f : TextFunction) :
      Moves limit ⟨outer, .term before⟩ ⟨.word f.word, position⟩ ⟨outer, .condition before (.name f)⟩
  | property {outer : List Before} {before : Before} {position : Nat} {p : String}
      (hproperty : isPropertyPath p = true) :
      Moves limit ⟨outer, .term before⟩ ⟨.word p, position⟩ ⟨outer, .condition before (.property p)⟩
  | part {outer : List Before} {before : Before} {part next : Part} {t : Token}
      (hpart : Reader.stepPart part t = .ok (.inl next)) :
      Moves limit ⟨outer, .condition before part⟩ t ⟨outer, .condition before next⟩
  | last {outer : List Before} {before : Before} {part : Part} {c : Condition} {t : Token}
      (hpart : Reader.stepPart part t = .ok (.inr c)) :
      Moves limit ⟨outer, .condition before part⟩ t ⟨outer, .after (before.finish (.leaf c))⟩
  | first {outer : List Before} {position : Nat} (c : Connective) (f : Filter) :
      Moves limit ⟨outer, .after (.single f)⟩ ⟨.word c.word, position⟩ ⟨outer, .term (.terms c [f])⟩
  | again {outer : List Before} {position : Nat} (c : Connective) (fs : List Filter) :
      Moves limit ⟨outer, .after (.joined c fs)⟩ ⟨.word c.word, position⟩
        ⟨outer, .term (.terms c fs)⟩
  | closing {outer : List Before} {before : Before} {position : Nat} (level : Level) :
      Moves limit ⟨before :: outer, .after level⟩ ⟨.closing, position⟩
        ⟨outer, .after (before.finish level.filter)⟩

theorem eq_of_property {position : Nat} {word property : String}
    (h : Reader.property position word = .ok property) :
    property = word ∧ isPropertyPath word = true := by
  unfold Reader.property at h
  split at h
  · cases h; exact ⟨rfl, ‹_›⟩
  · cases h

private theorem moves_of_stepTerm {outer : List Before} {before : Before} {t : Token} {r : Reader}
    (h : Reader.stepTerm limit outer before t = .ok r) :
    Reader.Moves limit ⟨outer, .term before⟩ t r := by
  obtain ⟨l, position⟩ := t
  cases l with
  | opening =>
    simp only [Reader.stepTerm] at h
    split at h
    · cases h
      exact .opening ‹_›
    · cases h
  | word w =>
    simp only [Reader.stepTerm] at h
    split at h
    · rename_i f hf
      cases h
      rw [← TextFunction.word_of_ofWord? hf]
      exact .name f
    · obtain ⟨property, hproperty, hresult⟩ := bind_eq_ok.mp h
      cases hresult
      obtain ⟨rfl, hpath⟩ := eq_of_property hproperty
      exact .property hpath
  | closing | comma | quoted => cases h

private theorem moves_of_stepAfter {outer : List Before} {level : Level} {t : Token} {r : Reader}
    (h : Reader.stepAfter outer level t = .ok r) :
    Reader.Moves limit ⟨outer, .after level⟩ t r := by
  obtain ⟨l, position⟩ := t
  cases l with
  | word w =>
    cases hc : Connective.ofWord? w with
    | none =>
      simp only [Reader.stepAfter, hc] at h
      cases h
    | some c =>
      obtain rfl := Connective.word_of_ofWord? hc
      cases level with
      | single f =>
        simp only [Reader.stepAfter, hc] at h
        cases h
        exact .first c f
      | joined c' fs =>
        simp only [Reader.stepAfter, hc] at h
        split at h
        · cases h
          subst c'
          exact .again c fs
        · cases h
  | closing =>
    cases outer with
    | nil => cases h
    | cons before outer =>
      cases h
      exact .closing level
  | opening | comma | quoted => cases h

theorem Reader.moves_of_step {r r' : Reader} {t : Token} (h : Reader.step limit r t = .ok r') :
    Reader.Moves limit r t r' := by
  obtain ⟨outer, place⟩ := r
  cases place with
  | term before => exact moves_of_stepTerm h
  | after level => exact moves_of_stepAfter h
  | condition before part =>
    obtain ⟨result, hresult, hnext⟩ := bind_eq_ok.mp h
    cases result with
    | inl next => cases hnext; exact .part hresult
    | inr c => cases hnext; exact .last hresult

/-! ## Runs -/

theorem exists_tokens (ls : List Lexeme) : ∃ ts : List Token, ts.map Token.lexeme = ls :=
  ⟨ls.map fun l => ⟨l, 0⟩, by simp [Function.comp_def]⟩

/-- The reader goes from one state to another on the lexemes, wherever they stand. -/
def Reads (limit : Nat) (r : Reader) (ls : List Lexeme) (r' : Reader) : Prop :=
  ∀ ts : List Token, ts.map Token.lexeme = ls → ts.foldlM (Reader.step limit) r = .ok r'

namespace Reads

variable {r r₁ r₂ : Reader} {l : Lexeme} {ls ls' : List Lexeme}

theorem nil : Reads limit r [] r := by
  intro ts hts
  rw [List.map_eq_nil_iff.mp hts]; rfl

theorem cons (r₁ : Reader)
    (hstep : ∀ position, Reader.step limit r ⟨l, position⟩ = .ok r₁)
    (h : Reads limit r₁ ls r₂) : Reads limit r (l :: ls) r₂ := by
  intro ts hts
  obtain ⟨t, ts, rfl, rfl, htail⟩ := List.map_eq_cons_iff.mp hts
  rw [List.foldlM_cons, show t = ⟨t.lexeme, t.position⟩ from rfl, hstep]
  exact h ts htail

theorem append (h : Reads limit r ls r₁) (h' : Reads limit r₁ ls' r₂) :
    Reads limit r (ls ++ ls') r₂ := by
  intro ts hts
  obtain ⟨ts, ts', rfl, hts, hts'⟩ := List.map_eq_append_iff.mp hts
  rw [List.foldlM_append, h ts hts]
  exact h' ts' hts'

end Reads

/-- What each step preserves, of the lexemes read so far and the state, a run preserves. -/
theorem foldlM_invariant {I : List Lexeme → Reader → Prop}
    (hstep : ∀ ls r t r', Reader.Moves limit r t r' → I ls r → I (ls ++ [t.lexeme]) r')
    (ls : List Lexeme) {ts : List Token} {r r' : Reader} (h : I ls r)
    (hrun : ts.foldlM (Reader.step limit) r = .ok r') : I (ls ++ ts.map Token.lexeme) r' := by
  induction ts generalizing ls r with
  | nil =>
    cases hrun
    simpa using h
  | cons t ts ih =>
    obtain ⟨r₁, hr₁, hrest⟩ := bind_eq_ok.mp hrun
    rw [List.map_cons, List.append_cons]
    exact ih _ (hstep ls r t r₁ (Reader.moves_of_step hr₁) h) hrest

/-- A run that fails does so at one of the tokens. -/
theorem exists_of_foldlM_eq_error {ts : List Token} {r : Reader} {e : Error}
    (h : ts.foldlM (Reader.step limit) r = .error e) :
    ∃ before t after r', ts = before ++ t :: after ∧
      before.foldlM (Reader.step limit) r = .ok r' ∧ Reader.step limit r' t = .error e := by
  induction ts generalizing r with
  | nil => cases h
  | cons t ts ih =>
    rcases bind_eq_error.mp h with hstep | ⟨r₁, hstep, hrest⟩
    · exact ⟨[], t, ts, r, rfl, rfl, hstep⟩
    · obtain ⟨before, u, after, r', rfl, hrun, hfail⟩ := ih hrest
      refine ⟨t :: before, u, after, r', rfl, ?_, hfail⟩
      rw [List.foldlM_cons, hstep]
      exact hrun

/-- Tokens that are read as a filter bring the reader to the end of a level outside of all
parentheses. -/
theorem exists_level_of_ofTokens {ts : List Token} {f : Filter} (h : ofTokens limit ts = .ok f) :
    ∃ level : Level, ts.foldlM (Reader.step limit) Reader.start = .ok ⟨[], .after level⟩ ∧
      level.filter = f := by
  unfold ofTokens at h
  split at h
  · cases h
  · obtain ⟨⟨outer, place⟩, hrun, hfinish⟩ := bind_eq_ok.mp h
    unfold Reader.finish at hfinish
    split at hfinish
    · rename_i level houter hplace
      cases houter
      cases hplace
      cases hfinish
      exact ⟨level, hrun, rfl⟩
    · cases hfinish

/-- Tokens that bring the reader to the end of a level outside of all parentheses are a filter. -/
theorem ofTokens_of_foldlM {ts : List Token} {level : Level}
    (h : ts.foldlM (Reader.step limit) Reader.start = .ok ⟨[], .after level⟩) :
    ofTokens limit ts = .ok level.filter := by
  have hne : ts ≠ [] := by
    rintro rfl
    cases h
  rw [ofTokens, if_neg (by simpa using hne)]
  exact bind_eq_ok.mpr ⟨_, h, rfl⟩

end RecordQuery.Filter
