import RecordQuery.Proofs.Filter.Steps

/-!
# The grammar of filters

* `IsFilter`: the lexemes write the filter, with parentheses nested at most to the limit. `IsTerms`,
  `IsTerm`, `IsCondition` and `IsValue` are its parts.
* `IsFilter.reads`: what the grammar writes is read (by induction on the derivation).
* `Reader.Covers`: how the state of a reader splits the lexemes read so far into finished terms,
  open parentheses and the start of a condition. Each step keeps it (`Reader.Covers.step`).
* `ofTokens_eq_ok`: the tokens are read as a filter if and only if their lexemes write it.
* `read_eq_ok_iff_isFilter`: a text is read as a filter if and only if its lexemes write it, and no
  lexemes write two.
-/

namespace RecordQuery.Filter

/-! ## Derivations -/

/-- A quoted text stands for itself, and a word for what it means without quotes. -/
inductive IsValue : Lexeme → Value → Prop where
  | quoted (s : String) : IsValue (.quoted s) (.text s)
  | word (w : String) : IsValue (.word w) (.ofWord w)

/-- The lexemes are a condition. -/
inductive IsCondition : List Lexeme → Condition → Prop where
  | comparison {property : String} {l : Lexeme} {v : Value} (c : Comparison)
      (hproperty : isPropertyPath property = true) (hvalue : IsValue l v) :
      IsCondition [.word property, .word c.word, l] ⟨property, .comparison c, v⟩
  | contains {property : String} {l : Lexeme} {v : Value}
      (hproperty : isPropertyPath property = true) (hvalue : IsValue l v) :
      IsCondition
        [.word TextFunction.contains.word, .opening, l, .comma, .word property, .closing]
        ⟨property, .function .contains, v⟩
  | call {property : String} {l : Lexeme} {v : Value} {f : TextFunction} (hf : f ≠ .contains)
      (hproperty : isPropertyPath property = true) (hvalue : IsValue l v) :
      IsCondition [.word f.word, .opening, .word property, .comma, l, .closing]
        ⟨property, .function f, v⟩

mutual

/-- The lexemes are a filter inside of `depth` parentheses: one term, or terms with one connective
between them. -/
inductive IsFilter (limit : Nat) : Nat → List Lexeme → Filter → Prop where
  | single {depth : Nat} {ls : List Lexeme} {f : Filter} (h : IsTerm limit depth ls f) :
      IsFilter limit depth ls f
  | group {depth : Nat} {c : Connective} {ls : List Lexeme} {fs : List Filter}
      (hlength : 2 ≤ fs.length) (h : IsTerms limit depth c ls fs) :
      IsFilter limit depth ls (.group (some c) fs)

/-- The lexemes are one term or more, with a connective between neighbours. -/
inductive IsTerms (limit : Nat) : Nat → Connective → List Lexeme → List Filter → Prop where
  | first {depth : Nat} {c : Connective} {ls : List Lexeme} {f : Filter}
      (h : IsTerm limit depth ls f) : IsTerms limit depth c ls [f]
  | next {depth : Nat} {c : Connective} {ls ls' : List Lexeme} {fs : List Filter} {f : Filter}
      (hs : IsTerms limit depth c ls fs) (h : IsTerm limit depth ls' f) :
      IsTerms limit depth c (ls ++ .word c.word :: ls') (fs ++ [f])

/-- The lexemes are a condition, or a filter in parentheses. -/
inductive IsTerm (limit : Nat) : Nat → List Lexeme → Filter → Prop where
  | condition {depth : Nat} {ls : List Lexeme} {c : Condition} (h : IsCondition ls c) :
      IsTerm limit depth ls (.leaf c)
  | parentheses {depth : Nat} {ls : List Lexeme} {f : Filter} (hdepth : depth + 1 ≤ limit)
      (h : IsFilter limit (depth + 1) ls f) :
      IsTerm limit depth (.opening :: ls ++ [.closing]) f

end

/-- A term and a connective may stand before terms. -/
theorem IsTerms.cons {limit depth : Nat} {c : Connective} {ls ls' : List Lexeme} {f : Filter}
    {fs : List Filter} (h : IsTerm limit depth ls f) (hs : IsTerms limit depth c ls' fs) :
    IsTerms limit depth c (ls ++ .word c.word :: ls') (f :: fs) := by
  match hs with
  | .first h' => exact .next (.first h) h'
  | .next hs h' => simpa using (IsTerms.cons h hs).next h'

/-! ## What is written is read -/

variable {limit : Nat}

namespace Reads

variable {outer : List Before} {before : Before} {part : Part} {c : Condition} {l : Lexeme}
  {ls : List Lexeme} {r : Reader}

theorem advance (next : Part)
    (hpart : ∀ position, Reader.stepPart part ⟨l, position⟩ = .ok (.inl next))
    (h : Reads limit ⟨outer, .condition before next⟩ ls r) :
    Reads limit ⟨outer, .condition before part⟩ (l :: ls) r :=
  .cons _ (fun position => by simp only [Reader.step, hpart]; rfl) h

theorem last (hpart : ∀ position, Reader.stepPart part ⟨l, position⟩ = .ok (.inr c)) :
    Reads limit ⟨outer, .condition before part⟩ [l] ⟨outer, .after (before.finish (.leaf c))⟩ :=
  .cons _ (fun position => by simp only [Reader.step, hpart]; rfl) .nil

/-- The word of a text function at the start of a term. -/
theorem name {f : TextFunction} (h : Reads limit ⟨outer, .condition before (.name f)⟩ ls r) :
    Reads limit ⟨outer, .term before⟩ (.word f.word :: ls) r :=
  .cons _ (fun position => by simp [Reader.step, Reader.stepTerm]) h

end Reads

theorem IsValue.valueOf_eq {l : Lexeme} {v : Value} (h : IsValue l v) (position : Nat) :
    Reader.valueOf ⟨l, position⟩ = .ok v := by
  cases h <;> rfl

theorem comparisonOf_word (c : Comparison) (position : Nat) :
    Reader.comparisonOf ⟨.word c.word, position⟩ = .ok c := by
  simp [Reader.comparisonOf]

theorem propertyOf_word {property : String} (h : isPropertyPath property = true) (position : Nat) :
    Reader.propertyOf ⟨.word property, position⟩ = .ok property := by
  simp [Reader.propertyOf, Reader.property, h]

/-- A property at the start of a term is read as one, also if it is the word of a text function. -/
theorem reads_property {property : String} (hproperty : isPropertyPath property = true)
    (c : Comparison) (outer : List Before) (before : Before) :
    Reads limit ⟨outer, .term before⟩ [.word property, .word c.word]
      ⟨outer, .condition before (.comparison property c)⟩ := by
  cases hf : TextFunction.ofWord? property with
  | some f =>
    obtain rfl := TextFunction.word_of_ofWord? hf
    refine .name (.advance _ (fun position => ?_) .nil)
    simp only [Reader.stepPart, comparisonOf_word]
    rfl
  | none =>
    refine .cons ⟨outer, .condition before (.property property)⟩ (fun position => ?_)
      (.advance _ (fun position => ?_) .nil)
    · simp only [Reader.step, Reader.stepTerm, hf, Reader.property, hproperty]
      rfl
    · simp only [Reader.stepPart, comparisonOf_word]
      rfl

theorem IsCondition.reads {ls : List Lexeme} {c : Condition} (h : IsCondition ls c)
    (outer : List Before) (before : Before) :
    Reads limit ⟨outer, .term before⟩ ls ⟨outer, .after (before.finish (.leaf c))⟩ := by
  cases h with
  | comparison c hproperty hvalue =>
    refine (reads_property hproperty c outer before).append (.last fun position => ?_)
    simp only [Reader.stepPart, hvalue.valueOf_eq]
    rfl
  | @contains property l v hproperty hvalue =>
    refine .name (.advance (.call .contains) (fun _ => rfl) (.advance (.needle v) ?_
      (.advance (.needleComma v) (fun _ => rfl)
        (.advance (.arguments ⟨property, .function .contains, v⟩) ?_
          (.last fun _ => rfl)))))
    · intro position
      simp only [Reader.stepPart, hvalue.valueOf_eq]
      rfl
    · intro position
      simp only [Reader.stepPart, propertyOf_word hproperty]
      rfl
  | @call property l v f hf hproperty hvalue =>
    refine .name (.advance (.call f) (fun _ => rfl) (.advance (.subject f property) ?_
      (.advance (.subjectComma f property) (fun _ => rfl)
        (.advance (.arguments ⟨property, .function f, v⟩) ?_ (.last fun _ => rfl)))))
    · intro position
      cases f with
      | contains => exact absurd rfl hf
      | startsWith | endsWith =>
        simp only [Reader.stepPart, propertyOf_word hproperty]
        rfl
    · intro position
      simp only [Reader.stepPart, hvalue.valueOf_eq]
      rfl

/-- The level of some terms, latest first. -/
def Level.ofTerms (c : Connective) : List Filter → Level
  | [f] => .single f
  | fs => .joined c fs

theorem Level.ofTerms_of_length {c : Connective} {fs : List Filter} (h : 2 ≤ fs.length) :
    Level.ofTerms c fs = .joined c fs := by
  match fs with
  | _ :: _ :: _ => rfl

theorem IsTerms.ne_nil {depth : Nat} {c : Connective} {ls : List Lexeme} {fs : List Filter}
    (h : IsTerms limit depth c ls fs) : fs ≠ [] := by
  cases h <;> simp

/-- After terms the connective between them goes on with the level. -/
theorem reads_connective (c : Connective) {fs : List Filter} (hfs : fs ≠ []) (outer : List Before) :
    Reads limit ⟨outer, .after (.ofTerms c fs)⟩ [.word c.word] ⟨outer, .term (.terms c fs)⟩ := by
  refine .cons _ (fun position => ?_) .nil
  match fs with
  | [f] => simp [Reader.step, Reader.stepAfter, Level.ofTerms]
  | f :: g :: fs => simp [Reader.step, Reader.stepAfter, Level.ofTerms]

mutual

theorem IsFilter.reads {depth : Nat} {ls : List Lexeme} {f : Filter}
    (h : IsFilter limit depth ls f) (outer : List Before) (houter : outer.length = depth) :
    ∃ level : Level, level.filter = f ∧
      Reads limit ⟨outer, .term .nothing⟩ ls ⟨outer, .after level⟩ := by
  match h with
  | .single h => exact ⟨.single f, rfl, h.reads outer houter .nothing⟩
  | @IsFilter.group _ _ c _ fs hlength h =>
    refine ⟨.joined c fs.reverse, by simp [Level.filter], ?_⟩
    rw [← Level.ofTerms_of_length (by simpa using hlength)]
    exact h.reads outer houter

/-- Terms are read as a level of their own. -/
theorem IsTerms.reads {depth : Nat} {c : Connective} {ls : List Lexeme} {fs : List Filter}
    (h : IsTerms limit depth c ls fs) (outer : List Before) (houter : outer.length = depth) :
    Reads limit ⟨outer, .term .nothing⟩ ls ⟨outer, .after (.ofTerms c fs.reverse)⟩ := by
  match h with
  | .first h => exact h.reads outer houter .nothing
  | @IsTerms.next _ _ _ ls ls' fs f hs h =>
    have hpos := List.length_pos_iff.mpr hs.ne_nil
    have hlevel : (Before.terms c fs.reverse).finish f = .ofTerms c (fs ++ [f]).reverse := by
      rw [Level.ofTerms_of_length (by simp; omega)]
      simp [Before.finish]
    rw [List.append_cons, ← hlevel]
    exact ((hs.reads outer houter).append
      (reads_connective c (by simpa using hs.ne_nil) outer)).append
      (h.reads outer houter (.terms c fs.reverse))

/-- A term is read as the next one of its level. -/
theorem IsTerm.reads {depth : Nat} {ls : List Lexeme} {f : Filter} (h : IsTerm limit depth ls f)
    (outer : List Before) (houter : outer.length = depth) (before : Before) :
    Reads limit ⟨outer, .term before⟩ ls ⟨outer, .after (before.finish f)⟩ := by
  match h with
  | .condition h => exact h.reads outer before
  | .parentheses hdepth h =>
    obtain ⟨level, rfl, hlevel⟩ := h.reads (before :: outer) (by simp [houter])
    refine .append (.cons _ (fun position => ?_) hlevel) (.cons _ (fun position => rfl) .nil)
    simp [Reader.step, Reader.stepTerm, houter, hdepth]

end

/-! ## What is read is written -/

/-- The lexemes are the finished terms of a level, each with the connective after it. -/
def Before.Covers (limit depth : Nat) (ls : List Lexeme) : Before → Prop
  | .nothing => ls = []
  | .terms c fs => ∃ ls', ls = ls' ++ [.word c.word] ∧ IsTerms limit depth c ls' fs.reverse

/-- The lexemes are the terms of a level. -/
def Level.Covers (limit depth : Nat) (ls : List Lexeme) : Level → Prop
  | .single f => IsTerm limit depth ls f
  | .joined c fs => 2 ≤ fs.length ∧ IsTerms limit depth c ls fs.reverse

/-- The lexemes are the start of a condition. -/
inductive Part.Covers : List Lexeme → Part → Prop where
  | name (f : TextFunction) : Covers [.word f.word] (.name f)
  | property {property : String} (hproperty : isPropertyPath property = true) :
      Covers [.word property] (.property property)
  | comparison {property : String} (hproperty : isPropertyPath property = true) (c : Comparison) :
      Covers [.word property, .word c.word] (.comparison property c)
  | call (f : TextFunction) : Covers [.word f.word, .opening] (.call f)
  | needle {l : Lexeme} {v : Value} (hvalue : IsValue l v) :
      Covers [.word TextFunction.contains.word, .opening, l] (.needle v)
  | needleComma {l : Lexeme} {v : Value} (hvalue : IsValue l v) :
      Covers [.word TextFunction.contains.word, .opening, l, .comma] (.needleComma v)
  | subject {property : String} {f : TextFunction} (hf : f ≠ .contains)
      (hproperty : isPropertyPath property = true) :
      Covers [.word f.word, .opening, .word property] (.subject f property)
  | subjectComma {property : String} {f : TextFunction} (hf : f ≠ .contains)
      (hproperty : isPropertyPath property = true) :
      Covers [.word f.word, .opening, .word property, .comma] (.subjectComma f property)
  | arguments {ls : List Lexeme} {c : Condition} (h : IsCondition (ls ++ [.closing]) c) :
      Covers ls (.arguments c)

/-- The lexemes are the start of a level. -/
def Place.Covers (limit depth : Nat) (ls : List Lexeme) : Place → Prop
  | .term before => before.Covers limit depth ls
  | .condition before part =>
    ∃ ls₁ ls₂, ls = ls₁ ++ ls₂ ∧ before.Covers limit depth ls₁ ∧ part.Covers ls₂
  | .after level => level.Covers limit depth ls

/-- The lexemes are the starts of the open levels, innermost first, each with its parenthesis. -/
def CoversOuter (limit : Nat) : List Lexeme → List Before → Prop
  | ls, [] => ls = []
  | ls, before :: outer => ∃ ls₁ ls₂, ls = ls₁ ++ ls₂ ++ [.opening] ∧ CoversOuter limit ls₁ outer ∧
      before.Covers limit outer.length ls₂ ∧ outer.length + 1 ≤ limit

/-- The lexemes are those that the state of the reader tells. -/
def Reader.Covers (limit : Nat) (ls : List Lexeme) (r : Reader) : Prop :=
  ∃ ls₁ ls₂, ls = ls₁ ++ ls₂ ∧ CoversOuter limit ls₁ r.outer ∧
    r.place.Covers limit r.outer.length ls₂

/-- A term finishes what stands before it. -/
theorem Before.Covers.finish {depth : Nat} {ls ls' : List Lexeme} {before : Before} {f : Filter}
    (h : before.Covers limit depth ls) (hf : IsTerm limit depth ls' f) :
    (before.finish f).Covers limit depth (ls ++ ls') := by
  cases before with
  | nothing =>
    obtain rfl : ls = [] := h
    exact hf
  | terms c fs =>
    obtain ⟨terms, rfl, hterms⟩ := h
    have hpos : 0 < fs.length := by simpa using List.length_pos_iff.mpr hterms.ne_nil
    refine ⟨Nat.succ_le_succ hpos, ?_⟩
    rw [List.reverse_cons, List.append_assoc]
    exact .next hterms hf

theorem Level.Covers.isFilter {depth : Nat} {ls : List Lexeme} {level : Level}
    (h : level.Covers limit depth ls) : IsFilter limit depth ls level.filter := by
  cases level with
  | single f => exact .single h
  | joined c fs => exact .group (by simpa using h.1) h.2

/-- A level followed by its connective is the start of a longer one. -/
theorem Level.Covers.terms {depth : Nat} {ls : List Lexeme} {c : Connective} {fs : List Filter}
    (h : (Level.ofTerms c fs).Covers limit depth ls) :
    (Before.terms c fs).Covers limit depth (ls ++ [.word c.word]) := by
  refine ⟨ls, rfl, ?_⟩
  match fs, h with
  | [], h => simp [Level.ofTerms, Level.Covers] at h
  | [f], h => exact .first h
  | f :: g :: fs, h => exact h.2

/-! ## One step of the reader -/

theorem isValue_of_valueOf {t : Token} {v : Value} (h : Reader.valueOf t = .ok v) :
    IsValue t.lexeme v := by
  obtain ⟨l, position⟩ := t
  cases l with
  | quoted s => cases h; exact .quoted s
  | word w => cases h; exact .word w
  | opening | closing | comma => cases h

theorem lexeme_of_propertyOf {t : Token} {property : String}
    (h : Reader.propertyOf t = .ok property) :
    t.lexeme = .word property ∧ isPropertyPath property = true := by
  obtain ⟨l, position⟩ := t
  cases l with
  | word w =>
    obtain ⟨rfl, hp⟩ := eq_of_property h
    exact ⟨rfl, hp⟩
  | opening | closing | comma | quoted => cases h

theorem lexeme_of_comparisonOf {t : Token} {c : Comparison} (h : Reader.comparisonOf t = .ok c) :
    t.lexeme = .word c.word := by
  obtain ⟨l, position⟩ := t
  cases l with
  | word w =>
    simp only [Reader.comparisonOf] at h
    split at h
    · cases h; rw [Comparison.word_of_ofWord? ‹_›]
    · cases h
  | opening | closing | comma | quoted => cases h

theorem lexeme_of_expect {l : Lexeme} {t : Token} {u : Unit} (h : Reader.expect l t = .ok u) :
    t.lexeme = l := by
  unfold Reader.expect at h
  split at h
  · assumption
  · cases h

/-- The words of text functions are property paths. -/
theorem isPropertyPath_function (f : TextFunction) : isPropertyPath f.word = true := by
  cases f <;> decide

/-- Within a condition the reader goes from one start of it to the next, or ends it. -/
theorem Part.Covers.step {ls : List Lexeme} {part : Part} {t : Token} {result : Part ⊕ Condition}
    (h : part.Covers ls) (hstep : Reader.stepPart part t = .ok result) :
    match result with
    | .inl next => next.Covers (ls ++ [t.lexeme])
    | .inr c => IsCondition (ls ++ [t.lexeme]) c := by
  cases h with
  | name f =>
    simp only [Reader.stepPart] at hstep
    split at hstep
    · cases hstep
      rw [‹t.lexeme = _›]
      exact .call f
    · obtain ⟨c, hc, hresult⟩ := bind_eq_ok.mp hstep
      cases hresult
      rw [lexeme_of_comparisonOf hc]
      exact .comparison (isPropertyPath_function f) c
  | property hproperty =>
    obtain ⟨c, hc, hresult⟩ := bind_eq_ok.mp hstep
    cases hresult
    rw [lexeme_of_comparisonOf hc]
    exact .comparison hproperty c
  | comparison hproperty c =>
    obtain ⟨v, hv, hresult⟩ := bind_eq_ok.mp hstep
    cases hresult
    exact .comparison c hproperty (isValue_of_valueOf hv)
  | call f =>
    cases f with
    | contains =>
      obtain ⟨v, hv, hresult⟩ := bind_eq_ok.mp hstep
      cases hresult
      exact .needle (isValue_of_valueOf hv)
    | startsWith | endsWith =>
      obtain ⟨p, hp, hresult⟩ := bind_eq_ok.mp hstep
      cases hresult
      obtain ⟨hlexeme, hproperty⟩ := lexeme_of_propertyOf hp
      rw [hlexeme]
      exact .subject (by decide) hproperty
  | needle hvalue =>
    obtain ⟨u, hu, hresult⟩ := bind_eq_ok.mp hstep
    cases hresult
    rw [lexeme_of_expect hu]
    exact .needleComma hvalue
  | needleComma hvalue =>
    obtain ⟨p, hp, hresult⟩ := bind_eq_ok.mp hstep
    cases hresult
    obtain ⟨hlexeme, hproperty⟩ := lexeme_of_propertyOf hp
    rw [hlexeme]
    exact .arguments (.contains hproperty hvalue)
  | subject hf hproperty =>
    obtain ⟨u, hu, hresult⟩ := bind_eq_ok.mp hstep
    cases hresult
    rw [lexeme_of_expect hu]
    exact .subjectComma hf hproperty
  | subjectComma hf hproperty =>
    obtain ⟨v, hv, hresult⟩ := bind_eq_ok.mp hstep
    cases hresult
    exact .arguments (.call hf hproperty (isValue_of_valueOf hv))
  | arguments hcondition =>
    obtain ⟨u, hu, hresult⟩ := bind_eq_ok.mp hstep
    cases hresult
    rw [lexeme_of_expect hu]
    exact hcondition

/-- One step of the reader keeps track of the lexemes read. -/
theorem Reader.Covers.step {ls : List Lexeme} {r r' : Reader} {t : Token} (h : r.Covers limit ls)
    (hmove : Reader.Moves limit r t r') : r'.Covers limit (ls ++ [t.lexeme]) := by
  obtain ⟨ls₁, ls₂, rfl, houter, hplace⟩ := h
  cases hmove with
  | opening hdepth => exact ⟨_, [], by simp, ⟨ls₁, ls₂, rfl, houter, hplace, hdepth⟩, rfl⟩
  | name f => exact ⟨ls₁, _, by simp, houter, ls₂, _, rfl, hplace, .name f⟩
  | property hproperty => exact ⟨ls₁, _, by simp, houter, ls₂, _, rfl, hplace, .property hproperty⟩
  | part hnext =>
    obtain ⟨done, start, rfl, hbefore, hpart⟩ := hplace
    exact ⟨ls₁, _, by simp, houter, done, _, rfl, hbefore, hpart.step hnext⟩
  | last hlast =>
    obtain ⟨done, start, rfl, hbefore, hpart⟩ := hplace
    exact ⟨ls₁, _, by simp, houter, hbefore.finish (.condition (hpart.step hlast))⟩
  | first c f => exact ⟨ls₁, _, by simp, houter, Level.Covers.terms hplace⟩
  | again c fs =>
    have hlevel := hplace
    rw [← Level.ofTerms_of_length hplace.1] at hlevel
    exact ⟨ls₁, _, by simp, houter, Level.Covers.terms hlevel⟩
  | closing level =>
    obtain ⟨ls₃, ls₄, rfl, houter, hbefore, hdepth⟩ := houter
    exact ⟨ls₃, _, by simp, houter, hbefore.finish (.parentheses hdepth hplace.isFilter)⟩

theorem Reader.covers_start : Reader.start.Covers limit [] := ⟨[], [], rfl, rfl, rfl⟩

/-! ## Reading and writing -/

/-- Tokens are read as a filter if and only if their lexemes write it. -/
theorem ofTokens_eq_ok {tokens : List Token} {f : Filter} :
    ofTokens limit tokens = .ok f ↔ IsFilter limit 0 (tokens.map Token.lexeme) f := by
  constructor
  · intro h
    obtain ⟨level, hrun, rfl⟩ := exists_level_of_ofTokens h
    obtain ⟨ls₁, ls₂, hls, houter, hlevel⟩ :=
      foldlM_invariant (fun _ _ _ _ hmove h => h.step hmove) [] Reader.covers_start hrun
    obtain rfl : ls₁ = [] := houter
    rw [← List.nil_append (tokens.map Token.lexeme), hls]
    exact hlevel.isFilter
  · intro h
    obtain ⟨level, rfl, hreads⟩ := h.reads [] rfl
    exact ofTokens_of_foldlM (hreads tokens rfl)

/-- Lexemes write one filter at most: the reader, started inside of as many parentheses, comes to
the level of each filter that they write. -/
theorem IsFilter.unique {depth : Nat} {ls : List Lexeme} {f g : Filter}
    (hf : IsFilter limit depth ls f) (hg : IsFilter limit depth ls g) : f = g := by
  obtain ⟨level, rfl, hlevel⟩ := hf.reads (List.replicate depth .nothing) List.length_replicate
  obtain ⟨level', rfl, hlevel'⟩ := hg.reads (List.replicate depth .nothing) List.length_replicate
  obtain ⟨ts, hls⟩ := exists_tokens ls
  have hsame := (hlevel _ hls).symm.trans (hlevel' _ hls)
  cases hsame
  rfl

/-- A text that has tokens is read as a filter if and only if their lexemes write the filter, and no
lexemes write two filters. -/
theorem read_eq_ok_iff_isFilter {text : String} {tokens : List Token}
    (htokens : tokenize text = .ok tokens) (limit : Nat) :
    (∀ f, read text limit = .ok f ↔ IsFilter limit 0 (tokens.map Token.lexeme) f) ∧
      ∀ depth ls f g, IsFilter limit depth ls f → IsFilter limit depth ls g → f = g := by
  have hread : read text limit = ofTokens limit tokens := by
    rw [read, htokens]
    rfl
  constructor
  · intro f
    rw [hread]
    exact ofTokens_eq_ok
  · intro depth ls f g
    exact IsFilter.unique

/-- In `(and eq eq)` the words `and` and the second `eq` are a property and a value. -/
theorem read_eq_ok_iff_isFilter_keywords :
    tokenize "(and eq eq)" =
        .ok [⟨.opening, 0⟩, ⟨.word "and", 1⟩, ⟨.word "eq", 5⟩, ⟨.word "eq", 8⟩, ⟨.closing, 10⟩] ∧
      read "(and eq eq)" 1 = .ok (.condition "and" (.comparison .eq) (.text "eq")) := by
  have htokens : tokenize "(and eq eq)" =
      .ok [⟨.opening, 0⟩, ⟨.word "and", 1⟩, ⟨.word "eq", 5⟩, ⟨.word "eq", 8⟩, ⟨.closing, 10⟩] := by
    rfl
  have hcondition : IsCondition [.word "and", .word Comparison.eq.word, .word "eq"]
      ⟨"and", .comparison .eq, .ofWord "eq"⟩ := .comparison .eq (by decide) (.word "eq")
  have hvalue : Value.ofWord "eq" = .text "eq" := by rfl
  rw [hvalue] at hcondition
  refine ⟨htokens, ((read_eq_ok_iff_isFilter htokens 1).1 _).mpr ?_⟩
  exact .single (.parentheses (Nat.le_refl 1) (.single (.condition hcondition)))

end RecordQuery.Filter
