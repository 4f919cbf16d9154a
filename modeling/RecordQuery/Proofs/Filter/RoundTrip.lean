import RecordQuery.Proofs.Filter.Spelling

/-!
# Filters read back from their text

* `isFilter_lexemes`: the text of a filter without empty groups writes what the filter collapses to.
* `read_text`: so the filter is read as that, if its groups do not nest too deep.
* `misses_after_property`: a connective without a term before it is read as a property, and what
  follows is no comparison.
* `fails_misfit`, `misses_body`: the reader fails in a filter that has an empty group or nests too
  deep, or no level can end after it (by induction on the filter).
* `exists_read_text`: which filters have a text that can be read.
* `read_text_of_canonical`: a canonical filter is read back from its text.
-/

namespace RecordQuery.Filter

variable {limit : Nat}

/-! ## Texts that can be read -/

theorem isTerms_body {depth : Nat} (connective : Connective) {fs : List Filter} (hne : fs ≠ [])
    (h : ∀ f ∈ fs, IsTerm limit depth (lexemes true f) f.collapsed) :
    IsTerms limit depth connective (bodyLexemes connective fs) (fs.map collapsed) := by
  induction fs with
  | nil => contradiction
  | cons f fs ih =>
    cases fs with
    | nil => simpa using IsTerms.first (h f (by simp))
    | cons g fs =>
      rw [bodyLexemes_cons]
      exact (ih (by simp) fun d hd => h d (by simp [hd])).cons (h f (by simp))

/-- The body of a group writes what the group collapses to. -/
theorem isFilter_body {depth : Nat} (connective : Option Connective) {fs : List Filter}
    (hne : fs ≠ []) (h : ∀ f ∈ fs, IsTerm limit depth (lexemes true f) f.collapsed) :
    IsFilter limit depth (bodyLexemes (connective.getD .and) fs)
      (collapsed (.group connective fs)) := by
  match fs with
  | [f] =>
    rw [bodyLexemes_single, collapsed_single]
    exact .single (h f (by simp))
  | f :: g :: fs =>
    rw [collapsed_group _ (by simp)]
    exact .group (by simp) (isTerms_body _ hne h)

/-- Inside of a group, the text of a filter writes what the filter collapses to. -/
theorem isTerm_lexemes {f : Filter} (h : f.IsWritable) (hne : f.HasNoEmptyGroup) {depth : Nat}
    (hdepth : depth + f.height ≤ limit) : IsTerm limit depth (lexemes true f) f.collapsed := by
  induction h generalizing depth with
  | leaf h =>
    rw [lexemes_leaf, collapsed_leaf]
    exact .condition (Condition.isCondition_lexemes h)
  | @group connective fs h ih =>
    cases hne with
    | group hnil hne =>
      rw [height_group] at hdepth
      rw [lexemes_nested connective hnil, ← List.cons_append]
      refine .parentheses (by omega) (isFilter_body connective hnil fun f hf => ?_)
      have := greatestHeight_le.mp (Nat.le_refl (greatestHeight fs)) f hf
      exact ih f hf (hne f hf) (by omega)

theorem isFilter_lexemes {f : Filter} (h : f.IsWritable) (hne : f.HasNoEmptyGroup)
    (hnesting : f.nesting ≤ limit) : IsFilter limit 0 (f.lexemes false) f.collapsed := by
  cases h with
  | leaf h =>
    rw [lexemes_leaf, collapsed_leaf]
    exact .single (.condition (Condition.isCondition_lexemes h))
  | @group connective fs h =>
    cases hne with
    | group hnil hne =>
      rw [lexemes_group]
      refine isFilter_body connective hnil fun f hf => ?_
      exact isTerm_lexemes (h f hf) (hne f hf)
        (by rw [Nat.zero_add]; exact greatestHeight_le.mp hnesting f hf)

theorem exists_read_eq {f : Filter} (h : f.IsWritable) (limit : Nat) :
    ∃ ts : List Token, ts.map Token.lexeme = f.lexemes false ∧
      read f.text limit = ofTokens limit ts := by
  have hspelled : Spelled f.text.toList (f.lexemes false) := by
    rw [text, String.toList_ofList]
    exact spelled h false
  obtain ⟨ts, hts, hls⟩ := hspelled.tokenize
  exact ⟨ts, hls, by rw [read, hts]; rfl⟩

theorem read_text {f : Filter} (h : f.IsWritable) (hne : f.HasNoEmptyGroup)
    (hnesting : f.nesting ≤ limit) : read f.text limit = .ok f.collapsed := by
  obtain ⟨ts, hls, hread⟩ := exists_read_eq h limit
  rw [hread, ofTokens_eq_ok, hls]
  exact isFilter_lexemes h hne hnesting

/-! ## Texts that cannot be read -/

/-- The filter can be read inside of `depth` parentheses. -/
def Fits (limit depth : Nat) (f : Filter) : Prop :=
  f.HasNoEmptyGroup ∧ depth + f.height ≤ limit

/-- The reader fails on the lexemes, wherever they stand; if they are `complete`, it complains of
too many parentheses. -/
def Fails (limit : Nat) (r : Reader) (ls : List Lexeme) (complete : Prop) : Prop :=
  ∀ ts : List Token, ts.map Token.lexeme = ls →
    ∃ e, ts.foldlM (Reader.step limit) r = .error e ∧ (complete → e = .tooDeep limit)

/-- A term or a comparison follows, so that the level cannot end. -/
def Reader.Unfinished (r : Reader) : Prop :=
  (∃ before, r.place = .term before) ∨ ∃ before p, r.place = .condition before (.property p)

/-- The reader fails on the lexemes, or the level cannot end after them. -/
def Misses (limit : Nat) (r : Reader) (ls : List Lexeme) (complete : Prop) : Prop :=
  Fails limit r ls complete ∨ ¬complete ∧ ∃ r' : Reader, r'.Unfinished ∧ Reads limit r ls r'

section

variable {r r' : Reader} {l : Lexeme} {ls ls' : List Lexeme} {complete complete' : Prop}

theorem Fails.append (h : Fails limit r ls complete) (ls' : List Lexeme) :
    Fails limit r (ls ++ ls') complete := by
  intro ts hts
  obtain ⟨ts, ts', rfl, hts, -⟩ := List.map_eq_append_iff.mp hts
  obtain ⟨e, he, hdeep⟩ := h ts hts
  refine ⟨e, ?_, hdeep⟩
  rw [List.foldlM_append, he]
  rfl

theorem Fails.mono (h : Fails limit r ls complete) (himp : complete' → complete) :
    Fails limit r ls complete' := by
  intro ts hts
  obtain ⟨e, he, hdeep⟩ := h ts hts
  exact ⟨e, he, hdeep ∘ himp⟩

theorem Reads.fails (h : Reads limit r ls r') (h' : Fails limit r' ls' complete) :
    Fails limit r (ls ++ ls') complete := by
  intro ts hts
  obtain ⟨ts, ts', rfl, hts, hts'⟩ := List.map_eq_append_iff.mp hts
  rw [List.foldlM_append, h ts hts]
  exact h' ts' hts'

theorem fails_of_step
    (hstep : ∀ position, ∃ e, Reader.step limit r ⟨l, position⟩ = .error e ∧
      (complete → e = .tooDeep limit)) (ls : List Lexeme) :
    Fails limit r (l :: ls) complete := by
  intro ts hts
  obtain ⟨t, ts, rfl, rfl, -⟩ := List.map_eq_cons_iff.mp hts
  obtain ⟨e, he, hdeep⟩ := hstep t.position
  refine ⟨e, ?_, hdeep⟩
  rw [List.foldlM_cons, show t = ⟨t.lexeme, t.position⟩ from rfl, he]
  rfl

/-- Lexemes that are not complete may fail with any error. -/
theorem fails_of_step_error (hnot : ¬complete)
    (hstep : ∀ position, ∃ e, Reader.step limit r ⟨l, position⟩ = .error e) (ls : List Lexeme) :
    Fails limit r (l :: ls) complete := by
  refine fails_of_step (fun position => ?_) ls
  obtain ⟨e, he⟩ := hstep position
  exact ⟨e, he, fun h => absurd h hnot⟩

theorem Reads.misses (h : Reads limit r ls r') (h' : Misses limit r' ls' complete) :
    Misses limit r (ls ++ ls') complete := by
  rcases h' with h' | ⟨hnot, last, hlast, h'⟩
  · exact .inl (h.fails h')
  · exact .inr ⟨hnot, last, hlast, h.append h'⟩

theorem Misses.closing (h : Misses limit r ls complete) :
    Fails limit r (ls ++ [.closing]) complete := by
  rcases h with h | ⟨hnot, ⟨outer, place⟩, hplace, h⟩
  · exact h.append _
  · refine h.fails (fails_of_step_error hnot (fun position => ?_) [])
    rcases hplace with ⟨before, rfl⟩ | ⟨before, p, rfl⟩ <;> exact ⟨_, rfl⟩

end

/-! ## An empty group is missed -/

section

variable {complete : Prop}

theorem fails_value (hnot : ¬complete) {v : Value} (h : v.IsFinite) (outer : List Before)
    (level : Level) : Fails limit ⟨outer, .after level⟩ [v.lexeme] complete := by
  refine fails_of_step_error hnot (fun position => ?_) []
  cases hl : v.lexeme with
  | closing => cases v <;> cases hl
  | opening | comma | quoted => exact ⟨_, rfl⟩
  | word w =>
    cases hc : Connective.ofWord? w with
    | none =>
      simp only [Reader.step, Reader.stepAfter, hc]
      exact ⟨_, rfl⟩
    | some c =>
      -- A number or a truth value would be written `and` or `or`.
      have hvalue := Value.isValue_lexeme h
      rw [hl, ← Connective.word_of_ofWord? hc] at hvalue
      cases v with
      | text | date => cases hl
      | number | bool => cases c <;> cases hvalue

/-- The reader fails where a comparison has to follow and does not. -/
theorem fails_comparison (hnot : ¬complete) {l : Lexeme}
    (hl : ∀ position, ∃ e, Reader.comparisonOf ⟨l, position⟩ = .error e) (ls : List Lexeme)
    (outer : List Before) (before : Before) (p : String) :
    Fails limit ⟨outer, .condition before (.property p)⟩ (l :: ls) complete := by
  refine fails_of_step_error hnot (fun position => ?_) ls
  obtain ⟨e, he⟩ := hl position
  simp only [Reader.step, Reader.stepPart, he]
  exact ⟨e, rfl⟩

theorem comparisonOf_eq_error {w : String} (h : Comparison.ofWord? w = none) (position : Nat) :
    ∃ e, Reader.comparisonOf ⟨.word w, position⟩ = .error e := by
  simp only [Reader.comparisonOf, h]
  exact ⟨_, rfl⟩

/-- A condition does not go on with a comparison of another property. -/
theorem fails_condition (hnot : ¬complete) {c : Condition} (h : c.IsWritable)
    (outer : List Before) (before : Before) (p : String) :
    Fails limit ⟨outer, .condition before (.property p)⟩ c.lexemes complete := by
  have hword : ∀ w ls, Comparison.ofWord? w = none →
      Fails limit ⟨outer, .condition before (.property p)⟩ (.word w :: ls) complete :=
    fun w ls hw => fails_comparison hnot (comparisonOf_eq_error hw) ls outer before p
  obtain ⟨property, operator, value⟩ := c
  match operator with
  | .function .contains => exact hword _ _ (by decide)
  | .function .startsWith => exact hword _ _ (by decide)
  | .function .endsWith => exact hword _ _ (by decide)
  | .comparison o =>
    cases hproperty : Comparison.ofWord? property with
    | none => exact hword _ _ hproperty
    | some o' =>
      -- The property is the comparison and the comparison the value, which leaves one lexeme.
      obtain rfl := Comparison.word_of_ofWord? hproperty
      have hreads : Reads limit ⟨outer, .condition before (.property p)⟩
          [.word o'.word, .word o.word]
          ⟨outer, .after (before.finish (.leaf ⟨p, .comparison o', .ofWord o.word⟩))⟩ :=
        .advance (.comparison p o')
          (fun position => by simp only [Reader.stepPart, comparisonOf_word]; rfl)
          (.last fun position => rfl)
      exact hreads.fails (fails_value hnot h.value outer _)

/-- Where a comparison has to follow, the body of a group does not go on with one. -/
theorem misses_after_property (hnot : ¬complete) (connective : Connective) {fs : List Filter}
    (h : ∀ f ∈ fs, f.IsWritable) (outer : List Before) (before : Before) (p : String) :
    Misses limit ⟨outer, .condition before (.property p)⟩ (bodyLexemes connective fs) complete := by
  have hend : Misses limit ⟨outer, .condition before (.property p)⟩ [] complete :=
    .inr ⟨hnot, _, .inr ⟨before, p, rfl⟩, .nil⟩
  match fs with
  | [] => exact hend
  | f :: rest =>
    obtain ⟨tail, hbody, htail⟩ := bodyLexemes_eq connective f rest
    rw [hbody]
    match f, h f (by simp) with
    | .leaf c, .leaf hc =>
      rw [lexemes_leaf]
      exact .inl ((fails_condition hnot hc outer before p).append tail)
    | .group _ [], _ =>
      rw [lexemes_nil]
      rcases htail with rfl | ⟨ls, rfl⟩
      · exact hend
      · have hword : Comparison.ofWord? connective.word = none := by cases connective <;> decide
        exact .inl (fails_comparison hnot (comparisonOf_eq_error hword) ls outer before p)
    | .group _ (g :: gs), _ =>
      rw [lexemes_nested _ (List.cons_ne_nil g gs)]
      exact .inl (fails_comparison hnot (fun _ => ⟨_, rfl⟩) _ outer before p)

end

/-! ## Filters that do not fit -/

theorem fits_group {depth : Nat} (connective : Option Connective) {fs : List Filter} (hne : fs ≠ [])
    (hdepth : depth + 1 ≤ limit) (h : ∀ f ∈ fs, f.Fits limit (depth + 1)) :
    Fits limit depth (.group connective fs) := by
  refine ⟨.group hne fun f hf => (h f hf).1, ?_⟩
  have hheight : greatestHeight fs ≤ limit - (depth + 1) := by
    refine greatestHeight_le.mpr fun f hf => ?_
    have := (h f hf).2
    omega
  rw [height_group]
  omega

/-- What stands before a term can go on with the connective. -/
def Before.Joins (connective : Connective) (before : Before) : Prop :=
  before = .nothing ∨ ∃ fs, before = .terms connective fs

/-- A term and the connective make a longer start of a level. -/
theorem Before.Joins.next {connective : Connective} {before : Before} (h : before.Joins connective)
    (limit : Nat) (f : Filter) (outer : List Before) :
    ∃ next : Before, next.Joins connective ∧
      Reads limit ⟨outer, .after (before.finish f)⟩ [.word connective.word] ⟨outer, .term next⟩ := by
  rcases h with rfl | ⟨fs, rfl⟩
  · refine ⟨.terms connective [f], .inr ⟨_, rfl⟩, .cons _ (fun position => ?_) .nil⟩
    simp [Reader.step, Reader.stepAfter, Before.finish]
  · refine ⟨.terms connective (f :: fs), .inr ⟨_, rfl⟩, .cons _ (fun position => ?_) .nil⟩
    simp [Reader.step, Reader.stepAfter, Before.finish]

/-- The reader comes to the first filter of a body that does not fit. -/
theorem reads_to_misfit (connective : Connective) {fs : List Filter} (h : ∀ f ∈ fs, f.IsWritable)
    {outer : List Before} (hmisfit : ¬∀ f ∈ fs, f.Fits limit outer.length) {before : Before}
    (hbefore : before.Joins connective) :
    ∃ ls f rest next, bodyLexemes connective fs = ls ++ bodyLexemes connective (f :: rest) ∧
      (∀ g ∈ f :: rest, g ∈ fs) ∧ ¬f.Fits limit outer.length ∧
      Reads limit ⟨outer, .term before⟩ ls ⟨outer, .term next⟩ := by
  induction fs generalizing before with
  | nil => exact absurd (fun f hf => nomatch hf) hmisfit
  | cons f fs ih =>
    by_cases hf : f.Fits limit outer.length
    · have hrest : ¬∀ g ∈ fs, g.Fits limit outer.length := fun hall =>
        hmisfit (List.forall_mem_cons.mpr ⟨hf, hall⟩)
      have hterm := (isTerm_lexemes (h f (by simp)) hf.1 hf.2).reads outer rfl before
      obtain ⟨next, hnext, hreads⟩ := hbefore.next limit f.collapsed outer
      obtain ⟨ls, d, rest, last, hls, hmem, hd, hreads'⟩ :=
        ih (fun d hd => h d (by simp [hd])) hrest hnext
      refine ⟨lexemes true f ++ .word connective.word :: ls, d, rest, last, ?_,
        fun e he => List.mem_cons_of_mem _ (hmem e he), hd, ?_⟩
      · cases fs with
        | nil => exact absurd (fun f hf => nomatch hf) hrest
        | cons g fs =>
          rw [bodyLexemes_cons, hls]
          simp
      · rw [List.append_cons]
        exact (hterm.append hreads).append hreads'
    · exact ⟨[], f, fs, before, rfl, fun _ => id, hf, .nil⟩

/-- A body with a filter that does not fit is missed, if such filters fail. -/
theorem misses_body_of_fails (connective : Connective) {fs : List Filter}
    (h : ∀ f ∈ fs, f.IsWritable) {outer : List Before}
    (hmisfit : ¬∀ f ∈ fs, f.Fits limit outer.length)
    (hfails : ∀ f ∈ fs, (∀ connective, f ≠ .group connective []) → ¬f.Fits limit outer.length →
      ∀ before, Fails limit ⟨outer, .term before⟩ (lexemes true f) f.HasNoEmptyGroup) :
    Misses limit ⟨outer, .term .nothing⟩ (bodyLexemes connective fs)
      (∀ f ∈ fs, f.HasNoEmptyGroup) := by
  obtain ⟨ls, f, rest, next, hbody, hmem, hf, hreads⟩ :=
    reads_to_misfit connective h hmisfit (.inl rfl)
  have hffs := hmem f (by simp)
  rw [hbody]
  refine hreads.misses ?_
  by_cases hempty : ∃ connective, f = .group connective []
  · obtain ⟨unset, rfl⟩ := hempty
    have hnot : ¬∀ g ∈ fs, g.HasNoEmptyGroup := by
      intro hall
      cases hall _ hffs
      contradiction
    match rest, hmem with
    | [], _ =>
      rw [bodyLexemes_single, lexemes_nil]
      exact .inr ⟨hnot, _, .inl ⟨next, rfl⟩, .nil⟩
    | g :: rest, hmem =>
      -- The connective is read as a property.
      have hproperty : Reads limit ⟨outer, .term next⟩ [.word connective.word]
          ⟨outer, .condition next (.property connective.word)⟩ :=
        .cons _ (fun position => by cases connective <;> rfl) .nil
      rw [bodyLexemes_cons, lexemes_nil, List.nil_append, ← List.singleton_append]
      exact hproperty.misses (misses_after_property hnot connective
        (fun d hd => h d (hmem d (List.mem_cons_of_mem _ hd))) outer next _)
  · obtain ⟨tail, htail, -⟩ := bodyLexemes_eq connective f rest
    rw [htail]
    have hfail := hfails f hffs (fun connective heq => hempty ⟨connective, heq⟩) hf next
    exact .inl ((hfail.append tail).mono fun hall => hall f hffs)

/-- Inside of a group, a filter that does not fit fails if it has a text at all. -/
theorem fails_misfit {f : Filter} (h : f.IsWritable) (hne : ∀ connective, f ≠ .group connective [])
    {outer : List Before} (houter : outer.length ≤ limit) (hmisfit : ¬f.Fits limit outer.length)
    (before : Before) :
    Fails limit ⟨outer, .term before⟩ (lexemes true f) f.HasNoEmptyGroup := by
  induction h generalizing outer before with
  | leaf h => exact absurd ⟨.leaf, by simpa using houter⟩ hmisfit
  | @group connective fs h ih =>
    have hnil : fs ≠ [] := fun heq => hne connective (by rw [heq])
    rw [lexemes_nested connective hnil]
    by_cases hdepth : outer.length + 1 ≤ limit
    · have hopening : Reads limit ⟨outer, .term before⟩ [.opening]
          ⟨before :: outer, .term .nothing⟩ :=
        .cons _ (fun position => if_pos hdepth) .nil
      have hchild : ¬∀ f ∈ fs, f.Fits limit (before :: outer).length := fun hall =>
        hmisfit (fits_group connective hnil hdepth hall)
      have hbody := misses_body_of_fails (connective.getD .and) h hchild
        fun f hf hne' hf' => ih f hf hne' hdepth hf'
      refine (hopening.fails hbody.closing).mono fun hfull => ?_
      cases hfull
      assumption
    · refine fails_of_step (fun position => ?_) _
      exact ⟨_, if_neg hdepth, fun _ => rfl⟩

theorem misses_body (connective : Connective) {fs : List Filter} (h : ∀ f ∈ fs, f.IsWritable)
    (hmisfit : ¬∀ f ∈ fs, f.Fits limit 0) :
    Misses limit Reader.start (bodyLexemes connective fs) (∀ f ∈ fs, f.HasNoEmptyGroup) :=
  misses_body_of_fails connective h hmisfit fun f hf hne hf' =>
    fails_misfit (h f hf) hne (Nat.zero_le limit) hf'

/-! ## Reading back -/

/-- Tokens that a reader misses are no filter. -/
theorem Misses.ofTokens {ts : List Token} {complete : Prop}
    (h : Misses limit Reader.start (ts.map Token.lexeme) complete) :
    ∃ e, ofTokens limit ts = .error e ∧ (complete → e = .tooDeep limit) := by
  unfold Filter.ofTokens
  rcases h with h | ⟨hnot, ⟨outer, place⟩, hplace, h⟩
  · obtain ⟨e, he, hdeep⟩ := h ts rfl
    have hne : ts ≠ [] := by
      rintro rfl
      cases he
    rw [if_neg (by simpa using hne), he]
    exact ⟨e, rfl, hdeep⟩
  · split
    · exact ⟨_, rfl, fun h => absurd h hnot⟩
    · rw [h ts rfl]
      refine ⟨.unexpectedEnd, ?_, fun h => absurd h hnot⟩
      rcases hplace with ⟨before, rfl⟩ | ⟨before, p, rfl⟩ <;> cases outer <;> rfl

/-- The text of a filter that has an empty group or nests too deep cannot be read. -/
theorem read_text_eq_error {f : Filter} (h : f.IsWritable)
    (hmisfit : ¬(f.HasNoEmptyGroup ∧ f.nesting ≤ limit)) :
    ∃ e, read f.text limit = .error e ∧ (f.HasNoEmptyGroup → e = .tooDeep limit) := by
  obtain ⟨ts, hls, hread⟩ := exists_read_eq h limit
  rw [hread]
  cases h with
  | leaf h => exact absurd ⟨.leaf, Nat.zero_le limit⟩ hmisfit
  | @group connective fs h =>
    rw [lexemes_group] at hls
    by_cases hnil : fs = []
    · subst hnil
      rw [List.map_eq_nil_iff.mp hls]
      refine ⟨.empty, rfl, fun hne => ?_⟩
      cases hne
      contradiction
    · have hchild : ¬∀ f ∈ fs, f.Fits limit 0 := fun hfits =>
        hmisfit ⟨.group hnil fun f hf => (hfits f hf).1,
          greatestHeight_le.mpr fun f hf => by simpa using (hfits f hf).2⟩
      have hmisses := misses_body (connective.getD .and) h hchild
      rw [← hls] at hmisses
      obtain ⟨e, he, hdeep⟩ := hmisses.ofTokens
      refine ⟨e, he, fun hne => hdeep ?_⟩
      cases hne
      assumption

/-- A canonical filter is read back from its text, or complained of if it nests too deep. -/
theorem read_text_of_canonical {f : Filter} (h : f.IsCanonical) (limit : Nat) :
    (f.nesting ≤ limit → read f.text limit = .ok f) ∧
      (limit < f.nesting → read f.text limit = .error (.tooDeep limit)) := by
  constructor
  · intro hnesting
    rw [read_text h.isWritable h.hasNoEmptyGroup hnesting, h.collapsed_eq]
  · intro hdeep
    have hmisfit : ¬(f.HasNoEmptyGroup ∧ f.nesting ≤ limit) := fun h => by omega
    obtain ⟨e, he, htooDeep⟩ := read_text_eq_error h.isWritable hmisfit
    rw [he, htooDeep h.hasNoEmptyGroup]

/-- Properties that are words of the language, a quote in a text and a negative zero. -/
theorem read_text_of_canonical_keywords :
    let f : Filter := .group (some .or)
      [.condition "and" (.function .contains) (.text "it's (x)"),
        .group (some .and)
          [.condition "eq" (.comparison .ne) (.bool true),
            .condition "startswith" (.function .endsWith) (.number (.zero true))]]
    f.IsCanonical ∧ read f.text 1 = .ok f ∧ read f.text 0 = .error (.tooDeep 0) := by
  intro f
  have hf : f.IsCanonical := by
    have hand : isPropertyPath "and" = true := by decide
    have heq : isPropertyPath "eq" = true := by decide
    have hstartsWith : isPropertyPath "startswith" = true := by decide
    simp [f, condition, Condition.isWritable_iff, Value.IsUndated, Value.IsFinite, hand, heq,
      hstartsWith]
    rfl
  have hnesting : f.nesting = 1 := by
    simp [f, nesting, children, greatestHeight, condition]
  exact ⟨hf, (read_text_of_canonical hf 1).1 (by omega), (read_text_of_canonical hf 0).2 (by omega)⟩

end RecordQuery.Filter
