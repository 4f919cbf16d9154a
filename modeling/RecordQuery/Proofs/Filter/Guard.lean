import RecordQuery.Filter.Evaluation
import RecordQuery.Proofs.Filter.Spelling

/-!
# Guards

A condition beside any text in parentheses, with `and` between them.

* `ends_with_guard`: if the condition stands last, every filter that is read has it as the last
  child of a group under `and`.
* `Reader.BeginsWith`: the outermost level begins with a filter and `and`. Each step keeps it.
* `begins_with_guard`: if the condition stands first, it is the first child.
* `guarded`: so the filter accepts only records that the condition accepts, whatever the text is.
-/

namespace RecordQuery.Filter

variable {limit : Nat}

/-! ## A guard after a text -/

theorem exists_after_of_closing {r r' : Reader} {t : Token} (ht : t.lexeme = .closing)
    (h : Reader.Moves limit r t r') : ∃ outer level, r' = ⟨outer, .after level⟩ := by
  obtain ⟨_, position⟩ := t
  cases ht
  cases h with
  | @part _ _ part _ _ hpart =>
    -- No part but the last one of a call is a closing parenthesis.
    cases part with
    | call f => cases f <;> cases hpart
    | name | property | comparison | needle | needleComma | subject | subjectComma | arguments =>
      cases hpart
  | last hpart => exact ⟨_, _, rfl⟩
  | closing level => exact ⟨_, _, rfl⟩

theorem exists_terms_of_connective {outer : List Before} {level : Level} {c : Connective}
    {t : Token} (ht : t.lexeme = .word c.word) {r : Reader}
    (h : Reader.step limit ⟨outer, .after level⟩ t = .ok r) :
    ∃ fs, r = ⟨outer, .term (.terms c fs)⟩ := by
  obtain ⟨_, position⟩ := t
  cases ht
  cases level with
  | single f =>
    simp only [Reader.step, Reader.stepAfter, Connective.ofWord?_word] at h
    cases h
    exact ⟨[f], rfl⟩
  | joined c' fs =>
    simp only [Reader.step, Reader.stepAfter, Connective.ofWord?_word] at h
    split at h
    · cases h
      exact ⟨fs, rfl⟩
    · cases h

/-- What is read of a text in parentheses before a guard is a group that ends with the guard. -/
theorem ends_with_guard {g : Condition} (h : g.IsWritable) (hdate : g.value.IsUndated)
    {s : String} {f : Filter}
    (hread : read ("(" ++ s ++ ") and " ++ String.ofList g.chars) limit = .ok f) :
    ∃ fs, f = .group (some .and) (fs ++ [.leaf g]) := by
  obtain ⟨ts, hts, htokens⟩ := bind_eq_ok.mp hread
  have hguard : Spelled (')' :: ' ' :: ("and".toList ++ ' ' :: g.chars))
      (.closing :: .word Connective.and.word :: g.lexemes) :=
    ((Condition.spelled h).space.lexeme_seam (isWritten_connective .and)
      (isSeam_space _)).space.closing
  obtain ⟨ts₁, ts₂, rfl, hls⟩ := hguard.tokens_suffix (isSeam_closing _)
    (show ("(" ++ s ++ ") and " ++ String.ofList g.chars).toList =
      '(' :: s.toList ++ (')' :: ' ' :: ("and".toList ++ ' ' :: g.chars)) by simp) hts
  obtain ⟨t, ts₂, rfl, hclosing, hls⟩ := List.map_eq_cons_iff.mp hls
  obtain ⟨t', ts₂, rfl, hand, hls⟩ := List.map_eq_cons_iff.mp hls
  obtain ⟨level, hrun, rfl⟩ := exists_level_of_ofTokens htokens
  rw [List.foldlM_append] at hrun
  obtain ⟨r₀, -, hrun⟩ := bind_eq_ok.mp hrun
  obtain ⟨r₁, hr₁, hrun⟩ := bind_eq_ok.mp hrun
  obtain ⟨r₂, hr₂, hrun⟩ := bind_eq_ok.mp hrun
  obtain ⟨outer, level', rfl⟩ := exists_after_of_closing hclosing (Reader.moves_of_step hr₁)
  obtain ⟨fs, rfl⟩ := exists_terms_of_connective hand hr₂
  have hcondition := Condition.isCondition_lexemes h
  rw [Condition.undated_eq hdate] at hcondition
  rw [hcondition.reads outer (.terms .and fs) ts₂ hls] at hrun
  cases hrun
  exact ⟨fs.reverse, by simp [Level.filter, Before.finish]⟩

/-! ## A guard before a text -/

/-- The first of the terms is the filter, and the connective is `and`. -/
def Before.BeginsWith (f : Filter) (before : Before) : Prop :=
  ∃ fs, before = .terms .and (fs ++ [f])

/-- The first of the terms is the filter, and the connective is `and`. -/
def Level.BeginsWith (f : Filter) (level : Level) : Prop :=
  ∃ fs, level = .joined .and (fs ++ [f])

/-- The level begins with the filter and `and`. -/
def Place.BeginsWith (f : Filter) : Place → Prop
  | .term before => before.BeginsWith f
  | .condition before _ => before.BeginsWith f
  | .after level => level.BeginsWith f

/-- The outermost level begins with the filter and `and`. -/
def Reader.BeginsWith (f : Filter) (r : Reader) : Prop :=
  match r.outer.getLast? with
  | none => r.place.BeginsWith f
  | some before => before.BeginsWith f

theorem Before.BeginsWith.finish {f : Filter} {before : Before} (h : before.BeginsWith f)
    (g : Filter) : (before.finish g).BeginsWith f := by
  obtain ⟨fs, rfl⟩ := h
  exact ⟨g :: fs, rfl⟩

theorem Level.BeginsWith.filter_eq {f : Filter} {level : Level} (h : level.BeginsWith f) :
    ∃ fs, level.filter = .group (some .and) (f :: fs) := by
  obtain ⟨fs, rfl⟩ := h
  exact ⟨fs.reverse, by simp [Level.filter]⟩

/-- A move on the level that is being read keeps the outermost one if it does so as the only one. -/
theorem Reader.BeginsWith.of_place {f : Filter} {outer : List Before} {place place' : Place}
    (h : Reader.BeginsWith f ⟨outer, place⟩) (hplace : place.BeginsWith f → place'.BeginsWith f) :
    Reader.BeginsWith f ⟨outer, place'⟩ := by
  unfold Reader.BeginsWith at h ⊢
  cases houter : outer.getLast? with
  | none => simpa [houter] using hplace (by simpa [houter] using h)
  | some before => simpa [houter] using h

/-- Each step of a reader keeps the start of the outermost level. -/
theorem Reader.BeginsWith.step {f : Filter} {r r' : Reader} {t : Token} (h : r.BeginsWith f)
    (hmove : Reader.Moves limit r t r') : r'.BeginsWith f := by
  cases hmove with
  | @opening outer before position hdepth =>
    unfold Reader.BeginsWith at h ⊢
    cases houter : outer.getLast? with
    | none => simpa [houter, List.getLast?_cons, Place.BeginsWith] using h
    | some before => simpa [houter, List.getLast?_cons] using h
  | name f => exact h.of_place id
  | property hproperty => exact h.of_place id
  | part hpart => exact h.of_place id
  | last hpart => exact h.of_place fun hbefore => hbefore.finish _
  | first c f =>
    refine h.of_place fun ⟨fs, hfs⟩ => ?_
    cases hfs
  | again c fs =>
    refine h.of_place fun ⟨fs, hfs⟩ => ?_
    cases hfs
    exact ⟨fs, rfl⟩
  | @closing outer before position level =>
    unfold Reader.BeginsWith at h ⊢
    cases houter : outer.getLast? with
    | none =>
      have hbefore : before.BeginsWith f := by simpa [houter, List.getLast?_cons] using h
      simpa [houter] using (show Place.BeginsWith f (.after _) from hbefore.finish level.filter)
    | some before => simpa [houter, List.getLast?_cons] using h

/-- What is read of a text in parentheses after a guard is a group that begins with the guard. -/
theorem begins_with_guard {g : Condition} (h : g.IsWritable) (hdate : g.value.IsUndated)
    {s : String} {f : Filter}
    (hread : read (String.ofList g.chars ++ " and (" ++ s ++ ")") limit = .ok f) :
    ∃ fs, f = .group (some .and) (.leaf g :: fs) := by
  obtain ⟨ts, hts, htokens⟩ := bind_eq_ok.mp hread
  have hand : Spelled (' ' :: "and".toList) [.word Connective.and.word] :=
    (Spelled.nil.lexeme_seam (isWritten_connective .and) isSeam_nil).space
  have hguard := (Condition.spelled h).append hand (isSeam_space _)
  obtain ⟨ts₁, ts₂, rfl, hls⟩ := hguard.tokens_prefix (isSeam_space _)
    (show (String.ofList g.chars ++ " and (" ++ s ++ ")").toList =
      g.chars ++ ' ' :: "and".toList ++ ' ' :: '(' :: (s.toList ++ [')']) by simp) hts
  obtain ⟨level, hrun, rfl⟩ := exists_level_of_ofTokens htokens
  have hcondition := Condition.isCondition_lexemes h
  rw [Condition.undated_eq hdate] at hcondition
  have hreads : Reads limit Reader.start (g.lexemes ++ [.word Connective.and.word])
      ⟨[], .term (.terms .and [.leaf g])⟩ :=
    (hcondition.reads [] .nothing).append
      (reads_connective .and (List.cons_ne_nil (.leaf g) []) [])
  rw [List.foldlM_append, hreads ts₁ hls] at hrun
  have hstart : Reader.BeginsWith (.leaf g) ⟨[], .term (.terms .and [.leaf g])⟩ := ⟨[], rfl⟩
  have hlevel := foldlM_invariant (I := fun _ r => Reader.BeginsWith (.leaf g) r)
    (fun _ _ _ _ hmove h => h.step hmove) [] hstart hrun
  exact Level.BeginsWith.filter_eq hlevel

/-! ## What a guard keeps out -/

theorem test_of_mem {f : Filter} {fs : List Filter} (hf : f ∈ fs) {record : Json} {strict : Bool}
    (h : test (.group (some .and) fs) record strict = true) : f.test record strict = true := by
  rw [test_group] at h
  exact List.all_eq_true.mp h f hf

/-- Whatever text stands in parentheses beside a condition, with `and` between them: what is read is
a group under `and` of which the condition is the last or the first child, so that it accepts only
records that the condition accepts. -/
theorem guarded {g : Condition} (h : g.IsWritable) (hdate : g.value.IsUndated) (s : String)
    (limit : Nat) :
    (∀ f, read ("(" ++ s ++ ") and " ++ String.ofList g.chars) limit = .ok f →
        ∃ fs, f = .group (some .and) (fs ++ [.leaf g])) ∧
      (∀ f, read (String.ofList g.chars ++ " and (" ++ s ++ ")") limit = .ok f →
        ∃ fs, f = .group (some .and) (.leaf g :: fs)) ∧
      ∀ f, read ("(" ++ s ++ ") and " ++ String.ofList g.chars) limit = .ok f ∨
          read (String.ofList g.chars ++ " and (" ++ s ++ ")") limit = .ok f →
        ∀ record strict, f.test record strict = true →
          (Filter.leaf g).test record strict = true := by
  refine ⟨fun f => ends_with_guard h hdate, fun f => begins_with_guard h hdate, ?_⟩
  rintro f (hread | hread) record strict htest
  · obtain ⟨fs, rfl⟩ := ends_with_guard h hdate hread
    exact test_of_mem (by simp) htest
  · obtain ⟨fs, rfl⟩ := begins_with_guard h hdate hread
    exact test_of_mem (by simp) htest

/-- A text that closes the parenthesis before it and opens another. -/
theorem guarded_closing_early :
    ∃ f fs, read ("(" ++ "a eq b) and (c ne ')'" ++ ") and " ++
        String.ofList (Condition.mk "owner" (.comparison .eq) (.text "it's")).chars) 1 = .ok f ∧
      f = .group (some .and) (fs ++ [.condition "owner" (.comparison .eq) (.text "it's")]) := by
  have hread : read ("(" ++ "a eq b) and (c ne ')'" ++ ") and " ++
      String.ofList (Condition.mk "owner" (.comparison .eq) (.text "it's")).chars) 1 =
      .ok (.group (some .and)
        [.condition "a" (.comparison .eq) (.text "b"), .condition "c" (.comparison .ne) (.text ")"),
          .condition "owner" (.comparison .eq) (.text "it's")]) := by
    rfl
  have hg : (Condition.mk "owner" (.comparison .eq) (.text "it's")).IsWritable :=
    ⟨by decide, trivial⟩
  obtain ⟨fs, hfs⟩ := (guarded hg trivial _ 1).1 _ hread
  exact ⟨_, fs, hread, hfs⟩

end RecordQuery.Filter
