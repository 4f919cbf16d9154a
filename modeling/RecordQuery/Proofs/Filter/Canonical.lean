import RecordQuery.Proofs.Filter.RoundTrip

/-!
# Filters that are read are canonical

* `IsCondition.isWritable`, `IsCondition.isUndated`: a condition of the grammar has a property path,
  and its value is finite and no date.
* `IsFilter.isCanonical`, `IsFilter.nesting_le`: so the filters of the grammar are canonical, and
  their groups nest as deep as their parentheses at most (by induction on the derivation).
* `read_canonical`: the text of a filter that has been read is read as the same filter again.
-/

namespace RecordQuery.Filter

/-! ## Values and conditions -/

/-- A word is a finite number, or no number at all. -/
theorem isFinite_ofWord (w : String) : (Value.ofWord w).IsFinite := by
  unfold Value.ofWord
  split
  · trivial
  · split
    · trivial
    · split
      · rename_i x hx
        exact (Option.filter_eq_some_iff.mp hx).2
      · trivial

theorem isUndated_ofWord (w : String) : (Value.ofWord w).IsUndated := by
  unfold Value.ofWord
  repeat' split
  all_goals trivial

theorem IsValue.isFinite {l : Lexeme} {v : Value} (h : IsValue l v) : v.IsFinite := by
  cases h with
  | quoted s => trivial
  | word w => exact isFinite_ofWord w

theorem IsValue.isUndated {l : Lexeme} {v : Value} (h : IsValue l v) : v.IsUndated := by
  cases h with
  | quoted s => trivial
  | word w => exact isUndated_ofWord w

theorem IsCondition.isWritable {ls : List Lexeme} {c : Condition} (h : IsCondition ls c) :
    c.IsWritable := by
  cases h with
  | comparison o hproperty hvalue => exact ⟨hproperty, hvalue.isFinite⟩
  | contains hproperty hvalue => exact ⟨hproperty, hvalue.isFinite⟩
  | call hf hproperty hvalue => exact ⟨hproperty, hvalue.isFinite⟩

theorem IsCondition.isUndated {ls : List Lexeme} {c : Condition} (h : IsCondition ls c) :
    c.value.IsUndated := by
  cases h with
  | comparison o hproperty hvalue => exact hvalue.isUndated
  | contains hproperty hvalue => exact hvalue.isUndated
  | call hf hproperty hvalue => exact hvalue.isUndated

/-! ## Groups -/

/-- Below the root there is one group less on a path, if the root is a group. -/
theorem height_le_nesting (f : Filter) : f.height ≤ f.nesting + 1 := by
  cases f with
  | leaf c => simp
  | group connective fs => simp [nesting, children]

theorem nesting_le_height (f : Filter) : f.nesting ≤ f.height := by
  cases f with
  | leaf c => simp [nesting, children, greatestHeight]
  | group connective fs => simp [nesting, children]

variable {limit : Nat}

mutual

/-- The filters of the grammar are canonical. -/
theorem IsFilter.isCanonical {depth : Nat} {ls : List Lexeme} {f : Filter}
    (h : IsFilter limit depth ls f) : f.IsCanonical := by
  match h with
  | .single h => exact h.isCanonical
  | .group hlength h => exact .group hlength h.isCanonical

theorem IsTerms.isCanonical {depth : Nat} {c : Connective} {ls : List Lexeme} {fs : List Filter}
    (h : IsTerms limit depth c ls fs) : ∀ f ∈ fs, f.IsCanonical := by
  match h with
  | .first h => simpa using h.isCanonical
  | .next hs h =>
    have hall := hs.isCanonical
    have hlast := h.isCanonical
    simpa [or_imp, forall_and] using ⟨hall, hlast⟩

theorem IsTerm.isCanonical {depth : Nat} {ls : List Lexeme} {f : Filter}
    (h : IsTerm limit depth ls f) : f.IsCanonical := by
  match h with
  | .condition h => exact .leaf h.isWritable h.isUndated
  | .parentheses hdepth h => exact h.isCanonical

end

mutual

/-- Groups below the root stand inside of parentheses of their own. -/
theorem IsFilter.nesting_le {depth : Nat} {ls : List Lexeme} {f : Filter}
    (h : IsFilter limit depth ls f) (hdepth : depth ≤ limit) : depth + f.nesting ≤ limit := by
  match h with
  | .single h =>
    have hheight := h.height_le hdepth
    have hle := nesting_le_height f
    omega
  | @IsFilter.group _ _ c _ fs hlength h =>
    have hall : greatestHeight fs ≤ limit - depth := by
      refine greatestHeight_le.mpr fun g hg => ?_
      have hheight := h.height_le hdepth g hg
      omega
    simp only [nesting, children]
    omega

theorem IsTerms.height_le {depth : Nat} {c : Connective} {ls : List Lexeme} {fs : List Filter}
    (h : IsTerms limit depth c ls fs) (hdepth : depth ≤ limit) :
    ∀ f ∈ fs, depth + f.height ≤ limit := by
  match h with
  | .first h => simpa using h.height_le hdepth
  | .next hs h =>
    have hall := hs.height_le hdepth
    have hlast := h.height_le hdepth
    simpa [or_imp, forall_and] using ⟨hall, hlast⟩

theorem IsTerm.height_le {depth : Nat} {ls : List Lexeme} {f : Filter}
    (h : IsTerm limit depth ls f) (hdepth : depth ≤ limit) : depth + f.height ≤ limit := by
  match h with
  | .condition h => simpa using hdepth
  | .parentheses hinner h =>
    have hnesting := h.nesting_le hinner
    have hle := height_le_nesting f
    omega

end

/-! ## Reading and writing -/

/-- A filter that is read is written by the lexemes of the text. -/
theorem exists_isFilter_of_read {text : String} {f : Filter} (h : read text limit = .ok f) :
    ∃ ls, IsFilter limit 0 ls f := by
  obtain ⟨tokens, -, hread⟩ := bind_eq_ok.mp h
  exact ⟨_, ofTokens_eq_ok.mp hread⟩

/-- A filter that is read is canonical and does not nest deeper than the limit. Its text is read as
the filter again under the same limit, and what is read has that text. -/
theorem read_canonical {text : String} {f : Filter} (h : read text limit = .ok f) :
    f.IsCanonical ∧ f.nesting ≤ limit ∧ read f.text limit = .ok f ∧
      (read f.text limit).map Filter.text = .ok f.text := by
  obtain ⟨ls, hls⟩ := exists_isFilter_of_read h
  have hcanonical := hls.isCanonical
  have hnesting : f.nesting ≤ limit := by
    have hle := hls.nesting_le (Nat.zero_le limit)
    omega
  have hread : read f.text limit = .ok f := by
    rw [read_text hcanonical.isWritable hcanonical.hasNoEmptyGroup hnesting,
      hcanonical.collapsed_eq]
  exact ⟨hcanonical, hnesting, hread, by rw [hread]; rfl⟩

/-- Needless parentheses, a plus sign, an exponent and a word for an infinity. -/
theorem read_canonical_words :
    let f : Filter := .group (some .and)
      [.condition "a" (.comparison .eq) (.number (.ofInt 5)),
        .group (some .or)
          [.condition "b" (.comparison .eq) (.text "inf"),
            .condition "c" (.comparison .gt) (.number (.ofInt 100000))]]
    read "((a eq +5)) and (b eq inf or c gt 1e5)" 2 = .ok f ∧ f.IsCanonical ∧
      read f.text 2 = .ok f := by
  intro f
  have h : read "((a eq +5)) and (b eq inf or c gt 1e5)" 2 = .ok f := by rfl
  obtain ⟨hcanonical, -, hread, -⟩ := read_canonical h
  exact ⟨h, hcanonical, hread⟩

end RecordQuery.Filter
