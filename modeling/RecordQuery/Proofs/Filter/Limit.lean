import RecordQuery.Proofs.Filter.Viable

/-!
# The limit of nesting

A limit decides only whether the parentheses of a text nest too deep. From some limit on, all limits
give one result, and below it every limit is exceeded.

* `groupOpenings`: the opening parentheses that do not directly follow the name of a text function.
* `TurnsAt`: the results under all limits turn from the excess to one result at a threshold.
* `Reader.step_cases`: only at the parenthesis of a term does a step ask for the limit.
* `exists_turnsAt_foldlM`: so the runs from a state turn at a threshold, which the parentheses still
  to come bound (by induction on the tokens).
* `exists_turnsAt_read`: the results of reading a text turn at a threshold.
-/

namespace RecordQuery.Filter

/-- The lexeme is the name of a text function. -/
def Lexeme.namesFunction : Lexeme → Bool
  | .word w => (TextFunction.ofWord? w).isSome
  | _ => false

/-- How many opening parentheses do not directly follow the name of a text function. Whether such a
name stands before the lexemes is given. -/
def groupOpenings (afterName : Bool) : List Lexeme → Nat
  | [] => 0
  | l :: ls => (if l = .opening ∧ afterName = false then 1 else 0) + groupOpenings l.namesFunction ls

/-- The results under all limits: one result from the threshold on, and below it the nesting is too
deep. -/
structure TurnsAt {α : Type} (results : Nat → Except Error α) (threshold : Nat)
    (result : Except Error α) : Prop where
  ne_tooDeep : ∀ limit, result ≠ .error (.tooDeep limit)
  eq_result : ∀ limit, threshold ≤ limit → results limit = result
  eq_tooDeep : ∀ limit, limit < threshold → results limit = .error (.tooDeep limit)

namespace TurnsAt

variable {α β : Type} {threshold : Nat} {result : Except Error α}

theorem const (h : ∀ limit, result ≠ .error (.tooDeep limit)) : TurnsAt (fun _ => result) 0 result :=
  ⟨h, fun _ _ => rfl, fun _ hlt => absurd hlt (Nat.not_lt_zero _)⟩

/-- What goes on without a limit turns at the same threshold. -/
theorem bind {results : Nat → Except Error α} (h : TurnsAt results threshold result)
    {f : α → Except Error β} (hf : ∀ a limit, f a ≠ .error (.tooDeep limit)) :
    TurnsAt (fun limit => results limit >>= f) threshold (result >>= f) where
  ne_tooDeep limit htooDeep := by
    rcases bind_eq_error.mp htooDeep with hresult | ⟨a, -, ha⟩
    · exact h.ne_tooDeep limit hresult
    · exact hf a limit ha
  eq_result limit hle := by
    rw [h.eq_result limit hle]
  eq_tooDeep limit hlt := by
    rw [h.eq_tooDeep limit hlt]
    rfl

/-- What goes on below a depth that has to be reached first turns at the greater threshold. -/
theorem guard {results : Nat → Except Error α} (h : TurnsAt results threshold result) (depth : Nat) :
    TurnsAt (fun limit => if depth ≤ limit then results limit else .error (.tooDeep limit))
      (max depth threshold) result where
  ne_tooDeep := h.ne_tooDeep
  eq_result limit hle := by
    rw [if_pos (by omega), h.eq_result limit (by omega)]
  eq_tooDeep limit hlt := by
    by_cases hdepth : depth ≤ limit
    · rw [if_pos hdepth, h.eq_tooDeep limit (by omega)]
    · rw [if_neg hdepth]

end TurnsAt

namespace Reader

theorem ne_tooDeep_of_blames {e : Error} {t : Token} (h : ∀ limit, e.Blames limit t) (limit : Nat) :
    e ≠ .tooDeep limit := by
  rintro rfl
  cases h (limit + 1)

/-- A step asks for the limit at the parenthesis of a term only. -/
theorem step_cases (r : Reader) (t : Token) :
    (∃ outer before position, r = ⟨outer, .term before⟩ ∧ t = ⟨.opening, position⟩) ∨
      ∃ result, (∀ limit, step limit r t = result) ∧ (∀ limit, result ≠ .error (.tooDeep limit)) ∧
        ∀ before, r.place = .term before → t.lexeme ≠ .opening := by
  obtain ⟨outer, place⟩ := r
  cases place with
  | term before =>
    obtain ⟨l, position⟩ := t
    by_cases hl : l = .opening
    · exact .inl ⟨outer, before, position, rfl, by rw [hl]⟩
    · have hstep : ∀ limit, step limit ⟨outer, .term before⟩ ⟨l, position⟩ =
          step 0 ⟨outer, .term before⟩ ⟨l, position⟩ := by
        intro limit
        cases l with
        | opening => exact absurd rfl hl
        | closing | comma | word | quoted => rfl
      refine .inr ⟨_, hstep, fun limit h => ?_, fun _ _ => hl⟩
      cases blames_of_step h with
      | tooDeep => exact hl rfl
  | condition before part =>
    refine .inr ⟨_, fun _ => rfl, fun limit h => ?_, nofun⟩
    rcases bind_eq_error.mp h with hpart | ⟨next, -, hnext⟩
    · exact ne_tooDeep_of_blames (fun _ => blames_of_stepPart hpart) limit rfl
    · cases next <;> cases hnext
  | after level =>
    refine .inr ⟨_, fun _ => rfl, fun limit h => ?_, nofun⟩
    exact ne_tooDeep_of_blames (fun _ => blames_of_stepAfter h) limit rfl

theorem step_opening_bind {α : Type} (limit : Nat) (outer : List Before) (before : Before)
    (position : Nat) (f : Reader → Except Error α) :
    step limit ⟨outer, .term before⟩ ⟨.opening, position⟩ >>= f =
      if outer.length + 1 ≤ limit then f ⟨before :: outer, .term .nothing⟩
      else .error (.tooDeep limit) := by
  simp only [step, stepTerm]
  split <;> rfl

/-- A term can follow what has been read only if that does not end with the name of a text
function. -/
def KnowsName (afterName : Bool) (r : Reader) : Prop :=
  ∀ before, r.place = .term before → afterName = false

theorem Moves.knowsName {limit : Nat} {r r' : Reader} {t : Token} (h : Moves limit r t r') :
    r'.KnowsName t.lexeme.namesFunction := by
  intro before hplace
  cases h with
  | opening => rfl
  | first c | again c => cases c <;> rfl
  | name | property | part | last | closing => cases hplace

theorem Moves.length_outer_le {limit : Nat} {r r' : Reader} {t : Token} (h : Moves limit r t r')
    (hl : ∀ before, r.place = .term before → t.lexeme ≠ .opening) :
    r'.outer.length ≤ r.outer.length := by
  cases h with
  | opening => exact absurd rfl (hl _ rfl)
  | closing => exact Nat.le_succ _
  | name | property | part | last | first | again => exact Nat.le_refl _

end Reader

/-- The runs from a state turn at a threshold. It is at most as many levels deeper as parentheses of
terms are to come. -/
theorem exists_turnsAt_foldlM (ts : List Token) (r : Reader) {afterName : Bool}
    (h : r.KnowsName afterName) :
    ∃ threshold result, TurnsAt (fun limit => ts.foldlM (Reader.step limit) r) threshold result ∧
      threshold ≤ r.outer.length + groupOpenings afterName (ts.map Token.lexeme) := by
  induction ts generalizing r afterName with
  | nil => exact ⟨0, .ok r, .const (fun _ h => by cases h), Nat.zero_le _⟩
  | cons t ts ih =>
    simp only [List.map_cons, groupOpenings, List.foldlM_cons]
    rcases r.step_cases t with ⟨outer, before, position, rfl, rfl⟩ | ⟨result, hstep, hresult, hopening⟩
    · -- The level opened here is counted by `groupOpenings`, and the rest runs one level deeper.
      have hknows : Reader.KnowsName false ⟨before :: outer, .term .nothing⟩ := fun _ _ => rfl
      obtain ⟨threshold, result, hturns, hle⟩ := ih _ hknows
      simp only [Reader.step_opening_bind]
      refine ⟨max (outer.length + 1) threshold, result, hturns.guard _, ?_⟩
      rw [if_pos ⟨trivial, h before rfl⟩]
      simp only [List.length_cons, Lexeme.namesFunction] at hle ⊢
      omega
    · simp only [hstep]
      cases result with
      | error e => exact ⟨0, .error e, .const hresult, Nat.zero_le _⟩
      | ok r' =>
        have hmoves := Reader.moves_of_step (hstep 0)
        obtain ⟨threshold, result, hturns, hle⟩ := ih r' hmoves.knowsName
        have houter := hmoves.length_outer_le hopening
        exact ⟨threshold, result, hturns, by omega⟩

/-- Reading under all limits gives one result from a threshold on, and below it the nesting is too
deep. The threshold is at most the number of opening parentheses of terms. -/
theorem exists_turnsAt_read {text : String} {tokens : List Token}
    (htokens : tokenize text = .ok tokens) :
    ∃ threshold result, TurnsAt (fun limit => read text limit) threshold result ∧
      threshold ≤ groupOpenings false (tokens.map Token.lexeme) := by
  simp only [read_eq_ofTokens htokens, ofTokens]
  split
  · exact ⟨0, _, .const (fun _ h => by cases h), Nat.zero_le _⟩
  · have hknows : Reader.start.KnowsName false := fun _ _ => rfl
    obtain ⟨threshold, result, hturns, hle⟩ := exists_turnsAt_foldlM tokens _ hknows
    refine ⟨threshold, _, hturns.bind fun r limit h => ?_, by simpa [Reader.start] using hle⟩
    unfold Reader.finish at h
    split at h <;> cases h

/-- The parenthesis of a call does not nest, and a missing one is found under every limit of at
least two. -/
theorem exists_turnsAt_read_unclosed :
    TurnsAt (fun limit => read "((startswith(a, 'x') or b eq 1) and c eq 2" limit) 2
      (.error .unexpectedEnd) := by
  have htokens : ∃ tokens, tokenize "((startswith(a, 'x') or b eq 1) and c eq 2" = .ok tokens ∧
      groupOpenings false (tokens.map Token.lexeme) = 2 := ⟨_, by rfl, by decide +kernel⟩
  obtain ⟨tokens, htokens, hopenings⟩ := htokens
  obtain ⟨threshold, result, hturns, hle⟩ := exists_turnsAt_read htokens
  have hone : read "((startswith(a, 'x') or b eq 1) and c eq 2" 1 = .error (.tooDeep 1) := by rfl
  have htwo : read "((startswith(a, 'x') or b eq 1) and c eq 2" 2 = .error .unexpectedEnd := by rfl
  have hleast : 2 ≤ threshold := by
    by_contra hlt
    exact hturns.ne_tooDeep 1 ((hturns.eq_result 1 (by omega)).symm.trans hone)
  obtain rfl : threshold = 2 := by omega
  obtain rfl : result = .error .unexpectedEnd := (hturns.eq_result 2 (Nat.le_refl 2)).symm.trans htwo
  exact hturns

end RecordQuery.Filter
