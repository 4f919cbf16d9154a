import RecordQuery.Options.Query

/-!
# The options that operations build

* `Options.Reachable`: the options that the operations build, from none or from what a JSON object
  or a query string sets.
* `Options.Key.Admits`: what a key may be set to. `Options.IsWellFormed`: the keys differ, and each
  is set to what it may be.
* `Options.IsWellFormed.put`, `Options.IsWellFormed.remove`: setting an option and taking one out
  keep this.
* `Options.Changes`: what a step does to one option. It is one of the two, or nothing, and so keeps
  options well formed and leaves the other ones alone.
* `Options.Changes.trySetJson`, `Options.Changes.setQueryPair`, …: which option a step changes.
* `Options.Reachable.isWellFormed`: the options that operations build are well formed.
-/

namespace RecordQuery.Options

-- Powers are those of core, whatever else is imported.
attribute [local instance (high)] instPowNat

/-! ## Reachable options -/

/-- The options that the operations build. What an operation of a name with `try` leaves behind is
what the operation without `try` leaves behind, and a directive is cleared by taking it out. Counts
are integers of 64 bits. -/
inductive Reachable : Options → Prop where
  | empty : Reachable empty
  | ofJson (v : Json) : Reachable (ofJson v)
  | ofJson? {v : Json} {o : Options} (h : ofJson? v = .ok o) : Reachable o
  | ofQueryString (query : String) : Reachable (ofQueryString query)
  | setCount {o : Options} (h : Reachable o) (k : CountKey) (n : Int64) :
      Reachable (o.setCount k n.toInt)
  | setText {o : Options} (h : Reachable o) (k : TextKey) (s : String) : Reachable (o.setText k s)
  | setTexts {o : Options} (h : Reachable o) (k : TextKey) (items : List String) :
      Reachable (o.setTexts k items)
  | setInlineCount {o : Options} (h : Reachable o) (wanted : Bool) :
      Reachable (o.setInlineCount wanted)
  | setFilter {o : Options} (h : Reachable o) (f : Filter) : Reachable (o.setFilter f)
  | setFilterText {o : Options} (h : Reachable o) (text : String) : Reachable (o.setFilterText text)
  | setCustom {o : Options} (h : Reachable o) (name : String) (v : Value) :
      Reachable (o.setCustom name v)
  | remove {o : Options} (h : Reachable o) (k : Key) : Reachable (o.remove k)
  | extend {o other : Options} (h : Reachable o) (h' : Reachable other) : Reachable (o.extend other)

/-! ## Well-formed options -/

/-- What a key may be set to. -/
inductive Key.Admits : Key → Setting → Prop where
  | count (k : CountKey) {n : Nat} (h : n < 2 ^ (63 : Nat)) :
      Admits (.directive (.count k)) (.count n)
  | text (k : TextKey) (s : String) : Admits (.directive (.text k)) (.text s)
  | inlineCount : Admits (.directive .inlineCount) (.text allPages)
  | filter (f : Filter) : Admits (.directive .filter) (.filter f)
  | custom {name : String} (h : isReserved name = false) (v : Value) :
      Admits (.custom name) (.custom v)

/-- No key occurs twice, and each is set to what it may be. -/
structure IsWellFormed (o : Options) : Prop where
  nodup : o.keys.Nodup
  admits : ∀ e ∈ o.entries, e.1.Admits e.2

namespace IsWellFormed

variable {o o' : Options}

theorem empty : IsWellFormed empty where
  nodup := .nil
  admits := by simp [Options.empty]

/-- A key may be set to what it admits. -/
theorem put (h : o.IsWellFormed) {k : Key} {s : Setting} (hs : k.Admits s) :
    (o.put k s).IsWellFormed where
  nodup := Keyed.nodup_keys_put h.nodup k s
  admits := by
    intro e he
    rcases Keyed.mem_put he with rfl | he
    · exact hs
    · exact h.admits e he

theorem remove (h : o.IsWellFormed) (k : Key) : (o.remove k).IsWellFormed where
  nodup := h.nodup.sublist ((Keyed.erase_sublist k o.entries).map Prod.fst)
  admits := fun e he => h.admits e ((Keyed.erase_sublist k o.entries).mem he)

theorem extend (h : o.IsWellFormed) {other : Options} (h' : other.IsWellFormed) :
    (o.extend other).IsWellFormed :=
  List.foldlRecOn other.entries _ (motive := fun entries => IsWellFormed ⟨entries⟩) h
    fun _ ih e he => ih.put (h'.admits e he)

end IsWellFormed

/-! ## Changes to one option -/

/-- A change to one option: it is set to what it may be set to, taken out, or left as it is. -/
inductive Changes (k : Key) (o : Options) : Options → Prop where
  | put {s : Setting} (h : k.Admits s) : Changes k o (o.put k s)
  | remove : Changes k o (o.remove k)
  | unchanged : Changes k o o

/-- An integer that is set from JSON is one of 64 bits. -/
theorem integerOf?_lt {v : Json} {n : Int} (h : integerOf? v = some n) :
    n < 2 ^ (63 : Nat) := by
  unfold integerOf? at h
  split at h
  · split at h <;> cases h
    assumption
  · have hn := (Option.filter_eq_some_iff.mp h).2
    simp only [decide_eq_true_eq] at hn
    omega
  · cases h

namespace Changes

variable {k : Key} {o o' : Options}

theorem isWellFormed (hc : Changes k o o') (h : o.IsWellFormed) : o'.IsWellFormed := by
  cases hc with
  | put hs => exact h.put hs
  | remove => exact h.remove k
  | unchanged => exact h

/-- Other options are left alone. -/
theorem get?_of_ne (hc : Changes k o o') {k' : Key} (hne : k ≠ k') : o'.get? k' = o.get? k' := by
  cases hc with
  | put hs => exact (Keyed.get?_put k k' _ o.entries).trans (if_neg hne)
  | remove => exact Keyed.get?_erase_of_ne hne o.entries
  | unchanged => rfl

theorem orUnchanged {result : Except Error Options}
    (h : ∀ o', result = .ok o' → Changes k o o') : Changes k o (o.orUnchanged result) := by
  cases result with
  | ok o' => exact h o' rfl
  | error e => exact .unchanged

theorem trySetCount {c : CountKey} {n : Int} (hn : n < 2 ^ (63 : Nat))
    (hset : o.trySetCount c n = .ok o') : Changes (.directive (.count c)) o o' := by
  unfold Options.trySetCount at hset
  split at hset <;> cases hset
  refine .put (.count c ?_)
  omega

theorem setInlineCount (o : Options) (wanted : Bool) :
    Changes (.directive .inlineCount) o (o.setInlineCount wanted) := by
  cases wanted with
  | true => exact .put .inlineCount
  | false => exact .remove

theorem trySetFilterText {text : String} (hset : o.trySetFilterText text = .ok o') :
    Changes (.directive .filter) o o' := by
  unfold Options.trySetFilterText at hset
  split at hset <;> cases hset
  exact .put (.filter _)

theorem trySetCustom {name : String} {v : Value} (hset : o.trySetCustom name v = .ok o') :
    Changes (.custom name) o o' := by
  unfold Options.trySetCustom at hset
  split at hset <;> cases hset
  rename_i hname
  exact .put (.custom ((Bool.not_eq_true _).mp hname) v)

theorem trySetJson {d : Directive} {v : Json} (hset : o.trySetJson d v = .ok o') :
    Changes (.directive d) o o' := by
  unfold Options.trySetJson at hset
  split at hset
  · cases hset
    exact setInlineCount o _
  · cases hset
    exact .remove
  · split at hset
    · exact trySetCount (integerOf?_lt ‹_›) hset
    · cases hset
  · split at hset <;> cases hset
    exact .put (.text _ _)
  · exact trySetFilterText hset
  · cases hset

/-- A field of an object changes the directive that its key names, if it names one. -/
theorem trySetField {field : String × Json}
    (hset : o.trySetField field = .ok o') :
    o' = o ∨ ∃ d, setterOf? field.1 = some d ∧ Changes (.directive d) o o' := by
  unfold Options.trySetField at hset
  split at hset
  · exact .inr ⟨_, ‹_›, trySetJson hset⟩
  · cases hset
    exact .inl rfl

/-- A name and value of a query change the option that the name is for, if it is for one. -/
theorem setQueryPair (o : Options) (pair : List Char × List Char) :
    o.setQueryPair pair = o ∨
      ∃ k, Key.ofName? (String.ofList pair.1) = some k ∧ Changes k o (o.setQueryPair pair) := by
  unfold Options.setQueryPair
  split
  · exact .inr ⟨_, ‹_›, orUnchanged fun _ => trySetCustom⟩
  · exact .inr ⟨_, ‹_›, orUnchanged fun _ => trySetJson⟩
  · exact .inl rfl

end Changes

/-! ## Objects and query strings -/

namespace IsWellFormed

variable {o o' : Options}

theorem orUnchanged (h : o.IsWellFormed) {result : Except Error Options}
    (hresult : ∀ o', result = .ok o' → o'.IsWellFormed) : (o.orUnchanged result).IsWellFormed := by
  cases result with
  | ok o' => exact hresult o' rfl
  | error e => exact h

theorem trySetField (h : o.IsWellFormed) {field : String × Json}
    (hset : o.trySetField field = .ok o') : o'.IsWellFormed := by
  obtain rfl | ⟨d, -, hchanges⟩ := Changes.trySetField hset
  · exact h
  · exact hchanges.isWellFormed h

theorem foldlM_trySetField (h : o.IsWellFormed) {fields : List (String × Json)}
    (hset : fields.foldlM Options.trySetField o = .ok o') : o'.IsWellFormed := by
  induction fields generalizing o with
  | nil =>
    cases hset
    exact h
  | cons field fields ih =>
    rw [List.foldlM_cons] at hset
    cases hfield : o.trySetField field with
    | error e =>
      rw [hfield] at hset
      cases hset
    | ok o₁ =>
      rw [hfield] at hset
      exact ih (h.trySetField hfield) hset

theorem ofJson (v : Json) : (ofJson v).IsWellFormed := by
  cases v with
  | object fields =>
    exact List.foldlRecOn fields _ (motive := IsWellFormed) .empty
      fun _ ih field _ => ih.orUnchanged fun _ => ih.trySetField
  | null | bool | number | string | array => exact .empty

theorem ofJson? {v : Json} (hset : ofJson? v = .ok o') : o'.IsWellFormed := by
  cases v with
  | object fields => exact IsWellFormed.empty.foldlM_trySetField hset
  | null | bool | number | string | array => cases hset

theorem setQueryPair (h : o.IsWellFormed) (pair : List Char × List Char) :
    (o.setQueryPair pair).IsWellFormed := by
  obtain heq | ⟨k, -, hchanges⟩ := Changes.setQueryPair o pair
  · rwa [heq]
  · exact hchanges.isWellFormed h

theorem ofQueryString (query : String) : (ofQueryString query).IsWellFormed :=
  List.foldlRecOn _ _ (motive := IsWellFormed) .empty fun _ ih pair _ => ih.setQueryPair pair

end IsWellFormed

/-- The options that operations build are well formed. -/
theorem Reachable.isWellFormed {o : Options} (h : o.Reachable) : o.IsWellFormed := by
  induction h with
  | empty => exact .empty
  | ofJson v => exact .ofJson v
  | ofJson? h => exact .ofJson? h
  | ofQueryString query => exact .ofQueryString query
  | setCount h k n ih =>
    exact (Changes.orUnchanged fun _ => .trySetCount n.toInt_lt).isWellFormed ih
  | setText h k s ih => exact ih.put (.text k s)
  | setTexts h k items ih => exact ih.put (.text k _)
  | setInlineCount h wanted ih => exact (Changes.setInlineCount _ wanted).isWellFormed ih
  | setFilter h f ih => exact ih.put (.filter f)
  | setFilterText h text ih =>
    exact (Changes.orUnchanged fun _ => .trySetFilterText).isWellFormed ih
  | setCustom h name v ih => exact (Changes.orUnchanged fun _ => .trySetCustom).isWellFormed ih
  | remove h k ih => exact ih.remove k
  | extend h h' ih ih' => exact ih.extend ih'

end RecordQuery.Options
