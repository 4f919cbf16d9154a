import RecordQuery.Proofs.Options.WellFormed
import RecordQuery.Proofs.Text.Decoding

/-!
# Options that extend others

* `Options.get?_extend`, `Options.keys_extend`: options extended by others are set as the others say,
  and as they were where the others say nothing. The keys that are new come last.
* `Options.extend_assoc`, `Options.empty_extend`, `Options.extend_of_get?`: extending is associative,
  and options change nothing in those that are set as they say.
* `Options.extend_monoid`: so reachable options are a monoid, in which each is its own square.
* `Options.setQueryPair_eq_extend`: a name and value of a query extend options by what they set on
  their own.
* `Options.ofQueryString_append`: so a query of two queries sets what the first one does, extended by
  what the second one does.
-/

namespace RecordQuery.Options

/-! ## Extending options -/

section Extend

variable {a b : Options}

theorem get?_extend (a : Options) (h : b.keys.Nodup) (k : Key) :
    (a.extend b).get? k = (b.get? k).or (a.get? k) :=
  Keyed.get?_putAll h a.entries k

theorem keys_extend (a : Options) (h : b.keys.Nodup) :
    (a.extend b).keys = a.keys ++ b.keys.filter fun k => k ∉ a.keys :=
  Keyed.keys_putAll h a.entries

theorem extend_assoc (a : Options) (h : b.keys.Nodup) (c : Options) :
    a.extend (b.extend c) = (a.extend b).extend c :=
  congrArg Options.mk (Keyed.putAll_putAll h a.entries c.entries)

@[simp] theorem extend_empty (a : Options) : a.extend empty = a := rfl

theorem empty_extend (h : a.keys.Nodup) : empty.extend a = a :=
  congrArg Options.mk (Keyed.putAll_of_nodup h)

/-- Options change nothing in those that are set as they say. -/
theorem extend_of_get? (h : ∀ e ∈ b.entries, a.get? e.1 = some e.2) : a.extend b = a :=
  congrArg Options.mk (Keyed.putAll_of_get? h)

theorem extend_self (h : a.keys.Nodup) : a.extend a = a :=
  extend_of_get? fun _ he => Keyed.get?_of_mem h he

/-- Extending makes reachable options a monoid of ordered maps in which the second one wins, and each
of which is its own square. -/
theorem extend_monoid (ha : a.Reachable) (hb : b.Reachable) (c : Options) :
    a.extend (b.extend c) = (a.extend b).extend c ∧
      a.extend empty = a ∧ empty.extend a = a ∧
      a.extend a = a ∧ (a.extend b).extend b = a.extend b ∧
      (∀ k, (a.extend b).get? k = (b.get? k).or (a.get? k)) ∧
      (a.extend b).keys = a.keys ++ b.keys.filter fun k => k ∉ a.keys := by
  have hnodup : a.keys.Nodup := ha.isWellFormed.nodup
  have hnodup' : b.keys.Nodup := hb.isWellFormed.nodup
  have htwice : (a.extend b).extend b = a.extend b := by
    rw [← extend_assoc a hnodup', extend_self hnodup']
  exact ⟨extend_assoc a hnodup' c, extend_empty a, empty_extend hnodup, extend_self hnodup, htwice,
    get?_extend a hnodup', keys_extend a hnodup'⟩

/-- Three options that overlap in pairs: each replaces a setting of the one before in its place, and
adds a key at the end. -/
theorem extend_monoid_overlapping :
    let a := (empty.setText .orderBy "n").setCustom "x" (.bool true)
    let b := (empty.setCustom "x" (.text "b")).setInlineCount true
    let c := ((empty.setText .select "n").setInlineCount true).setText .orderBy "m desc"
    a.Reachable ∧ b.Reachable ∧ a.extend (b.extend c) = (a.extend b).extend c ∧
      (a.extend b).keys = [.directive (.text .orderBy), .custom "x", .directive .inlineCount] ∧
      (a.extend (b.extend c)).keys = [.directive (.text .orderBy), .custom "x",
        .directive .inlineCount, .directive (.text .select)] ∧
      (a.extend b).get? (.custom "x") = some (.custom (.text "b")) := by
  intro a b c
  have ha : a.Reachable := (Reachable.empty.setText _ _).setCustom _ _
  have hb : b.Reachable := (Reachable.empty.setCustom _ _).setInlineCount _
  obtain ⟨hassoc, -, -, -, -, hget, hkeys⟩ := extend_monoid ha hb c
  exact ⟨ha, hb, hassoc, hkeys.trans (by decide), by decide, hget _⟩

end Extend

/-! ## Query strings -/

section Query

variable (o : Options)

/-- A value that takes nothing out is set on options as they are extended by what it sets on its
own. -/
theorem orUnchanged_trySetJson (d : Directive) {v : Json} (h : isUnwanted v = false) :
    o.orUnchanged (o.trySetJson d v) = o.extend (empty.orUnchanged (empty.trySetJson d v)) := by
  cases d with
  | inlineCount =>
    simp only [trySetJson, h, setInlineCount, Bool.not_false, if_true]
    rfl
  | count k =>
    cases v with
    | null => cases h
    | bool | number | string | array | object =>
      simp only [trySetJson, trySetCount]
      generalize integerOf? _ = n
      cases n with
      | some n => by_cases hn : n < 0 <;> simp only [hn, if_true, if_false] <;> rfl
      | none => rfl
  | text k =>
    cases v with
    | null => cases h
    | bool | number | string | array | object =>
      simp only [trySetJson]
      generalize textOf? _ = s
      cases s <;> rfl
  | filter =>
    cases v with
    | null => cases h
    | string s =>
      simp only [trySetJson, trySetFilterText]
      cases Filter.read s <;> rfl
    | bool | number | array | object => rfl

theorem isUnwanted_queryValue (d : Directive) (value : List Char) :
    isUnwanted (queryValue d value) = false := by
  unfold queryValue
  split <;> rfl

/-- A name and value of a query extend options by what they set on their own. -/
theorem setQueryPair_eq_extend (pair : List Char × List Char) :
    o.setQueryPair pair = o.extend (empty.setQueryPair pair) := by
  unfold setQueryPair
  split
  · rename_i name _
    simp only [setCustom, trySetCustom]
    cases isReserved name <;> rfl
  · exact orUnchanged_trySetJson o _ (isUnwanted_queryValue _ _)
  · rfl

/-- Names and values of a query may be set on options that others are then extended by. -/
theorem extend_foldl_setQueryPair {o' : Options} (h : o'.IsWellFormed)
    (pairs : List (List Char × List Char)) :
    o.extend (pairs.foldl setQueryPair o') = pairs.foldl setQueryPair (o.extend o') := by
  induction pairs generalizing o' with
  | nil => rfl
  | cons pair rest ih =>
    -- Associativity, with what the pair sets on its own as the third options.
    have hstep : o.extend (o'.setQueryPair pair) = (o.extend o').setQueryPair pair := by
      rw [o'.setQueryPair_eq_extend, (o.extend o').setQueryPair_eq_extend, extend_assoc o h.nodup]
    rw [List.foldl_cons, List.foldl_cons, ih (h.setQueryPair pair), hstep]

end Query

/-- Only the first of two queries loses its question mark when they are put together. -/
theorem dropMark_append (a b : List Char) : dropMark (a ++ '&' :: b) = dropMark a ++ '&' :: b := by
  cases a with
  | nil => rfl
  | cons c rest => by_cases hc : c = '?' <;> simp [dropMark, hc]

theorem dropMark_of_head?_ne {query : List Char} (h : query.head? ≠ some '?') :
    dropMark query = query := by
  cases query with
  | nil => rfl
  | cons c rest =>
    have hc : c ≠ '?' := by simpa using h
    simp [dropMark, hc]

theorem ofQueryString_mark (query : String) :
    ofQueryString ("?" ++ query) = (Text.formPairs query.toList).foldl setQueryPair empty := by
  simp [ofQueryString, String.toList_append, dropMark]

/-- A query of two queries sets what the first one does, extended by what the second one does, whose
question mark is part of a name if it has one. -/
theorem ofQueryString_append_mark (a b : String) :
    ofQueryString (a ++ "&" ++ b) = (ofQueryString a).extend (ofQueryString ("?" ++ b)) := by
  have hjoined : (a ++ "&" ++ b).toList = a.toList ++ '&' :: b.toList := by
    simp [String.toList_append]
  rw [ofQueryString_mark, extend_foldl_setQueryPair _ .empty, extend_empty, ofQueryString, hjoined,
    dropMark_append, Text.formPairs_append, List.foldl_append]
  rfl

/-- A query of two queries, the second one without a question mark, sets what the first one does,
extended by what the second one does. -/
theorem ofQueryString_append (a : String) {b : String} (h : b.toList.head? ≠ some '?') :
    ofQueryString (a ++ "&" ++ b) = (ofQueryString a).extend (ofQueryString b) := by
  rw [ofQueryString_append_mark, ofQueryString_mark, ofQueryString.eq_1 b, dropMark_of_head?_ne h]

/-- An escape and a name that are cut in two, a count that is set again, refused and not a number, an
unknown directive and empty pieces. -/
theorem ofQueryString_append_escapes :
    let a := "?x=1&$top=5&&$bogus=2&y=%2"
    let b := "6z&$top=-1&x=a+b&$top=7.0&$skip=two&"
    b.toList.head? ≠ some '?' ∧
      ofQueryString (a ++ "&" ++ b) = (ofQueryString a).extend (ofQueryString b) ∧
      (ofQueryString b).keys = [.custom "6z", .custom "x", .directive (.count .top)] ∧
      (ofQueryString (a ++ "&" ++ b)).keys =
        [.custom "x", .directive (.count .top), .custom "y", .custom "6z"] := by
  intro a b
  have hmark : b.toList.head? ≠ some '?' := by decide
  have happend := ofQueryString_append a hmark
  have hkeys : (ofQueryString b).keys = [.custom "6z", .custom "x", .directive (.count .top)] := by
    decide +kernel
  refine ⟨hmark, happend, hkeys, ?_⟩
  rw [happend]
  decide +kernel

end RecordQuery.Options
