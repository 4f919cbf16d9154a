import RecordQuery.Options.Object

/-!
# Fields that are refused

* `Options.Directive.refusal?`: why a directive refuses a JSON value. `Options.fieldRefusal?` is the
  same for a field of an object, whose key may name no directive.
* `Options.trySetField_eq`: the value alone decides whether a field is refused, whatever is set
  already, and a refused one changes nothing.
* `Options.ofJson?_eq`: reading an object strictly fails at the first refused field.
* `Options.ofJson_passes_over_refused`: reading it leniently is reading strictly what is left of it
  without the refused fields.
-/

namespace RecordQuery.Options

/-! ## One field -/

/-- Why a directive refuses a JSON value, if it does: null takes every directive out, and nothing is
refused for the total count. -/
def Directive.refusal? (d : Directive) (v : Json) : Option Error :=
  match d, v with
  | .inlineCount, _ => none
  | _, .null => none
  | .count _, v =>
    match integerOf? v with
    | some n => if n < 0 then some (.negativeCount d.name n) else none
    | none => some (.wrongShape d.name .count)
  | .text _, v => if (textOf? v).isSome then none else some (.wrongShape d.name .texts)
  | .filter, .string s =>
    match Filter.read s with
    | .ok _ => none
    | .error e => some (.invalidFilter e)
  | .filter, _ => some (.wrongShape d.name .filter)

/-- Why a field of an object is refused, if its key names a directive that refuses its value. -/
def fieldRefusal? (field : String × Json) : Option Error :=
  (setterOf? field.1).bind fun d => d.refusal? field.2

/-- Sets what a field of an object sets, unless it is refused. -/
def setField (o : Options) (field : String × Json) : Options := o.orUnchanged (o.trySetField field)

section Field

variable (o : Options)

/-- What is set already has no part in whether a value is refused. -/
theorem trySetJson_eq_error_iff {d : Directive} {v : Json} {e : Error} :
    o.trySetJson d v = .error e ↔ d.refusal? v = some e := by
  cases d with
  | inlineCount => simp [trySetJson, Directive.refusal?]
  | count k =>
    cases v with
    | null => simp [trySetJson, Directive.refusal?]
    | bool | number | string | array | object =>
      simp only [trySetJson, Directive.refusal?, trySetCount]
      generalize integerOf? _ = n
      cases n with
      | some n => by_cases hn : n < 0 <;> simp [hn]
      | none => simp
  | text k =>
    cases v with
    | null => simp [trySetJson, Directive.refusal?]
    | bool | number | string | array | object =>
      simp only [trySetJson, Directive.refusal?]
      generalize textOf? _ = s
      cases s <;> simp
  | filter =>
    cases v with
    | null => simp [trySetJson, Directive.refusal?]
    | string s =>
      simp only [trySetJson, Directive.refusal?, trySetFilterText]
      cases Filter.read s <;> simp
    | bool | number | array | object => simp [trySetJson, Directive.refusal?]

theorem trySetField_eq_error_iff {field : String × Json} {e : Error} :
    o.trySetField field = .error e ↔ fieldRefusal? field = some e := by
  unfold trySetField fieldRefusal?
  cases setterOf? field.1 with
  | none => simp
  | some d => simpa using o.trySetJson_eq_error_iff

theorem trySetField_eq (field : String × Json) :
    o.trySetField field = match fieldRefusal? field with
      | some e => .error e
      | none => .ok (o.setField field) := by
  cases hset : o.trySetField field with
  | error e => rw [o.trySetField_eq_error_iff.mp hset]
  | ok changed =>
    have hnone : fieldRefusal? field = none := by
      refine Option.eq_none_iff_forall_ne_some.mpr fun e he => ?_
      rw [o.trySetField_eq_error_iff.mpr he] at hset
      cases hset
    rw [hnone, setField, hset]
    rfl

theorem setField_of_refused {field : String × Json} {e : Error} (h : fieldRefusal? field = some e) :
    o.setField field = o := by
  rw [setField, o.trySetField_eq_error_iff.mpr h]
  rfl

end Field

/-! ## All fields -/

/-- Setting fields strictly fails at the first refused one, and else sets them all. -/
theorem foldlM_trySetField (fields : List (String × Json)) (o : Options) :
    fields.foldlM trySetField o = match fields.findSome? fieldRefusal? with
      | some e => .error e
      | none => .ok (fields.foldl setField o) := by
  induction fields generalizing o with
  | nil => rfl
  | cons field rest ih =>
    rw [List.foldlM_cons, trySetField_eq, List.findSome?_cons]
    cases fieldRefusal? field with
    | some e => rfl
    | none => exact ih (o.setField field)

theorem foldl_setField_filter (fields : List (String × Json)) (o : Options) :
    (fields.filter fun field => (fieldRefusal? field).isNone).foldl setField o =
      fields.foldl setField o := by
  induction fields generalizing o with
  | nil => rfl
  | cons field rest ih =>
    rw [List.filter_cons, List.foldl_cons]
    cases hfield : fieldRefusal? field with
    | some e => simpa [o.setField_of_refused hfield] using ih o
    | none => simpa using ih (o.setField field)

/-- Reading an object strictly fails for the reason of its first refused field, and else agrees with
reading it leniently. -/
theorem ofJson?_eq (fields : List (String × Json)) :
    ofJson? (.object fields) = match fields.findSome? fieldRefusal? with
      | some e => .error e
      | none => .ok (ofJson (.object fields)) :=
  foldlM_trySetField fields empty

theorem ofJson_of_ofJson? {v : Json} {o : Options} (h : ofJson? v = .ok o) : ofJson v = o := by
  cases v with
  | object fields =>
    rw [ofJson?_eq] at h
    split at h
    · cases h
    · exact Except.ok.inj h
  | null | bool | number | string | array => cases h

/-- Whether a field is refused, and why, does not depend on what is set. Reading an object strictly
fails if and only if a field is refused, for the reason of the first one. Reading it leniently gives
what reading it strictly gives once the refused fields are left out, and so the same options
whenever the strict reading succeeds. -/
theorem ofJson_passes_over_refused (fields : List (String × Json)) :
    (∀ (o : Options) (field : String × Json) (e : Error),
        o.trySetField field = .error e ↔ fieldRefusal? field = some e) ∧
      ((∃ e, ofJson? (.object fields) = .error e) ↔ ∃ field ∈ fields, fieldRefusal? field ≠ none) ∧
      (∀ e, ofJson? (.object fields) = .error e ↔
        ∃ before field after, fields = before ++ field :: after ∧ fieldRefusal? field = some e ∧
          ∀ f ∈ before, fieldRefusal? f = none) ∧
      ofJson? (.object (fields.filter fun field => (fieldRefusal? field).isNone)) =
        .ok (ofJson (.object fields)) ∧
      ∀ o, ofJson? (.object fields) = .ok o → ofJson (.object fields) = o := by
  have hfirst : ∀ e, ofJson? (.object fields) = .error e ↔
      fields.findSome? fieldRefusal? = some e := by
    intro e
    rw [ofJson?_eq]
    split <;> simp [*]
  refine ⟨fun o _ _ => o.trySetField_eq_error_iff, ?_, ?_, ?_, fun o => ofJson_of_ofJson?⟩
  · simp only [hfirst, ← Option.isSome_iff_exists, Option.isSome_iff_ne_none, ne_eq,
      List.findSome?_eq_none_iff]
    simp
  · intro e
    rw [hfirst, List.findSome?_eq_some_iff]
  · have hnone : (fields.filter fun field => (fieldRefusal? field).isNone).findSome?
        fieldRefusal? = none := by
      simp
    rw [ofJson?_eq, hnone]
    exact congrArg _ (foldl_setField_filter fields empty)

/-- A sort order under both of its spellings, taken out under the second, a filter that breaks off
before a count below zero, and a key that names nothing. -/
theorem ofJson_passes_over_refused_spellings :
    let before : List (String × Json) := [("$orderBy", .array [.string "a", .string "b desc"]),
      ("$top", .number (.integer 5)), ("filter", .bool true)]
    let after : List (String × Json) := [("$orderby", .null), ("$inlineCount", .string ""),
      ("$skip", .number (.integer (-1)))]
    let fields := before ++ ("$filter", .string "a eq") :: after
    let kept := fields.filter fun field => (fieldRefusal? field).isNone
    kept.map Prod.fst = ["$orderBy", "$top", "filter", "$orderby", "$inlineCount"] ∧
      ofJson? (.object fields) = .error (.invalidFilter .unexpectedEnd) ∧
      ofJson (.object kept) = ofJson (.object fields) ∧
      (ofJson (.object fields)).keys = [.directive (.count .top), .directive .inlineCount] := by
  intro before after fields kept
  obtain ⟨-, -, hfirst, hkept, -⟩ := ofJson_passes_over_refused fields
  have hrefused : fieldRefusal? ("$filter", .string "a eq") =
      some (.invalidFilter .unexpectedEnd) := by
    decide +kernel
  have hbefore : ∀ f ∈ before, fieldRefusal? f = none := by decide +kernel
  refine ⟨by decide +kernel, (hfirst _).mpr ⟨before, _, after, rfl, hrefused, hbefore⟩, ?_,
    by decide +kernel⟩
  exact (ofJson_passes_over_refused kept).2.2.2.2 _ hkept

end RecordQuery.Options
