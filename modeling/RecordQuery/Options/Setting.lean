import RecordQuery.Filter.Printer

/-!
# What options are called and set to

* `Options.Directive`: the seven options with a meaning of their own. Their names start with a
  dollar sign.
* `Options.Key`: directives and custom options, which the caller names.
* `Options.Setting`: what an option is set to.
-/

namespace RecordQuery

namespace Options

/-- The directives that hold a count. -/
inductive CountKey where
  | top | skip
deriving DecidableEq, Repr

/-- The directives that hold a text. -/
inductive TextKey where
  | orderBy | expand | select
deriving DecidableEq, Repr

/-- The options with a meaning of their own. -/
inductive Directive where
  | count (k : CountKey)
  | text (k : TextKey)
  | inlineCount
  | filter
deriving DecidableEq, Repr

namespace Directive

/-- The name of a directive in a query string. -/
def name : Directive → String
  | .count .top => "$top"
  | .count .skip => "$skip"
  | .text .orderBy => "$orderby"
  | .text .expand => "$expand"
  | .text .select => "$select"
  | .inlineCount => "$inlinecount"
  | .filter => "$filter"

/-- All directives. -/
def all : List Directive :=
  [.count .top, .count .skip, .text .orderBy, .text .expand, .text .select, .inlineCount, .filter]

/-- The directive of a name. -/
def ofName? (n : String) : Option Directive := all.find? fun d => d.name = n

theorem mem_all (d : Directive) : d ∈ all := by
  cases d with
  | count k => cases k <;> decide
  | text k => cases k <;> decide
  | inlineCount | filter => decide

@[simp] theorem ofName?_name (d : Directive) : ofName? d.name = some d := by
  have hall : ∀ d ∈ all, ofName? d.name = some d := by decide
  exact hall d d.mem_all

theorem name_of_ofName? {n : String} {d : Directive} (h : ofName? n = some d) : d.name = n := by
  simpa using List.find?_some h

end Directive

/-- What an option is called: a directive, or a name that the caller chose. -/
inductive Key where
  | directive (d : Directive)
  | custom (name : String)
deriving DecidableEq, Repr

/-- A custom option may not be called so: the name is empty or starts with a dollar sign. -/
def isReserved (name : String) : Bool := name = "" || name.toList.head? = some '$'

/-- The names of directives start with a dollar sign. -/
theorem Directive.head?_name (d : Directive) : d.name.toList.head? = some '$' := by
  have hall : ∀ d ∈ all, d.name.toList.head? = some '$' := by decide
  exact hall d d.mem_all

/-- The names of directives are reserved. -/
theorem isReserved_directive (d : Directive) : isReserved d.name = true := by
  simp [isReserved, d.head?_name]

theorem head?_ne_dollar {n : String} (h : isReserved n = false) : n.toList.head? ≠ some '$' := by
  simp only [isReserved, Bool.or_eq_false_iff, decide_eq_false_iff_not] at h
  exact h.2

/-- A name that is not reserved is that of no directive. -/
theorem Directive.ofName?_eq_none {n : String} (h : isReserved n = false) : ofName? n = none := by
  cases hn : ofName? n with
  | none => rfl
  | some d =>
    rw [← name_of_ofName? hn, isReserved_directive] at h
    cases h

namespace Key

/-- The name of an option in a query string. -/
def name : Key → String
  | .directive d => d.name
  | .custom n => n

/-- The option of a name: a directive, or a custom option if the name is not reserved. -/
def ofName? (n : String) : Option Key :=
  match Directive.ofName? n with
  | some d => some (.directive d)
  | none => if isReserved n then none else some (.custom n)

@[simp] theorem ofName?_directive (d : Directive) : ofName? d.name = some (.directive d) := by
  simp [ofName?]

/-- A name that is not reserved is that of a custom option. -/
theorem ofName?_custom {n : String} (h : isReserved n = false) : ofName? n = some (.custom n) := by
  simp [ofName?, Directive.ofName?_eq_none h, h]

theorem name_of_ofName? {n : String} {k : Key} (h : ofName? n = some k) : k.name = n := by
  unfold ofName? at h
  split at h
  · cases h
    exact Directive.name_of_ofName? ‹_›
  · split at h <;> cases h
    rfl

end Key

/-- What an option is set to. -/
inductive Setting where
  | count (n : Nat)
  | text (s : String)
  | filter (f : Filter)
  | custom (v : Value)
deriving BEq

/-- The setting as text. -/
def Setting.chars : Setting → List Char
  | .count n => Nat.toDigits 10 n
  | .text s => s.toList
  | .filter f => f.chars false
  | .custom v => v.plain

/-- The setting in JSON. -/
def Setting.toJson : Setting → Json
  | .count n => .number (.integer n)
  | .text s => .string s
  | .filter f => .string f.text
  | .custom v => v.toJson

end Options

end RecordQuery
