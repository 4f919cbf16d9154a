import RecordQuery.Value

/-!
# Filters

* `Comparison`, `TextFunction`, `Operator`: what a condition does with two values.
* `Condition`: a property path, an operator and a value.
* `Filter`: a condition, or a group of filters under a connective.
* `Filter.join`, `Filter.and`, `Filter.or`, `Filter.joinAll`: larger filters from smaller ones.
-/

namespace RecordQuery

/-- The order in which a condition wants two values. -/
inductive Comparison where
  | eq | ne | gt | ge | lt | le
deriving DecidableEq, Repr

namespace Comparison

/-- The word for a comparison. -/
def word : Comparison → String
  | .eq => "eq"
  | .ne => "ne"
  | .gt => "gt"
  | .ge => "ge"
  | .lt => "lt"
  | .le => "le"

/-- All comparisons. -/
def all : List Comparison := [.eq, .ne, .gt, .ge, .lt, .le]

/-- The comparison that a word stands for. -/
def ofWord? (w : String) : Option Comparison := all.find? fun c => c.word = w

@[simp] theorem ofWord?_word (c : Comparison) : ofWord? c.word = some c := by cases c <;> rfl

theorem word_of_ofWord? {w : String} {c : Comparison} (h : ofWord? w = some c) : c.word = w := by
  simpa using List.find?_some h

end Comparison

/-- What a condition wants to find in a text. -/
inductive TextFunction where
  | contains | startsWith | endsWith
deriving DecidableEq, Repr

namespace TextFunction

/-- The word for a text function. -/
def word : TextFunction → String
  | .contains => "substringof"
  | .startsWith => "startswith"
  | .endsWith => "endswith"

/-- All text functions. -/
def all : List TextFunction := [.contains, .startsWith, .endsWith]

/-- The text function that a word stands for. -/
def ofWord? (w : String) : Option TextFunction := all.find? fun f => f.word = w

@[simp] theorem ofWord?_word (f : TextFunction) : ofWord? f.word = some f := by cases f <;> rfl

theorem word_of_ofWord? {w : String} {f : TextFunction} (h : ofWord? w = some f) : f.word = w := by
  simpa using List.find?_some h

end TextFunction

/-- What a condition does with the value of a record and its own. -/
inductive Operator where
  | comparison (c : Comparison)
  | function (f : TextFunction)
deriving DecidableEq, Repr

namespace Operator

/-- The word for an operator. -/
def word : Operator → String
  | .comparison c => c.word
  | .function f => f.word

/-- The operator is written like a call. -/
def isFunction : Operator → Bool
  | .comparison _ => false
  | .function _ => true

end Operator

/-- The word between the filters of a group. -/
inductive Connective where
  | and | or
deriving DecidableEq, Repr

namespace Connective

/-- The word for a connective. -/
def word : Connective → String
  | .and => "and"
  | .or => "or"

/-- The connective that a word stands for. -/
def ofWord? (w : String) : Option Connective :=
  if w = "and" then some .and else if w = "or" then some .or else none

@[simp] theorem ofWord?_word (c : Connective) : ofWord? c.word = some c := by cases c <;> rfl

theorem word_of_ofWord? {w : String} {c : Connective} (h : ofWord? w = some c) : c.word = w := by
  unfold ofWord? at h
  split at h
  · injection h with h; subst h; symm; assumption
  · split at h
    · injection h with h; subst h; symm; assumption
    · cases h

end Connective

/-- A property path, an operator and the value to apply it to. -/
structure Condition where
  property : String
  operator : Operator
  value : Value
deriving BEq

/-- A filter on records: one condition, or filters under a connective. A group whose connective is
not set counts as `and`. -/
inductive Filter where
  | leaf (condition : Condition)
  | group (connective : Option Connective) (children : List Filter)

namespace Filter

mutual

/-- Filters of the same shape with equal conditions and connectives. -/
def same : Filter → Filter → Bool
  | .leaf c, .leaf d => c == d
  | .group c fs, .group d gs => c == d && sameAll fs gs
  | _, _ => false

/-- As many filters on both sides, each the same as its partner. -/
def sameAll : List Filter → List Filter → Bool
  | [], [] => true
  | f :: fs, g :: gs => same f g && sameAll fs gs
  | _, _ => false

end

instance : BEq Filter := ⟨same⟩

/-- The group of nothing, with no connective yet. -/
def empty : Filter := .group none []

instance : Inhabited Filter := ⟨empty⟩

/-- The filter is one condition. -/
def isLeaf : Filter → Bool
  | .leaf _ => true
  | .group .. => false

/-- The filters of a group; a condition has none. -/
def children : Filter → List Filter
  | .leaf _ => []
  | .group _ fs => fs

/-- The connective that a group counts as having. -/
def effectiveConnective? : Filter → Option Connective
  | .leaf _ => none
  | .group c _ => some (c.getD .and)

/-- A condition on a property. -/
def condition (property : String) (operator : Operator) (value : Value) : Filter :=
  .leaf ⟨property, operator, value⟩

/-- The connective of a group after a join: the one given, or else the one it has, or else `and`. -/
def joinedConnective (given present : Option Connective) : Connective :=
  given.getD (present.getD .and)

/-- A group of the filter and the others that are there. A group keeps its children and gains the
others, so that `(f.and g).or h` is a group of three under `or`. -/
def join (f : Filter) (others : List (Option Filter)) (connective : Option Connective) : Filter :=
  match f with
  | .leaf c => .group (some (joinedConnective connective none)) (.leaf c :: others.filterMap id)
  | .group present fs => .group (some (joinedConnective connective present)) (fs ++ others.filterMap id)

/-- Both filters. -/
def and (f g : Filter) : Filter := f.join [some g] (some .and)

/-- One of the filters. -/
def or (f g : Filter) : Filter := f.join [some g] (some .or)

/-- One group of the filters that are there, if the list is not empty. -/
def joinAll (filters : List (Option Filter)) (connective : Option Connective) : Option Filter :=
  if filters.isEmpty then none else some (empty.join filters connective)

end Filter

end RecordQuery
