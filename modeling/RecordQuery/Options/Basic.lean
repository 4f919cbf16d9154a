import RecordQuery.Filter.Reader
import RecordQuery.Keyed
import RecordQuery.Options.Error
import RecordQuery.Options.Setting
import RecordQuery.SortOrder

/-!
# Query options

* `Options`: settings in the order in which their keys were first set.
* `Options.trySetCount`, `Options.setText`, …: how options are set. What begins with `try` says why
  a value is refused; the other functions leave the options as they are then.
-/

namespace RecordQuery

/-- Options in the order in which their keys were first set. -/
structure Options where
  entries : List (Options.Key × Options.Setting)
deriving BEq

namespace Options

/-- No options. -/
def empty : Options := ⟨[]⟩

/-- The keys that are set, in order. -/
def keys (o : Options) : List Key := Keyed.keys o.entries

/-- What an option is set to. -/
def get? (o : Options) (k : Key) : Option Setting := Keyed.get? k o.entries

/-- The option is set. -/
def contains (o : Options) (k : Key) : Bool := (o.get? k).isSome

/-- Sets an option: in its place if it is set already, and else at the end. -/
def put (o : Options) (k : Key) (s : Setting) : Options := ⟨Keyed.put k s o.entries⟩

/-- Takes an option out. -/
def remove (o : Options) (k : Key) : Options := ⟨Keyed.erase k o.entries⟩

/-- Takes a directive out. -/
def clear (o : Options) (d : Directive) : Options := o.remove (.directive d)

/-- Sets every option that `other` sets, to what it sets it to. -/
def extend (o other : Options) : Options := ⟨Keyed.putAll o.entries other.entries⟩

/-- The options after a change that may have been refused: then they are as before. -/
def orUnchanged (o : Options) : Except Error Options → Options
  | .ok changed => changed
  | .error _ => o

/-! ## Counts -/

/-- The count that a directive holds. -/
def count? (o : Options) (k : CountKey) : Option Nat :=
  match o.get? (.directive (.count k)) with
  | some (.count n) => some n
  | _ => none

theorem count?_put (o : Options) (k : CountKey) (n : Nat) :
    (o.put (.directive (.count k)) (.count n)).count? k = some n := by
  rw [count?, get?, put, Keyed.get?_put, if_pos rfl]

theorem count?_congr {o o' : Options} {k : CountKey}
    (h : o.get? (.directive (.count k)) = o'.get? (.directive (.count k))) :
    o.count? k = o'.count? k := by
  rw [count?, count?, h]

/-- How many records there may be at most. -/
def top? (o : Options) : Option Nat := o.count? .top

/-- How many records are passed over. -/
def skip? (o : Options) : Option Nat := o.count? .skip

/-- Sets a count, which may not be below zero. -/
def trySetCount (o : Options) (k : CountKey) (n : Int) : Except Error Options :=
  if n < 0 then .error (.negativeCount (Directive.count k).name n)
  else .ok (o.put (.directive (.count k)) (.count n.toNat))

/-- A natural is no count below zero. -/
theorem trySetCount_natCast (o : Options) (k : CountKey) (n : Nat) :
    o.trySetCount k n = .ok (o.put (.directive (.count k)) (.count n)) := by
  rw [trySetCount, if_neg (by omega), Int.toNat_natCast]

/-- Sets a count unless it is below zero. -/
def setCount (o : Options) (k : CountKey) (n : Int) : Options := o.orUnchanged (o.trySetCount k n)

theorem setCount_natCast (o : Options) (k : CountKey) (n : Nat) :
    o.setCount k n = o.put (.directive (.count k)) (.count n) := by
  rw [setCount, trySetCount_natCast, orUnchanged]

/-! ## Texts -/

/-- The text that a directive holds. -/
def text? (o : Options) (d : Directive) : Option String :=
  match o.get? (.directive d) with
  | some (.text s) => some s
  | _ => none

/-- The text of the sort order. -/
def orderBy? (o : Options) : Option String := o.text? (.text .orderBy)

/-- Sets a text. -/
def setText (o : Options) (k : TextKey) (s : String) : Options :=
  o.put (.directive (.text k)) (.text s)

/-- The items with commas between them. -/
def joinTexts (items : List String) : String := String.intercalate "," items

/-- Sets a text to items with commas between them. -/
def setTexts (o : Options) (k : TextKey) (items : List String) : Options :=
  o.setText k (joinTexts items)

/-- The order in which records are wanted. -/
def sortOrder (o : Options) : SortOrder :=
  match o.orderBy? with
  | some text => .read text
  | none => .empty

/-! ## The total count -/

/-- What the option for the total count is set to. -/
def allPages : String := "allpages"

/-- What the option for the total count is set to, if it is set. -/
def inlineCount? (o : Options) : Option String := o.text? .inlineCount

/-- Asks for the total count, or no longer asks for it. -/
def setInlineCount (o : Options) (wanted : Bool) : Options :=
  if wanted then o.put (.directive .inlineCount) (.text allPages) else o.clear .inlineCount

/-! ## The filter -/

/-- The filter that records have to pass. -/
def filter? (o : Options) : Option Filter :=
  match o.get? (.directive .filter) with
  | some (.filter f) => some f
  | _ => none

/-- Sets the filter. -/
def setFilter (o : Options) (f : Filter) : Options := o.put (.directive .filter) (.filter f)

/-- Sets the filter to the one that a text writes. -/
def trySetFilterText (o : Options) (text : String) : Except Error Options :=
  match Filter.read text with
  | .ok f => .ok (o.setFilter f)
  | .error e => .error (.invalidFilter e)

/-- Sets the filter to the one that a text writes, if it writes one. -/
def setFilterText (o : Options) (text : String) : Options := o.orUnchanged (o.trySetFilterText text)

/-! ## Custom options -/

/-- What a custom option is set to. -/
def custom? (o : Options) (name : String) : Option Value :=
  match o.get? (.custom name) with
  | some (.custom v) => some v
  | _ => none

/-- Sets a custom option, whose name may not be reserved. -/
def trySetCustom (o : Options) (name : String) (v : Value) : Except Error Options :=
  if isReserved name then .error (.reservedName name)
  else .ok (o.put (.custom name) (.custom v))

/-- Sets a custom option unless its name is reserved. -/
def setCustom (o : Options) (name : String) (v : Value) : Options :=
  o.orUnchanged (o.trySetCustom name v)

end Options

end RecordQuery
