import RecordQuery.Filter.Basic
import RecordQuery.Filter.Token
import RecordQuery.Path

/-!
# Reading filters

The grammar, over tokens:

    filter    = term, then any number of: connective term
    term      = "(" filter ")" | condition
    condition = property comparison value
              | "substringof" "(" value "," property ")"
              | ("startswith" | "endswith") "(" property "," value ")"

The connectives of one level agree. A value is a quoted text or a word, a word before `(` that
names a text function starts a call, and parentheses around terms nest at most to a limit.

The tokens are read one by one. `Filter.Reader` holds the levels that are open and what stands next;
`Filter.Reader.step` reads a token and `Filter.Reader.finish` ends the text.

* `Filter.ofTokens`: the filter that tokens write.
* `Filter.read`: the filter that a text writes, or why it writes none.
-/

namespace RecordQuery.Filter

/-- The terms of a level before the one that has to follow: none yet, or some, latest first, with
the connective between them. -/
inductive Before where
  | nothing
  | terms (connective : Connective) (latestFirst : List Filter)

/-- The terms of a level of which the latest is finished. -/
inductive Level where
  | single (f : Filter)
  | joined (connective : Connective) (latestFirst : List Filter)

/-- A level with one more term. -/
def Before.finish (f : Filter) : Before → Level
  | .nothing => .single f
  | .terms connective fs => .joined connective (f :: fs)

/-- The filter that a level writes. -/
def Level.filter : Level → Filter
  | .single f => f
  | .joined connective fs => .group (some connective) fs.reverse

/-- What has been read of a condition. -/
inductive Part where
  /-- a word that names a text function: a call if a parenthesis follows, or else a property -/
  | name (f : TextFunction)
  /-- a property, a comparison follows -/
  | property (property : String)
  /-- a property and a comparison, a value follows -/
  | comparison (property : String) (c : Comparison)
  /-- the start of a call, the first argument follows -/
  | call (f : TextFunction)
  /-- the value searched for, a comma follows -/
  | needle (value : Value)
  /-- the value searched for and a comma, a property follows -/
  | needleComma (value : Value)
  /-- the property of a call, a comma follows -/
  | subject (f : TextFunction) (property : String)
  /-- the property of a call and a comma, a value follows -/
  | subjectComma (f : TextFunction) (property : String)
  /-- all of a call but the closing parenthesis -/
  | arguments (c : Condition)

/-- Where on the innermost level the reader stands. -/
inductive Place where
  /-- a term follows -/
  | term (before : Before)
  /-- within a condition -/
  | condition (before : Before) (part : Part)
  /-- after a term: a connective follows, or the level ends -/
  | after (level : Level)

/-- What has been read of a filter. -/
structure Reader where
  /-- the levels whose closing parenthesis is still to come, innermost first -/
  outer : List Before
  place : Place

namespace Reader

/-- Nothing has been read. -/
def start : Reader := ⟨[], .term .nothing⟩

/-- The token cannot stand where it stands. -/
def unexpected {α : Type} (t : Token) : Except Error α := .error (.unexpectedToken t.position t.text)

/-- A word that stands for a property. -/
def property (position : Nat) (word : String) : Except Error String :=
  if isPropertyPath word then .ok word else .error (.invalidProperty position word)

/-- A token that stands for a property. -/
def propertyOf (t : Token) : Except Error String :=
  match t.lexeme with
  | .word w => property t.position w
  | _ => unexpected t

/-- A token that stands for a value. -/
def valueOf (t : Token) : Except Error Value :=
  match t.lexeme with
  | .quoted s => .ok (.text s)
  | .word w => .ok (.ofWord w)
  | _ => unexpected t

/-- A token that stands for a comparison. -/
def comparisonOf (t : Token) : Except Error Comparison :=
  match t.lexeme with
  | .word w =>
    match Comparison.ofWord? w with
    | some c => .ok c
    | none => .error (.unknownOperator t.position w)
  | _ => unexpected t

/-- A token that has to be a certain one. -/
def expect (l : Lexeme) (t : Token) : Except Error Unit :=
  if t.lexeme = l then .ok () else unexpected t

/-- Reads the first token of a term. -/
def stepTerm (limit : Nat) (outer : List Before) (before : Before) (t : Token) :
    Except Error Reader :=
  match t.lexeme with
  | .opening =>
    if outer.length + 1 ≤ limit then .ok ⟨before :: outer, .term .nothing⟩
    else .error (.tooDeep limit)
  | .word w =>
    match TextFunction.ofWord? w with
    | some f => .ok ⟨outer, .condition before (.name f)⟩
    | none => do return ⟨outer, .condition before (.property (← property t.position w))⟩
  | _ => unexpected t

/-- Reads a token within a condition: the next part, or the condition if it is the last one. -/
def stepPart (part : Part) (t : Token) : Except Error (Part ⊕ Condition) :=
  match part with
  | .name f =>
    if t.lexeme = .opening then .ok (.inl (.call f))
    else do return .inl (.comparison f.word (← comparisonOf t))
  | .property p => do return .inl (.comparison p (← comparisonOf t))
  | .comparison p c => do return .inr ⟨p, .comparison c, ← valueOf t⟩
  | .call .contains => do return .inl (.needle (← valueOf t))
  | .call f => do return .inl (.subject f (← propertyOf t))
  | .needle v => do expect .comma t; return .inl (.needleComma v)
  | .needleComma v => do return .inl (.arguments ⟨← propertyOf t, .function .contains, v⟩)
  | .subject f p => do expect .comma t; return .inl (.subjectComma f p)
  | .subjectComma f p => do return .inl (.arguments ⟨p, .function f, ← valueOf t⟩)
  | .arguments c => do expect .closing t; return .inr c

/-- Reads the token after a term. -/
def stepAfter (outer : List Before) (level : Level) (t : Token) : Except Error Reader :=
  match t.lexeme with
  | .word w =>
    match Connective.ofWord? w, level with
    | none, _ => unexpected t
    | some c, .single f => .ok ⟨outer, .term (.terms c [f])⟩
    | some c, .joined c' fs =>
      if c = c' then .ok ⟨outer, .term (.terms c fs)⟩ else .error (.mixedConnectives t.position)
  | .closing =>
    match outer with
    | [] => unexpected t
    | before :: outer => .ok ⟨outer, .after (before.finish level.filter)⟩
  | _ => unexpected t

/-- Reads one token. -/
def step (limit : Nat) (r : Reader) (t : Token) : Except Error Reader :=
  match r.place with
  | .term before => stepTerm limit r.outer before t
  | .condition before part => do
    match ← stepPart part t with
    | .inl next => return ⟨r.outer, .condition before next⟩
    | .inr c => return ⟨r.outer, .after (before.finish (.leaf c))⟩
  | .after level => stepAfter r.outer level t

/-- The filter when the text ends. -/
def finish (r : Reader) : Except Error Filter :=
  match r.outer, r.place with
  | [], .after level => .ok level.filter
  | _, _ => .error .unexpectedEnd

end Reader

/-- The filter that tokens write, with parentheses nested at most to the limit. -/
def ofTokens (limit : Nat) (tokens : List Token) : Except Error Filter :=
  if tokens.isEmpty then .error .empty
  else do (← tokens.foldlM (Reader.step limit) Reader.start).finish

/-- How deep parentheses nest if nothing else is said. -/
def defaultLimit : Nat := 64

/-- The filter that a text writes, or why it writes none. -/
def read (text : String) (limit : Nat := defaultLimit) : Except Error Filter := do
  ofTokens limit (← tokenize text)

end RecordQuery.Filter
