import RecordQuery.Filter.Error
import RecordQuery.Text.Blank
import RecordQuery.Text.Quoted

/-!
# The tokens of a filter

* `Filter.Lexeme`: parentheses, commas, words and quoted texts.
* `Filter.Lexeme.chars`: how a lexeme is written.
* `Filter.Token`: a lexeme and its place.
* `Filter.tokenize`: the tokens of a text, or where a quoted text begins that does not end.

The text is read character by character; `Filter.Scanner` is what has been read so far.
-/

namespace RecordQuery.Filter

open Text (isBlank)

/-- The words of the language. -/
inductive Lexeme where
  | opening
  | closing
  | comma
  /-- a run of characters that are not blank and none of parentheses, comma and quote -/
  | word (letters : String)
  /-- a text between quotes, without them -/
  | quoted (text : String)
deriving DecidableEq, Repr

/-- How a lexeme is written. -/
def Lexeme.chars : Lexeme → List Char
  | .opening => ['(']
  | .closing => [')']
  | .comma => [',']
  | .word letters => letters.toList
  | .quoted text => Text.quoted text.toList

@[simp] theorem Lexeme.chars_word (letters : String) : (Lexeme.word letters).chars = letters.toList :=
  rfl

/-- A lexeme and the number of bytes before it. -/
structure Token where
  lexeme : Lexeme
  position : Nat
deriving DecidableEq, Repr

/-- How the token is written. -/
def Token.text (t : Token) : String := String.ofList t.lexeme.chars

/-- A character that a word may hold. -/
def isWordChar (c : Char) : Bool :=
  !isBlank c && c ≠ '(' && c ≠ ')' && c ≠ ',' && c ≠ '\''

/-- What is being read. Letters read so far are held latest first, with the place where their
token starts. -/
inductive Scanner.Mode where
  /-- nothing: the next character may start a token -/
  | gap
  /-- a word -/
  | word (start : Nat) (letters : List Char)
  /-- a quoted text -/
  | quoted (start : Nat) (letters : List Char)
  /-- a quoted text after a quote, which ends it unless another quote follows -/
  | quote (start : Nat) (letters : List Char)

/-- What has been read of a text. -/
structure Scanner where
  /-- how many bytes -/
  position : Nat
  /-- the finished tokens, latest first -/
  done : List Token
  mode : Scanner.Mode

namespace Scanner

/-- Nothing has been read. -/
def start : Scanner := ⟨0, [], .gap⟩

/-- Reads a character that may start a token. -/
def begin (position : Nat) (done : List Token) (c : Char) : Scanner :=
  let next := position + c.utf8Size
  if isBlank c then ⟨next, done, .gap⟩
  else if c = '(' then ⟨next, ⟨.opening, position⟩ :: done, .gap⟩
  else if c = ')' then ⟨next, ⟨.closing, position⟩ :: done, .gap⟩
  else if c = ',' then ⟨next, ⟨.comma, position⟩ :: done, .gap⟩
  else if c = '\'' then ⟨next, done, .quoted position []⟩
  else ⟨next, done, .word position [c]⟩

/-- The word whose letters are given latest first. -/
def wordToken (start : Nat) (letters : List Char) : Token :=
  ⟨.word (String.ofList letters.reverse), start⟩

/-- The quoted text whose characters are given latest first. -/
def quotedToken (start : Nat) (letters : List Char) : Token :=
  ⟨.quoted (String.ofList letters.reverse), start⟩

/-- Reads one character. -/
def step (s : Scanner) (c : Char) : Scanner :=
  let next := s.position + c.utf8Size
  match s.mode with
  | .gap => begin s.position s.done c
  | .word start letters =>
    if isWordChar c then ⟨next, s.done, .word start (c :: letters)⟩
    else begin s.position (wordToken start letters :: s.done) c
  | .quoted start letters =>
    if c = '\'' then ⟨next, s.done, .quote start letters⟩
    else ⟨next, s.done, .quoted start (c :: letters)⟩
  | .quote start letters =>
    if c = '\'' then ⟨next, s.done, .quoted start ('\'' :: letters)⟩
    else begin s.position (quotedToken start letters :: s.done) c

/-- The tokens when the text ends. -/
def finish (s : Scanner) : Except Error (List Token) :=
  match s.mode with
  | .gap => .ok s.done.reverse
  | .word start letters => .ok (wordToken start letters :: s.done).reverse
  | .quote start letters => .ok (quotedToken start letters :: s.done).reverse
  | .quoted start _ => .error (.unterminatedString start)

end Scanner

/-- The tokens of a text. -/
def tokenize (text : String) : Except Error (List Token) :=
  (text.toList.foldl Scanner.step Scanner.start).finish

end RecordQuery.Filter
