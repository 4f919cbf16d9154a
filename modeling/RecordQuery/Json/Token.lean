import RecordQuery.Json.Number
import RecordQuery.Text.Hexadecimal

/-!
# The tokens of JSON text

* `Json.Lexeme`: brackets, braces, colons, commas, strings and the other scalars.
* `Json.tokenize?`: the tokens of a text, if it consists of tokens.

The text is read character by character; `Json.Scanner` is what has been read so far.
-/

namespace RecordQuery.Json

open Text (hexValue?)

/-- The words of JSON. -/
inductive Lexeme where
  | beginArray | endArray | beginObject | endObject | colon | comma
  | string (s : String)
  /-- a number, a truth value or null -/
  | scalar (value : Json)

/-- The scalar that a run of letters, digits, points and signs writes. -/
def scalarOf? (text : List Char) : Option Json :=
  if text = ['n', 'u', 'l', 'l'] then some .null
  else if text = ['t', 'r', 'u', 'e'] then some (.bool true)
  else if text = ['f', 'a', 'l', 's', 'e'] then some (.bool false)
  else (Number.read? text).map .number

/-! ## The scanner -/

/-- What is being read. Characters read so far are held latest first. -/
inductive Scanner.Mode where
  /-- nothing: the next character may start a token -/
  | gap
  /-- a scalar without quotes -/
  | bare (letters : List Char)
  /-- a string -/
  | string (letters : List Char)
  /-- a string after a backslash -/
  | escape (letters : List Char)
  /-- a string within the four digits after `\u`: the high surrogate before it, how many digits are
  still to come after the next one, and the value so far -/
  | hex (letters : List Char) (high : Option Nat) (more value : Nat)
  /-- a string after a high surrogate: a backslash follows -/
  | surrogate (letters : List Char) (high : Nat)
  /-- a string after a high surrogate and a backslash: the letter u follows -/
  | surrogateEscape (letters : List Char) (high : Nat)

/-- What has been read of a text. -/
structure Scanner where
  /-- the finished tokens, latest first -/
  done : List Lexeme
  mode : Scanner.Mode

namespace Scanner

/-- A character of a scalar without quotes. -/
def isBare (c : Char) : Bool := c.isAlphanum || c == '-' || c == '+' || c == '.'

/-- Reads a character that may start a token. -/
def begin? (done : List Lexeme) (c : Char) : Option Scanner :=
  match c with
  | ' ' | '\t' | '\n' | '\r' => some ⟨done, .gap⟩
  | '[' => some ⟨.beginArray :: done, .gap⟩
  | ']' => some ⟨.endArray :: done, .gap⟩
  | '\x7b' => some ⟨.beginObject :: done, .gap⟩
  | '\x7d' => some ⟨.endObject :: done, .gap⟩
  | ':' => some ⟨.colon :: done, .gap⟩
  | ',' => some ⟨.comma :: done, .gap⟩
  | '"' => some ⟨done, .string []⟩
  | _ => if isBare c then some ⟨done, .bare [c]⟩ else none

/-- The character that a letter after a backslash stands for. -/
def unescape? : Char → Option Char
  | '"' => some '"'
  | '\\' => some '\\'
  | '/' => some '/'
  | 'b' => some '\x08'
  | 'f' => some '\x0c'
  | 'n' => some '\n'
  | 'r' => some '\r'
  | 't' => some '\t'
  | _ => none

/-- Goes on after four digits: a high surrogate waits for a low one, the two together are one
character, and neither stands alone. -/
def codeUnit? (letters : List Char) (high : Option Nat) (n : Nat) : Option Mode :=
  let isLow := 0xDC00 ≤ n ∧ n < 0xE000
  match high with
  | some h =>
    if isLow then some (.string (Char.ofNat (0x10000 + (h - 0xD800) * 0x400 + (n - 0xDC00)) :: letters))
    else none
  | none =>
    if 0xD800 ≤ n ∧ n < 0xDC00 then some (.surrogate letters n)
    else if isLow then none
    else some (.string (Char.ofNat n :: letters))

/-- Reads one character. -/
def step? (s : Scanner) (c : Char) : Option Scanner :=
  match s.mode with
  | .gap => begin? s.done c
  | .bare letters =>
    if isBare c then some ⟨s.done, .bare (c :: letters)⟩
    else do begin? (.scalar (← scalarOf? letters.reverse) :: s.done) c
  | .string letters =>
    if c = '"' then some ⟨.string (String.ofList letters.reverse) :: s.done, .gap⟩
    else if c = '\\' then some ⟨s.done, .escape letters⟩
    else if c.toNat < 32 then none
    else some ⟨s.done, .string (c :: letters)⟩
  | .escape letters =>
    if c = 'u' then some ⟨s.done, .hex letters none 3 0⟩
    else (unescape? c).map fun x => ⟨s.done, .string (x :: letters)⟩
  | .hex letters high more value => do
    let n := 16 * value + (← hexValue? c)
    match more with
    | 0 => (codeUnit? letters high n).map fun mode => ⟨s.done, mode⟩
    | more + 1 => some ⟨s.done, .hex letters high more n⟩
  | .surrogate letters high => if c = '\\' then some ⟨s.done, .surrogateEscape letters high⟩ else none
  | .surrogateEscape letters high =>
    if c = 'u' then some ⟨s.done, .hex letters (some high) 3 0⟩ else none

/-- The tokens when the text ends. -/
def finish? (s : Scanner) : Option (List Lexeme) :=
  match s.mode with
  | .gap => some s.done.reverse
  | .bare letters => do some (.scalar (← scalarOf? letters.reverse) :: s.done).reverse
  | _ => none

end Scanner

/-- The tokens of a text. -/
def tokenize? (text : List Char) : Option (List Lexeme) := do
  (← text.foldlM Scanner.step? ⟨[], .gap⟩).finish?

end RecordQuery.Json
