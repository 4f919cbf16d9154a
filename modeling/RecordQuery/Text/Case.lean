import RecordQuery.Text.CaseTable

/-!
# Lower case

* `Text.lower`: the lower case form of a text, character by character, except that a capital
  sigma at the end of a word becomes the final form ς.
* `Text.endsWord`: a place ends a word if a cased letter stands before it and none after it,
  case-ignorable marks left out of account.
-/

namespace RecordQuery.Text

/-- The first character that is not case-ignorable is a cased letter. -/
def reachesCased (text : List Char) : Bool :=
  match text.dropWhile isCaseIgnorable with
  | c :: _ => isCased c
  | [] => false

/-- A place ends a word if a cased letter stands before it and none after it. What stands before
is given nearest first. -/
def endsWord (before after : List Char) : Bool := reachesCased before && !reachesCased after

/-- The lower case form of a text that follows `before`, which is given nearest first. -/
def lowerFrom (before : List Char) : List Char → List Char
  | [] => []
  | c :: rest =>
    if c = 'Σ' then (if endsWord before rest then 'ς' else 'σ') :: lowerFrom (c :: before) rest
    else lowerOfChar c ++ lowerFrom (c :: before) rest

/-- The lower case form of a text. -/
def lower (text : List Char) : List Char := lowerFrom [] text

end RecordQuery.Text
