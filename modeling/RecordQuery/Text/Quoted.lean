/-!
# Quoted text

A text between two single quotes, in which each single quote is written twice.

* `Text.escape`: the text with every quote doubled.
* `Text.quoted`: the text between quotes.
-/

namespace RecordQuery.Text

/-- The text with every single quote written twice. -/
def escape : List Char → List Char
  | [] => []
  | c :: rest => if c = '\'' then '\'' :: '\'' :: escape rest else c :: escape rest

/-- The text between single quotes, its own quotes doubled. -/
def quoted (text : List Char) : List Char := '\'' :: (escape text ++ ['\''])

@[simp] theorem escape_append (s t : List Char) : escape (s ++ t) = escape s ++ escape t := by
  induction s with
  | nil => rfl
  | cons c rest ih => by_cases h : c = '\'' <;> simp [escape, h, ih]

end RecordQuery.Text
