/-!
# How a command ends

* `Outcome`: what a command wrote, and the number with which it ended.
* `CommandLine.failed`: the end of a command that failed, with a report of the error and its causes.
* `CommandLine.wrote`: the end of a command that wrote one line.
-/

namespace RecordQuery

/-- What a command wrote, and the number with which it ended. -/
structure Outcome where
  code : Nat
  stdout : String
  stderr : String
deriving DecidableEq, Repr

namespace CommandLine

/-- The text with each line after the first moved in. -/
def indent (margin : String) (text : String) : String :=
  String.intercalate ("\n" ++ margin) ((text.toList.splitOn '\n').map String.ofList)

/-- One cause of several, under its number. -/
def numberedCause (number : Nat) (cause : String) : String :=
  let digits := toString number
  String.ofList (List.replicate (5 - digits.length) ' ') ++ digits ++ ": " ++ indent "       " cause

/-- The causes of an error, the outermost first. A single one has no number. -/
def causesText : List String → String
  | [] => ""
  | [cause] => "\nCaused by:\n    " ++ indent "    " cause ++ "\n"
  | causes =>
    "\nCaused by:\n" ++
      String.join (causes.zipIdx.map fun (cause, number) => numberedCause number cause ++ "\n")

/-- The end of a command that failed after it had written `stdout`. -/
def failed (stdout message : String) (causes : List String) : Outcome :=
  ⟨1, stdout, "Error: " ++ message ++ "\n" ++ causesText causes⟩

/-- The end of a command that wrote a line. -/
def wrote (line : String) : Outcome := ⟨0, line ++ "\n", ""⟩

end CommandLine

end RecordQuery
