import RecordQuery.CommandLine.Report
import RecordQuery.Json.Reader
import RecordQuery.Text.Blank
import RecordQuery.Text.Utf8

/-!
# Streams of records

A stream holds a record in JSON on each line that is not blank.

* `CommandLine.lines`: the lines of a stream.
* `CommandLine.select`: the lines whose record a test accepts, up to the first that cannot be read.
* `CommandLine.selected`: what is written of them, and the end after a failure or without one.
-/

namespace RecordQuery.CommandLine

/-- The lines of a stream: the newline and one carriage return before it do not belong to a line,
and a newline at the end begins none. -/
def lines (bytes : List UInt8) : List (List UInt8) :=
  let pieces := bytes.splitOn 0x0A
  let ended := pieces.dropLast.map fun line =>
    if line.getLast? = some 0x0D then line.dropLast else line
  match pieces.getLast? with
  | none | some [] => ended
  | some rest => ended ++ [rest]

/-- Why the lines of a stream cannot be read to the end. -/
inductive Failure where
  /-- a line is not UTF-8 -/
  | notText
  /-- the line of this number, counted from 1, is not JSON -/
  | notJson (number : Nat) (line : List Char)
deriving DecidableEq, Repr

/-- The lines whose record a test accepts, counted from `number`, up to the first line that cannot
be read. Blank lines hold no record. -/
def select (accepts : Json → Bool) (number : Nat) : List (List UInt8) → List String × Option Failure
  | [] => ([], none)
  | line :: rest =>
    match Text.decodeStrict? line with
    | none => ([], some .notText)
    | some text =>
      if text.all Text.isBlank then select accepts (number + 1) rest
      else
        match Json.read? text with
        | none => ([], some (.notJson number text))
        | some record =>
          let (kept, failure) := select accepts (number + 1) rest
          (if accepts record then String.ofList text :: kept else kept, failure)

/-- What is written of the lines that passed, and the end after a failure or without one. The reason
why a line is no JSON is its cause, if `explain` has one. -/
def selected (explain : List Char → Option String) (result : List String × Option Failure) :
    Outcome :=
  let stdout := String.join (result.1.map (· ++ "\n"))
  match result.2 with
  | none => ⟨0, stdout, ""⟩
  | some .notText => failed stdout "could not read input" ["stream did not contain valid UTF-8"]
  | some (.notJson number line) =>
    failed stdout ("line " ++ toString number ++ " is not valid JSON") (explain line).toList

end RecordQuery.CommandLine
