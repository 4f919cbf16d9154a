import RecordQuery.CommandLine.Stream
import RecordQuery.Error
import RecordQuery.Filter.Evaluation
import RecordQuery.Filter.Printer
import RecordQuery.Options.Query

/-!
# Commands

* `Command`: write a filter in its own text, keep the records of a stream that pass a filter, or
  write options as a query string.
* `Command.ofArguments?`: the command that arguments give.
* `Command.run`: what a command writes and how it ends, from the variables and the bytes it reads.

A report on text that is no JSON ends with the reason. `Json.read?` has none, so reasons are a parameter
here; without them the report ends where the reason would follow.
-/

namespace RecordQuery

/-- What records are read from: bytes, or a file that could not be opened and why. -/
inductive CommandLine.Source where
  | bytes (content : List UInt8)
  | unavailable (path : String) (reason : String)

/-- What the caller wants. -/
inductive Command where
  /-- write a filter in its own text -/
  | parse (filter : String)
  /-- keep the records that pass a filter, of a file or of the standard input -/
  | test (filter : String) (file : Option String) (allowMissing : Bool)
  /-- write options as a query string -/
  | options (json : String) (encoded : Bool)
deriving DecidableEq, Repr

namespace Command

open CommandLine

/-- The arguments after the name of a command, sorted into flags, the file and the others. After
`--` there are only others. -/
structure Arguments where
  flags : List String := []
  file : Option String := none
  others : List String := []

/-- Sorts the arguments. -/
def Arguments.sort : List String → Option Arguments
  | [] => some {}
  | "--" :: rest => some { others := rest }
  | "--file" :: path :: rest => do
    let a ← sort rest
    if a.file.isNone then some { a with file := some path } else none
  | arg :: rest => do
    let a ← sort rest
    let letters := arg.toList
    if "--file=".toList.isPrefixOf letters then
      if a.file.isNone then some { a with file := some (String.ofList (letters.drop 7)) } else none
    else if letters.head? = some '-' ∧ letters ≠ ['-'] then some { a with flags := arg :: a.flags }
    else some { a with others := arg :: a.others }

/-- The command that arguments give. -/
def ofArguments? : List String → Option Command
  | name :: rest => do
    let a ← Arguments.sort rest
    match name, a.others, a.flags, a.file with
    | "parse", [filter], [], none => some (.parse filter)
    | "test", [filter], [], file => some (.test filter file false)
    | "test", [filter], ["--allow-missing"], file => some (.test filter file true)
    | "options", [json], [], none => some (.options json false)
    | "options", [json], ["--encoded"], none => some (.options json true)
    | _, _, _, _ => none
  | [] => none

/-- How a command is called. -/
def usage : String :=
  "usage: parse FILTER | test FILTER [--file PATH] [--allow-missing] | options JSON [--encoded]"

/-- The end of a command whose filter is none. -/
def filterFailed (filter : String) (cause : Filter.Error) : Outcome :=
  let error := Error.filter cause
  failed "" ("could not parse filter '" ++ filter ++ "'") [error.message, error.cause]

/-- Writes the query string of the options of a JSON object. -/
def runOptions (explain : List Char → Option String) (json : String) (encoded : Bool) : Outcome :=
  match Json.read? json.toList with
  | none => failed "" "options are not valid JSON" (explain json.toList).toList
  | some (.object fields) =>
    let options := Options.ofJson (.object fields)
    wrote (if encoded then options.encodedQueryString else options.queryString)
  | some _ => failed "" "options must be a JSON object" []

/-- Writes the lines of a source whose records pass a filter. -/
def runTest (settings : Settings) (explain : List Char → Option String) (filter : String)
    (allowMissing : Bool) (source : Source) : Outcome :=
  match Filter.read filter settings.maxDepth with
  | .error e => filterFailed filter e
  | .ok f =>
    match source with
    | .unavailable path reason => failed "" ("could not open " ++ path) [reason]
    | .bytes content =>
      let strict := settings.strict && !allowMissing
      selected explain (select (f.test · strict) 1 (lines content))

/-- Runs a command under settings. -/
def runWith (settings : Settings) (explain : List Char → Option String) (source : Source) :
    Command → Outcome
  | .parse filter =>
    match Filter.read filter settings.maxDepth with
    | .ok f => wrote f.text
    | .error e => filterFailed filter e
  | .test filter _ allowMissing => runTest settings explain filter allowMissing source
  | .options json encoded => runOptions explain json encoded

/-- Runs a command. The settings are read first, then the filter, then the source. `explain` says why
a text is no JSON, where there is something to say. -/
def run (lookup : String → Option String) (source : Source) (command : Command)
    (explain : List Char → Option String := fun _ => none) : Outcome :=
  match Settings.load lookup with
  | .error e =>
    let error := Error.setting e
    failed "" error.message [error.cause]
  | .ok settings => command.runWith settings explain source

end Command

end RecordQuery
