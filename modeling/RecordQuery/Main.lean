import RecordQuery.CommandLine.Command

/-!
# The program

Reads the arguments, the variables and the records, runs the command and writes what it says.
-/

open RecordQuery

/-- Why a file could not be opened. -/
def openFailure : IO.Error → String
  | .noFileOrDirectory .. => "No such file or directory (os error 2)"
  | e => toString e

/-- All bytes of a stream. -/
partial def readAll (stream : IO.FS.Stream) (bytes : ByteArray := .empty) : IO ByteArray := do
  let more ← stream.read 65536
  if more.isEmpty then return bytes else readAll stream (bytes ++ more)

/-- What the records of a command are read from. -/
def sourceOf : Command → IO CommandLine.Source
  | .test _ (some path) _ => do
    try return .bytes (← IO.FS.readBinFile path).toList
    catch e => return .unavailable path (openFailure e)
  | .test _ none _ => do return .bytes (← readAll (← IO.getStdin)).toList
  | _ => return .bytes []

def main (arguments : List String) : IO UInt32 := do
  match Command.ofArguments? arguments with
  | none =>
    (← IO.getStderr).putStrLn Command.usage
    return 2
  | some command =>
    let strict ← IO.getEnv Settings.strictVariable
    let depth ← IO.getEnv Settings.depthVariable
    let lookup := fun name =>
      if name = Settings.strictVariable then strict
      else if name = Settings.depthVariable then depth
      else none
    let outcome := command.run lookup (← sourceOf command)
    (← IO.getStdout).putStr outcome.stdout
    (← IO.getStderr).putStr outcome.stderr
    return outcome.code.toUInt32
