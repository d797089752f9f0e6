import SymbolicAlgebra.CommandLine.Run

/-!
# The program

Input and output around `CommandLine.run`: a run with a command, or one that only gives help or
refuses its arguments, is shown when it is over, and a session is shown line by line.
-/

namespace SymbolicAlgebra.CommandLine

/-- The environment of the process. -/
def readEnvironment : IO Environment := do
  return ⟨← IO.getEnv Environment.precisionVariable, ← IO.getEnv Environment.exactVariable⟩

/-- An error that ends the process. -/
def fail (e : Error) : IO UInt32 := do
  IO.eprintln (programName ++ ": " ++ e.message)
  return 1

/-- Notes shown if they are wanted. -/
def showNotes (o : Options) (notes : List Note) : IO Unit := do
  if o.verbose then notes.forM fun n => IO.eprint (noteLine n)

/-- A session with the reader of the screen. -/
partial def converse (o : Options) (config : Config) (input : IO.FS.Stream) : IO UInt32 := do
  IO.print config.prompt
  (← IO.getStdout).flush
  let line ← input.getLine
  if line.isEmpty then
    IO.println ""
    return 0
  let text := String.ofList (trimBlanks line.toList)
  match Session.reply config text with
  | .error e =>
    showNotes o (Session.notes config text)
    fail e
  | .ok .silence => converse o config input
  | .ok .leave => return 0
  | .ok (.answer a) =>
    showNotes o (Session.notes config text)
    IO.print a.shown
    converse o config input

/-- A run that is shown when it is over. -/
def showRun (arguments : List String) (env : Environment) : IO UInt32 := do
  let ending := run arguments env ""
  IO.eprint ending.log
  IO.print ending.output
  match ending.code with
  | .ok code => return code.toUInt32
  | .error e => fail e

/-- A run of the program, in the way that its arguments ask for. -/
def start (arguments : List String) : IO UInt32 := do
  let env ← readEnvironment
  match Request.ofTexts arguments with
  | .ok (.options o) =>
    match o.command, o.config env with
    | none, .ok config =>
      showNotes o [⟨.commandLine, "Using " ++ config.describe⟩]
      converse o config (← IO.getStdin)
    | _, _ => showRun arguments env
  | _ => showRun arguments env

end SymbolicAlgebra.CommandLine

/-- The program. -/
def main (arguments : List String) : IO UInt32 :=
  SymbolicAlgebra.CommandLine.start arguments
