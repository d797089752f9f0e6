import SymbolicAlgebra.CommandLine.Options
import SymbolicAlgebra.Session

/-!
# A run of the program

What the program shows and the code that it ends with, given its arguments, the settings of its
environment and its input. With a command it answers that one line; without one it answers the lines
of its input. An error that has no words of its own ends the run; what was shown before stays.
-/

namespace SymbolicAlgebra.CommandLine

/-- The name of the program. -/
def programName : String :=
  "mathengine"

/-- How the program is called. -/
def usage : String :=
  "usage: " ++ programName ++ " [-h] [-c COMMAND] [--precision PRECISION] [--exact] [-v]\n"

/-- What the options do. -/
def optionTexts : List String :=
  ["  -h, --help            show this help message and exit",
    "  -c COMMAND, --command COMMAND",
    "                        Evaluate one statement and exit",
    "  --precision PRECISION",
    "                        Float precision in bits",
    "  --exact               Read decimal literals as exact rationals",
    "  -v, --verbose         Log debug output"]

/-- The help text. -/
def helpText : String :=
  usage ++ "\nSymbolic algebra: simplify, substitute and solve.\n\noptions:\n" ++
    String.join (optionTexts.map (· ++ "\n"))

/-- The settings that the environment makes, where it makes them. -/
structure Environment where
  precision : Option String := none
  exactDecimals : Option String := none

namespace Environment

/-- The variable of the precision. -/
def precisionVariable : String :=
  "MATHENGINE_PRECISION"

/-- The variable of the reading of decimals. -/
def exactVariable : String :=
  "MATHENGINE_EXACT"

/-- The environment that a look-up of variables shows. -/
def ofLookup (value? : String → Option String) : Environment :=
  ⟨value? precisionVariable, value? exactVariable⟩

end Environment

/-- The outcome of a run: the code that it ends with or the error that ends it, what is shown, and
what is told about errors and the course of the work. -/
structure Ending where
  code : Except Error Nat
  output : String
  log : String

/-- The name under which a part of the library takes notes. -/
def scribeName : Scribe → String
  | .commandLine => "mathengine.cli"
  | .interpreter => "mathengine.lang.interpreter"
  | .solver => "mathengine.equation"

/-- A note as a line of the log. -/
def noteLine (n : Note) : String :=
  "[DEBUG] " ++ scribeName n.scribe ++ ": " ++ n.text ++ "\n"

/-- The settings that the environment and the options make together. -/
def Options.config (o : Options) (env : Environment) : Except Error Config := do
  let base ← Config.ofTexts env.precision env.exactDecimals
  let config ← match o.precision with
    | some p => Config.make p base.exactDecimals
    | none => .ok base
  return { config with exactDecimals := config.exactDecimals || o.exact }

/-- The notes on a run. -/
def Options.notes (o : Options) (config : Config) (input : String) : List Note :=
  if o.verbose then
    ⟨.commandLine, "Using " ++ config.describe⟩ ::
      match o.command with
      | some line => Session.notes config line
      | none => Session.transcriptNotes config (Session.inputLines input)
  else []

/-- What a run shows, with the code that it ends with: one where its command has no result. -/
def Options.answer (o : Options) (config : Config) (input : String) : Except Error Nat × String :=
  match o.command with
  | some line =>
    match Session.answer config line with
    | .ok a => (.ok (if a.isResult then 0 else 1), a.shown)
    | .error e => (.error e, "")
  | none =>
    let t := Session.transcript config (Session.inputLines input)
    (t.failure.elim (.ok 0) .error, t.shown)

/-- The end of a run that is called in a wrong way. -/
def misuse (message : String) : Ending :=
  ⟨.ok 2, "", message⟩

/-- A run of the program. -/
def run (arguments : List String) (env : Environment) (input : String) : Ending :=
  match Request.ofTexts arguments with
  | .error e => misuse (usage ++ programName ++ ": error: " ++ e.message ++ "\n")
  | .ok .help => ⟨.ok 0, helpText, ""⟩
  | .ok (.options o) =>
    match o.config env with
    | .error e => misuse (programName ++ ": " ++ e.message ++ "\n")
    | .ok config =>
      let (code, output) := o.answer config input
      ⟨code, output, String.join ((o.notes config input).map noteLine)⟩

end SymbolicAlgebra.CommandLine
