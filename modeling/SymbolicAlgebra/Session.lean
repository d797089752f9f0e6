import SymbolicAlgebra.Report
import SymbolicAlgebra.Statement.Evaluate
import SymbolicAlgebra.Statement.Parser

/-!
# Sessions

A session answers lines of input, each on its own. `execute` gives the outcome of a line, `answer`
what is shown for it, and `transcript` what is shown while lines are read one after the other. A
refusal that belongs to the library is an answer like any other; one without words of its own ends
the session. Notes on the course of the work are kept apart.
-/

namespace SymbolicAlgebra

/-- The parts of the library that take notes. -/
inductive Scribe where
  | commandLine
  | interpreter
  | solver
deriving DecidableEq, Repr

/-- A note on the course of the work. -/
structure Note where
  scribe : Scribe
  text : String
deriving DecidableEq, Repr

namespace Session

/-- The note on how a line was read. -/
def parsedNote (line : String) (s : Statement) : Except Error String := do
  return "Parsed " ++ quoted line ++ " as " ++ (← s.describe)

/-- The statement of a line, and the note on it. A note that is too long to write is refused with
the rest. -/
def read (config : Config) (line : String) : Except Error (Statement × String) := do
  let s ← Statement.parse config line
  return (s, ← parsedNote line s)

/-- The outcome of a line. -/
def execute (config : Config) (line : String) : Except Error Outcome := do
  let (s, _) ← read config line
  s.evaluate

/-- The notes taken while a statement is evaluated. -/
def evaluationNotes (s : Statement) : List Note :=
  match s.directive with
  | some (.solve x) => (s.body.toEquation.solvingNotes x).map (⟨.solver, ·⟩)
  | _ => []

/-- The notes taken while a line is executed. -/
def notes (config : Config) (line : String) : List Note :=
  match read config line with
  | .ok (s, note) => ⟨.interpreter, note⟩ :: evaluationNotes s
  | .error _ => []

/-- What is shown before an answer. -/
def answerMark : String :=
  " |> "

/-- The answer to a line, with whether it is a result. -/
structure Answer where
  isResult : Bool
  text : String
deriving DecidableEq, Repr

/-- An answer as it is shown. -/
def Answer.shown (a : Answer) : String :=
  answerMark ++ a.text ++ "\n"

/-- The answer to a line: its outcome or what is told about its refusal. -/
def answer (config : Config) (line : String) : Except Error Answer :=
  match execute config line with
  | .ok outcome => do return ⟨true, ← outcome.text⟩
  | .error e => if e.isReported then .ok ⟨false, e.message⟩ else .error e

/-! ### Reading line after line -/

/-- The lines that end a session. -/
def endingLines : List String :=
  ["exit", "quit"]

/-- Whether a line ends a session; letter case does not count. -/
def isEnding (line : String) : Bool :=
  String.ofList (line.toList.map Char.toLower) ∈ endingLines

/-- The lines of an input; the last one need not be closed. -/
def inputLines (input : String) : List String :=
  let lines := input.splitOn "\n"
  if lines.getLast? = some "" then lines.dropLast else lines

/-- What a session does with a line: nothing, leave, or answer. -/
inductive Reply where
  | silence
  | leave
  | answer (a : Answer)
deriving DecidableEq, Repr

/-- The reply to a line; blanks around it do not count. -/
def reply (config : Config) (line : String) : Except Error Reply :=
  let line := String.ofList (trimBlanks line.toList)
  if line = "" then .ok .silence
  else if isEnding line then .ok .leave
  else do return .answer (← answer config line)

/-- What is shown while lines are read, and the error that ends the session, if one does. -/
structure Transcript where
  shown : String
  failure : Option Error

/-- A transcript with a text before it. -/
def Transcript.after (s : String) (t : Transcript) : Transcript :=
  { t with shown := s ++ t.shown }

/-- The transcript of a session. The end of the input closes the line that the prompt is on. -/
def transcript (config : Config) : List String → Transcript
  | [] => ⟨config.prompt ++ "\n", none⟩
  | line :: lines =>
    match reply config line with
    | .ok .silence => (transcript config lines).after config.prompt
    | .ok .leave => ⟨config.prompt, none⟩
    | .ok (.answer a) => (transcript config lines).after (config.prompt ++ a.shown)
    | .error e => ⟨config.prompt, some e⟩

/-- The notes taken while lines are read, those on the line that ends the session included. -/
def transcriptNotes (config : Config) : List String → List Note
  | [] => []
  | line :: lines =>
    let taken := notes config (String.ofList (trimBlanks line.toList))
    match reply config line with
    | .ok .silence => transcriptNotes config lines
    | .ok .leave => []
    | .ok (.answer _) => taken ++ transcriptNotes config lines
    | .error _ => taken

end Session

end SymbolicAlgebra
