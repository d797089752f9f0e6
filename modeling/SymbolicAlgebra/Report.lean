import SymbolicAlgebra.Error
import SymbolicAlgebra.Text.LowerCase
import SymbolicAlgebra.Text.Quoted

/-!
# What is told about a refusal

A `Report` is a refusal as the outside sees it: its category, its message if it has one, and the
facts that go with it. `Error.report` tells an `Error`; the functions before it assemble the message
of each category from its parts, and `Report.ofArguments` does so from a list of loose parts.
-/

namespace SymbolicAlgebra

/-- The families of refusals. -/
inductive Category where
  | general
  | divisionByZero
  | domain
  | equationMismatch
  | notYetImplemented
  | inconsistency
  | expression
  | unsupportedExpression
  | language
  | lexical
  | grammar
  | evaluation
  | type
  | value
  | zeroDivision
  | overflow
  | memory
  | attribute
deriving DecidableEq, Repr

/-- A loose part of a report. -/
inductive Argument where
  | text (s : String)
  | number (n : Int)
  | absent
deriving DecidableEq, Repr

namespace Argument

/-- The text of a part. -/
def shown : Argument → String
  | text s => s
  | number n => toString n
  | absent => "None"

/-- The text of a part inside a list of parts. -/
def listed : Argument → String
  | text s => quoted s
  | a => a.shown

/-- A part that adds something: not absent, not empty and not zero. -/
def isTelling : Argument → Bool
  | text s => s ≠ ""
  | number n => n ≠ 0
  | absent => false

/-- A part that is a text. -/
def isText : Argument → Bool
  | text _ => true
  | _ => false

/-- A part that may be missing. -/
def ofOption : Option String → Argument
  | some s => text s
  | none => absent

end Argument

/-- The facts that go with a report. -/
inductive Details where
  | none
  | unknown (name : Argument)
  | kind (kind suggestion : Argument)
  | place (position : Int) (suggestion : Argument)
deriving DecidableEq, Repr

/-- A refusal as it is told. -/
structure Report where
  category : Category
  message : Option String
  details : Details := .none
deriving DecidableEq, Repr

/-! ### Suggestions -/

/-- The names of the kinds of the closed set, as suggestions list them. -/
def supportedKinds : List String :=
  ["const", "var", "add", "sub", "mul", "div", "pow", "log", "neg"]

/-- The advice for particular kinds. -/
def kindAdvice : List (String × String) :=
  [("log", "Logarithms are kept symbolic; avoid mixing them into sums or products " ++
      "that need a canonical order."),
    ("sqrt", "Use x ^ 0.5 or x ^ (1/2) for square roots."),
    ("exp", "Use a constant base raised to a power instead."),
    ("sin", "Trigonometric functions are not supported."),
    ("cos", "Trigonometric functions are not supported."),
    ("tan", "Trigonometric functions are not supported.")]

/-- The advice for a kind of expression that is not supported; letter case does not count. -/
def suggestionForKind (kind : String) : Option String :=
  match kindAdvice.lookup (lowerCase kind) with
  | some advice => some advice
  | none =>
    if lowerCase kind ∈ supportedKinds then none
    else some ("Supported kinds are: " ++ ", ".intercalate supportedKinds ++ ".")

/-- The advice for particular characters. -/
def charAdvice : List (Char × String) :=
  [('×', "Use '*' for multiplication."),
    ('·', "Use '*' for multiplication."),
    ('÷', "Use '/' for division."),
    ('−', "Use '-' for subtraction."),
    ('[', "Use '(' and ')' for grouping."),
    (']', "Use '(' and ')' for grouping."),
    ('\x7b', "Use '(' and ')' for grouping."),
    ('\x7d', "Use '(' and ')' for grouping."),
    (':', "Use '@' to solve or substitute, e.g. 2 * x = 4 @ x."),
    ('²', "Use '^' for powers, e.g. x ^ 2."),
    ('³', "Use '^' for powers, e.g. x ^ 3."),
    ('%', "Modulo is not supported."),
    ('!', "Factorials are not supported.")]

/-- The advice for a character that cannot be read. -/
def suggestionForChar (c : Char) : Option String :=
  charAdvice.lookup c

/-! ### Reports from their parts -/

namespace Report

/-- A report that has only a message. -/
def plain (category : Category) (message : String) : Report :=
  ⟨category, some message, .none⟩

/-- The line that carries a suggestion, if there is one to tell. -/
def suggestionLine (suggestion : Argument) : String :=
  if suggestion.isTelling then "\n  Suggestion: " ++ suggestion.shown else ""

/-- The unknown does not occur in an equation. -/
def mismatch (name : Argument) (equation : Argument) : Report :=
  let place := if equation = .absent then "" else " " ++ equation.shown
  ⟨.equationMismatch,
    some ("Variable '" ++ name.shown ++ "' does not appear in the equation" ++ place),
    .unknown name⟩

/-- An expression that cannot be treated. -/
def expression (message kind suggestion : Argument) : Report :=
  ⟨.expression, some (message.shown ++ suggestionLine suggestion), .kind kind suggestion⟩

/-- An expression of a kind that is not supported. -/
def unsupported (kind : String) (context : Argument) : Report :=
  let suggestion := Argument.ofOption (suggestionForKind kind)
  let place := if context.isTelling then " in " ++ context.shown else ""
  ⟨.unsupportedExpression,
    some ("Unsupported expression kind: '" ++ kind ++ "'" ++ place ++ suggestionLine suggestion),
    .kind (.text kind) suggestion⟩

/-- A character that cannot be read: the statement is shown with a caret under the character. -/
def lexical (message : Argument) (statement : Argument) (position : Int)
    (rejected : Option Char) : Report :=
  let suggestion := Argument.ofOption (rejected.bind suggestionForChar)
  let caret := String.ofList (List.replicate position.toNat ' ') ++ "^"
  ⟨.lexical,
    some ("\n | " ++ statement.shown ++ "\n   " ++ caret ++ "\nLexer Error: " ++ message.shown ++
      suggestionLine suggestion),
    .place position suggestion⟩

/-- A message with the token or node that it is about, if one is known. -/
def located (category : Category) (title noun : String) (message place : Argument) : Report :=
  let tail := if place = .absent then "" else ",\n  at " ++ noun ++ " " ++ place.shown
  plain category (title ++ " Error: " ++ message.shown ++ tail)

/-- A token that does not fit the grammar. -/
def grammar (message token : Argument) : Report :=
  located .grammar "Parser" "token" message token

/-- A statement that cannot be evaluated. -/
def evaluation (message node : Argument) : Report :=
  located .evaluation "Interpreter" "node" message node

/-- A refusal without words. -/
def ofFault : Fault → Report
  | .wrongType => ⟨.type, none, .none⟩
  | .wrongValue => ⟨.value, none, .none⟩
  | .zeroDivision => ⟨.zeroDivision, none, .none⟩
  | .overflow => ⟨.overflow, none, .none⟩
  | .outOfMemory => ⟨.memory, none, .none⟩
  | .noSuchOperation => ⟨.attribute, none, .none⟩

/-- The message of a category that takes any number of parts. -/
def joined : List Argument → String
  | [] => ""
  | [a] => a.shown
  | as => "(" ++ ", ".intercalate (as.map Argument.listed) ++ ")"

/-- The character of a statement at a position, if the position lies inside it. -/
def charAt? (statement : Argument) (position : Int) : Except Fault (Option Char) :=
  if position < 0 then .ok none
  else
    match statement with
    | .text s => .ok (s.toList[position.toNat]?)
    | _ => .error .wrongType

/-- A report of a category from loose parts. Parts of the wrong number or kind make a report of
their own. -/
def ofArguments (category : Category) (parts : List Argument) : Report :=
  match category, parts with
  | .equationMismatch, [name] => mismatch name .absent
  | .equationMismatch, [name, equation] => mismatch name equation
  | .expression, [message] => expression message .absent .absent
  | .expression, [message, kind] => expression message kind .absent
  | .expression, [message, kind, suggestion] =>
    if suggestion.isTelling && !message.isText then ofFault .wrongType
    else expression message kind suggestion
  | .unsupportedExpression, [.text kind] => unsupported kind .absent
  | .unsupportedExpression, [.text kind, context] => unsupported kind context
  | .unsupportedExpression, [_] => ofFault .noSuchOperation
  | .unsupportedExpression, [_, _] => ofFault .noSuchOperation
  | .lexical, [message, statement, .number position] =>
    match charAt? statement position with
    | .ok rejected => lexical message statement position rejected
    | .error fault => ofFault fault
  | .grammar, [message] => grammar message .absent
  | .grammar, [message, token] => grammar message token
  | .evaluation, [message] => evaluation message .absent
  | .evaluation, [message, node] => evaluation message node
  | .equationMismatch, _ => ofFault .wrongType
  | .expression, _ => ofFault .wrongType
  | .unsupportedExpression, _ => ofFault .wrongType
  | .lexical, _ => ofFault .wrongType
  | .grammar, _ => ofFault .wrongType
  | .evaluation, _ => ofFault .wrongType
  | _, _ => plain category (joined parts)

end Report

/-! ### The report of an error -/

namespace Error

/-- How an error is told. -/
def report : Error → Report
  | divisionByZero dividend => .plain .divisionByZero ("Division of " ++ dividend ++ " by zero")
  | zeroDenominator numerator =>
    .plain .divisionByZero ("Rational " ++ numerator ++ "/0 has a zero denominator")
  | zeroToNegativePower exponent =>
    .plain .divisionByZero ("Zero raised to the negative power " ++ exponent)
  | notReal base exponent =>
    .plain .domain (base ++ " ^ " ++ exponent ++ " is not a real number")
  | unsupported kind task => .unsupported kind (.text task.name)
  | unknownAbsent unknown equation => .mismatch (.text unknown) (.text equation)
  | unknownRepeated unknown side =>
    .plain .notYetImplemented
      ("Cannot solve for '" ++ unknown ++ "': it appears more than once in " ++ side)
  | unknownRepeatedIn unknown count difference =>
    .plain .notYetImplemented
      ("Cannot solve for '" ++ unknown ++ "': it appears " ++ toString count ++ " times in " ++
        difference)
  | unknownLost unknown difference =>
    .plain .inconsistency
      ("Variable '" ++ unknown ++ "' was counted but not found in " ++ difference)
  | stepMismatch step node =>
    .plain .inconsistency ("Step " ++ step ++ " does not match node " ++ node)
  | replayMissed node unknown =>
    .plain .inconsistency ("Replay ended at " ++ node ++ " instead of '" ++ unknown ++ "'")
  | lexical cause statement position =>
    .lexical (.text cause.message) (.text statement) position (statement.toList[position]?)
  | grammar cause token => .grammar (.text cause.message) (.text token)
  | unknownDirective directive => .evaluation (.text "Unknown directive") (.text directive)
  | unknownStatement body => .evaluation (.text "Cannot evaluate statement") (.ofOption body)
  | notALetter quoted => .plain .value ("Variable name must be a single letter, got " ++ quoted)
  | notAName type => .plain .type ("Variable name must be a string, got " ++ type)
  | notAnExpression type => .plain .type ("Cannot convert " ++ type ++ " to Expr")
  | notANumber type => .plain .type ("Cannot convert " ++ type ++ " to Number")
  | notAnInteger type => .plain .type ("Expected int, got " ++ type)
  | notAnIntegerExponent type => .plain .type ("powi expects an int, got " ++ type)
  | notFinite number => .plain .value ("Cannot convert " ++ number ++ " to a fraction")
  | notConstant formula => .plain .value (formula ++ " is not a constant")
  | precisionNotInteger shown =>
    .plain .value ("precision must be an integer number of bits, got " ++ shown)
  | precisionTooLow precision =>
    .plain .value ("precision must be at least 2 bits, got " ++ precision)
  | precisionUnreadable quoted =>
    .plain .value ("MATHENGINE_PRECISION must be an integer, got " ++ quoted)
  | fault f => .ofFault f

/-- The wording of an error; a fault has none. -/
def message (e : Error) : String :=
  e.report.message.getD ""

/-- An error of the library's own, which a session reports and survives. The others are about
operands and settings, and end it. -/
def isReported (e : Error) : Bool :=
  match e.report.category with
  | .type | .value | .zeroDivision | .overflow | .memory | .attribute => false
  | _ => true

end Error

end SymbolicAlgebra
