import SymbolicAlgebra.Config
import SymbolicAlgebra.Operand.Function
import SymbolicAlgebra.Operand.Marked
import SymbolicAlgebra.Statement.Evaluate

/-!
# Settings and statements made of operands

Settings that are given as operands of any kind, and statements whose body and directive may be
something else than those that are read from text.
-/

namespace SymbolicAlgebra

/-! ### Settings -/

/-- The precision that an operand gives; a truth value is no integer. -/
def Operand.toPrecision : Operand → Except Error Int
  | integer p => .ok p
  | a => do throw (.precisionNotInteger (← a.describe))

/-- Settings as they are given. Only the precision is checked; the rest may be of any kind. -/
structure GivenConfig where
  precision : Nat
  exactDecimals : Operand
  prompt : Operand
  two_le_precision : 2 ≤ precision

namespace GivenConfig

/-- Settings as if they were given. -/
def ofConfig (config : Config) : GivenConfig :=
  ⟨config.precision, .truth config.exactDecimals, .text config.prompt, config.two_le_precision⟩

/-- The settings that operands give; what is not given is as in the default. -/
def ofOperands (precision exactDecimals prompt : Option Operand) : Except Error GivenConfig := do
  let p ← match precision with
    | some a => a.toPrecision
    | none => .ok defaultPrecision
  let given := ofConfig (← Config.make p false)
  return { given with
    exactDecimals := exactDecimals.getD given.exactDecimals
    prompt := prompt.getD given.prompt }

/-- The settings as a session takes them: decimals are exact where the setting counts as true. -/
def toConfig (given : GivenConfig) : Config :=
  { precision := given.precision, exactDecimals := given.exactDecimals.toTruth,
    two_le_precision := given.two_le_precision }

/-- The settings as their construction. -/
def describe (given : GivenConfig) : Except Error String := do
  return Config.construction given.precision (← given.exactDecimals.mentioned)

end GivenConfig

/-! ### Statements -/

/-- What to do with a body: a directive, nothing in particular, or something that is no
directive. -/
inductive Instruction where
  | none
  | directive (d : Directive)
  | unknown (text : String)

/-- An instruction with marks on its parts. -/
def Instruction.marked : Instruction → StateM Nat Instruction
  | directive (.substitute x t) => return directive (.substitute x (← t.marked))
  | i => return i

namespace Operand

/-- An outcome as an operand. -/
def ofOutcome : Outcome → Operand
  | .formula a => formula a
  | .equation a => equation a

/-- An operand as a message about a body mentions it, unless it is missing. -/
def mentionedBody : Operand → Except Error (Option String)
  | absent => .ok none
  | a => do return some (← a.mentioned)

/-- The body that an operand is, if it is one. -/
def toBody? : Operand → Option Body
  | expr e => some (.expr e)
  | equation a => some (.equation a)
  | _ => none

/-- The outcome of a statement whose parts are marked. -/
def evaluateMarked (body : Operand) (i : Instruction) : Except Error Operand :=
  match i, body.toBody? with
  | .unknown s, _ => .error (.unknownDirective s)
  | .none, some b => do return ofOutcome (← (Statement.mk b Option.none).evaluate)
  | .directive d, some b => do return ofOutcome (← (Statement.mk b (some d)).evaluate)
  | .none, none => do throw (.unknownStatement (← body.mentionedBody))
  | .directive (.solve _), none => .error (.fault .noSuchOperation)
  | .directive (.substitute x t), none => do return formula (← (← body.toFormula).substitute x t)

/-- The outcome of a statement whose body is an operand of any kind. Only bodies can be solved, and
what stands for a formula can be substituted into. -/
def evaluate (body : Operand) (i : Instruction) : Except Error Operand :=
  let (body, marks) := body.marked.run 0
  body.evaluateMarked (i.marked.run marks).1

end Operand

end SymbolicAlgebra
