import SymbolicAlgebra.BigFloat.Literal
import SymbolicAlgebra.Number.Basic
import SymbolicAlgebra.Text.Quoted

/-!
# Settings

A `Config` says how decimals are read and what prompt is shown. Its precision is two bits at least,
by its type; `Config.make` refuses a smaller one.
-/

namespace SymbolicAlgebra

/-- What is shown before a line is read, unless something else is asked for. -/
def defaultPrompt : String :=
  "MathEngine >>> "

/-- The settings of a session. -/
structure Config where
  /-- The precision, in bits, of the floating point numbers that decimals are read as. -/
  precision : Nat := defaultPrecision
  /-- Whether decimals are read as exact rationals instead. -/
  exactDecimals : Bool := false
  /-- What is shown before a line is read. -/
  prompt : String := defaultPrompt
  two_le_precision : 2 ≤ precision := by decide

namespace Config

instance : Inhabited Config := ⟨{}⟩

/-- The settings with numbers of the size of 64 bits. -/
def lowPrecision : Config :=
  { precision := 53 }

/-- The settings with numbers of 256 bits. -/
def highPrecision : Config :=
  { precision := 256 }

/-- The settings with the given precision, which may be too low. -/
def make (precision : Int) (exactDecimals : Bool)
    (prompt : String := defaultPrompt) : Except Error Config := do
  if h : 2 ≤ precision then
    return { precision := precision.toNat, exactDecimals, prompt, two_le_precision := by omega }
  else throw (.precisionTooLow (← integerText precision))

/-- The texts that switch a setting on. -/
def yesTexts : List String :=
  ["1", "true", "yes"]

/-- Whether a text switches a setting on; blanks around it and letter case do not count. -/
def isYes (s : String) : Bool :=
  String.ofList ((trimBlanks s.toList).map Char.toLower) ∈ yesTexts

/-- The precision that a text asks for; an empty text asks for the default. -/
def readPrecision (s : String) : Except Error Int :=
  if s = "" then .ok defaultPrecision
  else
    match readInteger? s.toList with
    | some p => .ok p
    | none => .error (.precisionUnreadable (quoted s))

/-- The settings that two texts from outside ask for, where they are given. -/
def ofTexts (precision exactDecimals : Option String) : Except Error Config := do
  make (← readPrecision (precision.getD "")) (isYes (exactDecimals.getD ""))

/-- The number that a numeral stands for: an integer if it has no point. -/
def readNumeral (config : Config) (numeral : List Char) : Except Error Number := do
  if '.' ∈ numeral then
    if config.exactDecimals then return .rational (← readFraction numeral)
    else
      return .float (← BigFloat.read config.precision (String.ofList numeral)) config.precision
  else
    match readNatural? numeral with
    | some n => return .integer n
    | none => throw (.fault .wrongValue)

/-- Settings as their construction, from the text of how decimals are read. -/
def construction (precision : Nat) (exactDecimals : String) : String :=
  "Config(precision=" ++ toString precision ++ ", exact_decimals=" ++ exactDecimals ++ ")"

/-- The settings as their construction. -/
def describe (config : Config) : String :=
  construction config.precision (if config.exactDecimals then "True" else "False")

end Config

end SymbolicAlgebra
