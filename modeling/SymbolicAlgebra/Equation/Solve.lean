import SymbolicAlgebra.Equation.Basic
import SymbolicAlgebra.Equation.Inverse

/-!
# Solving for an unknown that occurs once

`solve` brings an equation into the form `difference = 0`, finds the path to the unknown and undoes
the operations on it. The unknown must occur at most once on each side and once in the difference.
What was found on the way is noted; a note is refused with the rest when it is too long to write.
-/

namespace SymbolicAlgebra.Equation

/-- An equation where the unknown occurs twice or more on one side is refused. -/
def refuseRepeated (x : String) (side : Expr) : Except Error Unit := do
  if 1 < side.countOccurrences x then throw (.unknownRepeated x (← side.text))

/-- The simplified difference of the sides. -/
def difference (a : Equation) : Except Error Expr := do
  let lhs ← simplify a.lhs
  let rhs ← simplify a.rhs
  simplify (.add lhs (.neg rhs))

/-- The note on the form in which an equation is solved. -/
def normalizedNote (a : Equation) (d : Expr) : Except Error String := do
  return "Normalized " ++ (← a.text) ++ " to " ++ (← d.text) ++ " = 0"

/-- The note on the plan, the outermost step first. -/
def planNote (x : String) (plan : List Inverse) : String :=
  let names := plan.reverse.map fun i => "'" ++ i.name ++ "'"
  "Solving for '" ++ x ++ "' with [" ++ ", ".intercalate names ++ "]"

/-- The difference of the sides of an equation in which the unknown occurs at most once on each
side, and the note on it. -/
def normalize (x : String) (a : Equation) : Except Error (Expr × String) := do
  refuseRepeated x a.lhs
  refuseRepeated x a.rhs
  let d ← a.difference
  return (d, ← normalizedNote a d)

/-- The plan for an unknown that occurs once in the difference. -/
def plan (x : String) (a : Equation) (d : Expr) : Except Error (List Inverse) := do
  let count := d.countOccurrences x
  if count = 0 then throw (.unknownAbsent x (← a.text))
  if 1 < count then throw (.unknownRepeatedIn x count (← d.text))
  match ← planFor x d with
  | some steps => return steps
  | none => throw (.unknownLost x (← d.text))

/-- The expression that the unknown equals, as the steps leave it. -/
def solution (x : String) (a : Equation) : Except Error Expr := do
  let (d, _) ← normalize x a
  replay x (← plan x a d) d

/-- The canonical expression that the unknown equals. -/
def solve (x : String) (a : Equation) : Except Error Expr := do
  SymbolicAlgebra.canonical (← solution x a)

/-- The notes taken while an equation is solved, as far as that goes. -/
def solvingNotes (x : String) (a : Equation) : List String :=
  match normalize x a with
  | .error _ => []
  | .ok (d, note) =>
    match plan x a d with
    | .error _ => [note]
    | .ok steps => [note, planNote x steps]

end SymbolicAlgebra.Equation
