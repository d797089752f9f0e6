import SymbolicAlgebra.Expr.Basic

/-!
# Texts of expressions

`Expr.text` writes an expression for a reader of formulas: every operation between two operands
stands in parentheses. `Expr.describe` writes its construction: the name of each node with its named
parts. Both are refused when a constant is too long to write.
-/

namespace SymbolicAlgebra.Expr

/-- The text of an operation between two texts. -/
def operationText (l op r : String) : String :=
  "(" ++ l ++ " " ++ op ++ " " ++ r ++ ")"

mutual

/-- An expression as a formula. -/
def text : Expr → Except Error String
  | const c => c.text
  | var x => .ok x
  | add l r => do return operationText (← l.text) "+" (← r.text)
  | sub l r => do return operationText (← l.text) "-" (← r.text)
  | mul l r => do return operationText (← l.text) "*" (← r.text)
  | div n d => do return operationText (← n.text) "/" (← d.text)
  | pow b p => do return operationText (← b.text) "^" (← p.text)
  | log b a => do
    let base ← b.text
    let argument ← a.text
    return "Log_" ++ base ++ "(" ++ argument ++ ")"
  | neg e => do return "-(" ++ (← e.text) ++ ")"
  | other _ kind es => do return kind ++ "(" ++ ", ".intercalate (← textsOfList es) ++ ")"

/-- The texts of a list of expressions. -/
def textsOfList : List Expr → Except Error (List String)
  | [] => .ok []
  | e :: es => do
    let t ← e.text
    let ts ← textsOfList es
    return t :: ts

end

/-- The text of a construction with two named parts. -/
def constructionText (kind firstName first secondName second : String) : String :=
  kind ++ "(" ++ firstName ++ "=" ++ first ++ ", " ++ secondName ++ "=" ++ second ++ ")"

mutual

/-- An expression as its construction. -/
def describe : Expr → Except Error String
  | const c => do return "const(" ++ (← c.text) ++ ")"
  | var x => .ok ("var('" ++ x ++ "')")
  | add l r => do return constructionText "Add" "lhs" (← l.describe) "rhs" (← r.describe)
  | sub l r => do return constructionText "Sub" "lhs" (← l.describe) "rhs" (← r.describe)
  | mul l r => do return constructionText "Mul" "lhs" (← l.describe) "rhs" (← r.describe)
  | div n d => do
    return constructionText "Div" "numerator" (← n.describe) "denominator" (← d.describe)
  | pow b p => do return constructionText "Pow" "base" (← b.describe) "exponent" (← p.describe)
  | log b a => do return constructionText "Log" "base" (← b.describe) "argument" (← a.describe)
  | neg e => do return "Negate(value=" ++ (← e.describe) ++ ")"
  | other _ kind es => do return kind ++ "(" ++ ", ".intercalate (← describeList es) ++ ")"

/-- The constructions of a list of expressions. -/
def describeList : List Expr → Except Error (List String)
  | [] => .ok []
  | e :: es => do
    let t ← e.describe
    let ts ← describeList es
    return t :: ts

end

end SymbolicAlgebra.Expr
