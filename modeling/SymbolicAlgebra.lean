import SymbolicAlgebra.Equation.Solve
import SymbolicAlgebra.Formula
import SymbolicAlgebra.Main
import SymbolicAlgebra.Operand.Session
import SymbolicAlgebra.Session
import SymbolicAlgebra.Simplify
import SymbolicAlgebra.Statement.Parser
import SymbolicAlgebra.Substitution
import SymbolicAlgebra.Proofs.ExactNumber
import SymbolicAlgebra.Proofs.Value
import SymbolicAlgebra.Proofs.Refusals
import SymbolicAlgebra.Proofs.Soundness.Sum
import SymbolicAlgebra.Proofs.Soundness
import SymbolicAlgebra.Proofs.DecidableExpr
import SymbolicAlgebra.Proofs.Solving
import SymbolicAlgebra.Proofs.NormalForm
import SymbolicAlgebra.Proofs.NumberEquality
import SymbolicAlgebra.Proofs.Rules
import SymbolicAlgebra.Proofs.NormalForm.Collection
import SymbolicAlgebra.Proofs.NormalForm.Sum
import SymbolicAlgebra.Proofs.NormalForm.Product
import SymbolicAlgebra.Proofs.NormalForm.FixedPoint
import SymbolicAlgebra.Proofs.NormalForm.RankKept
import SymbolicAlgebra.Proofs.Idempotence
import SymbolicAlgebra.Proofs.BinaryValue
import SymbolicAlgebra.Proofs.Sameness
import SymbolicAlgebra.Proofs.Shape
import SymbolicAlgebra.Proofs.Sorting
import SymbolicAlgebra.Proofs.WeighedOperands
import SymbolicAlgebra.Proofs.WeightOrder
import SymbolicAlgebra.Proofs.Rearrangement
import SymbolicAlgebra.Proofs.CanonicalForm
import SymbolicAlgebra.Proofs.CanonicalOrder
import SymbolicAlgebra.Proofs.Evaluation
import SymbolicAlgebra.Proofs.Affine
import SymbolicAlgebra.Proofs.Affine.Simplification
import SymbolicAlgebra.Proofs.Affine.Solving
import SymbolicAlgebra.Proofs.Alike
import SymbolicAlgebra.Proofs.Calls
import SymbolicAlgebra.Proofs.Polynomial
import SymbolicAlgebra.Proofs.Polynomial.Product
import SymbolicAlgebra.Proofs.Polynomial.Sum
import SymbolicAlgebra.Proofs.Representative
import SymbolicAlgebra.Proofs.Polynomial.Identity
import SymbolicAlgebra.Proofs.Grammar
import SymbolicAlgebra.Proofs.Grammar.Soundness
import SymbolicAlgebra.Proofs.Grammar.Completeness
import SymbolicAlgebra.Proofs.Grammar.EndOfInput
import SymbolicAlgebra.Proofs.Numerals
import SymbolicAlgebra.Proofs.Lexing
import SymbolicAlgebra.Proofs.Grammar.Acceptance
import SymbolicAlgebra.Proofs.RoundTrip
import SymbolicAlgebra.Proofs.Occurrences
import SymbolicAlgebra.Proofs.Refusals.Order
import SymbolicAlgebra.Proofs.SubstitutionPaths
import SymbolicAlgebra.Proofs.Exactness.Outcomes
import SymbolicAlgebra.Proofs.Collectible
import SymbolicAlgebra.Proofs.Collectible.Sum
import SymbolicAlgebra.Proofs.Collectible.Product
import SymbolicAlgebra.Proofs.Collectible.Simplification
import SymbolicAlgebra.Proofs.Answers
import SymbolicAlgebra.Proofs.TokenPlaces
import SymbolicAlgebra.Proofs.Plans
import SymbolicAlgebra.Proofs.Occurrences.Variables
import SymbolicAlgebra.Proofs.Renaming
import SymbolicAlgebra.Proofs.Renaming.Simplification
import SymbolicAlgebra.Proofs.FractionConversion
import SymbolicAlgebra.Proofs.Subtraction
import SymbolicAlgebra.Proofs.NumberTower
import SymbolicAlgebra.Proofs.NormalForm.Terms
import SymbolicAlgebra.Proofs.Calls.Results
import SymbolicAlgebra.Proofs.AlikeClass
import SymbolicAlgebra.Proofs.Tallies
import SymbolicAlgebra.Proofs.WritingOrder.Sum
import SymbolicAlgebra.Proofs.WritingOrder.Product
import SymbolicAlgebra.Proofs.WritingOrder.Steady
import SymbolicAlgebra.Proofs.WritingOrder.Opposite
import SymbolicAlgebra.Proofs.WritingOrder.Power
import SymbolicAlgebra.Proofs.WritingOrder.Simplification
import SymbolicAlgebra.Proofs.WritingOrder.Formulas
