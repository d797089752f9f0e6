import Mathlib.Logic.Relation
import SymbolicAlgebra.Proofs.WritingOrder.Product

/-!
# Steady expressions

Simplification does not always lead to what it leaves as it is, and it may round numbers. An
expression is steady if nothing of this happens while it is simplified (`Simplify.IsSteady`). Then
so are all the expressions that it is simplified by (`IsSteady.of_reaches`), and their simplified
forms are reduced forms (`IsSteady.isReducedForm`). A list of expressions that is closed under what
they ask for shows whether they are steady (`mem_of_reaches`, `isSteady_of_kept`).

A minus sign goes to the first factor of a product, whichever that is. The signs of two expressions
agree if they go to the same factors in both (`Simplify.SignsAgree`); so they do if each sign has
only one place to go to (`Simplify.signsAgree_of_placesSign`).
-/

namespace SymbolicAlgebra.Simplify

open SymbolicAlgebra.Expr

variable {a e e' r x y : Expr} {es : List Expr} {n : Nat}

/-- Whether an expression comes up when another one is simplified, in any number of levels. -/
def Reaches : Expr → Expr → Prop :=
  Relation.ReflTransGen Asks

/-- The opposite of an expression asks for the expression. -/
lemma asks_neg : Asks (.neg x) x := by
  have hnone : unanswered x x = ExceptT.mk none := if_pos rfl
  show (unanswered x x >>= fun r => opposite (unanswered x) r).run = none
  rw [hnone]
  rfl

/-- Whether the opposite of a simplified expression has the sign in one place, in whatever order its
factors are written: a product has a number other than minus one, or only factors that take a
sign. -/
def placesSign : Expr → Bool
  | .mul l r => (l.isConstant && !(l == .const (.integer (-1)))) ||
      (Chain.product.operands (.mul l r)).all fun f => f.isConstant || takesSign f
  | _ => true

/-- An expression that is simplified in readable forms that are simplified to themselves. -/
structure IsSteady (e : Expr) : Prop where
  kept {x y : Expr} : Reaches e x → simplify x = .ok y → y.IsReadable ∧ simplify y = .ok y

lemma IsSteady.of_reaches (h : IsSteady e) (hx : Reaches e x) : IsSteady x where
  kept hr := h.kept (hx.trans hr)

/-- A steady expression has a reduced form. -/
lemma IsSteady.isReducedForm (h : IsSteady e) (hr : simplify e = .ok r) : r.IsReducedForm := by
  obtain ⟨hread, hkept⟩ := h.kept .refl hr
  exact ⟨(normal_of_rank_eq hkept rfl).1, hread⟩

/-- Whether an expression is a sum or a multiple of one. -/
def isSumMultiple (e : Expr) : Bool :=
  match (splitCoefficient e).1 with
  | .add _ _ => true
  | _ => false

/-- Whether the opposite of a simplified summand is one summand again: its sign has one place, or
neither the summand nor what its opposite becomes is the multiple of a sum. -/
def HasOppositeTerm (t : Expr) : Prop :=
  placesSign t ∨
    isSumMultiple t = false ∧ ∀ u, simplify (.neg t) = .ok u → isSumMultiple u = false

/-- Whether the sign of the opposite of a simplified expression `y` has one place. If `y` is a sum,
the opposites of its summands are summands, as far as they come up when `a` is simplified. -/
structure PlacesSigns (a y : Expr) : Prop where
  sign : placesSign y
  terms : ∀ t ∈ Chain.sum.operands y, Reaches a (.neg t) → HasOppositeTerm t

/-- Whether minus signs go to the same places when two expressions are simplified. Wherever they
stand before expressions that are alike, the signs have one place each, or what is simplified has
the same parts in the same order. The summands of sums are compared with each other where their
opposites come up. -/
def SignsAgree (e e' : Expr) : Prop :=
  ∀ x x' y y', Reaches e (.neg x) → Reaches e' (.neg x') → x.Alike x' →
    simplify x = .ok y → simplify x' = .ok y' →
      PlacesSigns e y ∧ PlacesSigns e' y' ∨ List.Forall₂ Alike y.children y'.children

lemma IsSteady.placesSigns (h : IsSteady e)
    (hplaces : ∀ x y, Reaches e (.neg x) → simplify x = .ok y → placesSign y)
    (hx : Reaches e (.neg x)) (hy : simplify x = .ok y) : PlacesSigns e y := by
  have hreduced := (h.of_reaches (hx.tail asks_neg)).isReducedForm hy
  refine ⟨hplaces x y hx hy, fun t ht hreached => .inl ?_⟩
  exact hplaces t t hreached (simplify_of_normal (hreduced.of_mem_operands ht).normal)

/-- Signs that have one place each agree, whatever the two expressions are. -/
theorem signsAgree_of_placesSign (he : IsSteady e) (he' : IsSteady e')
    (h : ∀ x y, Reaches e (.neg x) → simplify x = .ok y → placesSign y)
    (h' : ∀ x y, Reaches e' (.neg x) → simplify x = .ok y → placesSign y) : SignsAgree e e' :=
  fun _ _ _ _ hx hx' _ hy hy' => .inl ⟨he.placesSigns h hx hy, he'.placesSigns h' hx' hy'⟩

/-- The results of the calls for steady expressions of a depth below a bound, among those that come
up when the expression `a` is simplified. -/
structure SteadyCalls (a : Expr) (n : Nat) (x y : Expr) : Prop where
  depth_lt : depth x < n
  reached : Reaches a x
  steady : IsSteady x
  simplified : simplify x = .ok y

namespace SteadyCalls

lemma isReducedForm (h : SteadyCalls a n x y) : y.IsReducedForm :=
  h.steady.isReducedForm h.simplified

/-- The result of a call is yielded by calls of smaller depth. -/
lemma yields_of_depth_le {m : Nat} (h : SteadyCalls a n x y) (hm : depth x ≤ m) :
    Yields (SteadyCalls a m) x y := by
  refine yields_of_simplify
    (fun hx hy => ⟨?_, h.reached.tail hx, h.steady.of_reaches (.single hx), hy⟩) h.simplified
  exact (depth_lt_of_asks hx).trans_le hm

lemma yields (h : SteadyCalls a n x y) : Yields (SteadyCalls a n) x y :=
  h.yields_of_depth_le (Nat.le_of_lt h.depth_lt)

/-- A reduced form is the result of a call for itself. -/
lemma eq_of_normal (h : SteadyCalls a n x y) (hn : x.Normal) : y = x :=
  Except.ok.inj (h.simplified.symm.trans (simplify_of_normal hn))

end SteadyCalls

/-! ### Steadiness can be checked -/

instance decidableIsReadable : DecidablePred IsReadable
  | .const c => inferInstanceAs (Decidable (c.isExact = true))
  | .var x => inferInstanceAs (Decidable (x.length = 1))
  | .add l r | .sub l r | .mul l r | .div l r | .pow l r | .log l r =>
    @instDecidableAnd _ _ (decidableIsReadable l) (decidableIsReadable r)
  | .neg e => decidableIsReadable e
  | .other _ _ _ => .isFalse id

/-- Whether what an expression is simplified to is readable and left as it is. -/
def isKept (x : Expr) : Bool :=
  (simplify x).toOption.all fun y => y.IsReadable && simplify y = .ok y

/-- What comes up when an expression of a list is simplified stands in the list, if this asks for
nothing else. -/
lemma mem_of_reaches (hclosed : ∀ x ∈ es, (step (answering fun y => ∃ z ∈ es, z = y) x).run.isSome)
    (he : e ∈ es) (hx : Reaches e x) : x ∈ es := by
  induction hx with
  | refl => exact he
  | tail _ hasks ih =>
    obtain ⟨z, hz, rfl⟩ := isSome_step_answering_iff.1 (hclosed _ ih) _ hasks
    exact hz

/-- An expression is steady if whatever comes up when it is simplified can be seen to be kept. -/
lemma isSteady_of_kept (h : ∀ x, Reaches e x → isKept x) : IsSteady e := by
  constructor
  intro x y hx hy
  have hkept := h x hx
  rw [isKept, hy] at hkept
  simpa [Except.toOption] using hkept

end SymbolicAlgebra.Simplify
