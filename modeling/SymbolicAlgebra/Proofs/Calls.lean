import Mathlib.Data.Set.Finite.Lattice
import SymbolicAlgebra.Proofs.DecidableExpr
import SymbolicAlgebra.Proofs.Rules

/-!
# The calls of simplification

A rule consults the simplifier about expressions that come up on its way. It consults it about `x`
if it has no outcome where the simplifier has none for `x` alone (`Asks`). What a rule consults the
simplifier about is a finite list (`step_finitary`), and all of it has a smaller depth
(`depth_lt_of_asks`).

So a number of levels suffices unless as many calls of the simplifier are nested in the first one
(`run_within_eq_none_iff`). Together with the calls of the rules, and of the function that takes a
chain apart, they form a finite tree, whose depth is known beforehand (`simplify_terminates`).
-/

namespace SymbolicAlgebra.Simplify

open Bounded (Extends Settles)

variable {α β : Type}

/-! ### What a computation consults the simplifier about -/

/-- A computation that uses a simplifier, and consults it about the expressions of a list. It then
has an outcome just where the simplifier has one for each of them, and the outcome is that for the
simplifier without a bound. -/
structure Consults (F : (Expr → Bounded Expr) → Bounded α) (xs : List Expr) : Prop where
  agrees : ∀ simp, AllExtend simp unbounded → Extends (F simp) (F unbounded)
  isNone_iff : ∀ simp, AllExtend simp unbounded →
    ((F simp).run = none ↔ ∃ x ∈ xs, (simp x).run = none)

/-- A computation that consults the simplifier about finitely many expressions. -/
def Finitary (F : (Expr → Bounded Expr) → Bounded α) : Prop :=
  ∃ xs, Consults F xs

lemma finitary_ofExcept (out : Except Error α) : Finitary fun _ => Bounded.ofExcept out :=
  ⟨[], fun _ _ => .refl _, fun _ _ => by simp [Bounded.ofExcept]⟩

lemma finitary_pure (a : α) : Finitary fun _ => pure a :=
  finitary_ofExcept (.ok a)

lemma finitary_self (e : Expr) : Finitary fun simp => simp e :=
  ⟨[e], fun _ h => h e, fun _ _ => by simp⟩

/-- A sequence consults the simplifier about what its first part does, and then, unless this is
refused, about what its second part does. -/
lemma Finitary.bind {F : (Expr → Bounded Expr) → Bounded α}
    {G : (Expr → Bounded Expr) → α → Bounded β} (hF : Finitary F)
    (hG : ∀ a, Finitary fun simp => G simp a) : Finitary fun simp => F simp >>= G simp := by
  obtain ⟨xs, hxs⟩ := hF
  have hagrees (simp : Expr → Bounded Expr) (h : AllExtend simp unbounded) :
      Extends (F simp >>= G simp) (F unbounded >>= G unbounded) := by
    refine (hxs.agrees simp h).bind fun a => ?_
    obtain ⟨ys, hys⟩ := hG a
    exact hys.agrees simp h
  -- an outcome of the first part is the one that it has without a bound
  have hcases (simp : Expr → Bounded Expr) (h : AllExtend simp unbounded) :
      F simp = none ∨ F simp = F unbounded := by
    match hrun : (F simp).run with
    | none => exact .inl hrun
    | some out => exact .inr (hrun.trans (hxs.agrees simp h out hrun).symm)
  match hrun : (F unbounded).run with
  | none =>
    obtain ⟨x, -, hx⟩ := (hxs.isNone_iff unbounded fun _ => .refl _).1 hrun
    cases hx
  | some (.error err) =>
    refine ⟨xs, hagrees, fun simp h => ?_⟩
    rw [← hxs.isNone_iff simp h]
    rcases hcases simp h with hnone | hsome
    · rw [hnone]
      exact iff_of_true rfl rfl
    · rw [hsome, show F unbounded = some (.error err) from hrun]
      exact iff_of_false nofun nofun
  | some (.ok a) =>
    obtain ⟨ys, hys⟩ := hG a
    refine ⟨xs ++ ys, hagrees, fun simp h => ?_⟩
    simp only [List.mem_append, or_and_right, exists_or]
    rw [← hxs.isNone_iff simp h, ← hys.isNone_iff simp h]
    rcases hcases simp h with hnone | hsome
    · rw [hnone]
      exact iff_of_true rfl (.inl rfl)
    · rw [hsome, show F unbounded = some (.ok a) from hrun]
      exact (or_iff_right nofun).symm

/-! ### What the rules consult the simplifier about -/

lemma operands_leaf_finitary (c : Chain) (e : Expr) :
    Finitary fun simp => (do return c.operands (← simp e) : Bounded (List Expr)) := by
  apply (finitary_self e).bind
  intro r
  exact finitary_pure (c.operands r)

lemma operands_node_finitary {c : Chain} {l r : Expr} (hl : Finitary fun simp => operands simp c l)
    (hr : Finitary fun simp => operands simp c r) : Finitary fun simp =>
      (do return (← operands simp c l) ++ (← operands simp c r) : Bounded (List Expr)) := by
  apply hl.bind
  intro es
  apply hr.bind
  intro es'
  exact finitary_pure (es ++ es')

lemma operands_finitary (c : Chain) (e : Expr) : Finitary fun simp => operands simp c e := by
  induction e with
  | add l r ihl ihr =>
    cases c with
    | sum => exact operands_node_finitary ihl ihr
    | product => exact operands_leaf_finitary .product _
  | mul l r ihl ihr =>
    cases c with
    | sum => exact operands_leaf_finitary .sum _
    | product => exact operands_node_finitary ihl ihr
  | _ => cases c <;> exact operands_leaf_finitary _ _

lemma toTerm_finitary (t : LikeTerms) : Finitary fun simp => t.toTerm simp := by
  by_cases h : t.coefficient.isOne
  · simp only [LikeTerms.toTerm, if_pos h]
    exact finitary_pure t.term
  · simp only [LikeTerms.toTerm, if_neg h]
    exact finitary_self _

lemma gatherTerms_finitary (ts : List LikeTerms) (g : Gathered) :
    Finitary fun simp => gatherTerms simp ts g := by
  induction ts generalizing g with
  | nil => exact finitary_pure g
  | cons t ts ih =>
    by_cases h : t.coefficient.isZero
    · simp only [gatherTerms, if_pos h]
      exact ih g
    · simp only [gatherTerms, if_neg h]
      apply (toTerm_finitary t).bind
      intro r
      exact ih _

lemma sum_finitary (l r : Expr) : Finitary fun simp => sum simp l r := by
  apply (operands_finitary .sum (.add l r)).bind
  intro es
  apply (finitary_ofExcept (es.foldlM CollectedSum.add ⟨0, []⟩)).bind
  intro s
  apply (gatherTerms_finitary s.terms ⟨s.constant, []⟩).bind
  intro g
  exact finitary_pure g.toSum

lemma toFactor_finitary (f : LikeFactors) : Finitary fun simp => f.toFactor simp := by
  obtain ⟨key, base, exponents⟩ := f
  match exponents with
  | [p] =>
    apply (finitary_ofExcept (refuseLongConstant p)).bind
    intro _
    exact finitary_pure _
  | [] => exact finitary_self _
  | _ :: _ :: _ => exact finitary_self _

lemma gatherFactors_finitary (fs : List LikeFactors) (g : Gathered) :
    Finitary fun simp => gatherFactors simp fs g := by
  induction fs generalizing g with
  | nil => exact finitary_pure g
  | cons f fs ih =>
    apply (toFactor_finitary f).bind
    intro r
    exact ih _

lemma product_finitary (l r : Expr) : Finitary fun simp => product simp l r := by
  apply (operands_finitary .product (.mul l r)).bind
  intro es
  apply (finitary_ofExcept (collectFactors es ⟨1, []⟩)).bind
  intro out
  cases out with
  | zero c => exact finitary_pure (Expr.const c)
  | collected s =>
    apply (gatherFactors_finitary s.factors ⟨s.constant, []⟩).bind
    intro g
    apply (finitary_ofExcept g.refuseLong).bind
    intro _
    exact finitary_pure g.toProduct

lemma powerOf_finitary (b p : Expr) : Finitary fun simp => powerOf simp b p := by
  cases b with
  | pow b q =>
    apply (finitary_self (.mul p q)).bind
    intro r
    exact finitary_self (.pow b r)
  | const b =>
    cases p with
    | const p => exact finitary_ofExcept (constantPower b p)
    | _ => exact finitary_pure _
  | _ => exact finitary_pure _

lemma power_finitary (b p : Expr) : Finitary fun simp => power simp b p := by
  cases p with
  | const c =>
    by_cases hone : c.isOne
    · simp only [power, if_pos hone]
      exact finitary_pure b
    by_cases hzero : c.isZero
    · simp only [power, if_neg hone, if_pos hzero]
      exact finitary_pure (Expr.const 1)
    · simp only [power, if_neg hone, if_neg hzero]
      exact powerOf_finitary b (.const c)
  | _ => exact powerOf_finitary b _

lemma opposite_finitary (e : Expr) : Finitary fun simp => opposite simp e := by
  cases e with
  | add l r => exact finitary_self _
  | sub l r => exact finitary_self _
  | mul l r => exact finitary_self _
  | div n d => exact finitary_self _
  | _ => exact finitary_pure _

/-- One level of simplification consults the simplifier about finitely many expressions. -/
lemma step_finitary (e : Expr) : Finitary fun simp => step simp e := by
  cases e with
  | const c => exact finitary_pure (Expr.const c)
  | var x => exact finitary_pure (Expr.var x)
  | other m kind es => exact finitary_ofExcept (.error _)
  | add l r => exact sum_finitary l r
  | mul l r => exact product_finitary l r
  | sub l r =>
    apply (finitary_self l).bind
    intro lhs
    apply (finitary_self r).bind
    intro rhs
    apply (finitary_self (.neg rhs)).bind
    intro negated
    exact finitary_self (.add lhs negated)
  | div n d =>
    apply (finitary_self n).bind
    intro num
    apply (finitary_self d).bind
    intro den
    exact finitary_ofExcept (quotient num den)
  | pow b p =>
    apply (finitary_self b).bind
    intro base
    apply (finitary_self p).bind
    intro exponent
    exact power_finitary base exponent
  | log b a =>
    apply (finitary_self b).bind
    intro base
    apply (finitary_self a).bind
    intro argument
    exact finitary_pure (Expr.log base argument)
  | neg u =>
    apply (finitary_self u).bind
    intro r
    exact opposite_finitary r

/-- The simplifier without a bound, but without an outcome for one expression. -/
def unanswered (x e : Expr) : Bounded Expr :=
  if e = x then ExceptT.mk none else unbounded e

lemma unanswered_self (x : Expr) : (unanswered x x).run = none := by
  rw [unanswered, if_pos rfl]
  rfl

lemma unanswered_of_ne {x e : Expr} (h : e ≠ x) : unanswered x e = unbounded e :=
  if_neg h

lemma allExtend_unanswered (x : Expr) : AllExtend (unanswered x) unbounded := by
  intro e out hout
  by_cases h : e = x
  · rw [h, unanswered_self] at hout
    cases hout
  · rwa [unanswered_of_ne h] at hout

/-- Whether one level of the simplification of `e` comes upon `x`. -/
def Asks (e x : Expr) : Prop :=
  (step (unanswered x) e).run = none

/-- What a level asks for is what it consults the simplifier about. -/
lemma Consults.asks_iff {e x : Expr} {xs : List Expr} (h : Consults (fun simp => step simp e) xs) :
    Asks e x ↔ x ∈ xs := by
  rw [Asks, h.isNone_iff _ (allExtend_unanswered x)]
  constructor
  · rintro ⟨y, hy, hnone⟩
    by_cases hyx : y = x
    · exact hyx ▸ hy
    · rw [unanswered_of_ne hyx] at hnone
      cases hnone
  · intro hx
    exact ⟨x, hx, unanswered_self x⟩

/-- A level asks for finitely many expressions. -/
lemma finite_asks (e : Expr) : {x | Asks e x}.Finite := by
  obtain ⟨xs, hxs⟩ := step_finitary e
  refine (List.finite_toSet xs).subset fun x hx => ?_
  exact hxs.asks_iff.1 hx

/-- What is asked for has a smaller depth. -/
lemma depth_lt_of_asks {e x : Expr} (h : Asks e x) : depth x < depth e := by
  by_contra hge
  have hsettles : (step (unanswered x) e).Settles (Reduces e) := by
    apply step_settles
    intro y hy
    have hyx : y ≠ x := by
      rintro rfl
      exact hge hy
    rw [unanswered_of_ne hyx]
    exact Bounded.settles_ofExcept fun r hr => reduces_of_simplify hr
  obtain ⟨out, hout, -⟩ := hsettles
  rw [Asks, hout] at h
  cases h

/-- A number of levels does not suffice just where that many calls of the simplifier are nested in
the first one. -/
theorem run_within_eq_none_iff {n : Nat} {e : Expr} :
    (within n e).run = none ↔ ∃ xs : List Expr, xs.length = n ∧ List.IsChain Asks (e :: xs) := by
  induction n generalizing e with
  | zero =>
    refine iff_of_true rfl ⟨[], rfl, .singleton e⟩
  | succ n ih =>
    obtain ⟨ys, hys⟩ := step_finitary e
    show (step (within n) e).run = none ↔ _
    rw [hys.isNone_iff _ (within_extends_unbounded n)]
    constructor
    · rintro ⟨y, hy, hnone⟩
      obtain ⟨xs, rfl, hxs⟩ := ih.1 hnone
      exact ⟨y :: xs, rfl, .cons_cons (hys.asks_iff.2 hy) hxs⟩
    · rintro ⟨xs, hlen, hxs⟩
      match xs with
      | y :: xs =>
        obtain ⟨hy, hxs⟩ := List.isChain_cons_cons.1 hxs
        exact ⟨y, hys.asks_iff.1 hy, ih.2 ⟨xs, Nat.succ.inj hlen, hxs⟩⟩

/-! ### Calls -/

/-- A call that is made while an expression is simplified: of the simplifier, of the rule for the
kind of an expression, or of the function that takes a chain apart into simplified operands. -/
inductive Call where
  | simplify (e : Expr)
  | rule (e : Expr)
  | operands (c : Chain) (e : Expr)

namespace Call

/-- The calls that one call may make. The operands of a chain are taken from its parts, down to
those that are no such chains and are simplified. -/
inductive Makes : Call → Call → Prop where
  | rule (e : Expr) : Makes (.simplify e) (.rule e)
  | chain (c : Chain) (l r : Expr) : Makes (.rule (c.node l r)) (.operands c (c.node l r))
  | left (c : Chain) (l r : Expr) : Makes (.operands c (c.node l r)) (.operands c l)
  | right (c : Chain) (l r : Expr) : Makes (.operands c (c.node l r)) (.operands c r)
  | operand {c : Chain} {e : Expr} (h : c.operands e = [e]) : Makes (.operands c e) (.simplify e)
  | asked {e x : Expr} (h : Asks e x) : Makes (.rule e) (.simplify x)

/-- A bound on the number of calls that are nested in a call. -/
def bound : Call → Nat
  | .simplify e => 4 * depth e + 3
  | .rule e => 4 * depth e + 2
  | .operands c e => if c.operands e = [e] then 4 * depth e + 4 else 4 * depth e + 1

lemma bound_operands_le (c : Chain) (e : Expr) : (operands c e).bound ≤ 4 * depth e + 4 := by
  rw [bound]
  split <;> omega

lemma bound_operands_node (c : Chain) (l r : Expr) :
    (operands c (c.node l r)).bound = 4 * depth (c.node l r) + 1 :=
  if_neg (c.operands_node_ne l r _)

lemma bound_operands_lt {c : Chain} {l r e : Expr} (h : e.rank < (c.node l r).rank) :
    (operands c e).bound < (operands c (c.node l r)).bound := by
  have hlt := depth_lt_of_rank_lt h
  have hle := bound_operands_le c e
  rw [bound_operands_node]
  omega

lemma rank_lt_node (c : Chain) (l r : Expr) :
    l.rank < (c.node l r).rank ∧ r.rank < (c.node l r).rank := by
  cases c with
  | sum =>
    show l.rank < l.rank + r.rank + 1 ∧ r.rank < l.rank + r.rank + 1
    omega
  | product => exact ⟨Expr.rank_lt_mul_left l r, Expr.rank_lt_mul_right l r⟩

/-- The bound of a call is greater than that of any call that it makes. -/
lemma Makes.bound_lt {a b : Call} (h : Makes a b) : b.bound < a.bound := by
  cases h with
  | rule e => exact Nat.lt_succ_self _
  | chain c l r =>
    rw [bound_operands_node]
    exact Nat.lt_succ_self _
  | left c l r => exact bound_operands_lt (rank_lt_node c l r).1
  | right c l r => exact bound_operands_lt (rank_lt_node c l r).2
  | operand hops =>
    rw [bound, bound, if_pos hops]
    exact Nat.lt_succ_self _
  | asked hasks =>
    have hlt := depth_lt_of_asks hasks
    simp only [bound]
    omega

lemma length_le_bound {a : Call} {as : List Call} (h : List.IsChain Makes (a :: as)) :
    as.length ≤ a.bound := by
  induction as generalizing a with
  | nil => exact Nat.zero_le _
  | cons b as ih =>
    obtain ⟨hab, h⟩ := List.isChain_cons_cons.1 h
    have hlt := hab.bound_lt
    have hle := ih h
    rw [List.length_cons]
    omega

/-- A call makes finitely many calls. -/
lemma finite_makes (a : Call) : {b | Makes a b}.Finite := by
  cases a with
  | simplify e =>
    refine (Set.finite_singleton (rule e)).subset ?_
    rintro b (_ | _)
    rfl
  | rule e =>
    have hasked := (finite_asks e).image simplify
    refine (hasked.union (Set.toFinite {operands .sum e, operands .product e})).subset ?_
    intro b hb
    cases hb with
    | chain c l r => cases c <;> simp
    | @asked e x h => exact .inl ⟨x, h, rfl⟩
  | operands c e =>
    have hparts := (List.finite_toSet e.children).image (operands c)
    refine ((Set.finite_singleton (simplify e)).union hparts).subset ?_
    intro b hb
    cases hb with
    | left c l r => exact .inr ⟨l, by cases c <;> simp [Chain.node, Expr.children], rfl⟩
    | right c l r => exact .inr ⟨r, by cases c <;> simp [Chain.node, Expr.children], rfl⟩
    | operand hops => exact .inl rfl

/-- The calls below a call, each with those that lead to it, are finitely many. -/
lemma finite_chains (a : Call) : {as | List.IsChain Makes (a :: as)}.Finite := by
  induction hn : a.bound using Nat.strong_induction_on generalizing a with
  | h n ih =>
    subst hn
    have hchains : {as | List.IsChain Makes (a :: as)} ⊆
        {[]} ∪ ⋃ b ∈ {b | Makes a b}, List.cons b '' {as | List.IsChain Makes (b :: as)} := by
      intro as has
      cases as with
      | nil => exact .inl rfl
      | cons b as =>
        obtain ⟨hab, has⟩ := List.isChain_cons_cons.1 has
        exact .inr (Set.mem_biUnion hab ⟨as, has, rfl⟩)
    refine Set.Finite.subset ?_ hchains
    apply (Set.finite_singleton []).union
    apply (finite_makes a).biUnion
    intro b hb
    exact (ih b.bound (Makes.bound_lt hb) b rfl).image _

end Call

/-- Simplification terminates. Every number of levels above the depth of an expression suffices for
its outcome, which is a result or a refusal. No more calls are nested in its simplification than
four times the depth and three, and the tree of these calls is finite. -/
theorem simplify_terminates (e : Expr) :
    (∀ n, depth e < n → (within n e).run = some (SymbolicAlgebra.simplify e)) ∧
      (∀ as, List.IsChain Call.Makes (.simplify e :: as) → as.length ≤ 4 * depth e + 3) ∧
        {as | List.IsChain Call.Makes (.simplify e :: as)}.Finite := by
  refine ⟨fun n hn => ?_, fun as has => Call.length_le_bound has, Call.finite_chains _⟩
  obtain ⟨out, hout, -⟩ := within_settles hn
  rw [hout, simplify_eq_iff.2 ⟨n, hout⟩]

end SymbolicAlgebra.Simplify
