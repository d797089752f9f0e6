import SymbolicAlgebra.Proofs.WritingOrder.Opposite
import SymbolicAlgebra.Proofs.WritingOrder.Power

/-!
# Simplification of expressions that are alike

Each rule makes something alike of expressions that are alike, if the calls for it agree
(`Yields.alike`). So the calls for steady expressions agree, by induction on the depth, where their
signs do (`agree_steadyCalls`). Steady expressions that are alike then have simplified forms that
are alike (`alike_of_simplify`).
-/

namespace SymbolicAlgebra.Simplify

open SymbolicAlgebra.Expr

variable {a b : Expr} {c : Chain} {e e' l l' p q r r' s s' : Expr} {es es' : List Expr} {n n' : Nat}

/-- Chains of operands that are alike. -/
lemma ChainResult.alike {S S' : Expr → Expr → Prop} (hS : Agree S S') (h : ChainResult S c es r)
    (h' : ChainResult S' c es' r') (hes : ∀ e ∈ es, e.IsReducedForm)
    (hes' : ∀ e ∈ es', e.IsReducedForm) (halike : AlikeLists es es') : r.Alike r' := by
  cases c with
  | sum => exact SumResult.alike hS h h' hes hes' (amountAt_sumLabel_of_alikeLists halike hes hes')
  | product =>
    exact ProductResult.alike hS h h' (fun e he => (hes e he).readable)
      (fun e he => (hes' e he).readable) halike

lemma isReducedForm_of_mem_flatMap {rs : List Expr} (h : List.Forall₂ (SteadyCalls a n) es rs) :
    ∀ e ∈ rs.flatMap c.operands, e.IsReducedForm := by
  intro e he
  obtain ⟨r, hr, he⟩ := List.mem_flatMap.1 he
  have hr := forall_mem_of_forall₂ h (fun _ _ hcall => hcall.isReducedForm) r hr
  exact hr.of_mem_operands he

/-- Chains that are alike. -/
lemma Yields.alike_node (hS : Agree (SteadyCalls a n) (SteadyCalls b n'))
    (halike : (c.node l r).Alike (c.node l' r')) (h : Yields (SteadyCalls a n) (c.node l r) s)
    (h' : Yields (SteadyCalls b n') (c.node l' r') s') : s.Alike s' := by
  obtain ⟨rs, hrs, h⟩ := h.of_node
  obtain ⟨rs', hrs', h'⟩ := h'.of_node
  have hresults := hS.alikeLists (halike.operands c) hrs hrs'
  exact h.alike hS h' (isReducedForm_of_mem_flatMap hrs) (isReducedForm_of_mem_flatMap hrs')
    (alikeLists_flatMap_operands hresults c)

/-- The rules make something alike of expressions that are alike, if these come up where the signs
agree. -/
theorem Yields.alike (hS : Agree (SteadyCalls a n) (SteadyCalls b n')) (hsigns : SignsAgree a b)
    (halike : e.Alike e') (he : Reaches a e) (he' : Reaches b e') (hr : r.IsReadable)
    (hr' : r'.IsReadable) (h : Yields (SteadyCalls a n) e r)
    (h' : Yields (SteadyCalls b n') e' r') : r.Alike r' := by
  cases e with
  | const k =>
    obtain ⟨k', rfl, -⟩ := halike.eq_const
    rw [h.of_const, h'.of_const]
    exact halike
  | var x =>
    obtain rfl := halike.eq_var
    rw [h.of_var, h'.of_var]
    exact halike
  | add l m =>
    obtain ⟨l', m', rfl⟩ := halike.eq_node (c := .sum)
    exact alike_node (c := .sum) hS halike h h'
  | mul l m =>
    obtain ⟨l', m', rfl⟩ := halike.eq_node (c := .product)
    exact alike_node (c := .product) hS halike h h'
  | sub l m =>
    obtain ⟨l', m', rfl, hl, hm⟩ := halike.eq_sub
    obtain ⟨x, y, z, hx, hy, hz, h⟩ := h.of_sub
    obtain ⟨x', y', z', hx', hy', hz', h'⟩ := h'.of_sub
    have hz := hS.alike hz hz' (.neg (hS.alike hy hy' hm))
    exact hS.alike h h' (.node .sum (hS.alike hx hx' hl) hz)
  | div m d =>
    obtain ⟨m', d', rfl, hm, hd⟩ := halike.eq_div
    obtain ⟨x, y, hx, hy, h⟩ := h.of_div
    obtain ⟨x', y', hx', hy', h'⟩ := h'.of_div
    exact quotient_alike (hS.alike hx hx' hm) (hS.alike hy hy' hd) h h' (hS.left hx) (hS.left hy)
  | pow b p =>
    obtain ⟨b', p', rfl, hb, hp⟩ := halike.eq_pow
    obtain ⟨x, y, hx, hy, h⟩ := h.of_pow
    obtain ⟨x', y', hx', hy', h'⟩ := h'.of_pow
    exact h.alike hS (hS.alike hx hx' hb) (hS.alike hy hy' hp) h' (hS.left hx) (hS.left hy) hr hr'
  | log b a =>
    obtain ⟨b', a', rfl, hb, ha⟩ := halike.eq_log
    obtain ⟨x, y, hx, hy, rfl⟩ := h.of_log
    obtain ⟨x', y', hx', hy', rfl⟩ := h'.of_log
    exact .log (hS.alike hx hx' hb) (hS.alike hy hy' ha)
  | neg u =>
    obtain ⟨u', rfl, hu⟩ := halike.eq_neg
    obtain ⟨x, hx, h⟩ := h.of_neg
    obtain ⟨x', hx', h'⟩ := h'.of_neg
    have hsame := hsigns _ _ _ _ he he' hu hx.simplified hx'.simplified
    exact h.alike hS (hS.alike hx hx' hu) hx.isReducedForm hx'.isReducedForm hsame h'
  | other m k us => exact absurd h Yields.not_other

lemma agree_of_alike
    (h : ∀ {x y x' y'}, SteadyCalls a n x y → SteadyCalls b n' x' y' → x.Alike x' → y.Alike y') :
    Agree (SteadyCalls a n) (SteadyCalls b n') where
  left h := h.isReducedForm.readable
  right h := h.isReducedForm.readable
  alike := h

/-- The results for steady expressions agree, where the signs do. -/
theorem agree_steadyCalls (hsigns : SignsAgree a b) (n n' : Nat) :
    Agree (SteadyCalls a n) (SteadyCalls b n') := by
  induction n with
  | zero => exact agree_of_alike fun h _ _ => absurd h.depth_lt (Nat.not_lt_zero _)
  | succ n ih =>
    refine agree_of_alike fun h h' halike => ?_
    have hyields := h.yields_of_depth_le (Nat.le_of_lt_succ h.depth_lt)
    exact hyields.alike ih hsigns halike h.reached h'.reached h.isReducedForm.readable
      h'.isReducedForm.readable h'.yields

/-- Steady expressions that are alike have simplified forms that are alike, if their signs agree. -/
theorem alike_of_simplify (h : e.Alike e') (he : IsSteady e) (he' : IsSteady e')
    (hsigns : SignsAgree e e') (hp : simplify e = .ok p) (hq : simplify e' = .ok q) :
    p.Alike q := by
  have hcall : SteadyCalls e (depth e + 1) e p := ⟨Nat.lt_succ_self _, .refl, he, hp⟩
  have hcall' : SteadyCalls e' (depth e' + 1) e' q := ⟨Nat.lt_succ_self _, .refl, he', hq⟩
  exact (agree_steadyCalls hsigns _ _).alike hcall hcall' h

end SymbolicAlgebra.Simplify
