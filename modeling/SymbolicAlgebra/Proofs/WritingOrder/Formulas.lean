import SymbolicAlgebra.Proofs.CanonicalForm
import SymbolicAlgebra.Proofs.Shape
import SymbolicAlgebra.Proofs.WritingOrder.Simplification

/-!
# Formulas and the order in which operands are written

Operands of different weights are exchanged by the canonical order. So an expression in which no two
operands of a chain have one weight is rearranged to any that is alike (`Expr.Alike.rearranged`),
and the formulas of steady expressions are the same in whatever order the operands are written, if
nothing but the weights can tell them apart (`Formula.ofExpr_of_reordered`).
-/

namespace SymbolicAlgebra

open SymbolicAlgebra.Expr Simplify

variable {c : Chain} {a b e e' p q r x y : Expr} {es es' : List Expr}

/-! ### Expressions without ties -/

/-- Whether any two operands of each chain in an expression get different weights. -/
def Expr.HasNoTies (e : Expr) : Prop :=
  e.Everywhere fun x => ∀ c : Chain, (c.operands x).Pairwise DifferInWeight

lemma forall_chain_pairwise_node {R : Expr → Expr → Prop} {l r : Expr} :
    (∀ d : Chain, (d.operands (c.node l r)).Pairwise R) ↔ (c.operands (c.node l r)).Pairwise R := by
  refine ⟨fun h => h c, fun h d => ?_⟩
  by_cases hd : c = d
  · rwa [← hd]
  · simp [Chain.operands_node_of_ne hd]

lemma hasNoTies_node {l r : Expr} : (c.node l r).HasNoTies ↔
    (c.operands (c.node l r)).Pairwise DifferInWeight ∧ l.HasNoTies ∧ r.HasNoTies := by
  rw [Expr.HasNoTies, everywhere_node, forall_chain_pairwise_node]
  rfl

lemma hasNoTies_of_children_eq_nil (h : x.children = []) : x.HasNoTies := by
  refine everywhere_iff.2 ⟨fun c => ?_, by simp [h]⟩
  have hleaf : c.operands x = [x] := by
    cases x <;> first | (cases c <;> rfl) | cases h
  simp [hleaf]

/-- Operands that differ in weight can be put into any order. -/
lemma rearranged_build_of_perm (h : es.Perm es') (hne : es ≠ [])
    (hes : ∀ x ∈ es, c.operands x = [x] ∧ Rearranged x x) (hdiffer : es.Pairwise DifferInWeight) :
    Rearranged (c.build es) (c.build es') := by
  induction h with
  | nil => exact absurd rfl hne
  | @cons x es es' hperm ih =>
    have hself := (hes x List.mem_cons_self).2
    by_cases hnil : es = []
    · obtain rfl := hnil
      obtain rfl := List.nil_perm.1 hperm
      exact hself
    · have hrest := ih hnil (fun y hy => hes y (.tail x hy)) (List.pairwise_cons.1 hdiffer).2
      exact rearranged_link_of_build hself hrest hnil fun hnil' =>
        hnil (List.perm_nil.1 (hnil' ▸ hperm))
  | swap x y es =>
    have hxy := (List.pairwise_cons.1 hdiffer).1 x (by simp)
    exact rearranged_link_exchange (hes y (by simp)).1 (hes x (by simp)).1
      (fun z hz => (hes z hz).2) hxy
  | trans hperm _ ih ih' =>
    have hmid := ih hne hes hdiffer
    refine .trans hmid (ih' (fun hnil => hne (List.perm_nil.1 (hnil ▸ hperm))) ?_ ?_)
    · exact fun x hx => hes x (hperm.mem_iff.2 hx)
    · exact (hperm.pairwise_iff fun hxy => differInWeight_symm hxy).1 hdiffer

lemma Expr.Alike.rearranged_node {l m l' m' : Expr} (h : (c.node l m).Alike (c.node l' m'))
    (hties : (c.node l m).HasNoTies)
    (ih : ∀ x ∈ c.operands (c.node l m), ∀ y, x.Alike y → x.Rearranged y) :
    (c.node l m).Rearranged (c.node l' m') := by
  obtain ⟨es, hperm, hall⟩ := h.operands c
  have hself (x : Expr) (hx : x ∈ c.operands (c.node l m)) : x.Rearranged x := ih x hx x (.refl x)
  have hmoved : List.Forall₂ Rearranged es (c.operands (c.node l' m')) :=
    ((List.forall₂_and_left es _).2 ⟨fun x hx => hperm.mem_iff.2 hx, hall⟩).imp
      fun x y hxy => ih x hxy.1 y hxy.2
  have hself' : ∀ y ∈ c.operands (c.node l' m'), y.Rearranged y :=
    forall_mem_of_forall₂ hmoved fun _ _ hxy => .left (.symm hxy)
  have hne := c.operands_ne_nil (c.node l m)
  have hexchanged := rearranged_build_of_perm hperm hne
    (fun x hx => ⟨Chain.operands_of_mem_operands hx, hself x hx⟩) (hties.self c)
  have hreplaced :=
    rearranged_build (c := c) hmoved fun hnil => hne (List.perm_nil.1 (hnil ▸ hperm))
  exact .trans (rearranged_build_operands hself)
    (.trans hexchanged (.trans hreplaced (.symm (rearranged_build_operands hself'))))

lemma Expr.rank_lt_of_mem_children (hp : p.IsReadable) (hx : x ∈ p.children) : x.rank < p.rank := by
  cases p with
  | const | var => cases hx
  | other => exact hp.elim
  | mul l m =>
    have hl := rank_lt_mul_left l m
    have hm := rank_lt_mul_right l m
    simp only [children, List.mem_cons, List.not_mem_nil, or_false] at hx
    rcases hx with rfl | rfl <;> assumption
  | pow b q =>
    have hb := rank_base_lt_pow b q
    have hq := rank_exponent_lt_pow b q
    simp only [children, List.mem_cons, List.not_mem_nil, or_false] at hx
    rcases hx with rfl | rfl <;> assumption
  | neg u =>
    have hpos := u.two_le_rank
    rw [List.mem_singleton.1 hx, rank]
    omega
  | _ l m =>
    simp only [children, List.mem_cons, List.not_mem_nil, or_false] at hx
    rcases hx with rfl | rfl <;> (simp only [rank]; omega)

/-- An expression without ties is rearranged to every expression that is alike. -/
theorem Expr.Alike.rearranged (h : p.Alike q) (hp : p.IsReadable) (hties : p.HasNoTies) :
    p.Rearranged q := by
  induction hn : p.rank using Nat.strong_induction_on generalizing p q with
  | h n ih =>
    subst hn
    have hchain (c : Chain) (x : Expr) (hlt : x.rank < p.rank) (hx : x ∈ c.operands p) (y : Expr)
        (hxy : x.Alike y) : x.Rearranged y :=
      ih x.rank hlt hxy ((isReadable_iff_operands c).1 hp x hx) (hties.of_mem_operands hx) rfl
    have hpart {x y : Expr} (hx : x ∈ p.children) (hread : x.IsReadable) (hxy : x.Alike y) :
        x.Rearranged y :=
      ih x.rank (rank_lt_of_mem_children hp hx) hxy hread (hties.of_mem_children hx) rfl
    cases p with
    | const k =>
      obtain ⟨k', rfl, hk⟩ := h.eq_const
      have hvalue := Number.exactValue?_eq_valueOrZero hp
      exact .const ((Number.same_iff hvalue (hk.trans hvalue)).2 rfl)
    | var x =>
      obtain rfl := h.eq_var
      exact .var x
    | add l m =>
      obtain ⟨l', m', rfl⟩ := h.eq_node (c := .sum)
      exact rearranged_node (c := .sum) h hties fun x hx =>
        hchain .sum x (Chain.rank_lt_of_mem_operands hx) hx
    | mul l m =>
      obtain ⟨l', m', rfl⟩ := h.eq_node (c := .product)
      exact rearranged_node (c := .product) h hties fun x hx =>
        hchain .product x (Chain.rank_lt_of_mem_operands hx) hx
    | sub l m =>
      obtain ⟨l', m', rfl, hl, hm⟩ := h.eq_sub
      exact .sub (hpart (by simp [children]) hp.1 hl) (hpart (by simp [children]) hp.2 hm)
    | div m d =>
      obtain ⟨m', d', rfl, hm, hd⟩ := h.eq_div
      exact .div (hpart (by simp [children]) hp.1 hm) (hpart (by simp [children]) hp.2 hd)
    | pow b q =>
      obtain ⟨b', q', rfl, hb, hq⟩ := h.eq_pow
      exact .pow (hpart (by simp [children]) hp.1 hb) (hpart (by simp [children]) hp.2 hq)
    | log b a =>
      obtain ⟨b', a', rfl, hb, ha⟩ := h.eq_log
      exact .log (hpart (by simp [children]) hp.1 hb) (hpart (by simp [children]) hp.2 ha)
    | neg u =>
      obtain ⟨u', rfl, hu⟩ := h.eq_neg
      exact .neg (hpart (by simp [children]) hp hu)
    | other m k us => exact hp.elim

/-! ### Weights can be compared -/

/-- The canonical order of an operand, with its weight. -/
def Expr.weigh (e : Expr) : Except Error (BigFloat × Expr) := do
  let s ← order e
  return (← s.weight, s)

lemma weigh_eq_ok_iff {w : BigFloat × Expr} : e.weigh = .ok w ↔ Weighs e w := by
  constructor
  · intro h
    obtain ⟨s, hs, h⟩ := bind_eq_ok_iff.1 h
    obtain ⟨v, hv, h⟩ := bind_eq_ok_iff.1 h
    obtain rfl := pure_eq_ok_iff.1 h
    exact ⟨hs, hv⟩
  · rintro ⟨hs, hv⟩
    exact bind_eq_ok_iff.2 ⟨w.2, hs, bind_eq_ok_iff.2 ⟨w.1, hv, rfl⟩⟩

instance : DecidableRel DifferInWeight := fun e e' =>
  match h : e.weigh, h' : e'.weigh with
  | .ok w, .ok w' => decidable_of_iff (w.1.lt w'.1 ∨ w'.1.lt w.1)
    ⟨fun hlt => ⟨w, w', weigh_eq_ok_iff.1 h, weigh_eq_ok_iff.1 h', hlt⟩, by
      rintro ⟨v, v', hv, hv', hlt⟩
      rwa [(weigh_eq_ok_iff.1 h).unique hv, (weigh_eq_ok_iff.1 h').unique hv']⟩
  | .error _, _ => .isFalse fun ⟨v, _, hv, _⟩ => by cases h.symm.trans (weigh_eq_ok_iff.2 hv)
  | _, .error _ => .isFalse fun ⟨_, v', _, hv', _⟩ => by cases h'.symm.trans (weigh_eq_ok_iff.2 hv')

/-! ### Formulas -/

lemma Formula.exists_simplify_of_ofExpr {f : Formula} (h : Formula.ofExpr a = .ok f) :
    ∃ p, simplify a = .ok p := by
  obtain ⟨s, hs, -⟩ := bind_eq_ok_iff.1 h
  obtain ⟨p, hp, -⟩ := bind_eq_ok_iff.1 hs
  exact ⟨p, hp⟩

/-- Formulas and the order in which their operands are written. How operands are grouped does not
matter, and formulas are equal just when the simplified expressions can be rearranged to each other.
If steady expressions whose signs agree are reorderings of each other, then their simplified forms
are alike, so that their formulas are equal unless some operands have one weight. -/
theorem Formula.ofExpr_of_reordered (a b : Expr) :
    (a.Regrouped b → Formula.ofExpr a = Formula.ofExpr b) ∧
      ∀ f g, Formula.ofExpr a = .ok f → Formula.ofExpr b = .ok g →
        (f == g ↔ ∃ p q, simplify a = .ok p ∧ simplify b = .ok q ∧ p.Rearranged q) ∧
          (a.Reordered b → IsSteady a → IsSteady b → SignsAgree a b →
            ∃ p q, simplify a = .ok p ∧ simplify b = .ok q ∧ p.Alike q ∧
              (p.HasNoTies → f == g)) := by
  obtain ⟨hgrouped, hiff⟩ := Formula.ofExpr_beq_iff a b
  refine ⟨hgrouped, fun f g hf hg => ⟨hiff f g hf hg, fun h ha hb hsigns => ?_⟩⟩
  obtain ⟨p, hp⟩ := Formula.exists_simplify_of_ofExpr hf
  obtain ⟨q, hq⟩ := Formula.exists_simplify_of_ofExpr hg
  have halike := alike_of_simplify h.alike ha hb hsigns hp hq
  refine ⟨p, q, hp, hq, halike, fun hties => (hiff f g hf hg).2 ⟨p, q, hp, hq, ?_⟩⟩
  exact halike.rearranged (ha.isReducedForm hp).readable hties

/-- The difference `3 * x - x * (y + z)` has the same formula as `x * 3 - x * (z + y)`, where a
minus sign stands before products with their factors in the same order, and `(x + y) + z` has that
of `x + (y + z)`. -/
theorem Formula.ofExpr_of_reordered_difference :
    let x : Expr := .var "x"
    let y : Expr := .var "y"
    let z : Expr := .var "z"
    let a : Expr := .sub (.mul (.const 3) x) (.mul x (.add y z))
    let b : Expr := .sub (.mul x (.const 3)) (.mul x (.add z y))
    a.Reordered b ∧ IsSteady a ∧ IsSteady b ∧ SignsAgree a b ∧
      (∃ f g, Formula.ofExpr a = .ok f ∧ Formula.ofExpr b = .ok g ∧ f == g) ∧
        Formula.ofExpr (.add (.add x y) z) = Formula.ofExpr (.add x (.add y z)) := by
  intro x y z a b
  let n : Expr := .mul (.const 3) x
  let t : Expr := .mul x (.add y z)
  let t' : Expr := .mul x (.add z y)
  let s : Expr := .mul (.const (-1)) t
  let s' : Expr := .mul (.const (-1)) t'
  let calls : List Expr := [a, n, .const 3, x, t, .add y z, y, z, .neg t, .mul (.neg x) (.add y z),
    .neg x, .add n s, s, .const (-1)]
  let calls' : List Expr := [b, .mul x (.const 3), n, .const 3, x, t', .add z y, z, y, .neg t',
    .mul (.neg x) (.add z y), .neg x, .add n s', s', .const (-1)]
  have hreordered : a.Reordered b :=
    .sub (.comm .product (.const 3) x) (.node .product (.refl x) (.comm .sum y z))
  have hclosed : ∀ u ∈ calls, (step (answering fun v => ∃ w ∈ calls, w = v) u).run.isSome := by
    decide +kernel
  have hclosed' : ∀ u ∈ calls', (step (answering fun v => ∃ w ∈ calls', w = v) u).run.isSome := by
    decide +kernel
  have hkept : ∀ u ∈ calls, isKept u := by decide +kernel
  have hkept' : ∀ u ∈ calls', isKept u := by decide +kernel
  have hcalls {u : Expr} (hu : Reaches a u) : u ∈ calls :=
    mem_of_reaches hclosed List.mem_cons_self hu
  have hcalls' {u : Expr} (hu : Reaches b u) : u ∈ calls' :=
    mem_of_reaches hclosed' List.mem_cons_self hu
  have ha : IsSteady a := isSteady_of_kept fun u hu => hkept u (hcalls hu)
  have hb : IsSteady b := isSteady_of_kept fun u hu => hkept' u (hcalls' hu)
  have hsigns : SignsAgree a b := by
    intro u u' v v' hu hu' halike hv hv'
    have hu : u = t ∨ u = x := by simpa [calls, a, n, t, s] using hcalls hu
    have hu' : u' = t' ∨ u' = x := by simpa [calls', b, n, t', s'] using hcalls' hu'
    rcases hu with rfl | rfl <;> rcases hu' with rfl | rfl
    · have ht : simplify t = .ok t := by decide +kernel
      have ht' : simplify t' = .ok t' := by decide +kernel
      obtain rfl := Except.ok.inj (ht.symm.trans hv)
      obtain rfl := Except.ok.inj (ht'.symm.trans hv')
      exact .inr (.cons (.refl x) (.cons (.comm .sum y z) .nil))
    · obtain ⟨l, m, hx⟩ : ∃ l m, Expr.var "x" = .mul l m := halike.eq_node (c := .product)
      cases hx
    · exact absurd halike.eq_var (by decide +kernel)
    · have hx : simplify x = .ok x := rfl
      obtain rfl := Except.ok.inj (hx.symm.trans hv)
      obtain rfl := Except.ok.inj (hx.symm.trans hv')
      have hplaces (e : Expr) : PlacesSigns e x := by
        refine ⟨rfl, fun u hu _ => .inl ?_⟩
        obtain rfl := List.mem_singleton.1 hu
        rfl
      exact .inl ⟨hplaces a, hplaces b⟩
  have hp : simplify a = .ok (.add n s) := by decide +kernel
  have hx : x.HasNoTies := hasNoTies_of_children_eq_nil rfl
  have ht : t.HasNoTies := (hasNoTies_node (c := .product)).2 ⟨by decide +kernel, hx,
    (hasNoTies_node (c := .sum)).2 ⟨by decide +kernel, hasNoTies_of_children_eq_nil rfl,
      hasNoTies_of_children_eq_nil rfl⟩⟩
  have hties : (Expr.add n s).HasNoTies := by
    refine (hasNoTies_node (c := .sum)).2 ⟨by decide +kernel, ?_, ?_⟩
    · exact (hasNoTies_node (c := .product)).2
        ⟨by decide +kernel, hasNoTies_of_children_eq_nil rfl, hx⟩
    · exact (hasNoTies_node (c := .product)).2
        ⟨by decide +kernel, hasNoTies_of_children_eq_nil rfl, ht⟩
  obtain ⟨f, hf⟩ : ∃ f, Formula.ofExpr a = .ok f := ⟨_, rfl⟩
  obtain ⟨g, hg⟩ : ∃ g, Formula.ofExpr b = .ok g := ⟨_, rfl⟩
  obtain ⟨p, q, hp', -, -, hequal⟩ :=
    ((Formula.ofExpr_of_reordered a b).2 f g hf hg).2 hreordered ha hb hsigns
  obtain rfl := Except.ok.inj (hp.symm.trans hp')
  exact ⟨hreordered, ha, hb, hsigns, ⟨f, g, hf, hg, hequal hties⟩,
    (Formula.ofExpr_of_reordered _ _).1 (.assoc .sum x y z)⟩

/-- A minus sign goes to the first factor, which takes it in another way than the other factor
does. -/
example :
    let x : Expr := .var "x"
    let y : Expr := .var "y"
    let z : Expr := .var "z"
    canonical (.neg (.mul (.add x y) z)) = .ok (.mul z (.add (.neg x) (.neg y))) ∧
      canonical (.neg (.mul z (.add x y))) = .ok (.mul (.add y x) (.mul z (.const (-1)))) := by
  decide +kernel

end SymbolicAlgebra
