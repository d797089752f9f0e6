import SymbolicAlgebra.Formula
import SymbolicAlgebra.Proofs.DecidableExpr
import SymbolicAlgebra.Proofs.Rearrangement

/-!
# Canonical forms as a whole

An expression can be rearranged to its canonical order (`rearranged_of_order`). So two expressions
have the same canonical form just when their simplified forms can be rearranged to each other
(`order_same_iff`). How the operands of chains are grouped when they are written does not matter at
all (`simplify_eq_of_regrouped`).
-/

namespace SymbolicAlgebra

open SymbolicAlgebra.Expr

variable {c : Chain} {e e' p q p' q' r s x y : Expr} {es es' xs : List Expr}

/-! ### Chains -/

lemma rearranged_link (h : List.Forall₂ Rearranged es es') (he : Rearranged e e') :
    Rearranged (c.link e es) (c.link e' es') := by
  induction h generalizing e e' with
  | nil => exact he
  | cons hx _ ih => exact .node c he (ih hx)

lemma rearranged_build (h : List.Forall₂ Rearranged es es') (hne : es ≠ []) :
    Rearranged (c.build es) (c.build es') := by
  cases h with
  | nil => exact absurd rfl hne
  | cons he h => exact rearranged_link h he

lemma rearranged_link_self (h : ∀ x ∈ e :: es, Rearranged x x) :
    Rearranged (c.link e es) (c.link e es) :=
  rearranged_link (List.forall₂_same.2 fun x hx => h x (by simp [hx])) (h e (by simp))

/-- A chain put before another one is regrouped to one chain. -/
lemma rearranged_link_append (h : ∀ x ∈ e :: es, Rearranged x x)
    (h' : ∀ x ∈ e' :: es', Rearranged x x) :
    Rearranged (c.node (c.link e es) (c.link e' es')) (c.link e (es ++ e' :: es')) := by
  induction es generalizing e with
  | nil => exact .node c (h e (by simp)) (rearranged_link_self h')
  | cons x es ih =>
    have hrest : ∀ y ∈ x :: es, Rearranged y y := fun y hy => h y (List.mem_cons_of_mem e hy)
    have he := h e (by simp)
    exact .trans (.regroup c he (rearranged_link_self hrest) (rearranged_link_self h'))
      (.node c he (ih hrest))

lemma rearranged_build_operands (h : ∀ x ∈ c.operands e, Rearranged x x) :
    Rearranged e (c.build (c.operands e)) := by
  induction e using Chain.induct c with
  | node l r ihl ihr =>
    rw [Chain.operands_node] at h ⊢
    have hl := ihl fun x hx => h x (by simp [hx])
    have hr := ihr fun x hx => h x (by simp [hx])
    obtain ⟨x, xs, hxs⟩ := List.exists_cons_of_ne_nil (c.operands_ne_nil l)
    obtain ⟨y, ys, hys⟩ := List.exists_cons_of_ne_nil (c.operands_ne_nil r)
    rw [hxs, hys] at h ⊢
    rw [hxs] at hl
    rw [hys] at hr
    refine .trans (.node c hl hr) (rearranged_link_append (fun z hz => ?_) fun z hz => ?_)
    · exact h z (List.mem_append_left _ hz)
    · exact h z (List.mem_append_right _ hz)
  | leaf e he =>
    rw [he] at h ⊢
    exact h e (by simp)

/-! ### Sorting by exchanges -/

/-- An operand with the weight that it gets. -/
structure IsWeighed (c : Chain) (z : BigFloat × Expr) : Prop where
  leaf : c.operands z.2 = [z.2]
  self : Rearranged z.2 z.2
  weighs : ∃ s, Weighs z.2 (z.1, s)

lemma differInWeight_of_not_heavier {z z' : BigFloat × Expr} (hz : IsWeighed c z)
    (hz' : IsWeighed c z') (h : ¬heavierOrEqual z.1 z'.1) : DifferInWeight z.2 z'.2 := by
  obtain ⟨s, hs⟩ := hz.weighs
  obtain ⟨s', hs'⟩ := hz'.weighs
  exact ⟨_, _, hs, hs', .inl (by simpa [heavierOrEqual] using h)⟩

lemma rearranged_link_exchange (hx : c.operands x = [x]) (hy : c.operands y = [y])
    (h : ∀ z ∈ x :: y :: es, Rearranged z z) (hdiffer : DifferInWeight x y) :
    Rearranged (c.link x (y :: es)) (c.link y (x :: es)) := by
  have hselfx := h x (by simp)
  have hselfy := h y (by simp)
  have hexchange := Rearranged.exchange c hselfx hselfy hx hy hdiffer
  cases es with
  | nil => exact hexchange
  | cons z es =>
    have hrest : Rearranged (c.link z es) (c.link z es) :=
      rearranged_link_self fun w hw => h w (by simp at hw ⊢; tauto)
    exact .trans (.symm (.regroup c hselfx hselfy hrest))
      (.trans (.node c hexchange hrest) (.regroup c hselfy hselfx hrest))

lemma rearranged_link_of_build {zs zs' : List Expr} (hy : Rearranged y y)
    (h : Rearranged (c.build zs) (c.build zs')) (hne : zs ≠ []) (hne' : zs' ≠ []) :
    Rearranged (c.link y zs) (c.link y zs') := by
  obtain ⟨z, zs, rfl⟩ := List.exists_cons_of_ne_nil hne
  obtain ⟨z', zs', rfl⟩ := List.exists_cons_of_ne_nil hne'
  exact .node c hy h

lemma rearranged_insertOrdered {z : BigFloat × Expr} {zs : List (BigFloat × Expr)}
    (h : ∀ x ∈ z :: zs, IsWeighed c x) : Rearranged (c.build ((z :: zs).map Prod.snd))
      (c.build ((insertOrdered (fun a b => heavierOrEqual a.1 b.1) z zs).map Prod.snd)) := by
  have hself (zs : List (BigFloat × Expr)) (hzs : ∀ x ∈ zs, IsWeighed c x) :
      ∀ e ∈ zs.map Prod.snd, Rearranged e e := by
    intro e he
    obtain ⟨x, hx, rfl⟩ := List.mem_map.1 he
    exact (hzs x hx).self
  induction zs with
  | nil => exact (h z (by simp)).self
  | cons y zs ih =>
    rw [insertOrdered]
    split
    · exact rearranged_link_self (hself (z :: y :: zs) h)
    · next hle =>
      have hz := h z (by simp)
      have hy := h y (by simp)
      have ih := ih fun x hx => h x (by simp at hx ⊢; tauto)
      have hne := insertOrdered_ne_nil (fun a b => heavierOrEqual a.1 b.1) z zs
      exact .trans (rearranged_link_exchange hz.leaf hy.leaf (hself (z :: y :: zs) h)
        (differInWeight_of_not_heavier hz hy hle))
        (rearranged_link_of_build hy.self ih (by simp) (by simpa using hne))

/-- Sorting is a sequence of exchanges. -/
lemma rearranged_stableSort {zs : List (BigFloat × Expr)} (h : ∀ x ∈ zs, IsWeighed c x)
    (hne : zs ≠ []) : Rearranged (c.build (zs.map Prod.snd)) (c.buildSorted zs) := by
  induction zs with
  | nil => exact absurd rfl hne
  | cons z zs ih =>
    have hz := h z (by simp)
    have hzs : ∀ x ∈ zs, IsWeighed c x := fun x hx => h x (by simp [hx])
    cases zs with
    | nil => exact hz.self
    | cons y zs =>
      have hne := stableSort_ne_nil (fun a b => heavierOrEqual a.1 b.1) (List.cons_ne_nil y zs)
      refine .trans
        (rearranged_link_of_build hz.self (ih hzs (by simp)) (by simp) (by simpa using hne))
        (rearranged_insertOrdered fun x hx => ?_)
      rcases List.mem_cons.1 hx with rfl | hx
      · exact hz
      · exact hzs x ((stableSort_perm _ _).mem_iff.1 hx)

/-- Weighed operands before they were brought into order. -/
lemma exists_isWeighed {ws : List (BigFloat × Expr)} (h : List.Forall₂ Weighs xs ws)
    (hleaf : ∀ x ∈ xs, c.operands x = [x])
    (hmoved : ∀ x ∈ xs, ∀ w ∈ ws, Weighs x w → Rearranged x w.2) :
    ∃ zs, zs.map Prod.snd = xs ∧ (∀ z ∈ zs, IsWeighed c z) ∧
      List.Forall₂ (fun z w => z.1 = w.1 ∧ Rearranged z.2 w.2) zs ws := by
  induction h with
  | nil => exact ⟨[], rfl, by simp, .nil⟩
  | @cons x w xs ws hw _ ih =>
    obtain ⟨zs, rfl, hzs, hws⟩ := ih (fun y hy => hleaf y (by simp [hy]))
      fun y hy v hv => hmoved y (by simp [hy]) v (by simp [hv])
    have hx := hmoved x (by simp) w (by simp) hw
    refine ⟨(w.1, x) :: zs, rfl, fun z hz => ?_, .cons ⟨rfl, hx⟩ hws⟩
    rcases List.mem_cons.1 hz with rfl | hz
    · exact ⟨hleaf x (by simp), hx.left, w.2, hw⟩
    · exact hzs z hz

lemma rearranged_node_of_order {l r : Expr} (h : order (c.node l r) = .ok s) (hsame : s.same s)
    (ih : ∀ x y, x.rank < (c.node l r).rank → order x = .ok y → y.same y → Rearranged x y) :
    Rearranged (c.node l r) s := by
  obtain ⟨ws, hws, rfl⟩ := order_node_iff.1 h
  have hself (w) (hw : w ∈ ws) : w.2.same w.2 :=
    same_of_mem_of_build hsame (List.mem_map_of_mem ((stableSort_perm _ ws).mem_iff.2 hw))
  obtain ⟨zs, hzs, hweighed, hmoved⟩ := exists_isWeighed hws
    (fun x hx => Chain.operands_of_mem_operands hx)
    fun x hx w hw hweighs => ih x w.2 (Chain.rank_lt_of_mem_operands hx) hweighs.1 (hself w hw)
  have hne : zs ≠ [] := by
    rintro rfl
    exact c.operands_ne_nil _ hzs.symm
  have hsorted : List.Forall₂ (fun z w => z.1 = w.1 ∧ Rearranged z.2 w.2)
      (stableSort (fun a b => heavierOrEqual a.1 b.1) zs)
      (stableSort (fun a b => heavierOrEqual a.1 b.1) ws) :=
    forall₂_stableSort (fun ha hb => by rw [ha.1, hb.1]) hmoved
  have hops : ∀ x ∈ c.operands (c.node l r), Rearranged x x := by
    intro x hx
    rw [← hzs] at hx
    obtain ⟨z, hz, rfl⟩ := List.mem_map.1 hx
    exact (hweighed z hz).self
  have hbuild := rearranged_build_operands hops
  rw [← hzs] at hbuild
  refine .trans hbuild (.trans (rearranged_stableSort hweighed hne) (rearranged_build ?_ ?_))
  · exact List.forall₂_map_left_iff.2
      (List.forall₂_map_right_iff.2 (hsorted.imp fun _ _ hz => hz.2))
  · simpa using stableSort_ne_nil _ hne

lemma rearranged_binary_of_order {f : Expr → Expr → Expr} {l r : Expr}
    (horder : order (f l r) = do return f (← order l) (← order r))
    (hself : ∀ l r, (f l r).same (f l r) = (l.same l && r.same r))
    (hnode : ∀ {l' r'}, Rearranged l l' → Rearranged r r' → Rearranged (f l r) (f l' r'))
    (h : order (f l r) = .ok s) (hsame : s.same s)
    (hl : ∀ y, order l = .ok y → y.same y → Rearranged l y)
    (hr : ∀ y, order r = .ok y → y.same y → Rearranged r y) : Rearranged (f l r) s := by
  rw [horder] at h
  obtain ⟨x, hx, h⟩ := bind_eq_ok_iff.1 h
  obtain ⟨y, hy, h⟩ := bind_eq_ok_iff.1 h
  obtain rfl := pure_eq_ok_iff.1 h
  rw [hself, Bool.and_eq_true] at hsame
  exact hnode (hl x hx hsame.1) (hr y hy hsame.2)

/-- An expression can be rearranged to its canonical order, if that is the same as itself. -/
lemma rearranged_of_order (h : order p = .ok p') (hsame : p'.same p') : Rearranged p p' := by
  induction hn : p.rank using Nat.strong_induction_on generalizing p p' with
  | h n ih =>
    subst hn
    have ih (x y : Expr) (hlt : x.rank < p.rank) (hy : order x = .ok y) (hsame : y.same y) :
        Rearranged x y := ih x.rank hlt hy hsame rfl
    cases p with
    | const a =>
      obtain rfl := Except.ok.inj h
      exact .of_same hsame
    | var x =>
      obtain rfl := Except.ok.inj h
      exact .of_same hsame
    | add l r => exact rearranged_node_of_order (c := .sum) h hsame ih
    | mul l r => exact rearranged_node_of_order (c := .product) h hsame ih
    | other m k es => cases h
    | neg x =>
      obtain ⟨x', hx, h⟩ := bind_eq_ok_iff.1 h
      obtain rfl := pure_eq_ok_iff.1 h
      have hpos := x.two_le_rank
      exact .neg (ih x x' (by simp only [rank]; omega) hx hsame)
    | sub l r =>
      exact rearranged_binary_of_order rfl (fun _ _ => rfl) .sub h hsame
        (fun y => ih l y (by simp only [rank]; omega)) fun y => ih r y (by simp only [rank]; omega)
    | div n d =>
      exact rearranged_binary_of_order rfl (fun _ _ => rfl) .div h hsame
        (fun y => ih n y (by simp only [rank]; omega)) fun y => ih d y (by simp only [rank]; omega)
    | pow b e =>
      exact rearranged_binary_of_order rfl (fun _ _ => rfl) .pow h hsame
        (fun y => ih b y (rank_base_lt_pow b e)) fun y => ih e y (rank_exponent_lt_pow b e)
    | log b a =>
      exact rearranged_binary_of_order rfl (fun _ _ => rfl) .log h hsame
        (fun y => ih b y (by simp only [rank]; omega)) fun y => ih a y (by simp only [rank]; omega)

/-- Expressions have the same canonical order just when they can be rearranged to each other. -/
theorem order_same_iff (hp : order p = .ok p') (hq : order q = .ok q') :
    p'.same q' ↔ Rearranged p q := by
  constructor
  · intro h
    have hleft := rearranged_of_order hp (same_left h)
    have hright := rearranged_of_order hq (same_left (same_symm h))
    exact .trans hleft (.trans (.of_same h) (.symm hright))
  · intro h
    obtain ⟨s, hs, hsame⟩ := (follows_of_rearranged h).1.ordered hp
    obtain rfl := Except.ok.inj (hq.symm.trans hs)
    exact hsame

/-! ### Grouping -/

/-- Equality up to the grouping of the operands of chains. -/
inductive Expr.Regrouped : Expr → Expr → Prop
  | refl (e : Expr) : Regrouped e e
  | symm {e e' : Expr} : Regrouped e e' → Regrouped e' e
  | trans {e e' e'' : Expr} : Regrouped e e' → Regrouped e' e'' → Regrouped e e''
  | assoc (c : Chain) (e₁ e₂ e₃ : Expr) :
      Regrouped (c.node (c.node e₁ e₂) e₃) (c.node e₁ (c.node e₂ e₃))
  | node (c : Chain) {l l' r r' : Expr} :
      Regrouped l l' → Regrouped r r' → Regrouped (c.node l r) (c.node l' r')
  | sub {l l' r r' : Expr} : Regrouped l l' → Regrouped r r' → Regrouped (sub l r) (sub l' r')
  | div {n n' d d' : Expr} : Regrouped n n' → Regrouped d d' → Regrouped (div n d) (div n' d')
  | pow {b b' p p' : Expr} : Regrouped b b' → Regrouped p p' → Regrouped (pow b p) (pow b' p')
  | log {b b' a a' : Expr} : Regrouped b b' → Regrouped a a' → Regrouped (log b a) (log b' a')
  | neg {e e' : Expr} : Regrouped e e' → Regrouped (neg e) (neg e')

namespace Simplify

/-- Two expressions that simplify to the same result, alone and as parts of either chain. -/
structure SimplifyAsOne (e e' : Expr) : Prop where
  simplified : simplify e = simplify e'
  operands : ∀ c, Rules.operands c e = Rules.operands c e'

lemma SimplifyAsOne.of_leaf (he : ∀ c : Chain, c.operands e = [e])
    (he' : ∀ c : Chain, c.operands e' = [e']) (h : simplify e = simplify e') :
    SimplifyAsOne e e' where
  simplified := h
  operands c := by rw [Rules.operands_leaf (he c), Rules.operands_leaf (he' c), h]

lemma SimplifyAsOne.node {l r l' r' : Expr}
    (h : Rules.operands c (c.node l r) = Rules.operands c (c.node l' r')) :
    SimplifyAsOne (c.node l r) (c.node l' r') := by
  have hsimp : simplify (c.node l r) = simplify (c.node l' r') := by
    rw [simplify_node, simplify_node, h]
  refine ⟨hsimp, fun d => ?_⟩
  by_cases hd : c = d
  · subst hd
    exact h
  · rw [Rules.operands_leaf (Chain.operands_node_of_ne hd l r),
      Rules.operands_leaf (Chain.operands_node_of_ne hd l' r'), hsimp]

lemma simplifyAsOne_of_regrouped (h : Regrouped e e') : SimplifyAsOne e e' := by
  induction h with
  | refl e => exact ⟨rfl, fun c => rfl⟩
  | symm _ ih => exact ⟨ih.simplified.symm, fun c => (ih.operands c).symm⟩
  | trans _ _ ih ih' =>
    exact ⟨ih.simplified.trans ih'.simplified, fun c => (ih.operands c).trans (ih'.operands c)⟩
  | assoc c e₁ e₂ e₃ =>
    refine .node ?_
    simp only [Rules.operands, Chain.operands_node, List.append_assoc]
  | node c _ _ ihl ihr =>
    refine .node ?_
    rw [Rules.operands_node, Rules.operands_node, ihl.operands c, ihr.operands c]
  | sub _ _ ihl ihr =>
    refine .of_leaf (fun c => by cases c <;> rfl) (fun c => by cases c <;> rfl) ?_
    rw [simplify_sub, simplify_sub, ihl.simplified, ihr.simplified]
  | div _ _ ihn ihd =>
    refine .of_leaf (fun c => by cases c <;> rfl) (fun c => by cases c <;> rfl) ?_
    rw [simplify_div, simplify_div, ihn.simplified, ihd.simplified]
  | pow _ _ ihb ihp =>
    refine .of_leaf (fun c => by cases c <;> rfl) (fun c => by cases c <;> rfl) ?_
    rw [simplify_pow, simplify_pow, ihb.simplified, ihp.simplified]
  | log _ _ ihb iha =>
    refine .of_leaf (fun c => by cases c <;> rfl) (fun c => by cases c <;> rfl) ?_
    rw [simplify_log, simplify_log, ihb.simplified, iha.simplified]
  | neg _ ih =>
    refine .of_leaf (fun c => by cases c <;> rfl) (fun c => by cases c <;> rfl) ?_
    rw [simplify_neg, simplify_neg, ih.simplified]

end Simplify

/-- Simplification does not see how the operands of chains are grouped. -/
theorem simplify_eq_of_regrouped (h : Regrouped e e') : simplify e = simplify e' :=
  (Simplify.simplifyAsOne_of_regrouped h).simplified

/-! ### Formulas -/

/-- Formulas do not depend on how the operands of chains are grouped in the expressions that they
are made of. They are equal just when the simplified expressions can be rearranged to each other. -/
theorem Formula.ofExpr_beq_iff (a b : Expr) :
    (a.Regrouped b → Formula.ofExpr a = Formula.ofExpr b) ∧
      ∀ f g, Formula.ofExpr a = .ok f → Formula.ofExpr b = .ok g →
        (f == g ↔ ∃ p q, simplify a = .ok p ∧ simplify b = .ok q ∧ p.Rearranged q) := by
  constructor
  · intro h
    rw [Formula.ofExpr, Formula.ofExpr, canonical, canonical, simplify_eq_of_regrouped h]
  · intro f g hf hg
    obtain ⟨p', hp', hf⟩ := bind_eq_ok_iff.1 hf
    obtain ⟨q', hq', hg⟩ := bind_eq_ok_iff.1 hg
    obtain ⟨p, hp, hp'⟩ := bind_eq_ok_iff.1 hp'
    obtain ⟨q, hq, hq'⟩ := bind_eq_ok_iff.1 hq'
    obtain rfl := pure_eq_ok_iff.1 hf
    obtain rfl := pure_eq_ok_iff.1 hg
    have hiff : (Formula.mk p' == Formula.mk q') = true ↔ p.Rearranged q := order_same_iff hp' hq'
    rw [hiff]
    constructor
    · intro h
      exact ⟨p, q, hp, hq, h⟩
    · rintro ⟨_, _, ha, hb, h⟩
      obtain rfl := Except.ok.inj (hp.symm.trans ha)
      obtain rfl := Except.ok.inj (hq.symm.trans hb)
      exact h

/-- The terms `2 * x` and `3 * P` have one weight, so they keep the order in which they are
written. -/
theorem Formula.not_beq_of_equal_weights :
    let s : Expr := .mul (.const 2) (.var "x")
    let t : Expr := .mul (.const 3) (.var "P")
    let s' : Expr := .mul (.var "x") (.const 2)
    let t' : Expr := .mul (.var "P") (.const 3)
    (Expr.add s t).Reordered (.add t s) ∧
      Formula.ofExpr (.add s t) = .ok ⟨.add s' t'⟩ ∧ Formula.ofExpr (.add t s) = .ok ⟨.add t' s'⟩ ∧
        (Formula.mk (.add s' t') == Formula.mk (.add t' s')) = false := by
  intro s t s' t'
  have hst : canonical (.add s t) = .ok (.add s' t') := by decide +kernel
  have hts : canonical (.add t s) = .ok (.add t' s') := by decide +kernel
  refine ⟨.comm .sum s t, ?_, ?_, by decide +kernel⟩
  · rw [Formula.ofExpr, hst]
    rfl
  · rw [Formula.ofExpr, hts]
    rfl

end SymbolicAlgebra
