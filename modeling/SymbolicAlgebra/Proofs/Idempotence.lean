import SymbolicAlgebra.Proofs.DecidableExpr
import SymbolicAlgebra.Proofs.NormalForm.RankKept
import SymbolicAlgebra.Proofs.Sorting

/-!
# When simplification is idempotent

A simplified expression is left as it is when it is simplified again just when it is in normal form
(`simplify_idempotent_iff`). Simplification does not always lead to normal forms: a sum that is left
when like terms are collected becomes one operand of the sum around it, and is not taken apart
again.

If an expression is the same as its simplified form, then no rule has made its rank smaller, here or
in any part. An expression whose rank is kept has a simplified form in normal form
(`normal_of_rank_eq`).
-/

namespace SymbolicAlgebra

open Simplify

variable {e r : Expr} {es : List Expr} {c : Chain}

/-! ### The operands of a chain -/

namespace Chain

lemma length_le_length_flatMap_operands (c : Chain) (es : List Expr) :
    es.length ≤ (es.flatMap c.operands).length := by
  induction es with
  | nil => exact Nat.le_refl _
  | cons e es ih =>
    have he := List.length_pos_iff.2 (c.operands_ne_nil e)
    rw [List.flatMap_cons, List.length_append, List.length_cons]
    omega

lemma operands_of_length_eq_one (h : (c.operands e).length = 1) : c.operands e = [e] := by
  induction e using Chain.induct c with
  | node l r _ _ =>
    have hlen := c.two_le_length_operands l r
    omega
  | leaf e he => exact he

/-- Operands that are not more when they are taken apart are no chains. -/
lemma flatMap_operands_of_length_eq (h : (es.flatMap c.operands).length = es.length) :
    es.flatMap c.operands = es := by
  induction es with
  | nil => rfl
  | cons e es ih =>
    have he := List.length_pos_iff.2 (c.operands_ne_nil e)
    have hes := c.length_le_length_flatMap_operands es
    rw [List.flatMap_cons, List.length_append, List.length_cons] at h
    rw [List.flatMap_cons, operands_of_length_eq_one (by omega), ih (by omega)]
    rfl

lemma total_flatMap_operands (c : Chain) (es : List Expr) :
    c.total (es.flatMap c.operands) = c.total es := by
  induction es with
  | nil => rfl
  | cons e es ih => rw [List.flatMap_cons, total_append, total_operands, ih, total]

end Chain

namespace Simplify

/-- Simplified operands contribute no more than the operands did. If they contribute as much, each
has kept its rank. -/
lemma total_le_of_forall₂ (c : Chain) {rs : List Expr}
    (h : List.Forall₂ (fun e r => simplify e = .ok r) es rs) :
    c.total rs ≤ c.total es ∧ (c.total rs = c.total es →
      List.Forall₂ (fun e r => simplify e = .ok r ∧ r.rank = e.rank) es rs) := by
  induction h with
  | nil => exact ⟨Nat.le_refl _, fun _ => .nil⟩
  | @cons e r es rs hr _ ih =>
    obtain ⟨hle, hexact⟩ := ih
    have hsize := c.size_mono (reduces_of_simplify hr).1
    refine ⟨c.join_mono hsize hle, fun heq => ?_⟩
    obtain ⟨heq₁, heq₂⟩ := Chain.eq_of_join_eq_join heq hsize hle
      (Nat.le_trans c.neutral_le_one (c.one_le_size e)) (c.neutral_le_total es)
    exact .cons ⟨hr, Chain.rank_eq_of_size_eq heq₁⟩ (hexact heq₂)

/-! ### Rules that keep the rank -/

lemma isFactor_of_mem_rest (hes : ∀ e ∈ es, Tidy e ∧ Chain.product.operands e = [e])
    (h : e ∈ es.filterMap Chain.product.rest?) : IsFactor e := by
  obtain ⟨x, hx, hrest⟩ := List.mem_filterMap.1 h
  obtain ⟨htidy, hops⟩ := hes x hx
  cases x with
  | const c => cases hrest
  | neg y =>
    obtain rfl := Option.some.inj hrest
    exact isFactor_of_takesSign htidy.1
  | _ =>
    cases hrest
    exact isFactor_of_operands (by simp) (by simp) htidy hops

lemma size_le_of_chain (h : Rules.chain c es = .ok r) (hlen : 2 ≤ es.length)
    (hes : ∀ e ∈ es, Tidy e ∧ c.operands e = [e]) : c.size r ≤ c.total es := by
  have htotal := size_mul_length_le_total c hlen
  cases c with
  | sum =>
    have htotal : 6 ≤ Chain.sum.total es := htotal
    exact (sum_exact_of_size_eq h (by omega)).1
  | product =>
    have htotal : 4 ≤ Chain.product.total es := htotal
    exact (product_exact_of_size_eq h (fun e he => isFactor_of_mem_rest hes he) (by omega)).1

lemma quotient_kept {n d : Expr} (h : quotient n d = .ok r) :
    r.rank < (Expr.div n d).rank ∨ r = .div n d ∧ (n.isConstant && d.isConstant) = false := by
  unfold quotient at h
  split at h
  · obtain ⟨c, -, h⟩ := bind_eq_ok_iff.1 h
    obtain rfl := pure_eq_ok_iff.1 h
    exact .inl (by simp [Expr.rank])
  · next hconst =>
    obtain rfl := Except.ok.inj h
    refine .inr ⟨rfl, ?_⟩
    by_contra hboth
    simp only [Bool.not_eq_false, Bool.and_eq_true] at hboth
    obtain ⟨a, rfl⟩ := Expr.eq_const_of_isConstant hboth.1
    obtain ⟨b, rfl⟩ := Expr.eq_const_of_isConstant hboth.2
    exact hconst a b rfl rfl

lemma powerOf_kept {b p : Expr} (h : Rules.powerOf b p = .ok r)
    (hp : ∀ c, p = .const c → c.isOne = false ∧ c.isZero = false) :
    r.rank < (Expr.pow b p).rank ∨ r = .pow b p ∧ IsNormalPower b p := by
  unfold Rules.powerOf at h
  split at h
  · next b q =>
    obtain ⟨x, hx, h⟩ := bind_eq_ok_iff.1 h
    have hr := (reduces_of_simplify h).1
    have hx := Nat.mul_le_mul_left (b.rank - 1) (reduces_of_simplify hx).1
    have hlt := (rank_pow_pow b p q).2
    simp only [Expr.rank] at hr hx hlt ⊢
    exact .inl (by omega)
  · next b p =>
    unfold constantPower at h
    split at h
    · obtain rfl := Except.ok.inj h
      exact .inl (by simp [Expr.rank])
    · next s t hst =>
      obtain rfl := Except.ok.inj h
      refine .inr ⟨rfl, hp, by simp, ?_⟩
      rintro c d ⟨⟩ ⟨⟩
      exact ⟨s, t, hst⟩
    · cases h
  · next hbase hconst =>
    obtain rfl := Except.ok.inj h
    exact .inr ⟨rfl, hp, fun b' q => hbase b' q, fun c d hc hd => absurd hd (hconst c d hc)⟩

lemma power_kept {b p : Expr} (h : Rules.power b p = .ok r) :
    r.rank < (Expr.pow b p).rank ∨ r = .pow b p ∧ IsNormalPower b p := by
  unfold Rules.power at h
  split at h
  · next c =>
    split at h
    · obtain rfl := Except.ok.inj h
      exact .inl (Expr.rank_base_lt_pow _ _)
    · split at h
      · obtain rfl := Except.ok.inj h
        exact .inl (by have hb := b.two_le_rank; simp only [Expr.rank]; omega)
      · next hone hz =>
        refine powerOf_kept h ?_
        rintro d ⟨⟩
        exact ⟨by simpa using hone, by simpa using hz⟩
  · next hp => exact powerOf_kept h fun c hc => absurd hc (hp c)

/-! ### Chains that are the same as what they become -/

lemma takesSign_of_same {e' : Expr} (h : e.same e') : takesSign e = takesSign e' := by
  cases e <;> cases e' <;> first | rfl | cases h

lemma operands_build_of_normalOperand (hes : ∀ e ∈ es, e.NormalOperand c) (hne : es ≠ []) :
    c.operands (c.build es) = es := by
  rw [Chain.operands_build c hne, Chain.flatMap_operands fun e he => (hes e he).2]

lemma operands_build_front {pre post : List Expr} {d k : Number}
    (hes : ∀ e ∈ pre ++ .const d :: post, e.NormalOperand c) :
    c.operands (c.build (.const k :: (pre ++ post))) = .const k :: (pre ++ post) := by
  apply operands_build_of_normalOperand _ (by simp)
  intro x hx
  rcases List.mem_cons.1 hx with rfl | hx
  · exact ⟨trivial, by cases c <;> rfl⟩
  · exact hes x (by simpa using (List.mem_append.1 hx).imp_right .inr)

lemma Kept.length_le (h : Kept c es r) (hes : ∀ e ∈ es, e.NormalOperand c) (hlen : 2 ≤ es.length) :
    es.length ≤ (c.operands r).length ∨ (c.operands r).length = 1 := by
  cases h with
  | same =>
    rw [operands_build_of_normalOperand hes (List.ne_nil_of_length_pos (by omega))]
    exact .inl (Nat.le_refl _)
  | front heq hpre =>
    subst heq
    rw [operands_build_front hes]
    simp only [List.length_append, List.length_cons]
    omega
  | longer h => exact .inl (Nat.le_of_lt h)
  | sign x => exact .inr (by cases c <;> rfl)

lemma eq_of_forall₂_same {ls : List Expr} (hls : List.Forall₂ (fun l e => e.same l → e = l) ls es)
    (hsame : List.Forall₂ (fun e l => e.same l) es ls) : es = ls := by
  induction hls with
  | nil => rfl
  | cons h _ ih =>
    obtain ⟨hsame, hrest⟩ := List.forall₂_cons.1 hsame
    rw [h hsame, ih hrest]

/-- A chain that is the same as what it comes from, and whose operands were simplified to as many,
has the operands that it had. -/
lemma Kept.operands_eq {ls : List Expr} (h : Kept c es r) (hes : ∀ e ∈ es, e.NormalOperand c)
    (hlen : 2 ≤ es.length) (hsame : List.Forall₂ (fun e l => e.same l) (c.operands r) ls)
    (hsimp : List.Forall₂ (fun l e => simplify l = .ok e) ls es)
    (hls : List.Forall₂ (fun l e => e.same l → e = l) ls es) : c.operands r = ls := by
  have hlength := hsame.length_eq.trans hls.length_eq
  cases h with
  | same =>
    rw [operands_build_of_normalOperand hes (List.ne_nil_of_length_pos (by omega))] at hsame ⊢
    exact eq_of_forall₂_same hls hsame
  | @front pre post d heq hpre =>
    subst heq
    rw [operands_build_front hes] at hsame ⊢
    -- the number has been the first operand, for it is the same as the first one simplified
    cases hsame with
    | @cons _ l _ ls hl hrest =>
      cases l <;> simp only [Expr.same, Bool.false_eq_true] at hl
      rename_i d'
      cases pre with
      | cons x pre =>
        obtain ⟨hx, -⟩ := List.forall₂_cons.1 hsimp
        rw [simplify_const] at hx
        obtain rfl := Except.ok.inj hx
        cases hpre (.const d') (by simp)
      | nil =>
        obtain ⟨hd, -⟩ := List.forall₂_cons.1 hsimp
        rw [simplify_const] at hd
        cases hd
        rw [Number.rounded_eq_of_same hl]
        obtain ⟨-, hls⟩ := List.forall₂_cons.1 hls
        rw [eq_of_forall₂_same hls hrest]
        rfl
  | longer h => omega
  | sign x =>
    have hone : (c.operands (.neg x)).length = 1 := by cases c <;> rfl
    omega

/-- What is claimed of the simplified form `r` of an expression `e` whose rank is kept. -/
def Settled (e r : Expr) : Prop :=
  r.Normal ∧ (r.same e → r = e)

lemma chain_settled {l m : Expr} (h : simplify (c.node l m) = .ok r)
    (hrank : r.rank = (c.node l m).rank)
    (ih : ∀ x y, x.rank < (c.node l m).rank → simplify x = .ok y → y.rank = x.rank → Settled x y) :
    Settled (c.node l m) r := by
  rw [simplify_node] at h
  obtain ⟨os, hos, h⟩ := bind_eq_ok_iff.1 h
  obtain ⟨rs, hrs, hos⟩ := bind_eq_ok_iff.1 hos
  obtain rfl := pure_eq_ok_iff.1 hos
  have hsimp := mapM_eq_ok_iff.1 hrs
  have hlen := c.two_le_length_operands l m
  have hlen' := c.length_le_length_flatMap_operands rs
  have htwo : 2 ≤ (rs.flatMap c.operands).length := by
    rw [← hsimp.length_eq] at hlen'
    omega
  have htidy : ∀ e ∈ rs.flatMap c.operands, Tidy e ∧ c.operands e = [e] := by
    intro e he
    obtain ⟨x, hx, he⟩ := List.mem_flatMap.1 he
    have hx := forall_mem_of_forall₂ hsimp (fun _ _ hr => (reduces_of_simplify hr).2) x hx
    exact tidy_of_mem_operands hx he
  -- no operand has lost rank, so each is in normal form now
  have hsize := size_le_of_chain h htwo htidy
  obtain ⟨hle, hexact⟩ := total_le_of_forall₂ c hsimp
  have hfull : c.size r = c.total (c.operands (c.node l m)) := by
    rw [c.total_operands]
    exact Nat.le_antisymm (c.size_mono (Nat.le_of_eq hrank)) (c.size_mono (Nat.le_of_eq hrank.symm))
  rw [c.total_flatMap_operands] at hsize
  have hkept := (List.forall₂_and_left _ _).2
    ⟨fun x hx => Chain.rank_lt_of_mem_operands hx, hexact (Nat.le_antisymm hle (hfull ▸ hsize))⟩
  have hsettled := hkept.imp fun x y hxy => ih x y hxy.1 hxy.2.1 hxy.2.2
  have hnormal := forall_mem_of_forall₂ hsettled fun _ _ hy => hy.1
  have hops : ∀ e ∈ rs.flatMap c.operands, e.NormalOperand c := by
    intro e he
    obtain ⟨x, hx, he⟩ := List.mem_flatMap.1 he
    exact ((hnormal x hx).operands c).1 e he
  rw [← c.total_flatMap_operands rs] at hsize hle
  obtain ⟨hr, hshape⟩ := chain_kept h hops htwo (Nat.le_antisymm hsize (hfull ▸ hle))
  refine ⟨hr, fun hsame => Expr.eq_of_same_of_operands (c := c) hsame ?_⟩
  -- being the same, the result has as many operands as the chain
  have hrs : rs.flatMap c.operands = rs := by
    apply Chain.flatMap_operands_of_length_eq
    have hlength := (Expr.operands_of_same hsame c).length_eq
    have hsimplified := hsimp.length_eq
    rcases hshape.length_le hops htwo with hle | hone <;> omega
  rw [hrs] at hshape hops htwo
  exact hshape.operands_eq hops htwo (Expr.operands_of_same hsame c) hsimp
    (hsettled.imp fun x y hxy => hxy.2)

/-! ### Opposites -/

lemma rank_lt_of_opposite (h : Rules.opposite e = .ok r) (ht : Tidy e) (he : takesSign e = false)
    (hm : ∀ l m, e ≠ .mul l m) : r.rank < (Expr.neg e).rank := by
  cases e with
  | const c =>
    obtain rfl := Except.ok.inj h
    simp [Expr.rank]
  | neg x =>
    obtain rfl := Except.ok.inj h
    have hx := x.two_le_rank
    simp only [Expr.rank]
    omega
  | mul l m => exact absurd rfl (hm l m)
  | other m k es => exact ht.elim
  | add l m =>
    have hr := (reduces_of_simplify h).1
    simp only [Expr.rank] at hr ⊢
    omega
  | sub l m =>
    have hr := (reduces_of_simplify h).1
    simp only [Expr.rank] at hr ⊢
    omega
  | div n d =>
    have hr := (reduces_of_simplify h).1
    simp only [Expr.rank] at hr ⊢
    omega
  | _ => cases he

lemma opposite_of_takesSign (h : takesSign e) : Rules.opposite e = .ok (.neg e) := by
  cases e <;> first | rfl | cases h

/-- An expression that takes a minus sign and has kept its rank takes one still. -/
lemma takesSign_of_rank_eq (h : simplify e = .ok r) (hrank : r.rank = e.rank) (he : takesSign e) :
    takesSign r := by
  cases e with
  | var x =>
    rw [simplify_var] at h
    obtain rfl := Except.ok.inj h
    rfl
  | log b a =>
    rw [simplify_log] at h
    obtain ⟨b', -, h⟩ := bind_eq_ok_iff.1 h
    obtain ⟨a', -, h⟩ := bind_eq_ok_iff.1 h
    obtain rfl := pure_eq_ok_iff.1 h
    rfl
  | pow b p =>
    rw [simplify_pow] at h
    obtain ⟨b', hb, h⟩ := bind_eq_ok_iff.1 h
    obtain ⟨p', hp, h⟩ := bind_eq_ok_iff.1 h
    have hle := Expr.rank_pow_mono (reduces_of_simplify hb).1 (reduces_of_simplify hp).1
    rcases power_kept h with hlt | ⟨rfl, -⟩
    · omega
    · rfl
  | _ => cases he

lemma opposite_settled (h : simplify (.neg e) = .ok r) (hrank : r.rank = (Expr.neg e).rank)
    (ih : ∀ x y, depth x < depth (.neg e) → simplify x = .ok y → y.rank = x.rank → Settled x y) :
    Settled (.neg e) r := by
  rw [simplify_neg] at h
  obtain ⟨x, hx, h⟩ := bind_eq_ok_iff.1 h
  obtain ⟨hle, ht⟩ := reduces_of_simplify hx
  have hpos := e.two_le_rank
  by_cases hsign : takesSign x
  · rw [opposite_of_takesSign hsign] at h
    obtain rfl := Except.ok.inj h
    simp only [Expr.rank] at hrank
    have hlt : e.rank < (Expr.neg e).rank := by simp only [Expr.rank]; omega
    obtain ⟨hn, heq⟩ := ih e x (depth_lt_of_rank_lt hlt) hx (by omega)
    exact ⟨⟨hsign, hn⟩, fun hsame => congrArg Expr.neg (heq hsame)⟩
  · by_cases hm : ∃ l m, x = .mul l m
    · obtain ⟨l, m, rfl⟩ := hm
      have hmul : (Expr.mul (.neg l) m).rank = 2 * (Expr.mul l m).rank := Nat.mul_assoc _ _ _
      have hr := (reduces_of_simplify h).1
      have hneg : (Expr.neg e).rank = 2 * e.rank := rfl
      have hdepth : depth (.mul (.neg l) m) < depth (.neg e) := by
        simp only [depth]
        omega
      obtain ⟨hn, -⟩ := ih _ r hdepth h (by omega)
      refine ⟨hn, fun hsame => ?_⟩
      -- a minus sign in normal form stands before no product
      cases r <;> simp only [Expr.same, Bool.false_eq_true] at hsame
      have he := takesSign_of_same hsame ▸ hn.1
      exact absurd (takesSign_of_rank_eq hx (by omega) he) hsign
    · have hlt := rank_lt_of_opposite h ht (by simpa using hsign) fun l m heq => hm ⟨l, m, heq⟩
      simp only [Expr.rank] at hrank hlt
      omega

/-! ### Quotients and powers -/

lemma quotient_settled {n d : Expr} (h : simplify (.div n d) = .ok r)
    (hrank : r.rank = (Expr.div n d).rank)
    (ih : ∀ x y, x.rank < (Expr.div n d).rank → simplify x = .ok y → y.rank = x.rank →
      Settled x y) :
    Settled (.div n d) r := by
  rw [simplify_div] at h
  obtain ⟨x, hx, h⟩ := bind_eq_ok_iff.1 h
  obtain ⟨y, hy, h⟩ := bind_eq_ok_iff.1 h
  have hlex := (reduces_of_simplify hx).1
  have hley := (reduces_of_simplify hy).1
  simp only [Expr.rank] at hrank ih
  rcases quotient_kept h with hlt | ⟨rfl, hconst⟩
  · simp only [Expr.rank] at hlt
    omega
  · simp only [Expr.rank] at hrank
    obtain ⟨hnx, heqx⟩ := ih n x (by omega) hx (by omega)
    obtain ⟨hny, heqy⟩ := ih d y (by omega) hy (by omega)
    refine ⟨⟨hnx, hny, hconst⟩, fun hsame => ?_⟩
    simp only [Expr.same, Bool.and_eq_true] at hsame
    rw [heqx hsame.1, heqy hsame.2]

lemma power_settled {b p : Expr} (h : simplify (.pow b p) = .ok r)
    (hrank : r.rank = (Expr.pow b p).rank)
    (ih : ∀ x y, x.rank < (Expr.pow b p).rank → simplify x = .ok y → y.rank = x.rank →
      Settled x y) :
    Settled (.pow b p) r := by
  rw [simplify_pow] at h
  obtain ⟨x, hx, h⟩ := bind_eq_ok_iff.1 h
  obtain ⟨y, hy, h⟩ := bind_eq_ok_iff.1 h
  have hlex := (reduces_of_simplify hx).1
  have hley := (reduces_of_simplify hy).1
  rcases power_kept h with hlt | ⟨rfl, hpower⟩
  · have hle := Expr.rank_pow_mono hlex hley
    omega
  · have hpos := b.two_le_rank
    have hpos' := p.two_le_rank
    have hposx := x.two_le_rank
    obtain ⟨hbase, hexponent⟩ :=
      Chain.eq_of_join_eq_join (c := .product) (Nat.add_right_cancel hrank)
      (Nat.sub_le_sub_right hlex 1) hley (Nat.le_sub_of_add_le hpos) (Nat.le_of_succ_le hpos')
    obtain ⟨hnx, heqx⟩ := ih b x (Expr.rank_base_lt_pow b p) hx (by omega)
    obtain ⟨hny, heqy⟩ := ih p y (Expr.rank_exponent_lt_pow b p) hy hexponent
    refine ⟨⟨hnx, hny, hpower⟩, fun hsame => ?_⟩
    simp only [Expr.same, Bool.and_eq_true] at hsame
    rw [heqx hsame.1, heqy hsame.2]

end Simplify

/-- An expression that has kept its rank is in normal form now. -/
theorem normal_of_rank_eq (h : simplify e = .ok r) (hrank : r.rank = e.rank) : Settled e r := by
  induction hn : depth e using Nat.strong_induction_on generalizing e r with
  | h n ih =>
    subst hn
    have ih (x y : Expr) (hlt : depth x < depth e) (hy : simplify x = .ok y)
        (hrank : y.rank = x.rank) : Settled x y := ih (depth x) hlt hy hrank rfl
    have ihlt (x y : Expr) (hlt : x.rank < e.rank) := ih x y (depth_lt_of_rank_lt hlt)
    cases e with
    | const c =>
      rw [simplify_const] at h
      obtain rfl := Except.ok.inj h
      exact ⟨trivial, fun _ => rfl⟩
    | var x =>
      rw [simplify_var] at h
      obtain rfl := Except.ok.inj h
      exact ⟨trivial, fun _ => rfl⟩
    | add l m => exact chain_settled (c := .sum) h hrank ihlt
    | mul l m => exact chain_settled (c := .product) h hrank ihlt
    | sub l m =>
      rw [simplify_sub] at h
      obtain ⟨x, hx, h⟩ := bind_eq_ok_iff.1 h
      obtain ⟨y, hy, h⟩ := bind_eq_ok_iff.1 h
      obtain ⟨z, hz, h⟩ := bind_eq_ok_iff.1 h
      have hx := (reduces_of_simplify hx).1
      have hy := (reduces_of_simplify hy).1
      have hz := (reduces_of_simplify hz).1
      have hr := (reduces_of_simplify h).1
      simp only [Expr.rank] at hrank hz hr
      omega
    | div n d => exact quotient_settled h hrank ihlt
    | log b a =>
      rw [simplify_log] at h
      obtain ⟨x, hx, h⟩ := bind_eq_ok_iff.1 h
      obtain ⟨y, hy, h⟩ := bind_eq_ok_iff.1 h
      obtain rfl := pure_eq_ok_iff.1 h
      have hlex := (reduces_of_simplify hx).1
      have hley := (reduces_of_simplify hy).1
      simp only [Expr.rank] at hrank ihlt
      obtain ⟨hnx, heqx⟩ := ihlt b x (by omega) hx (by omega)
      obtain ⟨hny, heqy⟩ := ihlt a y (by omega) hy (by omega)
      refine ⟨⟨hnx, hny⟩, fun hsame => ?_⟩
      simp only [Expr.same, Bool.and_eq_true] at hsame
      rw [heqx hsame.1, heqy hsame.2]
    | pow b p => exact power_settled h hrank ihlt
    | neg x => exact opposite_settled h hrank ih
    | other m k es =>
      rw [simplify_other] at h
      cases h

/-- The expressions that simplification leaves the same are those in normal form. They must be the
same as themselves, which fails only where a constant is not a number. -/
theorem simplify_same_iff : (∃ r, simplify e = .ok r ∧ r.same e) ↔ e.Normal ∧ e.same e := by
  constructor
  · rintro ⟨r, hr, hsame⟩
    obtain ⟨hn, heq⟩ := normal_of_rank_eq hr (Expr.rank_of_same hsame)
    obtain rfl := heq hsame
    exact ⟨hn, hsame⟩
  · rintro ⟨hn, hsame⟩
    exact ⟨e, simplify_of_normal hn, hsame⟩

/-- To simplify again leaves what it was the same just where simplification leads to a normal
form. -/
theorem simplify_idempotent_iff (e : Expr) :
    (∀ r, simplify e = .ok r → ∃ r', simplify r = .ok r' ∧ r'.same r) ↔
      ∀ r, simplify e = .ok r → r.Normal ∧ r.same r := by
  constructor
  · intro h r hr
    exact simplify_same_iff.1 (h r hr)
  · intro h r hr
    exact simplify_same_iff.2 (h r hr)

/-- The like terms of `x + (3 * (x + y) + -2 * (x + y))` leave the sum `x + y` as an operand, with
the variable `x` that is an operand already. -/
theorem not_simplify_idempotent_of_collected_sum :
    let x : Expr := .var "x"
    let y : Expr := .var "y"
    let e : Expr := .add x (.add (.mul (.const 3) (.add x y)) (.mul (.const (-2)) (.add x y)))
    simplify e = .ok (.add x (.add x y)) ∧
      simplify (.add x (.add x y)) = .ok (.add (.mul (.const 2) x) y) ∧
        (Expr.add (.mul (.const 2) x) y).same (.add x (.add x y)) = false := by
  decide +kernel

end SymbolicAlgebra
