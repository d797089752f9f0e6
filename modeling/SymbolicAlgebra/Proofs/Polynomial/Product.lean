import SymbolicAlgebra.Proofs.NormalForm.Product
import SymbolicAlgebra.Proofs.Polynomial

/-!
# Simplification of monomials

The operands of simplified monomials are constants, powers of variables and their opposites.
Collected, they are powers of different variables, for the bases are told apart by their names. So a
product of such operands is a constant or a term (`exists_product_isSummand`), and a monomial is
simplified to one (`exists_simplify_isSummand`).
-/

namespace SymbolicAlgebra

open Simplify

variable {e r f x : Expr} {es fs ps : List Expr} {k : Number} {q : Rat}
variable {y : String} {n : Nat} {p : String × Nat}

/-- An operand of a simplified monomial. -/
inductive IsFactorOperand : Expr → Prop
  | const {k : Number} (hk : k.isExact) : IsFactorOperand (.const k)
  | power {f : Expr} {p : String × Nat} (hf : IsLetterPower f p) : IsFactorOperand f
  | neg {f : Expr} {p : String × Nat} (hf : IsLetterPower f p) : IsFactorOperand (.neg f)

lemma isSummand_const (hk : k.isExact) : IsSummand (.const k) := by
  obtain ⟨q, hq⟩ := Number.exists_exactValue?_of_isExact hk
  exact .inl ⟨q, k, rfl, hq⟩

/-- What was gathered from powers of different variables is a constant or a term. -/
lemma isSummand_toProduct {ls : List (String × Nat)} (hk : k.isExact) (h : AreLetterPowers fs ls) :
    IsSummand (Gathered.toProduct ⟨k, fs⟩) := by
  obtain ⟨q, hq⟩ := Number.exists_exactValue?_of_isExact hk
  by_cases hzero : q = 0
  · rw [Gathered.toProduct, if_pos ((Number.isZero_iff hq).2 hzero)]
    exact isSummand_const hk
  by_cases hne : fs = []
  · rw [hne, toProduct_nil]
    exact isSummand_const hk
  · exact .inr ⟨(exponents ls, q), k, fs, ls, rfl, hq, hzero, hne, h, rfl⟩

lemma isSummand_of_isLetterPower (h : IsLetterPower f p) : IsSummand f ∧ IsSummand (.neg f) := by
  have hfs : AreLetterPowers [f] [p] := ⟨.cons h .nil, by simp⟩
  constructor
  · have hone : Gathered.toProduct ⟨1, [f]⟩ = f := by
      rw [toProduct_eq (Number.exactValue?_ofNat 1) (by simp) hfs (by simp), if_neg (by norm_num),
        if_pos (by simp)]
      rfl
    exact hone ▸ isSummand_toProduct rfl hfs
  · have hminus : Gathered.toProduct ⟨.integer (-1), [f]⟩ = .neg f := by
      rw [toProduct_eq (Number.exactValue?_integer (-1)) (by simp) hfs (by simp), if_pos (by simp)]
      rfl
    exact hminus ▸ isSummand_toProduct rfl hfs

/-! ### Operands -/

lemma IsFactorOperand.operands (h : IsFactorOperand e) (c : Chain) : c.operands e = [e] := by
  cases h with
  | const => cases c <;> rfl
  | power hf => exact hf.operands c
  | neg => cases c <;> rfl

/-- How a constant or a term is put together. -/
lemma IsSummand.cases (h : IsSummand r) : (∃ k : Number, k.isExact ∧ r = .const k) ∨
    (∃ f p, IsLetterPower f p ∧ (r = f ∨ r = .neg f)) ∨
      ∃ e e' es, r = .mul e (Chain.product.link e' es) ∧
        ((∃ k : Number, k.isExact ∧ e = .const k) ∨ ∃ p, IsLetterPower e p) ∧
          ∀ f ∈ e' :: es, ∃ p, IsLetterPower f p := by
  rcases h with ⟨q, k, rfl, hk⟩ | ⟨p, k, fs, ls, rfl, hk, hc, hne, hfs, -⟩
  · exact .inl ⟨k, Number.isExact_of_exactValue? hk, rfl⟩
  obtain ⟨f, fs, rfl⟩ := List.exists_cons_of_ne_nil hne
  have hpowers := hfs.exists_of_mem
  obtain ⟨l, hf⟩ := hpowers f List.mem_cons_self
  rw [toProduct_eq hk hc hfs hne]
  split
  · next hminus =>
    rw [List.length_cons, Nat.add_eq_right, List.length_eq_zero_iff] at hminus
    rw [hminus.2]
    exact .inr (.inl ⟨f, l, hf, .inr rfl⟩)
  split
  · cases fs with
    | nil => exact .inr (.inl ⟨f, l, hf, .inl rfl⟩)
    | cons f' fs =>
      exact .inr (.inr ⟨f, f', fs, rfl, .inr ⟨l, hf⟩, fun x hx => hpowers x (.tail f hx)⟩)
  · exact .inr
      (.inr ⟨.const k, f, fs, rfl, .inl ⟨k, Number.isExact_of_exactValue? hk, rfl⟩, hpowers⟩)

lemma operands_of_link (h : ∀ f ∈ e :: es, IsFactorOperand f) :
    Chain.product.operands (Chain.product.link e es) = e :: es := by
  rw [Chain.operands_link, Chain.flatMap_operands]
  intro f hf
  exact (h f hf).operands .product

lemma IsSummand.isFactorOperand (h : IsSummand r) :
    ∀ x ∈ Chain.product.operands r, IsFactorOperand x := by
  rcases h.cases with ⟨k, hk, rfl⟩ | ⟨f, p, hf, rfl | rfl⟩ | ⟨e, e', es, rfl, he, hes⟩
  · intro x hx
    rw [List.mem_singleton.1 hx]
    exact .const hk
  · intro x hx
    rw [hf.operands .product, List.mem_singleton] at hx
    rw [hx]
    exact .power hf
  · intro x hx
    rw [List.mem_singleton.1 hx]
    exact .neg hf
  · have hes (f : Expr) (hf : f ∈ e' :: es) : IsFactorOperand f := by
      obtain ⟨p, hp⟩ := hes f hf
      exact .power hp
    have he : IsFactorOperand e := by
      rcases he with ⟨k, hk, rfl⟩ | ⟨p, hp⟩
      · exact .const hk
      · exact .power hp
    rw [Chain.operands_product_mul, he.operands, operands_of_link hes]
    intro x hx
    rcases List.mem_append.1 hx with hx | hx
    · rw [List.mem_singleton.1 hx]
      exact he
    · exact hes x hx

namespace Simplify

/-! ### Entries with labels -/

/-- Entries of a collector with labels that differ. -/
def AreLabelled {α κ : Type} (R : α → κ → Prop) (as : List α) : Prop :=
  ∃ is, List.Forall₂ R as is ∧ is.Nodup

/-- An operand is added to the entry with its label, or else after all others. -/
lemma AreLabelled.insert {α κ : Type} {C : Collector α} {R : α → κ → Prop} {as : List α} {i : κ}
    {e k : Expr} (h : AreLabelled R as) (hstart : R (C.start k e) i)
    (hpush : ∀ a j, R a j → R (C.push e a) j) (hkey : ∀ a, R a i → C.keyOf a == k) :
    AreLabelled R (C.insert k e as) := by
  obtain ⟨is, his, hnodup⟩ := h
  suffices ∃ js, List.Forall₂ R (C.insert k e as) js ∧ js.Nodup ∧ ∀ j ∈ js, j ∈ is ∨ j = i by
    obtain ⟨js, hjs, hnodup, -⟩ := this
    exact ⟨js, hjs, hnodup⟩
  induction his with
  | nil => exact ⟨[i], .cons hstart .nil, by simp, by simp⟩
  | @cons a j as is ha has ih =>
    obtain ⟨hj, hnodup⟩ := List.nodup_cons.1 hnodup
    rw [Collector.insert]
    split
    · exact ⟨j :: is, .cons (hpush a j ha) has, List.nodup_cons.2 ⟨hj, hnodup⟩, fun _ => .inl⟩
    · next hdiff =>
      obtain ⟨js, hjs, hnodup, hsub⟩ := ih hnodup
      have hne : j ≠ i := by
        rintro rfl
        exact hdiff (hkey a ha)
      refine ⟨j :: js, .cons ha hjs, List.nodup_cons.2 ⟨fun hmem => ?_, hnodup⟩, ?_⟩
      · exact (hsub j hmem).elim hj hne
      · intro l hl
        rcases List.mem_cons.1 hl with rfl | hl
        · exact .inl List.mem_cons_self
        · exact (hsub l hl).imp_left (List.mem_cons_of_mem j)

/-! ### Collecting powers -/

/-- Like factors that are powers of one variable. -/
structure IsPowersOf (f : LikeFactors) (y : String) : Prop where
  name : y.length = 1
  key : f.key = .var y
  base : f.base = .var y
  nonempty : f.exponents ≠ []
  exponents : ∀ p ∈ f.exponents, ∃ n : Nat, 1 ≤ n ∧ IsValue p n

lemma splitExponent_of_isLetterPower (h : IsLetterPower f p) :
    ∃ b, splitExponent f = (.var p.1, b) ∧ IsValue b p.2 := by
  cases h with
  | var => exact ⟨.const 1, rfl, 1, rfl, rfl⟩
  | pow hx hc => exact ⟨_, rfl, _, rfl, hc⟩

/-- A power is added to those of its variable. -/
lemma areLabelled_addFactor {s : CollectedProduct} (h : AreLabelled IsPowersOf s.factors)
    (hf : IsLetterPower f p) : ∃ s', s.addFactor f = .ok s' ∧ s'.constant = s.constant ∧
      AreLabelled IsPowersOf s'.factors := by
  obtain ⟨b, hsplit, hb⟩ := splitExponent_of_isLetterPower hf
  have hkey : factorCollector.key f = .ok (.var p.1) := by
    show (splitExponent f).1.likeKey = _
    rw [hsplit]
    rfl
  have hadd : s.addFactor f =
      .ok { s with factors := factorCollector.insert (.var p.1) f s.factors } := by
    rw [CollectedProduct.addFactor_eq_add, Collector.add, hkey]
    rfl
  refine ⟨_, hadd, rfl,
    h.insert ⟨hf.length_eq, rfl, ?_, by simp [factorCollector], fun x hx => ?_⟩ ?_ ?_⟩
  · exact congrArg Prod.fst hsplit
  · rw [List.mem_singleton.1 hx, hsplit]
    exact ⟨p.2, hf.one_le, hb⟩
  · intro g y hg
    refine ⟨hg.name, hg.key, hg.base, by simp [factorCollector], fun x hx => ?_⟩
    rcases List.mem_append.1 hx with hx | hx
    · exact hg.exponents x hx
    · rw [List.mem_singleton.1 hx, hsplit]
      exact ⟨p.2, hf.one_le, hb⟩
  · intro g hg
    show (g.key == .var p.1) = true
    rw [hg.key]
    exact beq_self_eq_true p.1

/-- What becomes of the operands of simplified monomials. -/
def ProductOutcome.IsOfPowers : ProductOutcome → Prop
  | .zero k => k.isExact
  | .collected s => s.constant.isExact ∧ AreLabelled IsPowersOf s.factors

lemma exists_collectFactors {s : CollectedProduct} (hes : ∀ x ∈ es, IsFactorOperand x)
    (hk : s.constant.isExact) (hs : AreLabelled IsPowersOf s.factors) :
    ∃ out, collectFactors es s = .ok out ∧ out.IsOfPowers := by
  induction es generalizing s with
  | nil => exact ⟨.collected s, rfl, hk, hs⟩
  | cons e es ih =>
    have hrest (x : Expr) (hx : x ∈ es) := hes x (.tail e hx)
    cases hes e List.mem_cons_self with
    | @const j hj =>
      rw [collectFactors]
      split
      · exact ⟨.zero j, rfl, hj⟩
      · exact ih (s := { s with constant := s.constant * j }) hrest (Number.isExact_mul hk hj) hs
    | neg hf =>
      obtain ⟨s', hs', hconst, hpowers⟩ :=
        areLabelled_addFactor (s := { s with constant := -s.constant }) hs hf
      rw [collectFactors, hs']
      exact ih hrest (hconst ▸ Number.isExact_neg hk) hpowers
    | power hf =>
      obtain ⟨s', hs', hconst, hpowers⟩ := areLabelled_addFactor hs hf
      rw [collectFactors_cons es s (by rintro c rfl; cases hf) (by rintro u rfl; cases hf), hs']
      exact ih hrest (hconst ▸ hk) hpowers

/-! ### Gathering powers -/

lemma exists_value_of_exponents (h : ∀ p ∈ ps, ∃ n : Nat, 1 ≤ n ∧ IsValue p n) :
    ∃ n : Nat, ps.length ≤ n ∧ ∀ ν, Chain.sum.value ν ps = some (n : Rat) := by
  induction ps with
  | nil => exact ⟨0, Nat.le_refl 0, fun ν => congrArg some Nat.cast_zero.symm⟩
  | cons p ps ih =>
    obtain ⟨m, hm, k, rfl, hk⟩ := h p List.mem_cons_self
    obtain ⟨n, hn, hps⟩ := ih fun x hx => h x (.tail _ hx)
    refine ⟨m + n, ?_, fun ν => ?_⟩
    · rw [List.length_cons, Nat.add_comm]
      exact Nat.add_le_add hm hn
    rw [Chain.value_cons_eq_some_iff]
    exact ⟨m, n, hk, hps ν, (Nat.cast_add m n).symm⟩

lemma isArithmetic_link (he : e.IsArithmetic) (h : ∀ x ∈ es, x.IsArithmetic) :
    (Chain.sum.link e es).IsArithmetic := by
  induction es generalizing e with
  | nil => exact he
  | cons x es ih => exact ⟨he, ih (h x List.mem_cons_self) fun y hy => h y (.tail x hy)⟩

lemma isArithmetic_of_isValue (h : IsValue e q) : e.IsArithmetic := by
  obtain ⟨k, rfl, hk⟩ := h
  exact Number.isExact_of_exactValue? hk

/-- A power of a variable with a whole exponent. -/
lemma simplify_letterPower {y : String} {p : Expr} (hp : p.IsArithmetic)
    (hvalue : ∀ ν, p.value ν = some (n : Rat)) (hn : 2 ≤ n) :
    ∃ k, simplify (.pow (.var y) p) = .ok (.pow (.var y) (.const k)) ∧
      k.exactValue? = some (n : Rat) := by
  obtain ⟨k, hk, hval⟩ := exists_simplify_of_value hp (hvalue ⟨fun _ => 0, fun _ _ => none⟩)
  refine ⟨k, ?_, hval⟩
  have hone : ¬k.isOne := by
    rw [Number.isOne_iff hval]
    exact_mod_cast Nat.ne_of_gt hn
  have hzero : ¬k.isZero := by
    rw [Number.isZero_iff hval]
    exact_mod_cast Nat.ne_of_gt (Nat.lt_of_lt_of_le Nat.two_pos hn)
  rw [simplify_pow, simplify_var, hk]
  show Rules.power (.var y) (.const k) = _
  rw [Rules.power, if_neg hone, if_neg hzero]
  rfl

/-- Several exponents of a variable are added up. -/
lemma exists_simplify_powers (hy : y.length = 1) (h : ∀ p ∈ ps, ∃ n : Nat, 1 ≤ n ∧ IsValue p n)
    (hlen : 2 ≤ ps.length) :
    ∃ r n, simplify (.pow (.var y) (Chain.sum.build ps)) = .ok r ∧ IsLetterPower r (y, n) := by
  obtain ⟨n, hn, hvalue⟩ := exists_value_of_exponents h
  have harith (x : Expr) (hx : x ∈ ps) : x.IsArithmetic := by
    obtain ⟨_, _, hv⟩ := h x hx
    exact isArithmetic_of_isValue hv
  match ps with
  | p :: ps =>
    have hsum := isArithmetic_link (harith p List.mem_cons_self) fun x hx => harith x (.tail p hx)
    obtain ⟨k, hk, hval⟩ := simplify_letterPower (y := y) hsum
      (fun ν => (Chain.value_link .sum ν p ps).trans (hvalue ν)) (hlen.trans hn)
    exact ⟨_, n, hk, .pow hy hval (hlen.trans hn)⟩

/-- Like factors are put together to a power of their variable. -/
lemma IsPowersOf.exists_toFactor {g : LikeFactors} (h : IsPowersOf g y) :
    ∃ r n, Rules.toFactor g = .ok r ∧ IsLetterPower r (y, n) := by
  obtain ⟨hname, -, hbase, hne, hexponents⟩ := h
  rw [Rules.toFactor, hbase]
  split
  · next p hp =>
    rw [hp] at hexponents
    obtain ⟨n, hn, k, rfl, hk⟩ := hexponents p (by simp)
    have hlong : refuseLongConstant (.const k) = .ok () :=
      Number.refuseLong_of_isExact (Number.isExact_of_exactValue? hk)
    rw [hlong]
    by_cases hone : (Expr.const k == .const 1) = true
    · exact ⟨_, 1, congrArg Except.ok (if_pos hone), .var hname⟩
    · have hne : (n : Rat) ≠ 1 := fun heq => hone ((Number.same_iff hk (y := 1) rfl).2 heq)
      refine ⟨_, n, congrArg Except.ok (if_neg hone), .pow hname hk ?_⟩
      have hdiff : n ≠ 1 := by exact_mod_cast hne
      exact Nat.lt_of_le_of_ne hn hdiff.symm
  · next hsingle =>
    have hlen : 2 ≤ g.exponents.length := by
      match hes : g.exponents with
      | [] => exact absurd hes hne
      | [p] => exact absurd hes (hsingle p)
      | p :: p' :: ps => simp
    exact exists_simplify_powers hname hexponents hlen

lemma exists_letterPowers {gs : List LikeFactors} (h : AreLabelled IsPowersOf gs) :
    ∃ fs ls, gs.mapM Rules.toFactor = .ok fs ∧ AreLetterPowers fs ls := by
  obtain ⟨ys, hys, hnodup⟩ := h
  obtain ⟨fs, ls, hfs, hls, rfl⟩ : ∃ fs ls, gs.mapM Rules.toFactor = .ok fs ∧
      List.Forall₂ IsLetterPower fs ls ∧ ls.map Prod.fst = ys := by
    clear hnodup
    induction hys with
    | nil => exact ⟨[], [], rfl, .nil, rfl⟩
    | cons hg _ ih =>
      obtain ⟨f, n, hf, hn⟩ := hg.exists_toFactor
      obtain ⟨fs, ls, hfs, hls, rfl⟩ := ih
      exact ⟨f :: fs, (_, n) :: ls, by rw [List.mapM_cons, hf, hfs]; rfl, .cons hn hls, rfl⟩
  exact ⟨fs, ls, hfs, hls, hnodup⟩

/-- A product of operands of simplified monomials is a constant or a term. -/
lemma exists_product_isSummand (hes : ∀ x ∈ es, IsFactorOperand x) :
    ∃ r, Rules.product es = .ok r ∧ IsSummand r := by
  obtain ⟨out, hout, hpowers⟩ := exists_collectFactors (s := ⟨1, []⟩) hes rfl ⟨[], .nil, .nil⟩
  rw [Rules.product, hout]
  cases out with
  | zero k => exact ⟨.const k, rfl, isSummand_const hpowers⟩
  | collected s =>
    obtain ⟨hk, hpowers⟩ := hpowers
    obtain ⟨fs, ls, hfs, hls⟩ := exists_letterPowers hpowers
    have hconst (f : Expr) (hf : f ∈ fs) : f.isConstant = false := by
      obtain ⟨p, hp⟩ := hls.exists_of_mem f hf
      cases hp <;> rfl
    have hgather : Rules.gatherFactors s = .ok ⟨s.constant, fs⟩ := by
      rw [Rules.gatherFactors, hfs]
      exact congrArg Except.ok (Gathered.foldl_add _ hconst)
    have hlong : Gathered.refuseLong ⟨s.constant, fs⟩ = .ok () := by
      rw [Gathered.refuseLong, Number.refuseLong_of_isExact hk, ite_self]
    refine ⟨Gathered.toProduct ⟨s.constant, fs⟩, ?_, isSummand_toProduct hk hls⟩
    show Rules.productOf (.collected s) = _
    exact bind_eq_ok_iff.2 ⟨_, hgather, bind_eq_ok_iff.2 ⟨(), hlong, rfl⟩⟩

/-! ### Monomials -/

lemma exists_simplify_isLetterPower (h : IsLetterPower f p) :
    ∃ r, simplify f = .ok r ∧ IsLetterPower r p := by
  cases h with
  | @var x hx => exact ⟨.var x, simplify_var x, .var hx⟩
  | @pow x c n hx hc hn =>
    obtain ⟨k, hk, hval⟩ := simplify_letterPower (y := x) (isArithmetic_of_isValue ⟨c, rfl, hc⟩)
      (fun _ => hc) hn
    exact ⟨_, hk, .pow hx hval hn⟩

lemma exists_opposite_isLetterPower (h : IsLetterPower f p) :
    ∃ r, Rules.opposite f = .ok r ∧ IsSummand r := by
  refine ⟨.neg f, ?_, (isSummand_of_isLetterPower h).2⟩
  cases h <;> rfl

lemma exists_simplify_isFactorOperand (h : IsFactorOperand x) :
    ∃ r, simplify x = .ok r ∧ IsSummand r := by
  cases h with
  | @const k hk => exact ⟨.const k, simplify_const k, isSummand_const hk⟩
  | power hf =>
    obtain ⟨r, hr, hpower⟩ := exists_simplify_isLetterPower hf
    exact ⟨r, hr, (isSummand_of_isLetterPower hpower).1⟩
  | neg hf =>
    obtain ⟨r, hr, hpower⟩ := exists_simplify_isLetterPower hf
    rw [simplify_neg, hr]
    exact exists_opposite_isLetterPower hpower

/-- An expression whose operands, as a product, are simplified to constants and terms. -/
def HasSummands (e : Expr) : Prop :=
  ∀ x ∈ Chain.product.operands e, ∃ r, simplify x = .ok r ∧ IsSummand r

lemma HasSummands.exists_simplify (h : HasSummands e) : ∃ r, simplify e = .ok r ∧ IsSummand r := by
  cases e using Chain.induct .product with
  | leaf e hops => exact h e (by simp [hops])
  | node l m =>
    obtain ⟨rs, hrs, hsummands⟩ := exists_mapM_eq_ok h
    rw [simplify_node, Rules.operands, hrs]
    apply exists_product_isSummand
    intro y hy
    obtain ⟨r, hr, hy⟩ := List.mem_flatMap.1 hy
    exact (hsummands r hr).isFactorOperand y hy

lemma hasSummands_of_operands (hops : Chain.product.operands e = [e])
    (h : ∃ r, simplify e = .ok r ∧ IsSummand r) : HasSummands e := by
  intro x hx
  rw [hops, List.mem_singleton] at hx
  exact hx ▸ h

/-- The opposite of a constant or a term is another one. -/
lemma exists_opposite_isSummand (h : IsSummand e) :
    ∃ r, Rules.opposite e = .ok r ∧ IsSummand r := by
  rcases h.cases with ⟨k, hk, rfl⟩ | ⟨f, p, hf, rfl | rfl⟩ | ⟨x, y, es, rfl, hx, hes⟩
  · exact ⟨.const (-k), rfl, isSummand_const (Number.isExact_neg hk)⟩
  · exact exists_opposite_isLetterPower hf
  · exact ⟨f, rfl, (isSummand_of_isLetterPower hf).1⟩
  · refine HasSummands.exists_simplify (e := .mul (.neg x) (Chain.product.link y es)) ?_
    have hfactors (f : Expr) (hf : f ∈ y :: es) : IsFactorOperand f := by
      obtain ⟨p, hp⟩ := hes f hf
      exact .power hp
    intro z hz
    rw [Chain.operands_product_mul, operands_of_link hfactors] at hz
    rcases List.mem_append.1 hz with hz | hz
    · rw [List.mem_singleton.1 hz]
      rcases hx with ⟨k, hk, rfl⟩ | ⟨p, hp⟩
      · rw [simplify_neg, simplify_const]
        exact ⟨.const (-k), rfl, isSummand_const (Number.isExact_neg hk)⟩
      · exact exists_simplify_isFactorOperand (.neg hp)
    · exact exists_simplify_isFactorOperand (hfactors z hz)

lemma exists_power_isSummand (hy : y.length = 1) (hk : k.exactValue? = some (n : Rat)) :
    ∃ r, Rules.power (.var y) (.const k) = .ok r ∧ IsSummand r := by
  rw [Rules.power]
  split
  · exact ⟨.var y, rfl, (isSummand_of_isLetterPower (.var hy)).1⟩
  · next hone =>
    split
    · exact ⟨.const 1, rfl, isSummand_const rfl⟩
    · next hzero =>
      rw [Number.isOne_iff hk] at hone
      rw [Number.isZero_iff hk] at hzero
      have hn : 2 ≤ n := (Nat.two_le_iff n).2 ⟨by exact_mod_cast hzero, by exact_mod_cast hone⟩
      exact ⟨.pow (.var y) (.const k), rfl, (isSummand_of_isLetterPower (.pow hy hk hn)).1⟩

lemma hasSummands_of_isMonomial (h : IsMonomial e) : HasSummands e := by
  induction h with
  | const hc => exact hasSummands_of_operands rfl (exists_simplify_isFactorOperand (.const hc))
  | var hx => exact hasSummands_of_operands rfl (exists_simplify_isFactorOperand (.power (.var hx)))
  | pow hx hk =>
    apply hasSummands_of_operands rfl
    rw [simplify_pow, simplify_var, simplify_const]
    exact exists_power_isSummand hx hk
  | mul _ _ ihl ihr =>
    intro x hx
    rw [Chain.operands_product_mul, List.mem_append] at hx
    exact hx.elim (ihl x) (ihr x)
  | neg _ ih =>
    apply hasSummands_of_operands rfl
    obtain ⟨r, hr, hsummand⟩ := ih.exists_simplify
    rw [simplify_neg, hr]
    exact exists_opposite_isSummand hsummand

end Simplify

/-- A monomial is simplified to a constant or a term. -/
theorem exists_simplify_isSummand (h : IsMonomial e) : ∃ r, simplify e = .ok r ∧ IsSummand r :=
  (hasSummands_of_isMonomial h).exists_simplify

end SymbolicAlgebra
