import SymbolicAlgebra.Proofs.Grammar.Soundness

/-!
# What derives from the grammar is read

Where tokens derive from a nonterminal, and what follows does not continue the derivation, its
reader takes them off the front and gives what the derivation stands for (`Takes`). So a statement
is read from every list of tokens that derives from the grammar, unless a numeral in it is refused
(`Statement.ofTokens_of_yield_eq`).
-/

namespace SymbolicAlgebra

open Grammar Nonterminal

namespace Reader

/-- Whether a reader takes whatever derives from a nonterminal in at most `k` lexemes, unless it is
continued by what follows. -/
def Takes (config : Config) (n : Nonterminal) (k : Nat) (R : Reader n.Meaning) : Prop :=
  ∀ (d : Derivation n) (ts rest : List Token), ts.map Token.lexeme = d.yield → ts.length ≤ k →
    n.Ends (rest.map Token.lexeme) → R (ts ++ rest) = (d.meaning config).map (·, rest)

variable {config : Config} {k : Nat} {ts rest : List Token}

lemma Takes.mono {n : Nonterminal} {R : Reader n.Meaning} {j : Nat} (h : Takes config n k R)
    (hjk : j ≤ k) : Takes config n j R := by
  intro d ts rest hts hj
  exact h d ts rest hts (hj.trans hjk)

/-! ### Chains -/

/-- Where no symbol continues a chain, no operation of its level follows. -/
lemma operatorOf?_of_ends {level : Level}
    (h : (Nonterminal.chain level).Ends (ts.map Token.lexeme)) : operatorOf? level ts = none := by
  rw [Option.eq_none_iff_forall_ne_some]
  rintro ⟨op, rest⟩ hop
  obtain ⟨p, rfl, rfl⟩ := operatorOf?_eq_some_iff.1 hop
  exact absurd rfl (h op.symbol (symbol_mem_continuations op))

lemma operations_of_ends {level : Level} {O : Reader Expr} (n : Nat) (e : Expr)
    (h : (Nonterminal.chain level).Ends (ts.map Token.lexeme)) :
    operations level O n e ts = .ok (e, ts) := by
  cases n with
  | zero => rfl
  | succ n => rw [operations, operatorOf?_of_ends h]

/-- The operands of a product do not begin with a star. -/
lemma yield_unary_head (d : Derivation .unary) : d.yield.head? ≠ some (.symbol .star) := by
  cases d with
  | minus e => simp
  | plus e => simp
  | unsigned e =>
    obtain ⟨l, ls, he, hl⟩ := e.exists_yield_power
    rw [Derivation.yield, he]
    rintro ⟨⟩
    cases hl

lemma yield_unary_ne_nil (d : Derivation .unary) : d.yield ≠ [] := by
  cases d with
  | minus e => simp
  | plus e => simp
  | unsigned e =>
    obtain ⟨l, ls, he, -⟩ := e.exists_yield_power
    simp [he]

lemma refuseDoubleStar_of_yield_eq {op : Operator} (d : Derivation (.operand op.level))
    (h : ts.map Token.lexeme = d.yield) : refuseDoubleStar op (ts ++ rest) = .ok () := by
  unfold refuseDoubleStar
  split
  · next p ts' hts =>
    split
    · next hop =>
      subst hop
      cases ts with
      | nil => exact absurd h.symm (yield_unary_ne_nil d)
      | cons t ts =>
        obtain ⟨rfl, -⟩ := List.cons.inj hts
        exact absurd (congrArg List.head? h).symm (yield_unary_head d)
    · rfl
  · rfl

lemma operations_takes {level : Level} {O : Reader Expr} (hO : Takes config (.operand level) k O)
    {n : Nat} {e : Expr} (d : Derivation (.more level)) (hts : ts.map Token.lexeme = d.yield)
    (hk : ts.length ≤ k) (hn : ts.length ≤ n)
    (hrest : (Nonterminal.chain level).Ends (rest.map Token.lexeme)) :
    operations level O n e (ts ++ rest) =
      (d.meaning config).map fun os => (os.foldl (fun e o => o.1.node e o.2) e, rest) := by
  induction n generalizing e ts d with
  | zero =>
    obtain rfl : ts = [] := by simpa using hn
    cases d with
    | done => rfl
    | next => cases hts
  | succ n ih =>
    cases d with
    | done =>
      obtain rfl : ts = [] := by simpa using hts
      exact operations_of_ends (n + 1) e hrest
    | next op _ hop f fs =>
      subst hop
      obtain ⟨⟨_, p⟩, ts', rfl, rfl, hts'⟩ := List.map_eq_cons_iff.1 hts
      obtain ⟨tsf, tsfs, rfl, hf, hfs⟩ := List.map_eq_append_iff.1 hts'
      have hop : operatorOf? op.level
          (⟨.symbol op.symbol, p⟩ :: (tsf ++ (tsfs ++ rest))) = some (op, tsf ++ (tsfs ++ rest)) :=
        operatorOf?_eq_some_iff.2 ⟨p, rfl, rfl⟩
      have hends : (Nonterminal.operand op.level).Ends ((tsfs ++ rest).map Token.lexeme) := by
        rw [List.map_append, hfs]
        exact fs.ends_yield_more hrest
      simp only [List.length_cons, List.length_append] at hk hn
      rw [operations, List.cons_append, List.append_assoc, hop]
      simp only [refuseDoubleStar_of_yield_eq f hf,
        hO f tsf (tsfs ++ rest) hf (by omega) hends]
      rw [Derivation.meaning]
      cases f.meaning config with
      | error x => rfl
      | ok g =>
        refine (ih fs hfs (by omega) (by omega)).trans ?_
        cases fs.meaning config <;> rfl

lemma chain_takes {level : Level} {O : Reader Expr} (hO : Takes config (.operand level) k O) :
    Takes config (.chain level) k (chain level O) := by
  intro d ts rest hts hk hrest
  cases d with
  | chain _ f fs =>
    obtain ⟨tsf, tsfs, rfl, hf, hfs⟩ := List.map_eq_append_iff.1 hts
    have hends : (Nonterminal.operand level).Ends ((tsfs ++ rest).map Token.lexeme) := by
      rw [List.map_append, hfs]
      exact fs.ends_yield_more hrest
    rw [List.length_append] at hk
    rw [chain, List.append_assoc, hO f tsf (tsfs ++ rest) hf (by omega) hends, Derivation.meaning]
    cases f.meaning config with
    | error x => rfl
    | ok g =>
      refine (operations_takes hO fs hfs (by omega) (by simp) hrest).trans ?_
      cases fs.meaning config <;> rfl

/-! ### Operands -/

lemma unary_takes {O : Reader Expr} (hO : Takes config .power k O) :
    Takes config .unary k (unary O) := by
  intro d ts rest hts hk hrest
  induction ts generalizing d with
  | nil => exact absurd hts.symm (yield_unary_ne_nil d)
  | cons t ts ih =>
    obtain ⟨l, p⟩ := t
    cases d with
    | minus e =>
      obtain ⟨rfl, he⟩ := List.cons.inj hts
      rw [List.cons_append, unary, ih e he (Nat.le_of_succ_le hk), Derivation.meaning]
      cases e.meaning config <;> rfl
    | plus e =>
      obtain ⟨rfl, he⟩ := List.cons.inj hts
      rw [List.cons_append, unary, ih e he (Nat.le_of_succ_le hk), Derivation.meaning]
    | unsigned e =>
      have hread := hO e (⟨l, p⟩ :: ts) rest hts hk hrest
      obtain ⟨l', ls, he, hl⟩ := e.exists_yield_power
      obtain ⟨rfl, -⟩ := List.cons.inj (hts.trans he)
      rw [List.cons_append, unary]
      · exact hread
      · rintro q ts' ⟨⟩
        cases hl
      · rintro q ts' ⟨⟩
        cases hl

/-- What stands in parentheses has fewer lexemes than the whole. -/
lemma atom_takes {I : Reader Expr} (hI : ∀ j < k, Takes config .expression j I) :
    Takes config .atom k (atom config I) := by
  intro d ts rest hts hk hrest
  cases d with
  | simple e =>
    cases e with
    | number numeral =>
      obtain ⟨⟨_, p⟩, ts', rfl, rfl, hts'⟩ := List.map_eq_cons_iff.1 hts
      obtain rfl := List.map_eq_nil_iff.1 hts'
      rw [List.cons_append, atom, Derivation.meaning, Derivation.meaning]
      cases config.readNumeral numeral <;> rfl
    | letter x =>
      obtain ⟨⟨_, p⟩, ts', rfl, rfl, hts'⟩ := List.map_eq_cons_iff.1 hts
      obtain rfl := List.map_eq_nil_iff.1 hts'
      rfl
  | parentheses e =>
    obtain ⟨⟨_, p⟩, ts', rfl, rfl, hts'⟩ := List.map_eq_cons_iff.1 hts
    obtain ⟨tse, closed, rfl, he, hclosed⟩ := List.map_eq_append_iff.1 hts'
    obtain ⟨⟨_, q⟩, ts'', rfl, rfl, hts''⟩ := List.map_eq_cons_iff.1 hclosed
    obtain rfl := List.map_eq_nil_iff.1 hts''
    have hshort : tse.length < k := by
      simp only [List.length_cons, List.length_append] at hk
      omega
    have hread := hI tse.length hshort e tse (⟨.symbol .rightParen, q⟩ :: rest) he le_rfl
      (ends_cons_of_notMem (by decide))
    rw [List.cons_append, List.append_assoc, atom, List.singleton_append, hread,
      Derivation.meaning]
    cases e.meaning config <;> rfl

lemma operand_takes {I : Reader Expr} (hI : ∀ j < k, Takes config .expression j I)
    (level : Level) : Takes config (.operand level) k (operand config I level) := by
  have hatom := atom_takes hI
  have hunary := unary_takes (chain_takes hatom)
  cases level with
  | sum =>
    intro d ts rest hts hk hrest
    cases d with
    | term e => exact chain_takes hunary e ts rest hts hk hrest
  | product => exact hunary
  | power => exact hatom

lemma expressionWithin_takes {depth : Nat} (h : k < depth) :
    Takes config .expression k (expressionWithin config depth) := by
  induction depth generalizing k with
  | zero => omega
  | succ depth ih => exact chain_takes (operand_takes (fun j hj => ih (by omega)) .sum)

lemma expression_takes : Takes config .expression k (expression config) := by
  intro d ts rest hts hk hrest
  exact expressionWithin_takes (Nat.lt_succ_of_le (by simp)) d ts rest hts le_rfl hrest

/-! ### Equations and directives -/

/-- What does not continue a derivation does not begin with a symbol that does. -/
lemma ne_of_ends {n : Nonterminal} {s : Symbol} (h : n.Ends (rest.map Token.lexeme))
    (hs : s ∈ n.continuations) (p : Nat) (ts : List Token) : rest ≠ ⟨.symbol s, p⟩ :: ts := by
  rintro rfl
  exact h s hs rfl

lemma body_takes : Takes config .equation k (body config) := by
  intro d ts rest hts hk hrest
  cases d with
  | side e =>
    rw [body, expression_takes e ts rest hts hk (hrest.mono (by decide)), Derivation.meaning]
    cases e.meaning config with
    | error x => rfl
    | ok f =>
      dsimp only [Except.map, bind, Except.bind]
      split
      · exact absurd rfl (ne_of_ends hrest (by decide) _ _)
      · rfl
  | sides l r =>
    obtain ⟨tsl, ts', rfl, hl, hts'⟩ := List.map_eq_append_iff.1 hts
    obtain ⟨⟨_, p⟩, tsr, rfl, rfl, hr⟩ := List.map_eq_cons_iff.1 hts'
    have hexpression (n : Nat) : Takes config .expression n (expression config) := expression_takes
    have hreadl := hexpression tsl.length l tsl (⟨.symbol .equals, p⟩ :: (tsr ++ rest)) hl le_rfl
      (ends_cons_of_notMem (by decide))
    have hreadr := hexpression tsr.length r tsr rest hr le_rfl (hrest.mono (by decide))
    rw [body, List.append_assoc, List.cons_append, hreadl, Derivation.meaning]
    cases l.meaning config with
    | error x => rfl
    | ok f =>
      change (expression config (tsr ++ rest) >>= fun a => pure (Body.equation ⟨f, a.1⟩, a.2)) = _
      rw [hreadr]
      cases r.meaning config <;> rfl

lemma simpleOperand_takes : Takes config .simple k (simpleOperand config) := by
  intro d ts rest hts hk hrest
  cases d with
  | number numeral =>
    obtain ⟨⟨_, p⟩, ts', rfl, rfl, hts'⟩ := List.map_eq_cons_iff.1 hts
    obtain rfl := List.map_eq_nil_iff.1 hts'
    rw [List.cons_append, simpleOperand, Derivation.meaning]
    cases config.readNumeral numeral <;> rfl
  | letter x =>
    obtain ⟨⟨_, p⟩, ts', rfl, rfl, hts'⟩ := List.map_eq_cons_iff.1 hts
    obtain rfl := List.map_eq_nil_iff.1 hts'
    rfl

lemma replacement_takes : Takes config .replacement k (replacement config) := by
  intro d ts rest hts hk hrest
  cases d with
  | negative t =>
    obtain ⟨⟨_, p⟩, ts', rfl, rfl, ht⟩ := List.map_eq_cons_iff.1 hts
    rw [List.cons_append, replacement,
      simpleOperand_takes (k := ts'.length) t ts' rest ht le_rfl (ends_of_nil rfl),
      Derivation.meaning]
    cases t.meaning config <;> rfl
  | positive t =>
    have hsimple : Takes config .simple k (simpleOperand config) := simpleOperand_takes
    have hread := hsimple t ts rest hts hk (ends_of_nil rfl)
    obtain ⟨l, ht, hl⟩ := t.exists_yield_simple
    obtain ⟨⟨_, p⟩, ts', rfl, rfl, -⟩ := List.map_eq_cons_iff.1 (hts.trans ht)
    rw [List.cons_append, replacement]
    · exact hread
    · rintro q ts'' ⟨⟩
      exact hl .minus rfl

lemma directive_takes : Takes config .directive k (directive config) := by
  intro d ts rest hts hk hrest
  cases d with
  | solve x =>
    obtain ⟨⟨_, p⟩, ts', rfl, rfl, hts'⟩ := List.map_eq_cons_iff.1 hts
    obtain rfl := List.map_eq_nil_iff.1 hts'
    rw [List.singleton_append, directive]
    · rfl
    · rintro q ts'' rfl
      exact ne_of_ends hrest (by decide) q ts'' rfl
  | substitute x t =>
    obtain ⟨⟨_, p⟩, ts', rfl, rfl, hts'⟩ := List.map_eq_cons_iff.1 hts
    obtain ⟨⟨_, q⟩, tst, rfl, rfl, ht⟩ := List.map_eq_cons_iff.1 hts'
    rw [List.cons_append, List.cons_append, directive,
      replacement_takes (k := tst.length) t tst rest ht le_rfl (ends_of_nil rfl),
      Derivation.meaning]
    cases t.meaning config <;> rfl

end Reader

/-! ### Statements -/

namespace Statement

open Reader

variable {config : Config} {ts : List Token}

/-- Tokens that derive from the grammar are read as what the derivation stands for. -/
lemma ofTokens_of_yield_eq (d : Derivation .statement) (h : ts.map Token.lexeme = d.yield) :
    ofTokens config ts = d.meaning config := by
  cases d with
  | plain b =>
    have hbody : Takes config .equation ts.length (Reader.body config) := body_takes
    have hread := hbody b ts [] h le_rfl (ends_nil _)
    rw [List.append_nil] at hread
    rw [ofTokens, hread, Derivation.meaning]
    cases b.meaning config <;> rfl
  | directed b d =>
    obtain ⟨tsb, ts', rfl, hb, hts'⟩ := List.map_eq_append_iff.1 h
    obtain ⟨⟨_, p⟩, tsd, rfl, rfl, hd⟩ := List.map_eq_cons_iff.1 hts'
    have hbody : Takes config .equation tsb.length (Reader.body config) := body_takes
    have hdirective : Takes config .directive tsd.length (Reader.directive config) :=
      directive_takes
    have hreadb := hbody b tsb (⟨.symbol .atSign, p⟩ :: tsd) hb le_rfl
      (ends_cons_of_notMem (by decide))
    have hreadd := hdirective d tsd [] hd le_rfl (ends_nil _)
    rw [List.append_nil] at hreadd
    rw [ofTokens, hreadb, Derivation.meaning]
    cases b.meaning config with
    | error x => rfl
    | ok body =>
      change (Reader.directive config tsd >>= fun a => pure (some a.1, a.2)) >>=
        (fun a => ending a.2 >>= fun _ => pure (Statement.mk body a.1)) = _
      rw [hreadd]
      cases d.meaning config <;> rfl

end Statement

end SymbolicAlgebra
