import SymbolicAlgebra.Proofs.Grammar
import SymbolicAlgebra.Proofs.Refusals
import SymbolicAlgebra.Statement.Parser

/-!
# What is read derives from the grammar

A reader that gives a result has taken lexemes off the front that derive from its nonterminal, and
the result is what the derivation stands for. A reader that refuses has come upon a token that does
not fit, or upon a numeral that cannot be read (`ReadsAs`). A statement derives from all tokens
before the end of the input (`Statement.derives_of_ofTokens`).
-/

namespace SymbolicAlgebra

open Grammar

/-- Whether the lexemes of some tokens derive from a nonterminal, with a meaning. -/
def Derives (config : Config) (n : Nonterminal) (a : n.Meaning) (ts : List Token) : Prop :=
  ∃ d : Derivation n, d.yield = ts.map Token.lexeme ∧ d.meaning config = .ok a

namespace Reader

/-- Why a list of tokens is refused: somewhere the tokens that are left do not fit, or a numeral
cannot be read. -/
def IsRefusal (config : Config) (ts : List Token) (e : Error) : Prop :=
  (∃ cause rest, rest <:+ ts ∧ e = .grammar cause (front rest)) ∨
    ∃ numeral, .number numeral ∈ ts.map Token.lexeme ∧ config.readNumeral numeral = .error e

/-- Whether a reader takes nothing but what derives from a nonterminal. -/
structure ReadsAs (config : Config) (n : Nonterminal) (R : Reader n.Meaning) : Prop where
  sound : ∀ {ts a rest}, R ts = .ok (a, rest) →
    ∃ taken, ts = taken ++ rest ∧ Derives config n a taken
  refuses : ∀ {ts e}, R ts = .error e → IsRefusal config ts e

variable {config : Config} {ts rest : List Token} {e : Error}

lemma isRefusal_refuse {α : Type} {cause : GrammarCause}
    (h : (refuse cause ts : Except Error α) = .error e) : IsRefusal config ts e := by
  cases h
  exact .inl ⟨cause, ts, List.suffix_refl ts, rfl⟩

lemma IsRefusal.of_suffix (h : IsRefusal config rest e) (hsuffix : rest <:+ ts) :
    IsRefusal config ts e := by
  rcases h with ⟨cause, rest', hrest, rfl⟩ | ⟨numeral, hmem, hread⟩
  · exact .inl ⟨cause, rest', hrest.trans hsuffix, rfl⟩
  · exact .inr ⟨numeral, (hsuffix.map Token.lexeme).subset hmem, hread⟩

lemma IsRefusal.cons (h : IsRefusal config ts e) (t : Token) : IsRefusal config (t :: ts) e :=
  h.of_suffix (List.suffix_cons t ts)

/-! ### Chains -/

lemma operatorOf?_eq_some_iff {level : Level} {op : Operator} :
    operatorOf? level ts = some (op, rest) ↔
      ∃ p, ts = ⟨.symbol op.symbol, p⟩ :: rest ∧ op.level = level := by
  constructor
  · intro h
    match ts with
    | [] => cases h
    | ⟨.number _, _⟩ :: _ | ⟨.letter _, _⟩ :: _ | ⟨.endOfInput, _⟩ :: _ => cases h
    | ⟨.symbol s, p⟩ :: ts =>
      simp only [operatorOf?, Token.operator?, Option.map_eq_some_iff, Option.filter_eq_some_iff,
        Prod.mk.injEq, decide_eq_true_eq] at h
      obtain ⟨_, ⟨hop, hlevel⟩, rfl, rfl⟩ := h
      refine ⟨p, ?_, hlevel⟩
      cases s <;> cases hop <;> rfl
  · rintro ⟨p, rfl, rfl⟩
    cases op <;> rfl

lemma refuseDoubleStar_eq_error {op : Operator} (h : refuseDoubleStar op ts = .error e) :
    IsRefusal config ts e := by
  unfold refuseDoubleStar at h
  split at h
  · split at h
    · exact isRefusal_refuse h
    · cases h
  · cases h

lemma operations_sound {level : Level} {O : Reader Expr} (hO : ReadsAs config (.operand level) O)
    {n : Nat} {f g : Expr} (h : operations level O n f ts = .ok (g, rest)) :
    ∃ taken os, ts = taken ++ rest ∧ Derives config (.more level) os taken ∧
      os.foldl (fun f o => o.1.node f o.2) f = g := by
  induction n generalizing f ts with
  | zero =>
    cases h
    exact ⟨[], [], rfl, ⟨.done level, rfl, rfl⟩, rfl⟩
  | succ n ih =>
    rw [operations] at h
    split at h
    · cases h
      exact ⟨[], [], rfl, ⟨.done level, rfl, rfl⟩, rfl⟩
    · next op ts' hop =>
      obtain ⟨p, rfl, hlevel⟩ := operatorOf?_eq_some_iff.1 hop
      obtain ⟨_, -, h⟩ := bind_eq_ok_iff.1 h
      obtain ⟨⟨r, rest'⟩, hr, hmore⟩ := bind_eq_ok_iff.1 h
      obtain ⟨taken, rfl, d, hd, hmeaning⟩ := hO.sound hr
      obtain ⟨taken', os, rfl, ⟨d', hd', hmeaning'⟩, rfl⟩ := ih hmore
      refine ⟨⟨.symbol op.symbol, p⟩ :: (taken ++ taken'), (op, r) :: os, ?_, ?_, rfl⟩
      · simp
      · refine ⟨.next op level hlevel d d', by simp [hd, hd'], ?_⟩
        rw [Derivation.meaning, hmeaning, hmeaning']
        rfl

lemma operations_refuses {level : Level} {O : Reader Expr}
    (hO : ReadsAs config (.operand level) O) {n : Nat} {f : Expr}
    (h : operations level O n f ts = .error e) : IsRefusal config ts e := by
  induction n generalizing f ts with
  | zero => cases h
  | succ n ih =>
    rw [operations] at h
    split at h
    · cases h
    · next op ts' hop =>
      obtain ⟨p, rfl, -⟩ := operatorOf?_eq_some_iff.1 hop
      apply IsRefusal.cons
      rcases bind_eq_error_iff.1 h with h | ⟨_, -, h⟩
      · exact refuseDoubleStar_eq_error h
      · rcases bind_eq_error_iff.1 h with hr | ⟨⟨r, rest⟩, hr, hmore⟩
        · exact hO.refuses hr
        · obtain ⟨taken, rfl, -⟩ := hO.sound hr
          exact (ih hmore).of_suffix (List.suffix_append taken rest)

lemma chain_readsAs {level : Level} {O : Reader Expr} (hO : ReadsAs config (.operand level) O) :
    ReadsAs config (.chain level) (chain level O) where
  sound := by
    intro ts a rest h
    obtain ⟨⟨f, rest'⟩, hf, hmore⟩ := bind_eq_ok_iff.1 h
    obtain ⟨taken, rfl, d, hd, hmeaning⟩ := hO.sound hf
    obtain ⟨taken', os, rfl, ⟨d', hd', hmeaning'⟩, rfl⟩ := operations_sound hO hmore
    refine ⟨taken ++ taken', by simp, .chain level d d', by simp [hd, hd'], ?_⟩
    rw [Derivation.meaning, hmeaning, hmeaning']
    rfl
  refuses := by
    intro ts e h
    rcases bind_eq_error_iff.1 h with hf | ⟨⟨f, rest⟩, hf, hmore⟩
    · exact hO.refuses hf
    · obtain ⟨taken, rfl, -⟩ := hO.sound hf
      exact (operations_refuses hO hmore).of_suffix (List.suffix_append taken rest)

/-! ### Operands -/

lemma unary_readsAs {O : Reader Expr} (hO : ReadsAs config .power O) :
    ReadsAs config .unary (unary O) where
  sound := by
    intro ts a rest h
    induction ts using unary.induct generalizing a with
    | case1 p ts ih =>
      obtain ⟨⟨f, rest'⟩, hf, hr⟩ := bind_eq_ok_iff.1 h
      cases pure_eq_ok_iff.1 hr
      obtain ⟨taken, rfl, d, hd, hmeaning⟩ := ih hf
      refine ⟨⟨.symbol .minus, p⟩ :: taken, rfl, .minus d, by simp [hd], ?_⟩
      rw [Derivation.meaning, hmeaning]
      rfl
    | case2 p ts ih =>
      obtain ⟨taken, rfl, d, hd, hmeaning⟩ := ih h
      exact ⟨⟨.symbol .plus, p⟩ :: taken, rfl, .plus d, by simp [hd], hmeaning⟩
    | case3 ts hminus hplus =>
      rw [unary] at h
      · obtain ⟨taken, rfl, d, hd, hmeaning⟩ := hO.sound h
        exact ⟨taken, rfl, .unsigned d, hd, hmeaning⟩
      · exact hminus
      · exact hplus
  refuses := by
    intro ts e h
    induction ts using unary.induct with
    | case1 p ts ih =>
      rcases bind_eq_error_iff.1 h with hf | ⟨_, _, hr⟩
      · exact (ih hf).cons _
      · cases hr
    | case2 p ts ih => exact (ih h).cons _
    | case3 ts hminus hplus =>
      rw [unary] at h
      · exact hO.refuses h
      · exact hminus
      · exact hplus

lemma closing_eq_ok (h : closing ts = .ok rest) : ∃ p, ts = ⟨.symbol .rightParen, p⟩ :: rest := by
  unfold closing at h
  split at h
  · cases h
    exact ⟨_, rfl⟩
  · cases h

lemma closing_eq_error (h : closing ts = .error e) : IsRefusal config ts e := by
  unfold closing at h
  split at h
  · cases h
  · exact isRefusal_refuse h

lemma atom_readsAs {O : Reader Expr} (hO : ReadsAs config .expression O) :
    ReadsAs config .atom (atom config O) where
  sound := by
    intro ts a rest h
    unfold atom at h
    split at h
    · next numeral p ts =>
      obtain ⟨c, hc, hr⟩ := bind_eq_ok_iff.1 h
      cases pure_eq_ok_iff.1 hr
      refine ⟨[⟨.number numeral, p⟩], rfl, .simple (.number numeral), rfl, ?_⟩
      rw [Derivation.meaning, Derivation.meaning, hc]
      rfl
    · next c p ts =>
      cases h
      exact ⟨[⟨.letter c, p⟩], rfl, .simple (.letter c), rfl, rfl⟩
    · next p ts =>
      obtain ⟨⟨f, rest'⟩, hf, hr⟩ := bind_eq_ok_iff.1 h
      obtain ⟨rest'', hc, hr⟩ := bind_eq_ok_iff.1 hr
      cases pure_eq_ok_iff.1 hr
      obtain ⟨q, rfl⟩ := closing_eq_ok hc
      obtain ⟨taken, rfl, d, hd, hmeaning⟩ := hO.sound hf
      refine ⟨⟨.symbol .leftParen, p⟩ :: (taken ++ [⟨.symbol .rightParen, q⟩]), by simp,
        .parentheses d, by simp [hd], hmeaning⟩
    · cases h
  refuses := by
    intro ts e h
    unfold atom at h
    split at h
    · next numeral p ts =>
      rcases bind_eq_error_iff.1 h with hc | ⟨_, _, hr⟩
      · exact .inr ⟨numeral, by simp, hc⟩
      · cases hr
    · cases h
    · next p ts =>
      apply IsRefusal.cons
      rcases bind_eq_error_iff.1 h with hf | ⟨⟨f, rest⟩, hf, hr⟩
      · exact hO.refuses hf
      · obtain ⟨taken, rfl, -⟩ := hO.sound hf
        rcases bind_eq_error_iff.1 hr with hc | ⟨_, _, hr⟩
        · exact (closing_eq_error hc).of_suffix (List.suffix_append taken rest)
        · cases hr
    · exact isRefusal_refuse h

/-- The operands of a level, where `inner` reads what stands in parentheses. -/
def operand (config : Config) (inner : Reader Expr) : Level → Reader Expr
  | .sum => chain .product (unary (chain .power (atom config inner)))
  | .product => unary (chain .power (atom config inner))
  | .power => atom config inner

lemma term_readsAs {O : Reader Expr} (hO : ReadsAs config .term O) :
    ReadsAs config (.operand .sum) O where
  sound h := by
    obtain ⟨taken, hts, d, hd, hmeaning⟩ := hO.sound h
    exact ⟨taken, hts, .term d, hd, hmeaning⟩
  refuses := hO.refuses

lemma operand_readsAs {inner : Reader Expr} (h : ReadsAs config .expression inner) (level : Level) :
    ReadsAs config (.operand level) (operand config inner level) := by
  have hatom := atom_readsAs h
  have hunary := unary_readsAs (chain_readsAs hatom)
  cases level with
  | sum => exact term_readsAs (chain_readsAs hunary)
  | product => exact hunary
  | power => exact hatom

lemma expressionWithin_readsAs (depth : Nat) :
    ReadsAs config .expression (expressionWithin config depth) := by
  induction depth with
  | zero => exact ⟨by rintro _ _ _ ⟨⟩, isRefusal_refuse⟩
  | succ depth ih => exact chain_readsAs (operand_readsAs ih .sum)

lemma expression_readsAs : ReadsAs config .expression (expression config) where
  sound := (expressionWithin_readsAs _).sound
  refuses := (expressionWithin_readsAs _).refuses

/-! ### Equations and directives -/

lemma body_readsAs : ReadsAs config .equation (body config) where
  sound := by
    intro ts a rest h
    obtain ⟨⟨l, rest'⟩, hl, hr⟩ := bind_eq_ok_iff.1 h
    obtain ⟨taken, rfl, d, hd, hmeaning⟩ := expression_readsAs.sound hl
    dsimp only at hr
    split at hr
    · next p ts =>
      obtain ⟨⟨r, rest''⟩, hrhs, hend⟩ := bind_eq_ok_iff.1 hr
      cases pure_eq_ok_iff.1 hend
      obtain ⟨taken', rfl, d', hd', hmeaning'⟩ := expression_readsAs.sound hrhs
      refine ⟨taken ++ ⟨.symbol .equals, p⟩ :: taken', by simp, .sides d d',
        by simp [hd, hd'], ?_⟩
      rw [Derivation.meaning, hmeaning, hmeaning']
      rfl
    · cases pure_eq_ok_iff.1 hr
      refine ⟨taken, rfl, .side d, hd, ?_⟩
      rw [Derivation.meaning, hmeaning]
      rfl
  refuses := by
    intro ts e h
    rcases bind_eq_error_iff.1 h with hl | ⟨⟨l, rest⟩, hl, hr⟩
    · exact expression_readsAs.refuses hl
    · obtain ⟨taken, rfl, -⟩ := expression_readsAs.sound hl
      apply IsRefusal.of_suffix _ (List.suffix_append taken rest)
      dsimp only at hr
      split at hr
      · rcases bind_eq_error_iff.1 hr with hr | ⟨_, _, hr⟩
        · exact (expression_readsAs.refuses hr).cons _
        · cases hr
      · cases hr

lemma simpleOperand_readsAs : ReadsAs config .simple (simpleOperand config) where
  sound := by
    intro ts a rest h
    unfold simpleOperand at h
    split at h
    · next numeral p ts =>
      obtain ⟨c, hc, hr⟩ := bind_eq_ok_iff.1 h
      cases pure_eq_ok_iff.1 hr
      refine ⟨[⟨.number numeral, p⟩], rfl, .number numeral, rfl, ?_⟩
      rw [Derivation.meaning, hc]
      rfl
    · next c p ts =>
      cases h
      exact ⟨[⟨.letter c, p⟩], rfl, .letter c, rfl, rfl⟩
    · cases h
  refuses := by
    intro ts e h
    unfold simpleOperand at h
    split at h
    · next numeral p ts =>
      rcases bind_eq_error_iff.1 h with hc | ⟨_, _, hr⟩
      · exact .inr ⟨numeral, by simp, hc⟩
      · cases hr
    · cases h
    · exact isRefusal_refuse h

lemma replacement_readsAs : ReadsAs config .replacement (replacement config) where
  sound := by
    intro ts a rest h
    unfold replacement at h
    split at h
    · next p ts =>
      obtain ⟨⟨f, rest'⟩, hf, hr⟩ := bind_eq_ok_iff.1 h
      cases pure_eq_ok_iff.1 hr
      obtain ⟨taken, rfl, d, hd, hmeaning⟩ := simpleOperand_readsAs.sound hf
      refine ⟨⟨.symbol .minus, p⟩ :: taken, rfl, .negative d, by simp [hd], ?_⟩
      rw [Derivation.meaning, hmeaning]
      rfl
    · obtain ⟨taken, rfl, d, hd, hmeaning⟩ := simpleOperand_readsAs.sound h
      exact ⟨taken, rfl, .positive d, hd, hmeaning⟩
  refuses := by
    intro ts e h
    unfold replacement at h
    split at h
    · apply IsRefusal.cons
      rcases bind_eq_error_iff.1 h with hf | ⟨_, _, hr⟩
      · exact simpleOperand_readsAs.refuses hf
      · cases hr
    · exact simpleOperand_readsAs.refuses h

lemma directive_readsAs : ReadsAs config .directive (directive config) where
  sound := by
    intro ts a rest h
    unfold directive at h
    split at h
    · next c p q ts =>
      obtain ⟨⟨t, rest'⟩, ht, hr⟩ := bind_eq_ok_iff.1 h
      cases pure_eq_ok_iff.1 hr
      obtain ⟨taken, rfl, d, hd, hmeaning⟩ := replacement_readsAs.sound ht
      refine ⟨⟨.letter c, p⟩ :: ⟨.symbol .comma, q⟩ :: taken, rfl, .substitute c d,
        by simp [hd], ?_⟩
      rw [Derivation.meaning, hmeaning]
      rfl
    · next c p ts _ =>
      cases h
      exact ⟨[⟨.letter c, p⟩], rfl, .solve c, rfl, rfl⟩
    · cases h
  refuses := by
    intro ts e h
    unfold directive at h
    split at h
    · apply IsRefusal.cons
      apply IsRefusal.cons
      rcases bind_eq_error_iff.1 h with ht | ⟨_, _, hr⟩
      · exact replacement_readsAs.refuses ht
      · cases hr
    · cases h
    · exact isRefusal_refuse h

/-- A directive is there or not, and what is taken for it begins with its sign. -/
lemma directive?_eq_ok {d : Option Directive} (h : directive? config ts = .ok (d, rest)) :
    d = none ∧ ts = rest ∨
      ∃ p a taken, d = some a ∧ ts = ⟨.symbol .atSign, p⟩ :: taken ++ rest ∧
        Derives config .directive a taken := by
  unfold directive? at h
  split at h
  · next p ts =>
    obtain ⟨⟨a, rest'⟩, ha, hr⟩ := bind_eq_ok_iff.1 h
    cases pure_eq_ok_iff.1 hr
    obtain ⟨taken, rfl, hderives⟩ := directive_readsAs.sound ha
    exact .inr ⟨p, a, taken, rfl, rfl, hderives⟩
  · cases h
    exact .inl ⟨rfl, rfl⟩

lemma directive?_eq_error (h : directive? config ts = .error e) : IsRefusal config ts e := by
  unfold directive? at h
  split at h
  · rcases bind_eq_error_iff.1 h with ha | ⟨_, _, hr⟩
    · exact (directive_readsAs.refuses ha).cons _
    · cases hr
  · cases h

lemma ending_eq_error (h : ending ts = .error e) : IsRefusal config ts e := by
  unfold ending at h
  split at h
  · cases h
  · cases h
  · exact isRefusal_refuse h

end Reader

/-! ### Statements -/

namespace Statement

open Reader

variable {config : Config} {ts : List Token} {s : Statement} {e : Error}

/-- What is read as a statement derives from the grammar, up to where the input ends. -/
lemma derives_of_ofTokens (h : ofTokens config ts = .ok s) :
    ∃ taken rest, ts = taken ++ rest ∧ ending rest = .ok () ∧
      Derives config .statement s taken := by
  obtain ⟨⟨b, rest⟩, hb, h⟩ := bind_eq_ok_iff.1 h
  obtain ⟨⟨d, rest'⟩, hd, h⟩ := bind_eq_ok_iff.1 h
  obtain ⟨_, hend, h⟩ := bind_eq_ok_iff.1 h
  cases pure_eq_ok_iff.1 h
  obtain ⟨taken, rfl, db, hdb, hmeaning⟩ := body_readsAs.sound hb
  rcases directive?_eq_ok hd with ⟨rfl, rfl⟩ | ⟨p, a, taken', rfl, rfl, dd, hdd, hmeaning'⟩
  · refine ⟨taken, _, rfl, hend, .plain db, hdb, ?_⟩
    rw [Derivation.meaning, hmeaning]
    rfl
  · refine ⟨taken ++ ⟨.symbol .atSign, p⟩ :: taken', _, by simp, hend, .directed db dd,
      by simp [hdb, hdd], ?_⟩
    rw [Derivation.meaning, hmeaning, hmeaning']
    rfl

lemma isRefusal_of_ofTokens (h : ofTokens config ts = .error e) : IsRefusal config ts e := by
  rcases bind_eq_error_iff.1 h with hb | ⟨⟨b, rest⟩, hb, hrest⟩
  · exact body_readsAs.refuses hb
  · obtain ⟨taken, rfl, -⟩ := body_readsAs.sound hb
    apply IsRefusal.of_suffix _ (List.suffix_append taken rest)
    rcases bind_eq_error_iff.1 hrest with hd | ⟨⟨d, rest'⟩, hd, hfinal⟩
    · exact directive?_eq_error hd
    · have hsuffix : rest' <:+ rest := by
        rcases directive?_eq_ok hd with ⟨-, rfl⟩ | ⟨p, a, taken', -, rfl, -⟩
        · exact List.suffix_refl rest
        · exact List.suffix_append _ rest'
      apply IsRefusal.of_suffix _ hsuffix
      rcases bind_eq_error_iff.1 hfinal with hend | ⟨_, _, hr⟩
      · exact ending_eq_error hend
      · cases hr

end Statement

end SymbolicAlgebra
