import Mathlib.Tactic.Common
import SymbolicAlgebra.Config
import SymbolicAlgebra.Statement.Basic
import SymbolicAlgebra.Statement.Token

/-!
# The grammar of statements

The grammar

    statement  := equation ['@' directive]
    equation   := expression ['=' expression]
    expression := term (('+' | '-') term)*
    term       := unary (('*' | '/') unary)*
    unary      := ('-' | '+') unary | power
    power      := atom ('^' atom)*
    atom       := number | variable | '(' expression ')'
    directive  := variable [',' ['-'] (number | variable)]

as trees. A `Derivation n` is a derivation from the nonterminal `n`, `Derivation.yield` are the
lexemes that it derives, and `Derivation.meaning` is what it stands for: operations of one level are
folded from the left, and a minus sign applies to the whole power after it. An expression, a term
and a power are chains of the three levels, and what may follow their first operand is a nonterminal
of its own.

No lexemes are derived in two ways (`Derivation.eq_of_yield_eq`).
-/

namespace SymbolicAlgebra

/-- The symbol that an operation is written with. -/
def Operator.symbol : Operator → Symbol
  | add => .plus
  | sub => .minus
  | mul => .star
  | div => .slash
  | pow => .caret

namespace Grammar

/-- What the rules of the grammar are about. At each of the three levels there are chains, their
operands, and what may follow the first operand of a chain. -/
inductive Nonterminal where
  | statement
  | equation
  | directive
  | replacement
  | simple
  | chain (level : Level)
  | more (level : Level)
  | operand (level : Level)

namespace Nonterminal

/-- Sums and differences. -/
abbrev expression : Nonterminal := chain .sum

/-- Products and quotients. -/
abbrev term : Nonterminal := chain .product

/-- Powers. -/
abbrev power : Nonterminal := chain .power

/-- The operands of terms. -/
abbrev unary : Nonterminal := operand .product

/-- The operands of powers. -/
abbrev atom : Nonterminal := operand .power

/-- What a nonterminal stands for. After a first operand that is a list of operations. -/
@[reducible] def Meaning : Nonterminal → Type
  | statement => Statement
  | equation => Body
  | directive => Directive
  | more _ => List (Operator × Expr)
  | replacement | simple | chain _ | operand _ => Expr

end Nonterminal

/-- A derivation from a nonterminal. -/
inductive Derivation : Nonterminal → Type where
  /-- `statement := equation` -/
  | plain (b : Derivation .equation) : Derivation .statement
  /-- `statement := equation '@' directive` -/
  | directed (b : Derivation .equation) (d : Derivation .directive) : Derivation .statement
  /-- `equation := expression` -/
  | side (e : Derivation .expression) : Derivation .equation
  /-- `equation := expression '=' expression` -/
  | sides (l r : Derivation .expression) : Derivation .equation
  /-- `directive := variable` -/
  | solve (x : Char) : Derivation .directive
  /-- `directive := variable ',' replacement` -/
  | substitute (x : Char) (t : Derivation .replacement) : Derivation .directive
  /-- `replacement := '-' simple` -/
  | negative (t : Derivation .simple) : Derivation .replacement
  /-- `replacement := simple` -/
  | positive (t : Derivation .simple) : Derivation .replacement
  /-- `simple := number` -/
  | number (numeral : List Char) : Derivation .simple
  /-- `simple := variable` -/
  | letter (x : Char) : Derivation .simple
  /-- `expression := term (('+' | '-') term)*`, `term := unary (('*' | '/') unary)*` and
  `power := atom ('^' atom)*` -/
  | chain (level : Level) (first : Derivation (.operand level)) (rest : Derivation (.more level)) :
      Derivation (.chain level)
  /-- The end of a chain. -/
  | done (level : Level) : Derivation (.more level)
  /-- An operation of the level of a chain, with one more operand. -/
  | next (op : Operator) (level : Level) (h : op.level = level)
      (operand : Derivation (.operand level)) (rest : Derivation (.more level)) :
      Derivation (.more level)
  /-- The operand of an expression is a term. -/
  | term (e : Derivation .term) : Derivation (.operand .sum)
  /-- `unary := '-' unary` -/
  | minus (e : Derivation .unary) : Derivation .unary
  /-- `unary := '+' unary` -/
  | plus (e : Derivation .unary) : Derivation .unary
  /-- `unary := power` -/
  | unsigned (e : Derivation .power) : Derivation .unary
  /-- `atom := simple` -/
  | simple (e : Derivation .simple) : Derivation .atom
  /-- `atom := '(' expression ')'` -/
  | parentheses (e : Derivation .expression) : Derivation .atom

namespace Derivation

/-- The lexemes that are derived. -/
@[simp] def yield : {n : Nonterminal} → Derivation n → List Lexeme
  | _, plain b => b.yield
  | _, directed b d => b.yield ++ .symbol .atSign :: d.yield
  | _, side e => e.yield
  | _, sides l r => l.yield ++ .symbol .equals :: r.yield
  | _, solve x => [.letter x]
  | _, substitute x t => .letter x :: .symbol .comma :: t.yield
  | _, negative t => .symbol .minus :: t.yield
  | _, positive t => t.yield
  | _, number numeral => [.number numeral]
  | _, letter x => [.letter x]
  | _, chain _ first rest => first.yield ++ rest.yield
  | _, done _ => []
  | _, next op _ _ operand rest => .symbol op.symbol :: (operand.yield ++ rest.yield)
  | _, term e => e.yield
  | _, minus e => .symbol .minus :: e.yield
  | _, plus e => .symbol .plus :: e.yield
  | _, unsigned e => e.yield
  | _, simple e => e.yield
  | _, parentheses e => .symbol .leftParen :: (e.yield ++ [.symbol .rightParen])

/-- What a derivation stands for, which is refused where a numeral is. -/
@[simp] def meaning (config : Config) : {n : Nonterminal} → Derivation n → Except Error n.Meaning
  | _, plain b => do return ⟨← b.meaning config, none⟩
  | _, directed b d => do
    let body ← b.meaning config
    let directive ← d.meaning config
    return ⟨body, some directive⟩
  | _, side e => do return .expr (← e.meaning config)
  | _, sides l r => do
    let lhs ← l.meaning config
    let rhs ← r.meaning config
    return .equation ⟨lhs, rhs⟩
  | _, solve x => .ok (.solve x.toString)
  | _, substitute x t => do return .substitute x.toString (← t.meaning config)
  | _, negative t => do return .neg (← t.meaning config)
  | _, positive t => t.meaning config
  | _, number numeral => do return .const (← config.readNumeral numeral)
  | _, letter x => .ok (.var x.toString)
  | _, chain _ first rest => do
    let e ← first.meaning config
    let operations ← rest.meaning config
    return operations.foldl (fun e o => o.1.node e o.2) e
  | _, done _ => .ok []
  | _, next op _ _ operand rest => do
    let e ← operand.meaning config
    let operations ← rest.meaning config
    return (op, e) :: operations
  | _, term e => e.meaning config
  | _, minus e => do return .neg (← e.meaning config)
  | _, plus e => e.meaning config
  | _, unsigned e => e.meaning config
  | _, simple e => e.meaning config
  | _, parentheses e => e.meaning config

end Derivation

/-! ### What may follow -/

namespace Nonterminal

/-- The symbols by which a derivation may be continued to a longer one. -/
def continuations : Nonterminal → List Symbol
  | statement => [.plus, .minus, .star, .slash, .caret, .equals, .atSign, .comma]
  | equation => [.plus, .minus, .star, .slash, .caret, .equals]
  | directive => [.comma]
  | chain .sum | more .sum => [.plus, .minus, .star, .slash, .caret]
  | chain .product | more .product | operand .sum => [.star, .slash, .caret]
  | chain .power | more .power | operand .product => [.caret]
  | replacement | simple | operand .power => []

/-- Whether lexemes do not begin with a symbol that continues a derivation. -/
def Ends (n : Nonterminal) (ls : List Lexeme) : Prop :=
  ∀ s ∈ n.continuations, ls.head? ≠ some (.symbol s)

lemma Ends.mono {n m : Nonterminal} {ls : List Lexeme} (h : n.Ends ls)
    (hsub : m.continuations ⊆ n.continuations) : m.Ends ls := by
  intro s hs
  exact h s (hsub hs)

lemma ends_nil (n : Nonterminal) : n.Ends [] := by
  intro s _
  simp

lemma ends_of_nil {n : Nonterminal} {ls : List Lexeme} (h : n.continuations = []) : n.Ends ls := by
  intro s hs
  rw [h] at hs
  cases hs

lemma ends_cons_iff {n : Nonterminal} {l : Lexeme} {ls : List Lexeme} :
    n.Ends (l :: ls) ↔ ∀ s ∈ n.continuations, l ≠ .symbol s := by
  simp [Ends]

lemma ends_cons_of_notMem {n : Nonterminal} {s : Symbol} {ls : List Lexeme}
    (h : s ∉ n.continuations) : n.Ends (.symbol s :: ls) := by
  rw [ends_cons_iff]
  rintro s' hs' hss'
  cases hss'
  exact h hs'

lemma continuations_operand_subset (level : Level) :
    (operand level).continuations ⊆ (chain level).continuations := by
  cases level <;> simp [continuations]

lemma ends_more {level : Level} {ls : List Lexeme} :
    (more level).Ends ls ↔ (chain level).Ends ls := by
  cases level <;> rfl

/-- An operation of a level continues a chain of the level. -/
lemma symbol_mem_continuations (op : Operator) :
    op.symbol ∈ (chain op.level).continuations := by
  cases op <;> simp [Operator.symbol, Operator.level, continuations]

/-- An operation of a level continues no operand of the level. -/
lemma symbol_notMem_continuations (op : Operator) :
    op.symbol ∉ (operand op.level).continuations := by
  cases op <;> simp [Operator.symbol, Operator.level, continuations]

end Nonterminal

open Nonterminal

lemma symbol_injective {op op' : Operator} (h : op.symbol = op'.symbol) : op = op' := by
  cases op <;> cases op' <;> first | rfl | cases h

/-! ### What comes first -/

/-- Whether a lexeme is what an operand without a sign begins with. -/
def beginsOperand : Lexeme → Bool
  | .number _ => true
  | .letter _ => true
  | .symbol .leftParen => true
  | _ => false

namespace Derivation

/-- What a simple operand derives. -/
lemma exists_yield_simple (d : Derivation .simple) :
    ∃ l, d.yield = [l] ∧ ∀ s, l ≠ .symbol s := by
  cases d with
  | number numeral => exact ⟨_, rfl, by simp⟩
  | letter x => exact ⟨_, rfl, by simp⟩

lemma exists_yield_atom (d : Derivation .atom) :
    ∃ l ls, d.yield = l :: ls ∧ beginsOperand l := by
  cases d with
  | simple e => cases e <;> exact ⟨_, _, rfl, rfl⟩
  | parentheses e => exact ⟨_, _, rfl, rfl⟩

lemma exists_yield_power (d : Derivation (.chain .power)) :
    ∃ l ls, d.yield = l :: ls ∧ beginsOperand l := by
  cases d with
  | chain _ first rest =>
    obtain ⟨l, ls, h, hl⟩ := exists_yield_atom first
    exact ⟨l, ls ++ rest.yield, by rw [yield, h, List.cons_append], hl⟩

/-- Behind an operand stands an operation of its level, or what follows the whole chain. -/
lemma ends_yield_more {level : Level} {ls : List Lexeme} (d : Derivation (.more level))
    (h : (Nonterminal.chain level).Ends ls) : (operand level).Ends (d.yield ++ ls) := by
  cases d with
  | done => exact h.mono (continuations_operand_subset level)
  | next op _ hop e rest =>
    subst hop
    rw [yield, List.cons_append, ends_cons_iff]
    rintro s hs hop
    cases hop
    exact symbol_notMem_continuations op hs

/-! ### No lexemes are derived in two ways -/

/-- A signed operand begins with its sign, and no other operand does. -/
lemma yield_power_ne {s : Symbol} (hs : beginsOperand (.symbol s) = false) (d : Derivation .power)
    (ls ls' : List Lexeme) : d.yield ++ ls ≠ .symbol s :: ls' := by
  obtain ⟨l, rest, hd, hl⟩ := exists_yield_power d
  rw [hd, List.cons_append]
  intro h
  rw [(List.cons.inj h).1, hs] at hl
  cases hl

/-- Where derived lexemes are followed by others that do not continue them, the derivation is
known from all of them together. -/
lemma eq_of_yield_append_eq {n : Nonterminal} (d d' : Derivation n) {ls ls' : List Lexeme}
    (hls : n.Ends ls) (hls' : n.Ends ls') (h : d.yield ++ ls = d'.yield ++ ls') :
    d = d' ∧ ls = ls' := by
  induction d generalizing ls ls' with
  | plain b ih =>
    cases d' with
    | plain b' =>
      obtain ⟨rfl, hrest⟩ := ih b' (hls.mono (by decide)) (hls'.mono (by decide)) h
      exact ⟨rfl, hrest⟩
    | directed b' d' =>
      rw [yield, yield, List.append_assoc] at h
      obtain ⟨-, rfl⟩ := ih b' (hls.mono (by decide)) (ends_cons_of_notMem (by decide)) h
      exact absurd rfl (ends_cons_iff.1 hls .atSign (by decide))
  | directed b d ihb ihd =>
    cases d' with
    | plain b' =>
      rw [yield, yield, List.append_assoc] at h
      obtain ⟨-, rfl⟩ := ihb b' (ends_cons_of_notMem (by decide)) (hls'.mono (by decide)) h
      exact absurd rfl (ends_cons_iff.1 hls' .atSign (by decide))
    | directed b' d' =>
      rw [yield, yield, List.append_assoc, List.append_assoc] at h
      obtain ⟨rfl, hd⟩ := ihb b' (ends_cons_of_notMem (by decide))
        (ends_cons_of_notMem (by decide)) h
      obtain ⟨rfl, hrest⟩ := ihd d' (hls.mono (by decide)) (hls'.mono (by decide))
        (List.cons.inj hd).2
      exact ⟨rfl, hrest⟩
  | side e ih =>
    cases d' with
    | side e' =>
      obtain ⟨rfl, hrest⟩ := ih e' (hls.mono (by decide)) (hls'.mono (by decide)) h
      exact ⟨rfl, hrest⟩
    | sides l' r' =>
      rw [yield, yield, List.append_assoc] at h
      obtain ⟨-, rfl⟩ := ih l' (hls.mono (by decide)) (ends_cons_of_notMem (by decide)) h
      exact absurd rfl (ends_cons_iff.1 hls .equals (by decide))
  | sides l r ihl ihr =>
    cases d' with
    | side e' =>
      rw [yield, yield, List.append_assoc] at h
      obtain ⟨-, rfl⟩ := ihl e' (ends_cons_of_notMem (by decide)) (hls'.mono (by decide)) h
      exact absurd rfl (ends_cons_iff.1 hls' .equals (by decide))
    | sides l' r' =>
      rw [yield, yield, List.append_assoc, List.append_assoc] at h
      obtain ⟨rfl, hr⟩ := ihl l' (ends_cons_of_notMem (by decide))
        (ends_cons_of_notMem (by decide)) h
      obtain ⟨rfl, hrest⟩ := ihr r' (hls.mono (by decide)) (hls'.mono (by decide))
        (List.cons.inj hr).2
      exact ⟨rfl, hrest⟩
  | solve x =>
    cases d' with
    | solve x' =>
      cases h
      exact ⟨rfl, rfl⟩
    | substitute x' t' =>
      cases h
      exact absurd rfl (ends_cons_iff.1 hls .comma (by decide))
  | substitute x t ih =>
    cases d' with
    | solve x' =>
      cases h
      exact absurd rfl (ends_cons_iff.1 hls' .comma (by decide))
    | substitute x' t' =>
      simp only [yield, List.cons_append, List.cons.injEq, Lexeme.letter.injEq, true_and] at h
      obtain ⟨rfl, ht⟩ := h
      obtain ⟨rfl, hrest⟩ := ih t' (ends_of_nil rfl) (ends_of_nil rfl) ht
      exact ⟨rfl, hrest⟩
  | negative t ih =>
    cases d' with
    | negative t' =>
      obtain ⟨rfl, hrest⟩ := ih t' (ends_of_nil rfl) (ends_of_nil rfl) (List.cons.inj h).2
      exact ⟨rfl, hrest⟩
    | positive t' =>
      obtain ⟨l, ht', hl⟩ := exists_yield_simple t'
      rw [yield, yield, ht'] at h
      exact absurd (List.cons.inj h).1.symm (hl .minus)
  | positive t ih =>
    cases d' with
    | negative t' =>
      obtain ⟨l, ht, hl⟩ := exists_yield_simple t
      rw [yield, yield, ht] at h
      exact absurd (List.cons.inj h).1 (hl .minus)
    | positive t' =>
      obtain ⟨rfl, hrest⟩ := ih t' (ends_of_nil rfl) (ends_of_nil rfl) h
      exact ⟨rfl, hrest⟩
  | number numeral =>
    cases d' <;> cases h
    exact ⟨rfl, rfl⟩
  | letter x =>
    cases d' <;> cases h
    exact ⟨rfl, rfl⟩
  | chain level first rest ihf ihr =>
    cases d' with
    | chain _ first' rest' =>
      rw [yield, yield, List.append_assoc, List.append_assoc] at h
      obtain ⟨rfl, hr⟩ := ihf first' (ends_yield_more rest hls) (ends_yield_more rest' hls') h
      obtain ⟨rfl, hrest⟩ := ihr rest' (ends_more.2 hls) (ends_more.2 hls') hr
      exact ⟨rfl, hrest⟩
  | done level =>
    cases d' with
    | done => exact ⟨rfl, h⟩
    | next op _ hop e rest =>
      subst hop
      rw [yield, List.nil_append, yield, List.cons_append] at h
      subst h
      exact absurd rfl (ends_cons_iff.1 (ends_more.1 hls) _ (symbol_mem_continuations op))
  | next op level hop e rest ihe ihr =>
    cases d' with
    | done =>
      subst hop
      rw [yield, List.nil_append, yield, List.cons_append] at h
      subst h
      exact absurd rfl (ends_cons_iff.1 (ends_more.1 hls') _ (symbol_mem_continuations op))
    | next op' _ hop' e' rest' =>
      simp only [yield, List.cons_append, List.append_assoc, List.cons.injEq,
        Lexeme.symbol.injEq] at h
      obtain ⟨hs, he⟩ := h
      obtain rfl := symbol_injective hs
      obtain ⟨rfl, hr⟩ := ihe e' (ends_yield_more rest (ends_more.1 hls))
        (ends_yield_more rest' (ends_more.1 hls')) he
      obtain ⟨rfl, hrest⟩ := ihr rest' hls hls' hr
      exact ⟨rfl, hrest⟩
  | term e ih =>
    cases d' with
    | term e' =>
      obtain ⟨rfl, hrest⟩ := ih e' hls hls' h
      exact ⟨rfl, hrest⟩
  | minus e ih =>
    cases d' with
    | minus e' =>
      obtain ⟨rfl, hrest⟩ := ih e' hls hls' (List.cons.inj h).2
      exact ⟨rfl, hrest⟩
    | plus e' => cases h
    | unsigned e' => exact absurd h.symm (yield_power_ne rfl e' ls' _)
  | plus e ih =>
    cases d' with
    | minus e' => cases h
    | plus e' =>
      obtain ⟨rfl, hrest⟩ := ih e' hls hls' (List.cons.inj h).2
      exact ⟨rfl, hrest⟩
    | unsigned e' => exact absurd h.symm (yield_power_ne rfl e' ls' _)
  | unsigned e ih =>
    cases d' with
    | minus e' => exact absurd h (yield_power_ne rfl e ls _)
    | plus e' => exact absurd h (yield_power_ne rfl e ls _)
    | unsigned e' =>
      obtain ⟨rfl, hrest⟩ := ih e' hls hls' h
      exact ⟨rfl, hrest⟩
  | simple e ih =>
    cases d' with
    | simple e' =>
      obtain ⟨rfl, hrest⟩ := ih e' (ends_of_nil rfl) (ends_of_nil rfl) h
      exact ⟨rfl, hrest⟩
    | parentheses e' =>
      obtain ⟨l, he, hl⟩ := exists_yield_simple e
      rw [yield, yield, he] at h
      exact absurd (List.cons.inj h).1 (hl .leftParen)
  | parentheses e ih =>
    cases d' with
    | simple e' =>
      obtain ⟨l, he', hl⟩ := exists_yield_simple e'
      rw [yield, yield, he'] at h
      exact absurd (List.cons.inj h).1.symm (hl .leftParen)
    | parentheses e' =>
      simp only [yield, List.cons_append, List.append_assoc, List.cons.injEq, true_and] at h
      obtain ⟨rfl, hp⟩ := ih e' (ends_cons_of_notMem (by decide))
        (ends_cons_of_notMem (by decide)) h
      exact ⟨rfl, (List.cons.inj hp).2⟩

/-- The grammar is unambiguous. -/
lemma eq_of_yield_eq {n : Nonterminal} {d d' : Derivation n} (h : d.yield = d'.yield) : d = d' :=
  (eq_of_yield_append_eq d d' (ends_nil n) (ends_nil n) (by rw [h])).1

end Derivation

end Grammar

end SymbolicAlgebra
