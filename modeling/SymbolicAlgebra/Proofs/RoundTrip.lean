import SymbolicAlgebra.Formula
import SymbolicAlgebra.Proofs.Grammar.Completeness
import SymbolicAlgebra.Proofs.Grammar.EndOfInput
import SymbolicAlgebra.Proofs.KeyText
import SymbolicAlgebra.Proofs.Lexing

/-!
# Reading what is written

An expression over integers and letters is written as a formula that is read as the same expression
again (`Statement.parse_text`). Every operation stands in parentheses, so its text is an atom of the
grammar. A sign does not stand in parentheses itself: it may be an operand of every operation but a
power.
-/

namespace SymbolicAlgebra

open Grammar

/-- An expression that a statement can spell: over integers that are not negative and not too long,
and over letters, without logarithms. No sign applies to an operand of a power. -/
inductive Expr.IsPlain : Expr → Prop where
  | const {n : Int} (hn : 0 ≤ n) (h : n.natAbs < numeralBound) : IsPlain (.const (.integer n))
  | var {x : String} (h : Expr.ofLetter x = .ok (.var x)) : IsPlain (.var x)
  | add {l r : Expr} (hl : IsPlain l) (hr : IsPlain r) : IsPlain (.add l r)
  | sub {l r : Expr} (hl : IsPlain l) (hr : IsPlain r) : IsPlain (.sub l r)
  | mul {l r : Expr} (hl : IsPlain l) (hr : IsPlain r) : IsPlain (.mul l r)
  | div {n d : Expr} (hn : IsPlain n) (hd : IsPlain d) : IsPlain (.div n d)
  | pow {b p : Expr} (hb : IsPlain b) (hp : IsPlain p) (hbneg : ∀ f, b ≠ .neg f)
      (hpneg : ∀ f, p ≠ .neg f) : IsPlain (.pow b p)
  | neg {f : Expr} (hf : IsPlain f) : IsPlain (.neg f)

/-- Whether a text derives from a nonterminal, with the same meaning under all settings. -/
def Spells (n : Nonterminal) (a : n.Meaning) (cs : List Char) : Prop :=
  ∃ d : Derivation n, Lexes cs d.yield ∧ ∀ config, d.meaning config = .ok a

namespace Spells

variable {e f : Expr} {cs ds : List Char}

/-! ### Operands -/

lemma length_toDigits_le {m k : Nat} (hk : 0 < k) (h : m < powerOfTen k) :
    (Nat.toDigits 10 m).length ≤ k :=
  (Nat.length_toDigits_le_iff (by decide) hk).2 h

lemma numeral {m : Nat} (h : m < numeralBound) :
    Spells .atom (.const (.integer m)) (Nat.toDigits 10 m) := by
  have hdigits (c : Char) (hc : c ∈ Nat.toDigits 10 m) : isAsciiDigit c = true := by
    have hdigit := isDigit_of_mem_toDigits hc
    rw [Char.isDigit, Bool.and_eq_true, decide_eq_true_eq, decide_eq_true_eq] at hdigit
    rw [isAsciiDigit, Bool.and_eq_true, decide_eq_true_eq, decide_eq_true_eq]
    exact hdigit
  have hlength : (Nat.toDigits 10 m).length ≤ numeralLimit :=
    length_toDigits_le (by decide) h
  have hread : readNatural? (Nat.toDigits 10 m) = some m := by
    rw [readNatural?_of_digits Nat.toDigits_ne_nil hdigits hlength]
    have hvalue : Radix.decimal.ofDigits (digitValues (Nat.toDigits 10 m)) =
        Nat.ofDigitChars 10 (Nat.toDigits 10 m) 0 := by
      rw [Radix.ofDigits, digitValues, List.foldl_map, Nat.ofDigitChars_eq_foldl]
      rfl
    rw [hvalue, Nat.ofDigitChars_ten_toDigits]
  have hpoint : '.' ∉ Nat.toDigits 10 m := fun hc => absurd (hdigits '.' hc) (by decide)
  refine ⟨.simple (.number (Nat.toDigits 10 m)), lexes_digits Nat.toDigits_ne_nil hdigits, ?_⟩
  intro config
  rw [Derivation.meaning, Derivation.meaning, Config.readNumeral, if_neg hpoint, hread]
  rfl

lemma letter {c : Char} (h : isLetter c = true) : Spells .atom (.var c.toString) [c] :=
  ⟨.simple (.letter c), lexes_letter h, fun _ => rfl⟩

/-- What is an operand is a chain. -/
lemma chain {level : Level} (h : Spells (.operand level) e cs) : Spells (.chain level) e cs := by
  obtain ⟨d, hlex, hmeaning⟩ := h
  refine ⟨.chain level d (.done level), ?_, ?_⟩
  · rwa [Derivation.yield, Derivation.yield, List.append_nil]
  · intro config
    rw [Derivation.meaning, hmeaning]
    rfl

lemma unary (h : Spells .atom e cs) : Spells .unary e cs := by
  obtain ⟨d, hlex, hmeaning⟩ := h.chain
  exact ⟨.unsigned d, hlex, hmeaning⟩

lemma term (h : Spells .term e cs) : Spells (.operand .sum) e cs := by
  obtain ⟨d, hlex, hmeaning⟩ := h
  exact ⟨.term d, hlex, hmeaning⟩

lemma unsigned (h : Spells .power e cs) : Spells .unary e cs := by
  obtain ⟨d, hlex, hmeaning⟩ := h
  exact ⟨.unsigned d, hlex, hmeaning⟩

/-- A chain of any level is an expression. -/
lemma expression {level : Level} (h : Spells (.chain level) e cs) : Spells .expression e cs := by
  cases level with
  | sum => exact h
  | product => exact h.term.chain
  | power => exact h.unsigned.chain.term.chain

lemma separates_parenthesis (rest : List Char) (_ : Separates rest) :
    Separates ([')'] ++ rest) := by
  rintro c ⟨⟩
  rfl

lemma parentheses (h : Spells .expression e cs) : Spells .atom e ('(' :: (cs ++ [')'])) := by
  obtain ⟨d, hlex, hmeaning⟩ := h
  exact ⟨.parentheses d, Lexes.symbol .leftParen
    (hlex.append (Lexes.symbol .rightParen lexes_nil) separates_parenthesis), hmeaning⟩

lemma minus (h : Spells .unary e cs) : Spells .unary (.neg e) ('-' :: cs) := by
  obtain ⟨d, hlex, hmeaning⟩ := h
  refine ⟨.minus d, Lexes.symbol .minus hlex, ?_⟩
  intro config
  rw [Derivation.meaning, hmeaning]
  rfl

/-! ### Operations -/

lemma separates_blank (rest : List Char) (_ : Separates rest) :
    Separates (' ' :: cs ++ rest) := by
  rintro c ⟨⟩
  rfl

lemma infixed {s : Symbol} {ls ms : List Lexeme} (hl : Lexes cs ls) (hr : Lexes ds ms) :
    Lexes (cs ++ ' ' :: s.char :: ' ' :: ds) (ls ++ .symbol s :: ms) :=
  hl.append (Lexes.symbol s hr.blank).blank separates_blank

/-- An operation of a level between its operands. -/
lemma operation (op : Operator) (hl : Spells (.operand op.level) e cs)
    (hr : Spells (.operand op.level) f ds) :
    Spells (.chain op.level) (op.node e f) (cs ++ ' ' :: op.symbol.char :: ' ' :: ds) := by
  obtain ⟨d, hlex, hmeaning⟩ := hl
  obtain ⟨d', hlex', hmeaning'⟩ := hr
  refine ⟨.chain op.level d (.next op op.level rfl d' (.done op.level)), ?_, ?_⟩
  · rw [Derivation.yield, Derivation.yield, Derivation.yield, List.append_nil]
    exact infixed hlex hlex'
  · intro config
    rw [Derivation.meaning, Derivation.meaning, hmeaning, hmeaning']
    rfl

/-- An operation of any level in parentheses. -/
lemma operationText (op : Operator) {l r : String}
    (hl : Spells (.operand op.level) e l.toList) (hr : Spells (.operand op.level) f r.toList) :
    Spells .atom (op.node e f)
      (Expr.operationText l op.symbol.char.toString r).toList := by
  have htext : (Expr.operationText l op.symbol.char.toString r).toList =
      '(' :: ((l.toList ++ ' ' :: op.symbol.char :: ' ' :: r.toList) ++ [')']) := by
    simp [Expr.operationText, String.toList_append]
  rw [htext]
  exact (operation op hl hr).expression.parentheses

end Spells

namespace Expr

/-- What `var` accepts is a letter. -/
lemma exists_letter_of_ofLetter {x : String} {e : Expr} (h : Expr.ofLetter x = .ok e) :
    ∃ c, x = c.toString ∧ isLetter c = true := by
  unfold Expr.ofLetter at h
  split at h
  · next c hx =>
    split at h
    · next hc => exact ⟨c, by rw [← String.ofList_toList (s := x), hx]; rfl, hc⟩
    · cases h
  · cases h

/-- Whether an expression has a text that derives from a nonterminal. -/
def HasText (n : Nonterminal) (a : n.Meaning) (text : Except Error String) : Prop :=
  ∃ s, text = .ok s ∧ Spells n a s.toList

/-- Whether an expression is written as an operand of any kind, or with a sign. -/
def IsSpelled (e : Expr) : Prop :=
  HasText .atom e e.text ∨ (∃ f, e = .neg f) ∧ HasText .unary e e.text

variable {e f : Expr}

lemma IsSpelled.hasText_unary (h : e.IsSpelled) : HasText .unary e e.text := by
  rcases h with ⟨s, hs, hspells⟩ | ⟨-, hunary⟩
  · exact ⟨s, hs, hspells.unary⟩
  · exact hunary

lemma IsSpelled.hasText_term (h : e.IsSpelled) : HasText (.operand .sum) e e.text := by
  obtain ⟨s, hs, hspells⟩ := h.hasText_unary
  exact ⟨s, hs, hspells.chain.term⟩

lemma IsSpelled.hasText_atom (h : e.IsSpelled) (hneg : ∀ f, e ≠ .neg f) :
    HasText .atom e e.text := by
  rcases h with hatom | ⟨⟨f, rfl⟩, -⟩
  · exact hatom
  · exact absurd rfl (hneg f)

lemma text_node (op : Operator) (e f : Expr) : (op.node e f).text = do
    return operationText (← e.text) op.symbol.char.toString (← f.text) := by
  cases op <;> rfl

/-- An operation is written in parentheses, where its operands can be written. -/
lemma isSpelled_node (op : Operator) (he : HasText (.operand op.level) e e.text)
    (hf : HasText (.operand op.level) f f.text) : (op.node e f).IsSpelled := by
  obtain ⟨s, hs, hspells⟩ := he
  obtain ⟨t, ht, hspells'⟩ := hf
  refine .inl ⟨operationText s op.symbol.char.toString t, ?_, hspells.operationText op hspells'⟩
  rw [text_node, hs, ht]
  rfl

lemma isSpelled_numeral {n : Int} (hn : 0 ≤ n) (h : n.natAbs < numeralBound) :
    (Expr.const (.integer n)).IsSpelled := by
  cases n with
  | ofNat m =>
    refine .inl ⟨toString (Int.ofNat m), by rw [text, Number.text, integerText, if_pos h], ?_⟩
    rw [toList_toString_ofNat]
    exact Spells.numeral h
  | negSucc m => exact absurd hn (by omega)

lemma isSpelled_neg (h : e.IsSpelled) : (Expr.neg e).IsSpelled := by
  obtain ⟨s, hs, hspells⟩ := h.hasText_unary
  have htext : ("-(" ++ s ++ ")").toList = '-' :: '(' :: (s.toList ++ [')']) := by
    simp [String.toList_append]
  refine .inr ⟨⟨e, rfl⟩, "-(" ++ s ++ ")", by rw [text, hs]; rfl, ?_⟩
  rw [htext]
  exact hspells.chain.expression.parentheses.unary.minus

lemma isSpelled_of_isPlain (h : e.IsPlain) : e.IsSpelled := by
  induction h with
  | const hn h => exact isSpelled_numeral hn h
  | var h =>
    obtain ⟨c, rfl, hc⟩ := exists_letter_of_ofLetter h
    exact .inl ⟨c.toString, rfl, by simpa using Spells.letter hc⟩
  | add hl hr ihl ihr => exact isSpelled_node .add ihl.hasText_term ihr.hasText_term
  | sub hl hr ihl ihr => exact isSpelled_node .sub ihl.hasText_term ihr.hasText_term
  | mul hl hr ihl ihr => exact isSpelled_node .mul ihl.hasText_unary ihr.hasText_unary
  | div hn hd ihn ihd => exact isSpelled_node .div ihn.hasText_unary ihd.hasText_unary
  | pow hb hp hbneg hpneg ihb ihp =>
    exact isSpelled_node .pow (ihb.hasText_atom hbneg) (ihp.hasText_atom hpneg)
  | neg hf ih => exact isSpelled_neg ih

lemma hasText_of_isPlain (h : e.IsPlain) : HasText .expression e e.text := by
  obtain ⟨s, hs, hspells⟩ := (isSpelled_of_isPlain h).hasText_unary
  exact ⟨s, hs, hspells.chain.expression⟩

end Expr

namespace Statement

/-- A text that spells a statement is read as the statement. -/
lemma parse_of_spells {s : Statement} {text : String} (h : Spells .statement s text.toList)
    (config : Config) : parse config text = .ok s := by
  obtain ⟨d, hlex, hmeaning⟩ := h
  obtain ⟨ts, p, hts, htokens⟩ := hlex.tokenize
  have hread : ofTokens config (ts ++ [⟨.endOfInput, p⟩]) = .ok s := by
    rw [ofTokens_append (.inr ⟨p, [], rfl⟩), ofTokens_of_yield_eq d hts, hmeaning]
  rw [parse, htokens]
  exact hread

lemma parse_text_expr {e : Expr} (h : e.IsPlain) (config : Config) :
    ∃ s, e.text = .ok s ∧ parse config s = .ok ⟨.expr e, none⟩ := by
  obtain ⟨s, hs, d, hlex, hmeaning⟩ := Expr.hasText_of_isPlain h
  refine ⟨s, hs, parse_of_spells ⟨.plain (.side d), hlex, ?_⟩ config⟩
  intro config
  rw [Derivation.meaning, Derivation.meaning, hmeaning]
  rfl

lemma parse_text_equation {l r : Expr} (hl : l.IsPlain) (hr : r.IsPlain) (config : Config) :
    ∃ s, (Equation.mk l r).text = .ok s ∧ parse config s = .ok ⟨.equation ⟨l, r⟩, none⟩ := by
  obtain ⟨s, hs, d, hlex, hmeaning⟩ := Expr.hasText_of_isPlain hl
  obtain ⟨t, ht, d', hlex', hmeaning'⟩ := Expr.hasText_of_isPlain hr
  have htext : (s ++ " = " ++ t).toList = s.toList ++ ' ' :: '=' :: ' ' :: t.toList := by
    simp [String.toList_append]
  refine ⟨s ++ " = " ++ t, by rw [Equation.text, hs, ht]; rfl,
    parse_of_spells ⟨.plain (.sides d d'), ?_, ?_⟩ config⟩
  · rw [htext]
    exact Spells.infixed (s := .equals) hlex hlex'
  · intro config
    rw [Derivation.meaning, Derivation.meaning, hmeaning, hmeaning']
    rfl

/-- What is written is read back. -/
theorem parse_text (config : Config) :
    (∀ e : Expr, e.IsPlain →
      ∃ s, e.text = .ok s ∧ parse config s = .ok ⟨.expr e, none⟩) ∧
    ∀ l r : Expr, l.IsPlain → r.IsPlain →
      ∃ s, (Equation.mk l r).text = .ok s ∧ parse config s = .ok ⟨.equation ⟨l, r⟩, none⟩ := by
  constructor
  · intro e he
    exact parse_text_expr he config
  · intro l r hl hr
    exact parse_text_equation hl hr config

/-- `-(x ^ 2) + 10` is read back, alone and as a side of an equation. -/
theorem parse_text_signed_power :
    let e : Expr := .add (.neg (.pow (.var "x") (.const (.integer 2)))) (.const (.integer 10))
    e.IsPlain ∧ (Expr.var "y").IsPlain ∧
      (∃ s, e.text = .ok s ∧ parse {} s = .ok ⟨.expr e, none⟩) ∧
      ∃ s, (Equation.mk e (.var "y")).text = .ok s ∧
        parse {} s = .ok ⟨.equation ⟨e, .var "y"⟩, none⟩ := by
  intro e
  have he : e.IsPlain :=
    .add (.neg (.pow (.var rfl) (.const (by decide) (by decide +kernel)) (by simp) (by simp)))
      (.const (by decide) (by decide +kernel))
  have hy : (Expr.var "y").IsPlain := .var rfl
  exact ⟨he, hy, (parse_text {}).1 e he, (parse_text {}).2 e (.var "y") he hy⟩

end Statement

end SymbolicAlgebra
