import SymbolicAlgebra.Proofs.Grammar.Soundness
import SymbolicAlgebra.Proofs.Lexing
import SymbolicAlgebra.Proofs.Refusals.Evaluation
import SymbolicAlgebra.Statement.Parser

/-!
# Refusals of reading

A text that is no statement is refused with what does not fit, and one that is a statement for the
length of a numeral only (`Statement.foreseen_parse`). The variables of a statement that is read are
single letters, so that all of them can be weighed (`Statement.hasLetters_of_parse`).
-/

namespace SymbolicAlgebra

variable {config : Config} {Q : Error → Prop} {l r e : Expr}

/-! ### Variables that can be weighed -/

namespace Expr

lemma hasLetters_const (c : Number) : (const c).HasLetters Q := by
  intro x hx
  simp at hx

lemma hasLetters_letter (c : Char) : (var c.toString).HasLetters Q := by
  intro x hx
  obtain rfl : c.toString = x := by
    simpa [countOccurrences, variableNames, List.count_pos_iff, eq_comm] using hx
  have hvalue : letterValue c.toString = .ok (.ofInt c.toNat) := by
    simp [letterValue]
  rw [hvalue]
  exact refusedOnly_ok _

lemma HasLetters.opNode (hl : l.HasLetters Q) (hr : r.HasLetters Q) (op : Operator) :
    (op.node l r).HasLetters Q := by
  intro x hx
  have hparts : 0 < l.countOccurrences x ∨ 0 < r.countOccurrences x := by
    cases op <;> simpa [Operator.node] using hx
  exact hparts.elim (hl x) (hr x)

lemma HasLetters.foldl {operations : List (Operator × Expr)} (he : e.HasLetters Q)
    (h : ∀ o ∈ operations, o.2.HasLetters Q) :
    (operations.foldl (fun e o => o.1.node e o.2) e).HasLetters Q := by
  induction operations generalizing e with
  | nil => exact he
  | cons o operations ih =>
    obtain ⟨ho, h⟩ := List.forall_mem_cons.1 h
    exact ih (he.opNode ho o.1) h

end Expr

namespace Grammar

/-- A meaning all of whose variables can be weighed, as far as `Q` goes. -/
def Nonterminal.HasLetters (Q : Error → Prop) : (n : Nonterminal) → n.Meaning → Prop
  | statement, s => s.HasLetters Q
  | equation, b => b.toEquation.HasLetters Q
  | directive, d => ∀ x t, d = .substitute x t → t.HasLetters Q
  | more _, operations => ∀ o ∈ operations, o.2.HasLetters Q
  | replacement, e | simple, e | chain _, e | operand _, e => e.HasLetters Q

/-- What a derivation stands for has single letters for variables. -/
lemma Derivation.hasLetters_meaning {n : Nonterminal} (d : Derivation n) {m : n.Meaning}
    (h : d.meaning config = .ok m) : n.HasLetters Q m := by
  induction d with
  | plain b ih =>
    obtain ⟨b', hb, h⟩ := bind_eq_ok_iff.1 h
    obtain rfl := pure_eq_ok_iff.1 h
    exact ⟨ih hb, by simp⟩
  | directed b d ihb ihd =>
    obtain ⟨b', hb, h⟩ := bind_eq_ok_iff.1 h
    obtain ⟨d', hd, h⟩ := bind_eq_ok_iff.1 h
    obtain rfl := pure_eq_ok_iff.1 h
    exact ⟨ihb hb, fun x t ht => ihd hd x t (Option.some.inj ht)⟩
  | side e ih =>
    obtain ⟨e', he, h⟩ := bind_eq_ok_iff.1 h
    obtain rfl := pure_eq_ok_iff.1 h
    exact ⟨ih he, Expr.hasLetters_const 0⟩
  | sides l r ihl ihr =>
    obtain ⟨l', hl, h⟩ := bind_eq_ok_iff.1 h
    obtain ⟨r', hr, h⟩ := bind_eq_ok_iff.1 h
    obtain rfl := pure_eq_ok_iff.1 h
    exact ⟨ihl hl, ihr hr⟩
  | solve x =>
    obtain rfl := Except.ok.inj h
    intro y t ht
    cases ht
  | substitute x t ih =>
    obtain ⟨t', ht, h⟩ := bind_eq_ok_iff.1 h
    obtain rfl := pure_eq_ok_iff.1 h
    intro y u hu
    cases hu
    exact ih ht
  | negative t ih | minus t ih =>
    obtain ⟨t', ht, h⟩ := bind_eq_ok_iff.1 h
    obtain rfl := pure_eq_ok_iff.1 h
    have hinner : t'.HasLetters Q := ih ht
    exact hinner
  | number numeral =>
    obtain ⟨c, -, h⟩ := bind_eq_ok_iff.1 h
    obtain rfl := pure_eq_ok_iff.1 h
    exact Expr.hasLetters_const c
  | letter x =>
    obtain rfl := Except.ok.inj h
    exact Expr.hasLetters_letter x
  | chain level first rest ihf ihr =>
    obtain ⟨e, he, h⟩ := bind_eq_ok_iff.1 h
    obtain ⟨operations, hoperations, h⟩ := bind_eq_ok_iff.1 h
    obtain rfl := pure_eq_ok_iff.1 h
    exact Expr.HasLetters.foldl (ihf he) (ihr hoperations)
  | done level =>
    obtain rfl := Except.ok.inj h
    intro o ho
    cases ho
  | next op level hop operand rest iho ihr =>
    obtain ⟨e, he, h⟩ := bind_eq_ok_iff.1 h
    obtain ⟨operations, hoperations, h⟩ := bind_eq_ok_iff.1 h
    obtain rfl := pure_eq_ok_iff.1 h
    exact List.forall_mem_cons.2 ⟨iho he, ihr hoperations⟩
  | positive t ih | term t ih | plus t ih | unsigned t ih | simple t ih | parentheses t ih =>
    exact ih h

end Grammar

namespace Statement

variable {text : String} {s : Statement}

lemma hasLetters_of_parse (h : parse config text = .ok s) : s.HasLetters Q := by
  obtain ⟨ts, -, h⟩ := bind_eq_ok_iff.1 h
  obtain ⟨_, _, -, -, d, -, hmeaning⟩ := derives_of_ofTokens h
  exact d.hasLetters_meaning hmeaning

lemma foreseen_tokenize (text : String) : RefusedOnly Error.IsForeseen (tokenize text) := by
  unfold tokenize
  split
  · exact refusedOnly_ok _
  · exact refusedOnly_error (.inl rfl)

/-- A text is read, or refused for a character or a token that does not fit, or for the length of a
numeral. -/
theorem foreseen_parse (config : Config) (text : String) :
    RefusedOnly Error.IsForeseen (parse config text) := by
  refine (foreseen_tokenize text).bind fun ts hts e he => ?_
  rcases isRefusal_of_ofTokens he with ⟨cause, rest, -, rfl⟩ | ⟨numeral, hmem, hread⟩
  · exact .inl rfl
  · exact .inr (config.onlyLimits_readNumeral (isNumeral_of_tokenize hts hmem) e hread)

end Statement

end SymbolicAlgebra
