import SymbolicAlgebra.Proofs.Grammar.Completeness
import SymbolicAlgebra.Proofs.Grammar.EndOfInput
import SymbolicAlgebra.Proofs.Lexing

/-!
# The statements that are accepted

A list of tokens is read as a statement exactly when it derives from the grammar
(`Statement.ofTokens_iff_derives`). Every other list is refused with the first token that does not
fit. Only the numerals can stand in the way: a decimal that is read as a number of more bits than
there are integers for.
-/

namespace SymbolicAlgebra

open Grammar

variable {config : Config}

namespace Grammar.Derivation

/-- What a derivation stands for is refused where a numeral is. -/
lemma exists_numeral_of_meaning_eq_error {n : Nonterminal} (d : Derivation n) {e : Error}
    (h : d.meaning config = .error e) :
    ∃ numeral, .number numeral ∈ d.yield ∧ config.readNumeral numeral = .error e := by
  induction d with
  | solve x => cases h
  | letter x => cases h
  | done level => cases h
  | number numeral =>
    rcases bind_eq_error_iff.1 h with hn | ⟨_, _, hr⟩
    · exact ⟨numeral, List.mem_singleton_self _, hn⟩
    · cases hr
  | plain b ih | side b ih | negative b ih | minus b ih | substitute x b ih =>
    rcases bind_eq_error_iff.1 h with hb | ⟨_, _, hr⟩
    · obtain ⟨numeral, hmem, hread⟩ := ih hb
      exact ⟨numeral, by simp [hmem], hread⟩
    · cases hr
  | positive t ih | term t ih | plus t ih | unsigned t ih | simple t ih | parentheses t ih =>
    obtain ⟨numeral, hmem, hread⟩ := ih h
    exact ⟨numeral, by simp [hmem], hread⟩
  | directed b d ihb ihd | sides b d ihb ihd | chain _ b d ihb ihd | next _ _ _ b d ihb ihd =>
    rcases bind_eq_error_iff.1 h with hb | ⟨_, _, hrest⟩
    · obtain ⟨numeral, hmem, hread⟩ := ihb hb
      exact ⟨numeral, by simp [hmem], hread⟩
    · rcases bind_eq_error_iff.1 hrest with hd | ⟨_, _, hr⟩
      · obtain ⟨numeral, hmem, hread⟩ := ihd hd
        exact ⟨numeral, by simp [hmem], hread⟩
      · cases hr

end Grammar.Derivation

/-- Whether a numeral stands among the tokens of some text. -/
def IsLexed (numeral : List Char) : Prop :=
  ∃ text ts, tokenize text = .ok ts ∧ .number numeral ∈ ts.map Token.lexeme

/-- Whether an error comes from a decimal among some tokens: it is read as a number of so many bits
that there are no integers for it. -/
def RefusesDecimal (config : Config) (ts : List Token) (e : Error) : Prop :=
  config.exactDecimals = false ∧ e.IsTooWide config.precision ∧
    ∃ numeral, .number numeral ∈ ts.map Token.lexeme ∧ '.' ∈ numeral ∧
      config.readNumeral numeral = .error e

/-- The numerals of texts stand for numbers, apart from decimals that are too wide. -/
lemma refusesDecimal_of_isLexed {ts : List Token} {numeral : List Char} {e : Error}
    (hmem : .number numeral ∈ ts.map Token.lexeme)
    (h : IsLexed numeral ∧ digitCount numeral ≤ numeralLimit)
    (he : config.readNumeral numeral = .error e) : RefusesDecimal config ts e := by
  obtain ⟨⟨text, ts', hts', hmem'⟩, hcount⟩ := h
  rcases config.readNumeral_of_isNumeral (isNumeral_of_tokenize hts' hmem') hcount with
    ⟨n, hn⟩ | ⟨hexact, hpoint, e', he', hwide⟩
  · rw [hn] at he
    cases he
  · rw [he'] at he
    cases he
    exact ⟨hexact, hwide, numeral, hmem, hpoint, he'⟩

namespace Reader

variable {ts : List Token}

lemma isEnded_of_ending (h : ending ts = .ok ()) : IsEnded ts := by
  unfold ending at h
  split at h
  · exact .inl rfl
  · exact .inr ⟨_, _, rfl⟩
  · cases h

/-- The token that is told when tokens do not fit is one of them, or the end of the input. -/
lemma exists_front_eq {rest : List Token} (h : rest <:+ ts) (p : Nat) :
    ∃ t ∈ ts ++ [⟨.endOfInput, p⟩], front rest = t.shown := by
  cases rest with
  | nil => exact ⟨⟨.endOfInput, p⟩, by simp, rfl⟩
  | cons t rest => exact ⟨t, List.mem_append_left _ (h.subset List.mem_cons_self), rfl⟩

end Reader

namespace Statement

open Reader

variable {ts : List Token}

/-- A statement derives from all tokens before the end of the input. -/
lemma ofTokens_eq_ok_iff (hend : .endOfInput ∉ ts.map Token.lexeme) {s : Statement} :
    ofTokens config ts = .ok s ↔ Derives config .statement s ts := by
  constructor
  · intro h
    obtain ⟨taken, rest, rfl, hending, hderives⟩ := derives_of_ofTokens h
    rcases isEnded_of_ending hending with rfl | ⟨p, ts, rfl⟩
    · rwa [List.append_nil]
    · simp at hend
  · rintro ⟨d, hd, hmeaning⟩
    rw [ofTokens_of_yield_eq d hd.symm, hmeaning]

/-- A list of tokens that ends the input is read as a statement if and only if the tokens before the
end derive from the grammar, and the statement is then what the one derivation stands for. Whatever
derives is read, unless a decimal in it is too wide; whatever does not is refused with one of the
tokens. What follows the end of the input is never looked at. The numerals are those of some
text. -/
theorem ofTokens_iff_derives (config : Config) (ts : List Token) (p : Nat)
    (hend : .endOfInput ∉ ts.map Token.lexeme)
    (hnumerals : ∀ numeral, .number numeral ∈ ts.map Token.lexeme →
      IsLexed numeral ∧ digitCount numeral ≤ numeralLimit) :
    let input := ts ++ [⟨.endOfInput, p⟩]
    (∀ s, ofTokens config input = .ok s ↔
      ∃ d : Derivation .statement, d.yield = ts.map Token.lexeme ∧ d.meaning config = .ok s) ∧
    (∀ d d' : Derivation .statement, d.yield = ts.map Token.lexeme →
      d'.yield = ts.map Token.lexeme → d = d') ∧
    (∀ d : Derivation .statement, d.yield = ts.map Token.lexeme →
      (∃ s, ofTokens config input = .ok s) ∨
        ∃ e, ofTokens config input = .error e ∧ RefusesDecimal config ts e) ∧
    (∀ e, ofTokens config input = .error e →
      (∃ cause, ∃ t ∈ input, e = .grammar cause t.shown) ∨ RefusesDecimal config ts e) ∧
    ∀ extra, ofTokens config (input ++ extra) = ofTokens config input := by
  intro input
  have hinput : ofTokens config input = ofTokens config ts :=
    ofTokens_append (.inr ⟨p, [], rfl⟩) ts
  refine ⟨?_, ?_, ?_, ?_, ?_⟩
  · intro s
    rw [hinput, ofTokens_eq_ok_iff hend]
    rfl
  · intro d d' hd hd'
    exact Derivation.eq_of_yield_eq (hd.trans hd'.symm)
  · intro d hd
    rw [hinput, ofTokens_of_yield_eq d hd.symm]
    cases hmeaning : d.meaning config with
    | ok s => exact .inl ⟨s, rfl⟩
    | error e =>
      obtain ⟨numeral, hmem, hread⟩ := d.exists_numeral_of_meaning_eq_error hmeaning
      rw [hd] at hmem
      exact .inr ⟨e, rfl, refusesDecimal_of_isLexed hmem (hnumerals numeral hmem) hread⟩
  · intro e he
    rw [hinput] at he
    rcases isRefusal_of_ofTokens he with ⟨cause, rest, hrest, rfl⟩ | ⟨numeral, hmem, hread⟩
    · obtain ⟨t, ht, hfront⟩ := exists_front_eq hrest p
      exact .inl ⟨cause, t, ht, by rw [hfront]⟩
    · exact .inr (refusesDecimal_of_isLexed hmem (hnumerals numeral hmem) hread)
  · intro extra
    rw [hinput, List.append_assoc]
    exact ofTokens_append (.inr ⟨p, extra, rfl⟩) ts

/-- `0.5` is read as a number of 10 ^ 30 bits, for which there are no integers. -/
theorem ofTokens_wide_decimal_refused :
    let config : Config := { precision := 1000000000000000000000000000000 }
    let ts : List Token := [⟨.number ['0', '.', '5'], 0⟩]
    let input := ts ++ [⟨.endOfInput, 3⟩]
    tokenize "0.5" = .ok input ∧
      (∃ d : Derivation .statement, d.yield = ts.map Token.lexeme) ∧
      ¬ ((∃ s, ofTokens config input = .ok s) ∨
        ∃ cause shown, ofTokens config input = .error (.grammar cause shown)) := by
  intro config ts input
  have hrefused : ofTokens config input = .error (.fault .overflow) := rfl
  refine ⟨by decide +kernel, ?_, ?_⟩
  · exact ⟨.plain (.side (.chain .sum (.term (.chain .product (.unsigned (.chain .power
      (.simple (.number ['0', '.', '5'])) (.done .power))) (.done .product))) (.done .sum))), rfl⟩
  · rw [hrefused]
    rintro (⟨s, ⟨⟩⟩ | ⟨cause, shown, ⟨⟩⟩)

/-- `2*x` is read. -/
theorem ofTokens_iff_derives_product :
    let ts : List Token := [⟨.number ['2'], 0⟩, ⟨.symbol .star, 1⟩, ⟨.letter 'x', 2⟩]
    .endOfInput ∉ ts.map Token.lexeme ∧
      (∀ numeral, .number numeral ∈ ts.map Token.lexeme →
        IsLexed numeral ∧ digitCount numeral ≤ numeralLimit) ∧
      ofTokens {} (ts ++ [⟨.endOfInput, 3⟩]) =
        .ok ⟨.expr (.mul (.const (.integer 2)) (.var "x")), none⟩ := by
  intro ts
  have hend : .endOfInput ∉ ts.map Token.lexeme := by decide
  have hnumerals : ∀ numeral, .number numeral ∈ ts.map Token.lexeme →
      IsLexed numeral ∧ digitCount numeral ≤ numeralLimit := by
    intro numeral hmem
    obtain rfl : numeral = ['2'] := by simpa [ts] using hmem
    exact ⟨⟨"2*x", ts ++ [⟨.endOfInput, 3⟩], by decide +kernel, by decide⟩, by decide⟩
  refine ⟨hend, hnumerals, ?_⟩
  refine ((ofTokens_iff_derives {} ts 3 hend hnumerals).1 _).2 ⟨.plain (.side (.chain .sum
    (.term (.chain .product (.unsigned (.chain .power (.simple (.number ['2'])) (.done .power)))
      (.next .mul .product rfl (.unsigned (.chain .power (.simple (.letter 'x')) (.done .power)))
        (.done .product)))) (.done .sum))), rfl, ?_⟩
  rfl

end Statement

end SymbolicAlgebra
