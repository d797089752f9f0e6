import SymbolicAlgebra.Proofs.Numerals

/-!
# What the lexer finds

The numerals of a statement are runs of digits with a point among them at most
(`isNumeral_of_tokenize`), and a text that is put together from pieces has the lexemes of the
pieces, as long as no numeral goes on from one into the next (`Lexes`).
-/

namespace SymbolicAlgebra

variable {cs : List Char} {c : Char}

/-! ### Numerals that are found -/

lemma isNumeralChar_of_isAsciiDigit (h : isAsciiDigit c = true) : isNumeralChar c = true := by
  simp [isNumeralChar, h]

/-- The run of digits and points where a numeral begins is a numeral's beginning. -/
lemma startsNumeral_takeWhile (h : startsNumeral cs = true) :
    startsNumeral (cs.takeWhile isNumeralChar) = true := by
  unfold startsNumeral at h
  split at h
  · next c ds => simp [isNumeralChar, h, startsNumeral]
  · next c ds hc =>
    rw [List.takeWhile_cons_of_pos (isNumeralChar_of_isAsciiDigit h)]
    unfold startsNumeral
    split
    · next heq =>
      obtain ⟨rfl, -⟩ := List.cons.inj heq
      cases h
    · next heq =>
      cases heq
      exact h
    · next heq => cases heq
  · cases h

/-- A single character is no numeral. -/
lemma ofChar?_ne_number (c : Char) (numeral : List Char) :
    Lexeme.ofChar? c ≠ some (.number numeral) := by
  unfold Lexeme.ofChar?
  split <;> simp

/-- The numerals among the tokens of a text. -/
lemma isNumeral_of_tokensFrom {skip position : Nat} {ts : List Token} {numeral : List Char}
    (h : tokensFrom skip position cs = .ok ts) (hmem : .number numeral ∈ ts.map Token.lexeme) :
    IsNumeral numeral := by
  induction cs generalizing skip position ts with
  | nil =>
    unfold tokensFrom at h
    cases h
    simp at hmem
  | cons c cs ih =>
    cases skip with
    | succ skip => exact ih h hmem
    | zero =>
      rw [tokensFrom] at h
      split at h
      · exact ih h hmem
      · split at h
        · next hstarts =>
          dsimp only at h
          split at h
          · cases h
          · next hpoint =>
            obtain ⟨rest, hrest, hts⟩ := bind_eq_ok_iff.1 h
            cases pure_eq_ok_iff.1 hts
            rcases List.mem_cons.1 hmem with heq | hmem
            · cases heq
              exact ⟨startsNumeral_takeWhile hstarts, List.all_eq_true.1 List.all_takeWhile, hpoint⟩
            · exact ih hrest hmem
        · split at h
          · next l hl =>
            obtain ⟨rest, hrest, hts⟩ := bind_eq_ok_iff.1 h
            cases pure_eq_ok_iff.1 hts
            rcases List.mem_cons.1 hmem with heq | hmem
            · rw [Token.lexeme] at heq
              subst heq
              exact absurd hl (ofChar?_ne_number c numeral)
            · exact ih hrest hmem
          · cases h

lemma isNumeral_of_tokenize {text : String} {ts : List Token} {numeral : List Char}
    (h : tokenize text = .ok ts) (hmem : .number numeral ∈ ts.map Token.lexeme) :
    IsNumeral numeral := by
  rw [tokenize] at h
  split at h
  · next ts' hts =>
    cases h
    exact isNumeral_of_tokensFrom hts hmem
  · cases h

/-! ### Texts in pieces -/

/-- Whether no character is in both of two lists of ranges. -/
def areApart (rs ss : CharRanges) : Bool :=
  ss.all fun s => rs.all fun r => Nat.blt r.2 s.1 || Nat.blt s.2 r.1

lemma inRanges_of_areApart {rs ss : CharRanges} (hapart : areApart rs ss)
    (h : inRanges rs c = true) : inRanges ss c = false := by
  simp only [inRanges, List.any_eq_true, Bool.and_eq_true, decide_eq_true_eq] at h
  obtain ⟨r, hr, hlo, hhi⟩ := h
  rw [inRanges, List.any_eq_false]
  intro s hs
  have hrs := List.all_eq_true.1 (List.all_eq_true.1 hapart s hs) r hr
  rw [Bool.or_eq_true, Nat.blt_eq, Nat.blt_eq] at hrs
  rw [Bool.and_eq_true, decide_eq_true_eq, decide_eq_true_eq]
  omega

/-- No letter is a blank. -/
lemma isBlank_of_isLetter (h : isLetter c = true) : isBlank c = false := by
  have hapart : areApart letterRanges blankRanges := by decide +kernel
  exact inRanges_of_areApart hapart h

/-- No letter is part of a numeral. -/
lemma isNumeralChar_of_isLetter (h : isLetter c = true) : isNumeralChar c = false := by
  have hapart : areApart letterRanges [(46, 57)] := by decide +kernel
  have houtside := inRanges_of_areApart hapart h
  rw [← Bool.not_eq_true]
  intro hnumeral
  rw [isNumeralChar, Bool.or_eq_true, isAsciiDigit_iff, beq_iff_eq] at hnumeral
  have hinside : inRanges [(46, 57)] c = true := by
    apply inRanges_of_mem List.mem_cons_self
    · rcases hnumeral with ⟨hlo, -⟩ | rfl
      · exact Nat.le_trans (by decide) hlo
      · decide
    · rcases hnumeral with ⟨-, hhi⟩ | rfl
      · exact hhi
      · decide
  rw [houtside] at hinside
  cases hinside

/-- Whether a text does not go on with a numeral. -/
def Separates (cs : List Char) : Prop :=
  ∀ c ∈ cs.head?, isNumeralChar c = false

/-- Whether a text has certain lexemes, wherever it stands in a text that does not go on with a
numeral. -/
def Lexes (cs : List Char) (ls : List Lexeme) : Prop :=
  ∀ (position : Nat) (rest : List Char) (ts : List Token), Separates rest →
    tokensFrom 0 (position + cs.length) rest = .ok ts →
      ∃ taken, taken.map Token.lexeme = ls ∧ tokensFrom 0 position (cs ++ rest) = .ok (taken ++ ts)

lemma lexes_nil : Lexes [] [] := by
  intro position rest ts _ hts
  exact ⟨[], rfl, hts⟩

lemma Lexes.append {ds : List Char} {ls ms : List Lexeme} (h : Lexes cs ls) (h' : Lexes ds ms)
    (hsep : ∀ rest, Separates rest → Separates (ds ++ rest)) : Lexes (cs ++ ds) (ls ++ ms) := by
  intro position rest ts hrest hts
  rw [List.length_append, ← Nat.add_assoc] at hts
  obtain ⟨taken', rfl, htaken'⟩ := h' _ rest ts hrest hts
  obtain ⟨taken, rfl, htaken⟩ := h position _ _ (hsep rest hrest) htaken'
  refine ⟨taken ++ taken', by simp, ?_⟩
  rw [List.append_assoc, htaken, List.append_assoc]

lemma startsNumeral_of_not (h : isNumeralChar c = false) : startsNumeral (c :: cs) = false := by
  rw [isNumeralChar, Bool.or_eq_false_iff, beq_eq_false_iff_ne] at h
  unfold startsNumeral
  split
  · next heq => exact absurd (List.cons.inj heq).1 h.2
  · next heq =>
    obtain ⟨rfl, -⟩ := List.cons.inj heq
    exact h.1
  · rfl

lemma startsNumeral_of_isAsciiDigit (h : isAsciiDigit c = true) :
    startsNumeral (c :: cs) = true := by
  unfold startsNumeral
  split
  · next heq =>
    obtain ⟨rfl, -⟩ := List.cons.inj heq
    cases h
  · next heq =>
    obtain ⟨rfl, -⟩ := List.cons.inj heq
    exact h
  · next heq => cases heq

/-- The run of digits and points at the front of a text ends where the text separates. -/
lemma takeWhile_append_of_separates {rest : List Char} (h : ∀ c ∈ cs, isNumeralChar c = true)
    (hrest : Separates rest) : (cs ++ rest).takeWhile isNumeralChar = cs := by
  have hnil : rest.takeWhile isNumeralChar = [] := by
    cases rest with
    | nil => rfl
    | cons d rest => rw [List.takeWhile_cons_of_neg (by simp [hrest d rfl])]
  rw [List.takeWhile_append_of_pos h, hnil, List.append_nil]

lemma secondPoint?_of_digits (h : ∀ c ∈ cs, isAsciiDigit c = true) : secondPoint? cs = none := by
  have hnone : cs.findIdx? (· == '.') = none := by
    rw [List.findIdx?_eq_none_iff]
    intro c hc
    rw [beq_eq_false_iff_ne]
    rintro rfl
    exact absurd (h '.' hc) (by decide)
  rw [secondPoint?, hnone, Option.bind_none]

lemma Lexes.blank {ls : List Lexeme} (h : Lexes cs ls) : Lexes (' ' :: cs) ls := by
  intro position rest ts hrest hts
  rw [List.length_cons, Nat.add_comm cs.length 1, ← Nat.add_assoc] at hts
  exact h (position + 1) rest ts hrest hts

lemma Lexes.symbol {ls : List Lexeme} (s : Symbol) (h : Lexes cs ls) :
    Lexes (s.char :: cs) (.symbol s :: ls) := by
  intro position rest ts hrest hts
  rw [List.length_cons, Nat.add_comm cs.length 1, ← Nat.add_assoc] at hts
  obtain ⟨taken, rfl, htaken⟩ := h (position + 1) rest ts hrest hts
  refine ⟨⟨.symbol s, position⟩ :: taken, rfl, ?_⟩
  have hblank : isBlank s.char = false := by cases s <;> decide
  have hnumeral : startsNumeral (s.char :: (cs ++ rest)) = false := by
    cases s <;> rfl
  have hchar : Lexeme.ofChar? s.char = some (.symbol s) := by
    cases s <;> decide +kernel
  rw [List.cons_append, tokensFrom, hblank, hnumeral, hchar, htaken]
  rfl

lemma lexes_letter (h : isLetter c = true) : Lexes [c] [.letter c] := by
  intro position rest ts _ hts
  refine ⟨[⟨.letter c, position⟩], rfl, ?_⟩
  have hchar : Lexeme.ofChar? c = some (.letter c) := by rw [Lexeme.ofChar?, if_pos h]
  rw [List.singleton_append, tokensFrom, isBlank_of_isLetter h,
    startsNumeral_of_not (isNumeralChar_of_isLetter h), hchar]
  rw [List.length_singleton] at hts
  rw [hts]
  rfl

/-- Digits are one numeral. -/
lemma lexes_digits (hne : cs ≠ []) (h : ∀ c ∈ cs, isAsciiDigit c = true) :
    Lexes cs [.number cs] := by
  intro position rest ts hrest hts
  refine ⟨[⟨.number cs, position⟩], rfl, ?_⟩
  have hchars (c : Char) (hc : c ∈ cs) : isNumeralChar c = true :=
    isNumeralChar_of_isAsciiDigit (h c hc)
  have htake := takeWhile_append_of_separates hchars hrest
  have hpoint := secondPoint?_of_digits h
  cases cs with
  | nil => exact absurd rfl hne
  | cons c cs =>
    have hblank : isBlank c = false :=
      (forall_numeralChars c (mem_numeralChars (hchars c List.mem_cons_self))).1
    have hskip : tokensFrom cs.length (position + 1) (cs ++ rest) = .ok ts := by
      rw [tokensFrom_skip _ _ _ (by simp), List.drop_left, Nat.add_assoc, Nat.add_comm 1]
      exact hts
    rw [List.cons_append] at htake
    rw [List.cons_append, tokensFrom, hblank,
      startsNumeral_of_isAsciiDigit (h c List.mem_cons_self)]
    simp only [htake, hpoint, List.length_cons, Nat.add_sub_cancel, hskip]
    rfl

/-- What a text in pieces is split into. -/
lemma Lexes.tokenize {text : String} {ls : List Lexeme} (h : Lexes text.toList ls) :
    ∃ ts p, ts.map Token.lexeme = ls ∧ tokenize text = .ok (ts ++ [⟨.endOfInput, p⟩]) := by
  obtain ⟨taken, htaken, hts⟩ := h 0 [] _ (by simp [Separates]) rfl
  rw [List.append_nil] at hts
  exact ⟨taken, 0 + text.toList.length, htaken, by rw [SymbolicAlgebra.tokenize, hts]⟩

end SymbolicAlgebra
