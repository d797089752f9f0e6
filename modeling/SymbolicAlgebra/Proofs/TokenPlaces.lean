import SymbolicAlgebra.Proofs.Lexing

/-!
# Where tokens stand

A text that is split consists of the texts of its tokens, one after another, and of blanks
(`tokensFrom_eq_ok_iff`). So every token is read off the text at its place, nothing but blanks is
left out, and a number takes all the digits and points around it (`tokenize_lossless`). The texts of
the tokens with blanks between them are split into the same lexemes again, and what stands before
the place of an error can be split.
-/

namespace SymbolicAlgebra

variable {cs rest : List Char} {c : Char} {l : Lexeme} {t : Token} {ts : List Token} {p : Nat}

/-! ### Texts of tokens and blanks -/

/-- Whether a lexeme is one of a statement, and ends where a text goes on with `rest`: a number does
not end before a digit or a point. -/
def Lexeme.EndsBefore (rest : List Char) : Lexeme → Prop
  | number numeral => IsNumeral numeral ∧ Separates rest
  | letter c => isLetter c = true
  | symbol _ => True
  | endOfInput => False

/-- A text whose first character is at a position consists of the texts of tokens, and of blanks. -/
inductive Splits : Nat → List Char → List Token → Prop
  | nil (p : Nat) : Splits p [] []
  | blank {p : Nat} {c : Char} {cs : List Char} {ts : List Token} :
      isBlank c = true → Splits (p + 1) cs ts → Splits p (c :: cs) ts
  | token {p : Nat} {l : Lexeme} {rest : List Char} {ts : List Token} :
      l.EndsBefore rest → Splits (p + l.chars.length) rest ts →
        Splits p (l.chars ++ rest) (⟨l, p⟩ :: ts)

namespace Lexeme

lemma EndsBefore.chars_ne_nil (h : l.EndsBefore rest) : l.chars ≠ [] := by
  cases l with
  | number numeral =>
    rintro rfl
    exact absurd h.1.starts (by decide)
  | endOfInput => exact h.elim
  | _ => simp [chars]

/-- What ends before a text ends before the beginnings of the text. -/
lemma EndsBefore.take (h : l.EndsBefore rest) (n : Nat) : l.EndsBefore (rest.take n) := by
  cases l with
  | number numeral =>
    refine ⟨h.1, fun c hc => h.2 c ?_⟩
    cases rest with
    | nil => simp at hc
    | cons d rest =>
      cases n with
      | zero => simp at hc
      | succ n => exact hc
  | _ => exact h

/-- Whatever ends at the end of a text ends before anything that separates. -/
lemma EndsBefore.of_separates (h : l.EndsBefore []) (hrest : Separates rest) :
    l.EndsBefore rest := by
  cases l with
  | number numeral => exact ⟨h.1, hrest⟩
  | _ => exact h

end Lexeme

/-! ### The lexer, a token at a time -/

lemma tokensFrom_blank (h : isBlank c = true) :
    tokensFrom 0 p (c :: cs) = tokensFrom 0 (p + 1) cs := by
  rw [tokensFrom, h]
  rfl

lemma startsNumeral_append (h : startsNumeral cs = true) : startsNumeral (cs ++ rest) = true := by
  unfold startsNumeral at h
  split at h
  · exact h
  · exact startsNumeral_of_isAsciiDigit h
  · cases h

lemma isBlank_of_isNumeralChar (h : isNumeralChar c = true) : isBlank c = false :=
  (forall_numeralChars c (mem_numeralChars h)).1

lemma tokensFrom_number {numeral : List Char} (h : IsNumeral numeral) (hrest : Separates rest) :
    tokensFrom 0 p (numeral ++ rest) = (do
      let ts ← tokensFrom 0 (p + numeral.length) rest
      return ⟨.number numeral, p⟩ :: ts) := by
  have htake := takeWhile_append_of_separates h.chars hrest
  have hstarts : startsNumeral (numeral ++ rest) = true := startsNumeral_append h.starts
  have hpoint := h.secondPoint
  cases numeral with
  | nil => exact absurd h.starts (by decide)
  | cons c ds =>
    have hblank := isBlank_of_isNumeralChar (h.chars c List.mem_cons_self)
    have hskip :
        tokensFrom ds.length (p + 1) (ds ++ rest) = tokensFrom 0 (p + (c :: ds).length) rest := by
      rw [tokensFrom_skip _ _ _ (by simp), List.drop_left, Nat.add_assoc, Nat.add_comm 1]
      rfl
    rw [List.cons_append] at htake hstarts ⊢
    rw [tokensFrom, hblank, hstarts]
    simp only [htake, hpoint, List.length_cons, Nat.add_sub_cancel, hskip]
    rfl

lemma tokensFrom_char (hblank : isBlank c = false) (hnumeral : startsNumeral (c :: cs) = false)
    (hl : Lexeme.ofChar? c = some l) : tokensFrom 0 p (c :: cs) = (do
      let ts ← tokensFrom 0 (p + 1) cs
      return ⟨l, p⟩ :: ts) := by
  rw [tokensFrom, hblank, hnumeral, hl]
  rfl

/-- A lexeme at the front of a text is its first token. -/
lemma tokensFrom_lexeme (h : l.EndsBefore rest) : tokensFrom 0 p (l.chars ++ rest) = (do
    let ts ← tokensFrom 0 (p + l.chars.length) rest
    return ⟨l, p⟩ :: ts) := by
  cases l with
  | number numeral => exact tokensFrom_number h.1 h.2
  | letter c =>
    exact tokensFrom_char (isBlank_of_isLetter h)
      (startsNumeral_of_not (isNumeralChar_of_isLetter h))
      (if_pos h)
  | symbol s =>
    have hblank : isBlank s.char = false := by cases s <;> decide
    have hnumeral : startsNumeral (s.char :: rest) = false := by cases s <;> rfl
    have hchar : Lexeme.ofChar? s.char = some (.symbol s) := by cases s <;> decide +kernel
    exact tokensFrom_char hblank hnumeral hchar
  | endOfInput => exact h.elim

/-! ### What is found at the front of a text -/

/-- A character that is a lexeme of its own. -/
lemma endsBefore_of_ofChar? (h : Lexeme.ofChar? c = some l) :
    l.chars = [c] ∧ l.EndsBefore rest := by
  unfold Lexeme.ofChar? at h
  split at h
  · next hc =>
    cases h
    exact ⟨rfl, hc⟩
  · obtain ⟨s, hs, rfl⟩ := Option.map_eq_some_iff.1 h
    rw [← Symbol.char_of_ofChar? hs]
    exact ⟨rfl, trivial⟩

/-- A lexeme whose last character could be part of a numeral does not end before a numeral. -/
lemma Lexeme.EndsBefore.getLast?_of_startsNumeral (h : l.EndsBefore rest)
    (hrest : startsNumeral rest = true) (hc : c ∈ l.chars.getLast?) : isNumeralChar c = false := by
  cases l with
  | number numeral =>
    -- the number would have taken the next one as well
    cases rest with
    | nil => cases hrest
    | cons d rest =>
      rw [startsNumeral_of_not (h.2 d rfl)] at hrest
      cases hrest
  | letter d =>
    obtain rfl : d = c := by simpa [chars] using hc
    exact isNumeralChar_of_isLetter h
  | symbol s =>
    obtain rfl : s.char = c := by simpa [chars] using hc
    cases s <;> rfl
  | endOfInput => exact h.elim

lemma separates_dropWhile (cs : List Char) : Separates (cs.dropWhile isNumeralChar) := by
  intro c hc
  have hnot := List.head?_dropWhile_not isNumeralChar cs
  rw [Option.mem_def.1 hc] at hnot
  simpa using hnot

lemma findIdx?_point (h : '.' ∉ cs) : cs.findIdx? (· == '.') = none := by
  rw [List.findIdx?_eq_none_iff]
  intro c hc
  rw [beq_eq_false_iff_ne]
  rintro rfl
  exact h hc

/-- The second point is the first one after another. -/
lemma secondPoint?_append (h : '.' ∉ cs) :
    secondPoint? (cs ++ '.' :: rest) = (rest.findIdx? (· == '.')).map (cs.length + 1 + ·) := by
  have hfirst : (cs ++ '.' :: rest).findIdx? (· == '.') = some cs.length := by
    simp [List.findIdx?_append, findIdx?_point h, List.findIdx?_cons]
  rw [secondPoint?, hfirst]
  simp

/-- A second point stands after a text with one point. -/
lemma eq_append_of_secondPoint? {i : Nat} (h : secondPoint? cs = some i) :
    ∃ whole fraction after, cs = (whole ++ '.' :: fraction) ++ '.' :: after ∧ '.' ∉ whole ∧
      '.' ∉ fraction ∧ i = (whole ++ '.' :: fraction).length := by
  have hpoint : '.' ∈ cs := by
    by_contra hnone
    rw [secondPoint?, findIdx?_point hnone] at h
    cases h
  obtain ⟨whole, tail, rfl, hwhole⟩ := List.eq_append_cons_of_mem hpoint
  rw [secondPoint?_append hwhole] at h
  have htail : '.' ∈ tail := by
    by_contra hnone
    rw [findIdx?_point hnone] at h
    cases h
  obtain ⟨fraction, after, rfl, hfraction⟩ := List.eq_append_cons_of_mem htail
  refine ⟨whole, fraction, after, by simp, hwhole, hfraction, ?_⟩
  obtain rfl : whole.length + 1 + fraction.length = i := by
    simpa [List.findIdx?_append, findIdx?_point hfraction, List.findIdx?_cons] using h
  simp only [List.length_append, List.length_cons]
  omega

/-- Up to its second point a run of digits and points is a numeral. -/
lemma isNumeral_take_of_secondPoint? {run : List Char} {i : Nat}
    (hstarts : startsNumeral run = true)
    (hrun : ∀ c ∈ run, isNumeralChar c = true) (h : secondPoint? run = some i) :
    i < run.length ∧ IsNumeral (run.take i) := by
  obtain ⟨whole, fraction, after, rfl, hwhole, hfraction, rfl⟩ := eq_append_of_secondPoint? h
  refine ⟨by simp, ?_⟩
  rw [List.take_left]
  refine ⟨?_, fun c hc => hrun c (List.mem_append_left _ hc), ?_⟩
  · cases whole with
    | cons c whole =>
      have hc : isAsciiDigit c = true := by
        have hne : c ≠ '.' := fun hc => hwhole (hc ▸ List.mem_cons_self)
        simpa [isNumeralChar, hne] using hrun c (by simp)
      exact startsNumeral_of_isAsciiDigit hc
    | nil =>
      -- a point begins a numeral only before a digit, so the points are not next to one another
      cases fraction with
      | nil => exact absurd hstarts (by simp [startsNumeral, isAsciiDigit])
      | cons d fraction => simpa [startsNumeral] using hstarts
  · rw [secondPoint?_append hwhole, findIdx?_point hfraction]
    rfl

/-- What stands at the front of a text that is not empty: a blank, a lexeme, or else a character at
which the lexer stops, after a numeral perhaps. -/
lemma front_cases (c : Char) (cs : List Char) :
    isBlank c = true ∨
    (∃ (l : Lexeme) (rest : List Char), l.EndsBefore rest ∧ c :: cs = l.chars ++ rest) ∨
      ∃ cause i, i < (c :: cs).length ∧ (∀ p, tokensFrom 0 p (c :: cs) = .error ⟨cause, p + i⟩) ∧
        ∀ p, ∃ ts, Splits p ((c :: cs).take i) ts := by
  by_cases hblank : isBlank c = true
  · exact .inl hblank
  rw [Bool.not_eq_true] at hblank
  right
  by_cases hstarts : startsNumeral (c :: cs) = true
  · have hrun : ∀ d ∈ (c :: cs).takeWhile isNumeralChar, isNumeralChar d = true :=
      List.all_eq_true.1 List.all_takeWhile
    have hfront := startsNumeral_takeWhile hstarts
    cases hpoint : secondPoint? ((c :: cs).takeWhile isNumeralChar) with
    | none =>
      refine .inl ⟨.number _, _, ⟨⟨hfront, hrun, hpoint⟩, separates_dropWhile (c :: cs)⟩, ?_⟩
      exact List.takeWhile_append_dropWhile.symm
    | some i =>
      obtain ⟨hlt, hnumeral⟩ := isNumeral_take_of_secondPoint? hfront hrun hpoint
      have htake : ((c :: cs).takeWhile isNumeralChar).take i = (c :: cs).take i := by
        conv_rhs => rw [← List.takeWhile_append_dropWhile (p := isNumeralChar) (l := c :: cs)]
        rw [List.take_append_of_le_length hlt.le]
      rw [htake] at hnumeral
      refine .inr ⟨.secondPoint, i, hlt.trans_le (List.takeWhile_prefix _).length_le, ?_, ?_⟩
      · intro p
        rw [tokensFrom, hblank, hstarts]
        simp only [hpoint]
        rfl
      · intro p
        have hsplits :=
          Splits.token (l := .number _) (p := p) ⟨hnumeral, by simp [Separates]⟩ (.nil _)
        rw [List.append_nil] at hsplits
        exact ⟨_, hsplits⟩
  · rw [Bool.not_eq_true] at hstarts
    cases hl : Lexeme.ofChar? c with
    | some l =>
      have hlexeme : l.chars = [c] ∧ l.EndsBefore cs := endsBefore_of_ofChar? hl
      exact .inl ⟨l, cs, hlexeme.2, by rw [hlexeme.1]; rfl⟩
    | none =>
      refine .inr ⟨.unexpected c, 0, by simp, ?_, fun p => ⟨_, .nil p⟩⟩
      intro p
      rw [tokensFrom, hblank, hstarts, hl]
      rfl

/-! ### The lexer finds how a text is split -/

/-- A text is split, or there is a character in it at which the lexer stops and before which all is
split. -/
lemma splits_cases (p : Nat) (cs : List Char) :
    (∃ ts, Splits p cs ts) ∨
      ∃ cause i ts, tokensFrom 0 p cs = .error ⟨cause, p + i⟩ ∧ i < cs.length ∧
        Splits p (cs.take i) ts := by
  induction hn : cs.length using Nat.strong_induction_on generalizing p cs with
  | _ n ih =>
    subst hn
    cases cs with
    | nil => exact .inl ⟨_, .nil p⟩
    | cons c cs =>
      rcases front_cases c cs with hblank | ⟨l, rest, hends, heq⟩ | ⟨cause, i, hlt, herr, hsplits⟩
      · rcases ih cs.length (by simp) (p + 1) cs rfl with
          ⟨ts, hsplits⟩ | ⟨cause, i, ts, herr, hlt, hsplits⟩
        · exact .inl ⟨ts, .blank hblank hsplits⟩
        · refine .inr ⟨cause, i + 1, ts, ?_, by simpa using hlt, .blank hblank hsplits⟩
          rw [tokensFrom_blank hblank, herr, Nat.add_assoc, Nat.add_comm 1 i]
      · rw [heq]
        have hpos := List.length_pos_iff.2 hends.chars_ne_nil
        have hlength : rest.length < (c :: cs).length := by
          rw [heq, List.length_append]
          omega
        rcases ih rest.length hlength (p + l.chars.length) rest rfl with
          ⟨ts, hsplits⟩ | ⟨cause, i, ts, herr, hlt, hsplits⟩
        · exact .inl ⟨_, .token hends hsplits⟩
        · refine .inr ⟨cause, l.chars.length + i, ⟨l, p⟩ :: ts, ?_, ?_, ?_⟩
          · rw [tokensFrom_lexeme hends, herr, Nat.add_assoc]
            rfl
          · rw [List.length_append]
            exact Nat.add_lt_add_left hlt _
          · rw [List.take_length_add_append]
            exact .token (hends.take i) hsplits
      · obtain ⟨ts, hsplits⟩ := hsplits p
        exact .inr ⟨cause, i, ts, herr p, hlt, hsplits⟩

namespace Splits

lemma tokensFrom_eq (h : Splits p cs ts) :
    tokensFrom 0 p cs = .ok (ts ++ [⟨.endOfInput, p + cs.length⟩]) := by
  induction h with
  | nil p => rfl
  | blank hc _ ih => rw [tokensFrom_blank hc, ih, List.length_cons, Nat.add_assoc, Nat.add_comm 1]
  | token hends _ ih =>
    rw [tokensFrom_lexeme hends, ih, List.length_append, Nat.add_assoc]
    rfl

end Splits

/-- The tokens that the lexer finds are those of which the text consists, and the end of the
input. -/
theorem tokensFrom_eq_ok_iff : tokensFrom 0 p cs = .ok ts ↔
    ∃ front, Splits p cs front ∧ ts = front ++ [⟨.endOfInput, p + cs.length⟩] := by
  constructor
  · intro h
    rcases splits_cases p cs with ⟨front, hsplits⟩ | ⟨cause, i, _, herr, -⟩
    · refine ⟨front, hsplits, ?_⟩
      rw [hsplits.tokensFrom_eq] at h
      exact (Except.ok.inj h).symm
    · rw [herr] at h
      cases h
  · rintro ⟨front, hsplits, rfl⟩
    exact hsplits.tokensFrom_eq

/-! ### Places -/

/-- A token that stands between two parts of a text, and takes all of the digits and points there if
it is a number. -/
structure Token.StandsBetween (before after : List Char) (t : Token) : Prop where
  ends : t.lexeme.EndsBefore after
  begins : ∀ numeral, t.lexeme = .number numeral → ∀ c ∈ before.getLast?, isNumeralChar c = false

namespace Splits

/-- Every token is read off the text at its place. -/
lemma exists_between (h : Splits p cs ts) (ht : t ∈ ts) :
    ∃ before after, cs = before ++ t.lexeme.chars ++ after ∧ t.position = p + before.length ∧
      t.StandsBetween before after := by
  induction h with
  | nil p => cases ht
  | @blank p c cs ts hc _ ih =>
    obtain ⟨before, after, rfl, hposition, hends, hbegins⟩ := ih ht
    refine ⟨c :: before, after, rfl, by rw [hposition, List.length_cons]; omega, hends, ?_⟩
    intro numeral hnumeral d hd
    cases before with
    | nil =>
      obtain rfl : c = d := by simpa using hd
      by_contra hchar
      rw [Bool.not_eq_false] at hchar
      rw [isBlank_of_isNumeralChar hchar] at hc
      cases hc
    | cons b before => exact hbegins numeral hnumeral d (by simpa using hd)
  | @token p l rest ts hends _ ih =>
    rcases List.mem_cons.1 ht with rfl | ht
    · exact ⟨[], rest, rfl, rfl, hends, by simp⟩
    · obtain ⟨before, after, rfl, hposition, hends', hbegins⟩ := ih ht
      refine ⟨l.chars ++ before, after, by simp, ?_, hends', ?_⟩
      · rw [hposition, List.length_append]
        omega
      intro numeral hnumeral d hd
      cases before with
      | nil =>
        rw [List.append_nil] at hd
        rw [hnumeral] at hends hends'
        exact hends.getLast?_of_startsNumeral (startsNumeral_append hends'.1.starts) hd
      | cons b before =>
        exact hbegins numeral hnumeral d (by simpa using hd)

/-- No token goes on where the next one begins. -/
lemma pairwise (h : Splits p cs ts) :
    ts.Pairwise fun t t' => t.position + t.lexeme.chars.length ≤ t'.position := by
  induction h with
  | nil p => exact .nil
  | blank _ _ ih => exact ih
  | token _ hsplits ih =>
    refine .cons ?_ ih
    intro t ht
    obtain ⟨before, _, -, hposition, -⟩ := hsplits.exists_between ht
    rw [hposition]
    exact Nat.le_add_right _ _

/-- What is not part of a token is blank. -/
lemma isBlank_or_exists (h : Splits p cs ts) {i : Nat} (hc : cs[i]? = some c) :
    isBlank c = true ∨
      ∃ t ∈ ts, t.position ≤ p + i ∧ p + i < t.position + t.lexeme.chars.length := by
  induction h generalizing i with
  | nil p => cases hc
  | @blank p d cs ts hd _ ih =>
    cases i with
    | zero =>
      obtain rfl : d = c := by simpa using hc
      exact .inl hd
    | succ i =>
      have hrest := ih (i := i) (by simpa using hc)
      rwa [Nat.add_assoc, Nat.add_comm 1] at hrest
  | @token p l rest ts _ _ ih =>
    by_cases hi : i < l.chars.length
    · exact .inr ⟨⟨l, p⟩, List.mem_cons_self, Nat.le_add_right p i, Nat.add_lt_add_left hi p⟩
    · obtain ⟨j, rfl⟩ := Nat.exists_eq_add_of_le (Nat.not_lt.1 hi)
      rw [List.getElem?_append_right (Nat.le_add_right _ _), Nat.add_sub_cancel_left] at hc
      rcases ih hc with hblank | ⟨t, ht, hle, hlt⟩
      · exact .inl hblank
      · rw [Nat.add_assoc] at hle hlt
        exact .inr ⟨t, List.mem_cons_of_mem _ ht, hle, hlt⟩

end Splits

/-! ### Texts of tokens, with blanks between them -/

/-- The texts of tokens with a blank between any two. -/
def joinedText (ts : List Token) : String :=
  " ".intercalate (ts.map Token.text)

lemma toList_joinedText_cons (t : Token) (ts : List Token) : (joinedText (t :: ts)).toList =
    t.lexeme.chars ++ if ts = [] then [] else ' ' :: (joinedText ts).toList := by
  cases ts with
  | nil => simp [joinedText, Token.text]
  | cons t' ts => simp [joinedText, Token.text, String.intercalate_cons_cons]

lemma splits_blanks (h : ∀ c ∈ cs, isBlank c = true) (p : Nat) : Splits p cs [] := by
  induction cs generalizing p with
  | nil => exact .nil p
  | cons c cs ih =>
    obtain ⟨hc, hcs⟩ := List.forall_mem_cons.1 h
    exact .blank hc (ih hcs (p + 1))

lemma separates_of_blanks (h : ∀ c ∈ cs, isBlank c = true) : Separates cs := by
  intro c hc
  have hblank := h c (List.mem_of_mem_head? hc)
  rw [← Bool.not_eq_true]
  intro hnumeral
  rw [isBlank_of_isNumeralChar hnumeral] at hblank
  cases hblank

/-- Blanks keep the lexemes apart. -/
lemma exists_splits_joinedText {tail : List Char} (h : ∀ t ∈ ts, t.lexeme.EndsBefore [])
    (htail : ∀ c ∈ tail, isBlank c = true) (p : Nat) :
    ∃ ts', Splits p ((joinedText ts).toList ++ tail) ts' ∧
      ts'.map Token.lexeme = ts.map Token.lexeme := by
  induction ts generalizing p with
  | nil => exact ⟨[], splits_blanks htail p, rfl⟩
  | cons t ts ih =>
    obtain ⟨ht, hts⟩ := List.forall_mem_cons.1 h
    rw [toList_joinedText_cons, List.append_assoc]
    split
    · next hnil =>
      refine ⟨[⟨t.lexeme, p⟩], ?_, by rw [hnil]; rfl⟩
      exact .token (ht.of_separates (separates_of_blanks htail)) (splits_blanks htail _)
    · obtain ⟨ts', hsplits, hlexemes⟩ := ih hts (p + t.lexeme.chars.length + 1)
      refine ⟨⟨t.lexeme, p⟩ :: ts', .token (ht.of_separates ?_) (.blank rfl hsplits), ?_⟩
      · intro c hc
        obtain rfl : ' ' = c := by simpa using hc
        rfl
      · rw [List.map_cons, List.map_cons, hlexemes]

/-- The end of the input adds a blank at most. -/
lemma exists_joinedText_end (ts : List Token) (p : Nat) :
    ∃ tail, (joinedText (ts ++ [⟨.endOfInput, p⟩])).toList = (joinedText ts).toList ++ tail ∧
      ∀ c ∈ tail, isBlank c = true := by
  cases ts with
  | nil => exact ⟨[], rfl, by simp⟩
  | cons t ts =>
    refine ⟨[' '], ?_, List.forall_mem_singleton.2 rfl⟩
    rw [joinedText, joinedText, List.map_append,
      String.intercalate_append_of_ne_nil (by simp) (by simp)]
    simp [Token.text, Lexeme.chars]

/-! ### Statements -/

/-- A number with all the digits and points around it, and one point among them at most. -/
structure IsWholeNumber (s : String) (numeral : List Char) (position : Nat) : Prop where
  chars : ∀ c ∈ numeral, isAsciiDigit c = true ∨ c = '.'
  points : numeral.count '.' ≤ 1
  before : ∀ i c, i + 1 = position → s.toList[i]? = some c → isNumeralChar c = false
  after : ∀ c, s.toList[position + numeral.length]? = some c → isNumeralChar c = false

/-- How the tokens of a statement stand in it. -/
structure StandIn (s : String) (ts : List Token) : Prop where
  slice : ∀ t ∈ ts, t.lexeme ≠ .endOfInput ∧
    (s.toList.drop t.position).take t.text.length = t.text.toList
  apart : ts.Pairwise fun t t' =>
    t.position < t'.position ∧ t.position + t.text.length ≤ t'.position
  blank : ∀ i c, s.toList[i]? = some c → isBlank c = true ∨
    ∃ t ∈ ts, t.position ≤ i ∧ i < t.position + t.text.length
  number : ∀ t ∈ ts, ∀ numeral, t.lexeme = .number numeral → IsWholeNumber s numeral t.position

lemma IsNumeral.count_point_le (h : IsNumeral cs) : cs.count '.' ≤ 1 := by
  have hdigits {ds : List Char} (hds : ∀ c ∈ ds, isAsciiDigit c = true) : ds.count '.' = 0 :=
    List.count_eq_zero.2 fun hc => absurd (hds '.' hc) (by decide)
  rcases h.cases with ⟨-, hcs⟩ | ⟨whole, fraction, rfl, -, hcs⟩
  · rw [hdigits hcs]
    exact Nat.zero_le 1
  · obtain ⟨hwhole, hfraction⟩ := List.forall_mem_append.1 hcs
    rw [List.count_append, List.count_cons_self, hdigits hwhole, hdigits hfraction]

lemma Token.length_text (t : Token) : t.text.length = t.lexeme.chars.length :=
  String.length_ofList

lemma Token.StandsBetween.isWholeNumber {s : String} {before after numeral : List Char}
    (h : t.StandsBetween before after) (ht : t.lexeme = .number numeral)
    (hs : s.toList = before ++ t.lexeme.chars ++ after) (hposition : t.position = before.length) :
    IsWholeNumber s numeral t.position := by
  have hends := h.ends
  rw [ht] at hs hends
  refine ⟨?_, hends.1.count_point_le, ?_, ?_⟩
  · intro c hc
    simpa [isNumeralChar] using hends.1.chars c hc
  · intro i c hi hc
    refine h.begins numeral ht c ?_
    rw [hs, List.append_assoc, List.getElem?_append_left (by omega)] at hc
    rw [List.getLast?_eq_getElem?, ← hposition, ← hi]
    exact hc
  · intro c hc
    refine hends.2 c ?_
    rw [hs, hposition, Lexeme.chars, ← List.length_append,
      List.getElem?_append_right (Nat.le_refl _), Nat.sub_self] at hc
    rw [List.head?_eq_getElem?]
    exact hc

namespace Splits

variable {s : String} (h : Splits 0 s.toList ts)

include h

lemma standIn : StandIn s ts where
  slice t ht := by
    obtain ⟨before, after, hs, hposition, hbetween⟩ := h.exists_between ht
    refine ⟨fun hend => ?_, ?_⟩
    · have hends := hbetween.ends
      rw [hend] at hends
      exact hends
    · rw [hs, hposition, Nat.zero_add, List.append_assoc, List.drop_left, t.length_text,
        List.take_left, Token.text, String.toList_ofList]
  apart := by
    refine h.pairwise.imp_of_mem ?_
    intro t t' ht _ hle
    obtain ⟨_, _, -, -, hbetween⟩ := h.exists_between ht
    have hpos := List.length_pos_iff.2 hbetween.ends.chars_ne_nil
    rw [t.length_text]
    exact ⟨Nat.lt_of_lt_of_le (Nat.lt_add_of_pos_right hpos) hle, hle⟩
  blank i c hc := by
    have hcovered := h.isBlank_or_exists hc
    simpa only [Nat.zero_add, Token.length_text] using hcovered
  number t ht numeral hnumeral := by
    obtain ⟨before, after, hs, hposition, hbetween⟩ := h.exists_between ht
    exact hbetween.isWholeNumber hnumeral hs (by rw [hposition, Nat.zero_add])

lemma tokenize_eq : tokenize s = .ok (ts ++ [⟨.endOfInput, s.length⟩]) := by
  rw [tokenize, h.tokensFrom_eq, Nat.zero_add, String.length_toList]

end Splits

/-- The texts of the tokens of a statement have the lexemes of the statement, with blanks between
them. -/
lemma Splits.exists_tokenize {s text : String} {tail : List Char} (h : Splits 0 s.toList ts)
    (htext : text.toList = (joinedText ts).toList ++ tail) (htail : ∀ c ∈ tail, isBlank c = true) :
    ∃ ts', tokenize text = .ok ts' ∧
      ts'.map Token.lexeme = ts.map Token.lexeme ++ [.endOfInput] := by
  have hends : ∀ t ∈ ts, t.lexeme.EndsBefore [] := by
    intro t ht
    obtain ⟨_, _, -, -, hbetween⟩ := h.exists_between ht
    exact hbetween.ends.take 0
  obtain ⟨ts', hsplits, hlexemes⟩ := exists_splits_joinedText hends htail 0
  rw [← htext] at hsplits
  exact ⟨_, hsplits.tokenize_eq, by rw [List.map_append, hlexemes]; rfl⟩

/-- A statement that is split ends with its only end of the input. The other tokens are read off the
statement at their places, one after another, with nothing but blanks around them, and each number
takes all of the digits and points where it stands. The texts of the tokens with a blank between any
two, with or without the end of the input, are split into the same lexemes. A statement is refused
for one of its characters only, before which it can be split. -/
theorem tokenize_lossless (s : String) :
    (∀ ts, tokenize s = .ok ts → ∃ front, ts = front ++ [⟨.endOfInput, s.length⟩] ∧
      StandIn s front ∧
      ∀ text, text = joinedText ts ∨ text = joinedText front →
        ∃ ts', tokenize text = .ok ts' ∧ ts'.map Token.lexeme = ts.map Token.lexeme) ∧
    ∀ err, tokenize s = .error err → ∃ cause i, err = .lexical cause s i ∧ i < s.length ∧
      ∃ ts, tokenize (String.ofList (s.toList.take i)) = .ok ts := by
  rcases splits_cases 0 s.toList with ⟨front, hsplits⟩ | ⟨cause, i, front, herr, hlt, hsplits⟩
  · rw [hsplits.tokenize_eq]
    constructor
    · rintro ts hts
      obtain rfl := Except.ok.inj hts
      refine ⟨front, rfl, hsplits.standIn, ?_⟩
      rw [List.map_append]
      rintro text (rfl | rfl)
      · obtain ⟨tail, htext, htail⟩ := exists_joinedText_end front s.length
        exact hsplits.exists_tokenize htext htail
      · exact hsplits.exists_tokenize (List.append_nil _).symm (by simp)
    · intro err herr
      cases herr
  · have htokenize : tokenize s = .error (.lexical cause s i) := by
      rw [tokenize, herr, Nat.zero_add]
    rw [htokenize]
    constructor
    · intro ts hts
      cases hts
    · intro err herr
      cases herr
      rw [← String.toList_ofList (l := s.toList.take i)] at hsplits
      exact ⟨cause, i, rfl, by rwa [String.length_toList] at hlt, _, hsplits.tokenize_eq⟩

/-- In `.5x 12.` the points belong to the numbers. The texts of the tokens are split again with one
blank more, and in `1.5.2` the second point is one too many. -/
theorem tokenize_lossless_of_points :
    let front : List Token :=
      [⟨.number ".5".toList, 0⟩, ⟨.letter 'x', 2⟩, ⟨.number "12.".toList, 4⟩]
    let ts := front ++ [⟨.endOfInput, 7⟩]
    tokenize ".5x 12." = .ok ts ∧ StandIn ".5x 12." front ∧ joinedText ts = ".5 x 12. " ∧
      (∃ ts', tokenize ".5 x 12. " = .ok ts' ∧ ts'.map Token.lexeme = ts.map Token.lexeme) ∧
      tokenize "1.5.2" = .error (.lexical .secondPoint "1.5.2" 3) ∧
      ∃ ts', tokenize "1.5" = .ok ts' := by
  intro front ts
  have hok : tokenize ".5x 12." = .ok ts := by decide +kernel
  have herr : tokenize "1.5.2" = .error (.lexical .secondPoint "1.5.2" 3) := by decide +kernel
  have hjoined : joinedText ts = ".5 x 12. " := by decide +kernel
  obtain ⟨front', hts, hstand, htexts⟩ := (tokenize_lossless ".5x 12.").1 ts hok
  obtain ⟨_, i, hi, -, hprefix⟩ := (tokenize_lossless "1.5.2").2 _ herr
  cases hi
  rw [List.append_cancel_right hts]
  exact ⟨hok, hstand, hjoined, hjoined ▸ htexts _ (.inl rfl), herr, hprefix⟩

end SymbolicAlgebra
