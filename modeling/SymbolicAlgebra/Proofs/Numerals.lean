import Mathlib.Tactic.IntervalCases
import SymbolicAlgebra.Config
import SymbolicAlgebra.Proofs.Refusals
import SymbolicAlgebra.Statement.Lexer

/-!
# The numerals of statements are read

A numeral that is taken off a statement is a run of digits with a point among them at most
(`IsNumeral`). With no more than `numeralLimit` digits it stands for a number, unless it is a
decimal for whose precision there are no integers of enough bits
(`Config.readNumeral_of_isNumeral`).
-/

namespace SymbolicAlgebra

variable {cs : List Char} {c : Char}

/-! ### Digits -/

lemma isAsciiDigit_iff : isAsciiDigit c = true ↔ 48 ≤ c.toNat ∧ c.toNat ≤ 57 := by
  simp only [isAsciiDigit, Bool.and_eq_true, decide_eq_true_eq, Char.le_def]
  rfl

/-- The values of digits. -/
def digitValues (cs : List Char) : List Nat :=
  cs.map fun c => c.toNat - 48

lemma decimal_digit? (h : isAsciiDigit c = true) :
    Radix.decimal.digit? c = some (c.toNat - 48) := by
  rw [isAsciiDigit_iff] at h
  have hvalue : digitValue? c = some (c.toNat - 48) := by
    have hzeros : zeroDigits = 48 :: zeroDigits.tail := rfl
    rw [digitValue?, hzeros, List.find?_cons_of_pos]
    · rfl
    · simp only [Bool.and_eq_true, decide_eq_true_eq]
      omega
  have hlt : c.toNat - 48 < Radix.decimal.base := by
    rw [Radix.base]
    omega
  simp [Radix.digit?, hvalue, hlt]

lemma decimal_moreDigits? (h : ∀ c ∈ cs, isAsciiDigit c = true) :
    Radix.decimal.moreDigits? cs = some (digitValues cs) := by
  induction cs with
  | nil => rfl
  | cons c cs ih =>
    have hc := h c List.mem_cons_self
    rw [Radix.moreDigits?, decimal_digit? hc, ih fun d hd => h d (List.mem_cons_of_mem c hd)]
    · rfl
    · rintro d ds rfl
      exact absurd hc (by decide)

lemma decimal_digits? (hne : cs ≠ []) (h : ∀ c ∈ cs, isAsciiDigit c = true) :
    Radix.decimal.digits? cs = some (digitValues cs) := by
  cases cs with
  | nil => exact absurd rfl hne
  | cons c cs =>
    rw [Radix.digits?, decimal_digit? (h c List.mem_cons_self),
      decimal_moreDigits? fun d hd => h d (List.mem_cons_of_mem c hd)]
    rfl

lemma readNatural?_of_digits (hne : cs ≠ []) (h : ∀ c ∈ cs, isAsciiDigit c = true)
    (hlength : cs.length ≤ numeralLimit) :
    readNatural? cs = some (Radix.decimal.ofDigits (digitValues cs)) := by
  have hlimit : withinLimit? .decimal (digitValues cs) = some (digitValues cs) := by
    simp [withinLimit?, digitValues, hlength]
  simp [readNatural?, decimal_digits? hne h, hlimit]

/-! ### Texts without certain characters -/

lemma dropTrailing_of_forall {p : Char → Bool} (h : ∀ c ∈ cs, p c = false) :
    dropTrailing p cs = cs := by
  have hdrop : cs.reverse.dropWhile p = cs.reverse := by
    cases hcs : cs.reverse with
    | nil => rfl
    | cons c ds =>
      rw [List.dropWhile_cons_of_neg]
      rw [h c (List.mem_reverse.1 (hcs ▸ List.mem_cons_self))]
      exact Bool.false_ne_true
  rw [dropTrailing, hdrop, List.reverse_reverse]

lemma trim_of_forall {p : Char → Bool} (h : ∀ c ∈ cs, p c = false) : trim p cs = cs := by
  have hdrop : cs.dropWhile p = cs := by
    cases cs with
    | nil => rfl
    | cons c cs =>
      rw [List.dropWhile_cons_of_neg]
      rw [h c List.mem_cons_self]
      exact Bool.false_ne_true
  rw [trim, hdrop, dropTrailing_of_forall h]

lemma splitAtFirst_of_forall {p : Char → Bool} (h : ∀ c ∈ cs, p c = false) :
    splitAtFirst p cs = (cs, none) := by
  induction cs with
  | nil => rfl
  | cons c cs ih =>
    rw [splitAtFirst, h c List.mem_cons_self, ih fun d hd => h d (List.mem_cons_of_mem c hd)]
    rfl

lemma splitAtFirst_append {p : Char → Bool} {rest : List Char} (h : ∀ c ∈ cs, p c = false)
    (hc : p c = true) : splitAtFirst p (cs ++ c :: rest) = (cs, some rest) := by
  induction cs with
  | nil => rw [List.nil_append, splitAtFirst, hc]; rfl
  | cons d cs ih =>
    rw [List.cons_append, splitAtFirst, h d List.mem_cons_self,
      ih fun d' hd => h d' (List.mem_cons_of_mem d hd)]
    rfl

/-! ### Numerals -/

/-- What a numeral of a statement is. -/
structure IsNumeral (cs : List Char) : Prop where
  starts : startsNumeral cs = true
  chars : ∀ c ∈ cs, isNumeralChar c = true
  secondPoint : secondPoint? cs = none

/-- A numeral is a run of digits, or it has a point and digits around it. -/
lemma IsNumeral.cases (h : IsNumeral cs) :
    (cs ≠ [] ∧ ∀ c ∈ cs, isAsciiDigit c = true) ∨
      ∃ whole fraction, cs = whole ++ '.' :: fraction ∧ whole ++ fraction ≠ [] ∧
        ∀ c ∈ whole ++ fraction, isAsciiDigit c = true := by
  have hdigit (c : Char) (hc : c ∈ cs) (hne : c ≠ '.') : isAsciiDigit c = true := by
    simpa [isNumeralChar, hne] using h.chars c hc
  by_cases hpoint : '.' ∈ cs
  · right
    obtain ⟨whole, fraction, rfl, hwhole⟩ := List.eq_append_cons_of_mem hpoint
    have hfirst : (whole ++ '.' :: fraction).findIdx? (· == '.') = some whole.length := by
      have hnone : whole.findIdx? (· == '.') = none := by
        rw [List.findIdx?_eq_none_iff]
        rintro c hc
        rw [beq_eq_false_iff_ne]
        rintro rfl
        exact hwhole hc
      simp [List.findIdx?_append, hnone, List.findIdx?_cons]
    have hfraction : '.' ∉ fraction := by
      have hsecond := h.secondPoint
      rw [secondPoint?, hfirst] at hsecond
      intro hmem
      have hnone : ∀ c ∈ fraction, ¬c = '.' := by simpa using hsecond
      exact hnone '.' hmem rfl
    refine ⟨whole, fraction, rfl, ?_, ?_⟩
    · intro hnil
      obtain ⟨rfl, rfl⟩ := List.append_eq_nil_iff.1 hnil
      exact absurd h.starts (by decide)
    · intro c hc
      apply hdigit c
      · rcases List.mem_append.1 hc with hc | hc
        · exact List.mem_append_left _ hc
        · exact List.mem_append_right _ (List.mem_cons_of_mem _ hc)
      · rintro rfl
        rcases List.mem_append.1 hc with hc | hc
        · exact hwhole hc
        · exact hfraction hc
  · left
    constructor
    · rintro rfl
      exact absurd h.starts (by decide)
    · intro c hc
      exact hdigit c hc (by rintro rfl; exact hpoint hc)

/-- The characters of numerals. -/
def numeralChars : List Char :=
  "0123456789.".toList

lemma mem_numeralChars (h : isNumeralChar c = true) : c ∈ numeralChars := by
  rw [isNumeralChar, Bool.or_eq_true, isAsciiDigit_iff, beq_iff_eq] at h
  rcases h with ⟨hlo, hhi⟩ | rfl
  · rw [← Char.ofNat_toNat c]
    generalize c.toNat = n at hlo hhi
    interval_cases n <;> decide
  · decide

/-- No character of a numeral means anything else around numbers. -/
lemma forall_numeralChars : ∀ c ∈ numeralChars,
    isBlank c = false ∧ isSpace c = false ∧ c.toLower = c ∧ isExponentMark c = false := by
  -- checked for each of the characters; there are too many to go through all
  have hall : numeralChars.all fun c =>
      isBlank c = false ∧ isSpace c = false ∧ c.toLower = c ∧ isExponentMark c = false := by
    decide
  exact fun c hc => of_decide_eq_true (List.all_eq_true.1 hall c hc)

/-- The number of digits of a numeral. -/
def digitCount (cs : List Char) : Nat :=
  cs.countP isAsciiDigit

/-! ### Decimals -/

lemma splitSign_of_notMem (hminus : '-' ∉ cs) (hplus : '+' ∉ cs) :
    Radix.splitSign cs = (false, cs) := by
  unfold Radix.splitSign
  split
  · exact absurd List.mem_cons_self hminus
  · exact absurd List.mem_cons_self hplus
  · rfl

/-- A decimal integer has no mark. -/
lemma decimal_dropMark (cs : List Char) : Radix.decimal.dropMark cs = cs := by
  unfold Radix.dropMark
  split
  · rw [if_neg (by simp [Radix.letter?])]
  · rfl

lemma decimal_readAny? (hne : cs ≠ []) (h : ∀ c ∈ cs, isAsciiDigit c = true) :
    Radix.decimal.readAny? cs = some (Radix.decimal.ofDigits (digitValues cs) : Nat) := by
  have hchars (c : Char) (hc : c ∈ cs) : c ∈ numeralChars :=
    mem_numeralChars (by simp [isNumeralChar, h c hc])
  have htrim : trimSpaces cs = cs :=
    trim_of_forall fun c hc => (forall_numeralChars c (hchars c hc)).2.1
  have hsign : Radix.splitSign cs = (false, cs) :=
    splitSign_of_notMem (fun hc => absurd (hchars _ hc) (by decide))
      (fun hc => absurd (hchars _ hc) (by decide))
  simp [Radix.readAny?, Radix.signedDigits?, htrim, hsign, decimal_dropMark,
    decimal_digits? hne h, Radix.withSign]

lemma ofMark_of_numeralChars (h : ∀ c ∈ cs, c ∈ numeralChars) : Radix.ofMark cs = .decimal := by
  have hmarked : Radix.ofMark.marked cs = .decimal := by
    unfold Radix.ofMark.marked
    split
    · exact absurd (h 'b' (by simp)) (by decide)
    · exact absurd (h 'o' (by simp)) (by decide)
    · exact absurd (h 'x' (by simp)) (by decide)
    · rfl
  unfold Radix.ofMark
  split
  · exact absurd (h '-' (by simp)) (by decide)
  · exact hmarked

section Decimals

variable {whole fraction : List Char} (h : ∀ c ∈ whole ++ fraction, isAsciiDigit c = true)

include h

lemma mem_numeralChars_of_decimal : ∀ c ∈ whole ++ '.' :: fraction, c ∈ numeralChars := by
  intro c hc
  apply mem_numeralChars
  rw [isNumeralChar, Bool.or_eq_true, beq_iff_eq]
  rw [List.mem_append, List.mem_cons] at hc
  rcases hc with hc | rfl | hc
  · exact .inl (h c (List.mem_append_left _ hc))
  · exact .inr rfl
  · exact .inl (h c (List.mem_append_right _ hc))

/-- The first point of a decimal splits it. -/
lemma splitAtFirst_decimal :
    splitAtFirst (· == '.') (whole ++ '.' :: fraction) = (whole, some fraction) := by
  apply splitAtFirst_append
  · intro c hc
    rw [beq_eq_false_iff_ne]
    rintro rfl
    exact absurd (h '.' (List.mem_append_left _ hc)) (by decide)
  · rfl

/-- A decimal has no character of a kind that numerals do not have. -/
lemma splitAtFirst_decimal_of_forall {p : Char → Bool} (hp : ∀ c ∈ numeralChars, p c = false) :
    splitAtFirst p (whole ++ '.' :: fraction) = (whole ++ '.' :: fraction, none) :=
  splitAtFirst_of_forall fun c hc => hp c (mem_numeralChars_of_decimal h c hc)

lemma splitAtFirst_decimal_slash :
    splitAtFirst (· == '/') (whole ++ '.' :: fraction) = (whole ++ '.' :: fraction, none) :=
  splitAtFirst_decimal_of_forall h fun _ hc =>
    beq_false_of_ne (ne_of_mem_of_not_mem hc (by decide))

lemma trimBlanks_decimal : trimBlanks (whole ++ '.' :: fraction) = whole ++ '.' :: fraction :=
  trim_of_forall fun c hc => (forall_numeralChars c (mem_numeralChars_of_decimal h c hc)).1

lemma splitSign_decimal :
    Radix.splitSign (whole ++ '.' :: fraction) = (false, whole ++ '.' :: fraction) :=
  splitSign_of_notMem (fun hc => absurd (mem_numeralChars_of_decimal h _ hc) (by decide))
    (fun hc => absurd (mem_numeralChars_of_decimal h _ hc) (by decide))

/-- A decimal is no quotient of two numbers, so it is not refused for its denominator. -/
lemma onlyLimits_readFraction :
    RefusedOnly Error.IsLimit (readFraction (whole ++ '.' :: fraction)) := by
  rw [readFraction, trimBlanks_decimal h, splitSign_decimal h]
  simp only [splitAtFirst_decimal_slash h]
  split
  · exact refusedOnly_ok _
  · exact refusedOnly_error (.inl rfl)

lemma readFraction_of_digits (hne : whole ++ fraction ≠ [])
    (hlength : (whole ++ fraction).length ≤ numeralLimit) :
    ∃ q, readFraction (whole ++ '.' :: fraction) = .ok q := by
  have hoptional (ds : List Char) (hds : ∀ c ∈ ds, isAsciiDigit c = true) :
      optionalDigits? ds = some (digitValues ds) := by
    rw [optionalDigits?]
    split
    · next hnil =>
      subst hnil
      rfl
    · next hds' => exact decimal_digits? hds' hds
  have hwhole := hoptional whole fun c hc => h c (List.mem_append_left _ hc)
  have hfraction := hoptional fraction fun c hc => h c (List.mem_append_right _ hc)
  have hzero : Radix.decimal.digits? ['0'] = some [0] :=
    decimal_digits? (List.cons_ne_nil _ _) (List.forall_mem_singleton.2 rfl)
  have hread : DecimalLiteral.read? (whole ++ '.' :: fraction) =
      some ⟨digitValues whole, digitValues fraction, false, [0]⟩ := by
    have hguard : digitValues whole ≠ [] ∨ digitValues fraction ≠ [] := by
      rw [Ne, List.append_eq_nil_iff, not_and_or] at hne
      simpa [digitValues] using hne
    rw [DecimalLiteral.read?,
      splitAtFirst_decimal_of_forall h fun c hc => (forall_numeralChars c hc).2.2.2]
    simp [splitAtFirst_decimal h, hwhole, hfraction, Radix.splitSign, hzero, hguard]
  have hlimit : DecimalLiteral.isWithinLimit
      ⟨digitValues whole, digitValues fraction, false, [0]⟩ = true := by
    rw [List.length_append] at hlength
    have hone : 1 ≤ numeralLimit := by decide
    simp only [DecimalLiteral.isWithinLimit, digitValues, List.all_cons, List.all_nil,
      List.length_map, List.length_singleton, Bool.and_true, Bool.and_eq_true, decide_eq_true_eq]
    omega
  refine ⟨DecimalLiteral.toRat ⟨digitValues whole, digitValues fraction, false, [0]⟩, ?_⟩
  rw [readFraction, trimBlanks_decimal h, splitSign_decimal h]
  simp only [splitAtFirst_decimal_slash h, hread, Option.filter_some, hlimit, if_true]
  rfl

lemma readPointed?_of_digits (p : Nat) : ∃ n places : Nat,
    BigFloat.readPointed? p .decimal (whole ++ '.' :: fraction) =
      some (BigFloat.ofLiteral p .decimal .decimal n 0 places) := by
  have hexponent : BigFloat.splitExponent .decimal (whole ++ '.' :: fraction) =
      (whole ++ '.' :: fraction, none) := by
    have hmark : (BigFloat.exponentMarks .decimal).find?
        (fun mark => (whole ++ '.' :: fraction).contains mark.1) = none := by
      rw [List.find?_eq_none]
      intro mark hmem
      obtain rfl := List.mem_singleton.1 hmem
      rw [List.contains_iff_mem]
      exact fun hc => absurd (mem_numeralChars_of_decimal h _ hc) (by decide)
    rw [BigFloat.splitExponent, hmark]
  have hdrop : ∀ c ∈ dropTrailing (· == '0') fraction, isAsciiDigit c = true := by
    intro c hc
    apply h c
    apply List.mem_append_right
    exact List.mem_reverse.1 ((List.dropWhile_sublist _).subset (List.mem_reverse.1 hc))
  have hdigits : ∀ c ∈ (if whole = [] then ['0'] else whole) ++ dropTrailing (· == '0') fraction,
      isAsciiDigit c = true := by
    intro c hc
    rcases List.mem_append.1 hc with hc | hc
    · split at hc
      · obtain rfl := List.mem_singleton.1 hc
        rfl
      · exact h c (List.mem_append_left _ hc)
    · exact hdrop c hc
  have hne : (if whole = [] then ['0'] else whole) ++ dropTrailing (· == '0') fraction ≠ [] := by
    split <;> simp_all
  refine ⟨Radix.decimal.ofDigits (digitValues ((if whole = [] then ['0'] else whole) ++
    dropTrailing (· == '0') fraction)), (dropTrailing (· == '0') fraction).length, ?_⟩
  rw [BigFloat.readPointed?, hexponent]
  simp only [splitAtFirst_decimal h, Option.map_some, BigFloat.significand?,
    decimal_readAny? hne hdigits]
  rfl

lemma read_of_digits (p : Nat) : ∃ n places : Nat,
    BigFloat.read p (String.ofList (whole ++ '.' :: fraction)) =
      BigFloat.ofLiteral p .decimal .decimal n 0 places := by
  have hchars := mem_numeralChars_of_decimal h
  have hlower : (whole ++ '.' :: fraction).map Char.toLower = whole ++ '.' :: fraction := by
    nth_rewrite 2 [← List.map_id (whole ++ '.' :: fraction)]
    exact List.map_congr_left fun c hc => (forall_numeralChars c (hchars c hc)).2.2.1
  have hspecial :
      BigFloat.specialNames.lookup (String.ofList (whole ++ '.' :: fraction)) = none := by
    rw [List.lookup_eq_none_iff]
    intro a ha
    rw [bne_iff_ne]
    intro heq
    have hnames : ∀ a ∈ BigFloat.specialNames, '.' ∉ a.1.toList := by decide
    apply hnames a ha
    rw [← heq, String.toList_ofList]
    simp
  have hsuffix : BigFloat.dropSuffix (whole ++ '.' :: fraction) = whole ++ '.' :: fraction :=
    dropTrailing_of_forall fun c hc =>
      beq_false_of_ne (ne_of_mem_of_not_mem (hchars c hc) (by decide))
  have hfilter : (whole ++ '.' :: fraction).filter (· != '_') = whole ++ '.' :: fraction :=
    List.filter_eq_self.2 fun c hc =>
      bne_iff_ne.2 (ne_of_mem_of_not_mem (hchars c hc) (by decide))
  obtain ⟨n, places, hread⟩ := readPointed?_of_digits h p
  refine ⟨n, places, ?_⟩
  rw [BigFloat.read, String.toList_ofList]
  simp only [hlower, trimBlanks_decimal h, hspecial, splitAtFirst_decimal_slash h, hsuffix,
    hfilter, ofMark_of_numeralChars hchars, hread]

end Decimals

/-! ### Reading with settings -/

lemma refuseWideQuotient_eq (p : Nat) (x y : BigFloat) :
    BigFloat.refuseWideQuotient p x y = .ok () ∨
      BigFloat.refuseWideQuotient p x y = refuseBits p := by
  unfold BigFloat.refuseWideQuotient
  split
  · split
    · exact .inl rfl
    · exact .inr rfl
  · exact .inl rfl

/-- Whether integers of as many bits as a precision has are refused with an error. -/
def Error.IsTooWide (p : Nat) (e : Error) : Prop :=
  refuseBits p = .error e

lemma ofLiteral_decimal (p n places : Nat) :
    (∃ x, BigFloat.ofLiteral p .decimal .decimal n 0 places = .ok x) ∨
      ∃ e, BigFloat.ofLiteral p .decimal .decimal n 0 places = .error e ∧ e.IsTooWide p := by
  have hwide : BigFloat.refuseWideQuotient p (.ofInt n) (.ofInt 10) = .ok () ∨
      ∃ e, BigFloat.refuseWideQuotient p (.ofInt n) (.ofInt 10) = .error e ∧ e.IsTooWide p := by
    rcases refuseWideQuotient_eq p (.ofInt n) (.ofInt 10) with h | h
    · exact .inl h
    · rw [h]
      cases hbits : refuseBits p with
      | ok _ => exact .inl rfl
      | error e => exact .inr ⟨e, rfl, hbits⟩
  rw [BigFloat.ofLiteral]
  simp only [Radix.bits?]
  split
  · rcases hwide with h | ⟨e, h, he⟩
    · exact .inl ⟨_, by rw [h]; rfl⟩
    · exact .inr ⟨e, by rw [h]; rfl, he⟩
  · exact .inl ⟨_, rfl⟩

/-- A numeral stands for a number, unless there are no integers of enough bits for it. -/
lemma Config.readNumeral_of_isNumeral (config : Config) (h : IsNumeral cs)
    (hcount : digitCount cs ≤ numeralLimit) :
    (∃ n, config.readNumeral cs = .ok n) ∨
      config.exactDecimals = false ∧ '.' ∈ cs ∧
        ∃ e, config.readNumeral cs = .error e ∧ e.IsTooWide config.precision := by
  rcases h.cases with ⟨hne, hdigits⟩ | ⟨whole, fraction, rfl, hne, hdigits⟩
  · left
    have hpoint : '.' ∉ cs := fun hc => absurd (hdigits '.' hc) (by decide)
    have hlength : cs.length ≤ numeralLimit := by
      rwa [digitCount, List.countP_eq_length.2 hdigits] at hcount
    exact ⟨_, by rw [readNumeral, if_neg hpoint, readNatural?_of_digits hne hdigits hlength]; rfl⟩
  · have hlength : (whole ++ fraction).length ≤ numeralLimit := by
      rw [← List.countP_eq_length.2 hdigits]
      simpa [digitCount, isAsciiDigit] using hcount
    rw [readNumeral, if_pos (by simp)]
    cases hexact : config.exactDecimals with
    | true =>
      obtain ⟨q, hq⟩ := readFraction_of_digits hdigits hne hlength
      exact .inl ⟨.rational q, by rw [hq]; rfl⟩
    | false =>
      obtain ⟨n, places, hread⟩ := read_of_digits hdigits config.precision
      rw [hread]
      rcases ofLiteral_decimal config.precision n places with ⟨x, hx⟩ | ⟨e, he, hwide⟩
      · exact .inl ⟨.float x config.precision, by rw [hx]; rfl⟩
      · exact .inr ⟨rfl, by simp, e, by rw [he]; rfl, hwide⟩

/-- A numeral is refused for its length, or for the precision that it is read with, if at all. -/
lemma Config.onlyLimits_readNumeral (config : Config) (h : IsNumeral cs) :
    RefusedOnly Error.IsLimit (config.readNumeral cs) := by
  rcases h.cases with ⟨-, hdigits⟩ | ⟨whole, fraction, rfl, -, hdigits⟩
  · have hpoint : '.' ∉ cs := fun hc => absurd (hdigits '.' hc) (by decide)
    rw [readNumeral, if_neg hpoint]
    split
    · exact refusedOnly_ok _
    · exact refusedOnly_error (.inl rfl)
  · rw [readNumeral, if_pos (by simp)]
    split
    · exact (onlyLimits_readFraction hdigits).bind fun _ _ => refusedOnly_ok _
    · obtain ⟨n, places, hread⟩ := read_of_digits hdigits config.precision
      rw [hread]
      refine RefusedOnly.bind (fun e he => ?_) fun _ _ => refusedOnly_ok _
      rcases ofLiteral_decimal config.precision n places with ⟨x, hx⟩ | ⟨e', he', hwide⟩
      · rw [hx] at he
        cases he
      · rw [he'] at he
        cases he
        exact onlyLimits_refuseBits _ e hwide

end SymbolicAlgebra
