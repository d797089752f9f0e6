import SymbolicAlgebra.Proofs.DecidableExpr
import SymbolicAlgebra.Proofs.Evaluation
import SymbolicAlgebra.Proofs.Refusals.Parsing
import SymbolicAlgebra.Session

/-!
# Lines are answered

A line is answered with the text of its outcome, or with the message of its refusal. There is one
way to get no answer: somewhere between the first character and the text of the outcome a number is
too long to be read, stored or written (`Session.answer_settles`). So a session goes on to its end,
or to a line with such a number (`Session.transcript_failure`).
-/

namespace SymbolicAlgebra

/-- A refusal that a session reports has a message. -/
lemma Error.message_of_isReported {e : Error} (h : e.isReported) :
    e.report.message = some e.message := by
  cases e with
  | fault f => cases f <;> cases h
  | _ => rfl

lemma Error.IsDivisionByZero.isReported {e : Error} (h : e.IsDivisionByZero) : e.isReported := by
  rw [Error.isReported, h]

namespace Session

variable {config : Config} {line : String}

/-! ### One line -/

lemma foreseen_execute (config : Config) (line : String) :
    RefusedOnly Error.IsForeseen (execute config line) := by
  have hread : RefusedOnly Error.IsForeseen (read config line) := by
    refine (Statement.foreseen_parse config line).bind fun s _ => ?_
    have hnote : RefusedOnly Error.IsForeseen (parsedNote line s) :=
      s.onlyLimits_describe.foreseen.bind fun _ _ => refusedOnly_ok _
    exact hnote.bind fun _ _ => refusedOnly_ok _
  refine hread.bind fun a ha => ?_
  obtain ⟨s, hs, ha⟩ := bind_eq_ok_iff.1 ha
  obtain ⟨note, -, ha⟩ := bind_eq_ok_iff.1 ha
  obtain rfl := pure_eq_ok_iff.1 ha
  exact Statement.foreseen_evaluate (Statement.hasLetters_of_parse hs)

lemma answer_of_outcome {out : Outcome} (h : execute config line = .ok out) :
    answer config line = (do return ⟨true, ← out.text⟩) := by
  rw [answer, h]

lemma answer_of_refusal {e : Error} (h : execute config line = .error e) :
    answer config line = if e.isReported then .ok ⟨false, e.message⟩ else .error e := by
  rw [answer, h]

lemma onlyLimits_answer (config : Config) (line : String) :
    RefusedOnly Error.IsLimit (answer config line) := by
  match h : execute config line with
  | .ok out =>
    rw [answer_of_outcome h]
    exact out.onlyLimits_text.bind fun _ _ => refusedOnly_ok _
  | .error e =>
    rw [answer_of_refusal h]
    split
    · exact refusedOnly_ok _
    · next hunreported =>
      exact refusedOnly_error ((foreseen_execute config line e h).resolve_left hunreported)

/-- What is simplified to a constant is so in canonical form. -/
lemma canonical_agrees {e : Expr} {ν : Valuation} (he : e.IsArithmetic) :
    Agrees IsValue (canonical e) (e.evaluate ν) := by
  refine (Simplify.agrees_of_isArithmetic he).1.bind_ok fun r v hr => ?_
  obtain ⟨c, rfl, hc⟩ := hr
  exact ⟨.const c, rfl, c, rfl, hc⟩

/-- A line of arithmetic is answered when the number can be written that it comes to, or that its
refusal quotes, and only then. -/
lemma answered_iff_isShort {e : Expr} {note : String} {ν : Valuation} {q : Rat}
    (hread : read config line = .ok (⟨.expr e, none⟩, note)) (he : e.IsArithmetic)
    (hq : e.evaluate ν = .ok q ∨ e.evaluate ν = .error (some q)) :
    (∃ a, answer config line = .ok a) ↔ IsShort q := by
  have hexecute : execute config line = (do return .formula ⟨← canonical e⟩) := by
    rw [execute, hread]
    show (do return Outcome.formula (← Formula.ofExpr e)) = _
    rw [Formula.ofExpr]
    cases canonical e <;> rfl
  match hc : canonical e, hy : e.evaluate ν, canonical_agrees (ν := ν) he with
  | .ok _, .ok v, .ok ⟨c, hr, hval⟩ =>
    obtain rfl : v = q := by simpa [hy] using hq
    obtain rfl := hr
    rw [hc] at hexecute
    have htext : (Outcome.formula ⟨.const c⟩).text = c.text := rfl
    rw [answer_of_outcome hexecute, htext]
    constructor
    · rintro ⟨a, ha⟩
      obtain ⟨t, ht, -⟩ := bind_eq_ok_iff.1 ha
      by_contra hlong
      rw [Number.text_eq_error hval hlong] at ht
      cases ht
    · intro hshort
      obtain ⟨t, ht⟩ := Number.text_eq_ok hval hshort
      exact ⟨_, bind_eq_ok_iff.2 ⟨t, ht, rfl⟩⟩
  | .error err, .error _, .error (q := q') hquotes =>
    obtain rfl : q' = q := by simpa [hy] using hq
    rw [hc] at hexecute
    rw [answer_of_refusal hexecute]
    constructor
    · rintro ⟨a, ha⟩
      by_contra hlong
      rw [hquotes.long hlong] at ha
      cases ha
    · intro hshort
      exact ⟨_, if_pos (hquotes.short hshort).isReported⟩

/-- A line is answered by one marked line, with the text of its outcome or the message of its
refusal, unless its execution or the text of its outcome is refused for a number that is too long. A
line of arithmetic is answered exactly when the number can be written that it comes to, or that its
refusal quotes. -/
theorem answer_settles (config : Config) (line : String) :
    ((∃ a, answer config line = .ok a ∧ a.shown = " |> " ++ a.text ++ "\n" ∧
        ((a.isResult = true ∧ ∃ out, execute config line = .ok out ∧ out.text = .ok a.text) ∨
          (a.isResult = false ∧
            ∃ e, execute config line = .error e ∧ e.report.message = some a.text))) ∨
      ∃ e, e.IsLimit ∧ answer config line = .error e ∧
        (execute config line = .error e ∨
          ∃ out, execute config line = .ok out ∧ out.text = .error e)) ∧
    ∀ e note, read config line = .ok (⟨.expr e, none⟩, note) → e.IsArithmetic → ∀ ν q,
      e.evaluate ν = .ok q ∨ e.evaluate ν = .error (some q) →
        ((∃ a, answer config line = .ok a) ↔ IsShort q) := by
  refine ⟨?_, fun e note hread he ν q hq => answered_iff_isShort hread he hq⟩
  match hexecute : execute config line with
  | .ok out =>
    have hanswer := answer_of_outcome hexecute
    match htext : out.text with
    | .ok text =>
      rw [htext] at hanswer
      exact .inl ⟨⟨true, text⟩, hanswer, rfl, .inl ⟨rfl, out, rfl, htext⟩⟩
    | .error e =>
      rw [htext] at hanswer
      exact .inr ⟨e, out.onlyLimits_text e htext, hanswer, .inr ⟨out, rfl, htext⟩⟩
  | .error e =>
    have hanswer := answer_of_refusal hexecute
    by_cases hreported : e.isReported
    · rw [if_pos hreported] at hanswer
      exact .inl ⟨⟨false, e.message⟩, hanswer, rfl,
        .inr ⟨rfl, e, rfl, Error.message_of_isReported hreported⟩⟩
    · rw [if_neg hreported] at hanswer
      exact .inr ⟨e, onlyLimits_answer config line e hanswer, hanswer, .inl rfl⟩

/-- `2 ^ 3 / (4 - 4)` is answered, since its refusal quotes `8`. -/
theorem answer_settles_of_short_dividend :
    let e : Expr := .div (.pow (.const 2) (.const 3)) (.sub (.const 4) (.const 4))
    let ν : Valuation := ⟨fun _ => 0, fun _ _ => none⟩
    let note := "Parsed '2^3/(4-4)' as Statement(body=Div(numerator=Pow(base=const(2), " ++
      "exponent=const(3)), denominator=Sub(lhs=const(4), rhs=const(4))), directive=None)"
    read {} "2^3/(4-4)" = .ok (⟨.expr e, none⟩, note) ∧ e.IsArithmetic ∧
      e.evaluate ν = .error (some 8) ∧ IsShort 8 ∧ ∃ a, answer {} "2^3/(4-4)" = .ok a := by
  intro e ν note
  have hread : read {} "2^3/(4-4)" = .ok (⟨.expr e, none⟩, note) := by
    have htokens : tokenize "2^3/(4-4)" = .ok [⟨.number ['2'], 0⟩, ⟨.symbol .caret, 1⟩,
        ⟨.number ['3'], 2⟩, ⟨.symbol .slash, 3⟩, ⟨.symbol .leftParen, 4⟩, ⟨.number ['4'], 5⟩,
        ⟨.symbol .minus, 6⟩, ⟨.number ['4'], 7⟩, ⟨.symbol .rightParen, 8⟩, ⟨.endOfInput, 9⟩] := by
      decide +kernel
    have hnote : parsedNote "2^3/(4-4)" ⟨.expr e, none⟩ = .ok note := by decide +kernel
    rw [read, Statement.parse, htokens]
    exact bind_eq_ok_iff.2 ⟨_, rfl, bind_eq_ok_iff.2 ⟨note, hnote, rfl⟩⟩
  have he : e.IsArithmetic := by
    refine ⟨⟨rfl, rfl, ?_⟩, rfl, rfl⟩
    intro ν v hv
    cases hv
    rfl
  have hq : e.evaluate ν = .error (some 8) := by decide +kernel
  have hshort : IsShort 8 := by
    unfold IsShort
    decide +kernel
  exact ⟨hread, he, hq, hshort, ((answer_settles {} _).2 e note hread he ν 8 (.inr hq)).2 hshort⟩

/-- `10 ^ 4300` has an outcome, but no answer: the text of the outcome would have too many
digits. -/
theorem not_answered_of_long_outcome :
    (∃ out, execute {} "10^4300" = .ok out) ∧ ¬∃ a, answer {} "10^4300" = .ok a := by
  have hexecute : (execute {} "10^4300").toBool = true := by decide +kernel
  have hanswer : answer {} "10^4300" = .error (.fault .wrongValue) := by decide +kernel
  constructor
  · match h : execute {} "10^4300" with
    | .ok out => exact ⟨out, rfl⟩
    | .error e =>
      rw [h] at hexecute
      cases hexecute
  · rintro ⟨a, ha⟩
    rw [hanswer] at ha
    cases ha

/-! ### Line after line -/

lemma onlyLimits_reply (config : Config) (line : String) :
    RefusedOnly Error.IsLimit (reply config line) := by
  refine refusedOnly_ite (refusedOnly_ok _) (refusedOnly_ite (refusedOnly_ok _) ?_)
  exact (onlyLimits_answer config _).bind fun _ _ => refusedOnly_ok _

/-- A session that does not go on to its end has met a line for which a number is too long; all
lines before have a reply. -/
theorem transcript_failure {lines : List String} {e : Error}
    (h : (transcript config lines).failure = some e) :
    e.IsLimit ∧ ∃ before line after, lines = before ++ line :: after ∧
      (∀ l ∈ before, ∃ r, reply config l = .ok r) ∧ reply config line = .error e := by
  induction lines with
  | nil => cases h
  | cons line lines ih =>
    have hrest (r : Reply) (hr : reply config line = .ok r)
        (h : (transcript config lines).failure = some e) :
        e.IsLimit ∧ ∃ before line' after, line :: lines = before ++ line' :: after ∧
          (∀ l ∈ before, ∃ r, reply config l = .ok r) ∧ reply config line' = .error e := by
      obtain ⟨hlimit, before, line', after, rfl, hbefore, herror⟩ := ih h
      refine ⟨hlimit, line :: before, line', after, rfl, ?_, herror⟩
      exact List.forall_mem_cons.2 ⟨⟨r, hr⟩, hbefore⟩
    rw [transcript] at h
    split at h
    · next hr => exact hrest _ hr h
    · cases h
    · next a hr => exact hrest _ hr h
    · next e' hr =>
      cases h
      exact ⟨onlyLimits_reply config line e hr, [], line, lines, rfl, by simp, hr⟩

end Session

end SymbolicAlgebra
