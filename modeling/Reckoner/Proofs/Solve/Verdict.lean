import Mathlib
import Reckoner.Proofs.Evaluation.Clean
import Reckoner.Proofs.Solve.Shape

/-!
# The Verdict on a Text

A verdict says whether a text is an expression, and an answer what the expression
comes to. The two are asked for in different places, one while somebody types and
one afterwards, and nothing in their definitions makes them agree. That they do
comes from what is known about trees of texts. Evaluating one can fail for its
mathematics or for the number of decimal places, and for nothing else, so
whatever else is wrong with a text has been found before evaluation, and the
verdict has found it too.

`Judged` lists the four ways in which the two can come out together. It leaves out
texts that are too long, because a verdict does not look at the length.

The formatter does not take every number of decimal places, and a text that is an
expression may have no answer for that reason. `verdict_hugePlaces` is one.

## Main definitions

* `Answer.Refused`: An answer to a text that is no expression.
* `Judged`: A verdict and an answer that go together.

## Theorems

* `rejection_of_parseText`: A text without a tree is rejected, but not for its
  mathematics.
* `judged`: The verdict and the answer go together.
* `verdict_agrees`: What each of the two says about the other.
-/

namespace Reckoner

/-- The answer is bad, and not for a mathematical error. -/
def Answer.Refused (a : Answer) : Prop := a.ok = false ∧ a.code ≠ some "MATH_ERROR"

/-- A verdict and an answer that go together: the same complaint, or no complaint and
    whatever the expression comes to. -/
inductive Judged (settings : Settings) (places : Option Int) (text : String) :
    Except Fault (Option String) → Except Fault Answer → Prop
  | refused {r : Rejection} (hmath : ∀ m, r ≠ .math m) :
      Judged settings places text (.ok (some r.report.describe)) (.ok (.rejected text r.report))
  | solved (e : Evaluation) : Judged settings places text (.ok none) (.ok (.solved text e))
  | undefined (m : MathError) :
      Judged settings places text (.ok none) (.ok (.rejected text (Rejection.math m).report))
  | unwritable {fault : PlacesFault} (hblames : fault.Blames (settings.places places)) :
      Judged settings places text (.ok none) (.error (.places fault))

/-- Only mathematical errors have their code. -/
theorem code_eq_math_iff {r : Rejection} :
    r.report.code = "MATH_ERROR" ↔ ∃ m, r = .math m := by
  cases r <;> simp [Rejection.report, Report.make, Report.located, Kind.defaultCode]

namespace Judged

variable {settings : Settings} {places : Option Int} {text : String}
  {v : Except Fault (Option String)} {o : Except Fault Answer}

theorem answer_of_complaint (h : Judged settings places text v o) {m : String}
    (hv : v = .ok (some m)) : ∃ a, o = .ok a ∧ a.Refused ∧ a.error = some m := by
  cases h with
  | @refused r hmath =>
      cases hv
      refine ⟨_, rfl, ⟨rfl, fun hcode => ?_⟩, rfl⟩
      rcases code_eq_math_iff.1 (Option.some.inj hcode) with ⟨m, rfl⟩
      exact hmath m rfl
  | solved e => cases hv
  | undefined m => cases hv
  | unwritable hblames => cases hv

theorem complaint_of_answer (h : Judged settings places text v o) {a : Answer} (ho : o = .ok a)
    (ha : a.Refused) : ∃ m, a.error = some m ∧ v = .ok (some m) := by
  cases h with
  | refused hmath =>
      cases ho
      exact ⟨_, rfl, rfl⟩
  | solved e =>
      cases ho
      cases ha.1
  | undefined m =>
      cases ho
      exact absurd (congrArg some (code_eq_math_iff.2 ⟨m, rfl⟩)) ha.2
  | unwritable hblames => cases ho

/-- Without a complaint there is an answer, unless it cannot be written. -/
theorem none_iff (h : Judged settings places text v o) (hplaces : 0 ≤ settings.places places) :
    v = .ok none ↔ (∃ a, o = .ok a ∧ (a.ok = true ∨ a.code = some "MATH_ERROR")) ∨
      ∃ fault, maxHalfWord < settings.places places ∧ o = .error (.places fault) := by
  cases h with
  | @refused r hmath =>
      refine ⟨nofun, ?_⟩
      rintro (⟨a, ha, hok | hcode⟩ | ⟨fault, _, hfault⟩)
      · cases ha
        cases hok
      · cases ha
        rcases code_eq_math_iff.1 (Option.some.inj hcode) with ⟨m, rfl⟩
        exact absurd rfl (hmath m)
      · cases hfault
  | solved e => exact ⟨fun _ => .inl ⟨_, rfl, .inl rfl⟩, fun _ => rfl⟩
  | undefined m =>
      have hcode := congrArg some (code_eq_math_iff.2 ⟨m, rfl⟩)
      exact ⟨fun _ => .inl ⟨_, rfl, .inr hcode⟩, fun _ => rfl⟩
  | @unwritable fault hblames =>
      have hword : maxHalfWord < maxWord := by decide
      -- The number is not negative, so it is too large if it is to blame.
      have hlarge : maxHalfWord < settings.places places := by
        cases fault <;> simp only [PlacesFault.Blames] at hblames <;> omega
      exact ⟨fun _ => .inr ⟨fault, hlarge, rfl⟩, fun _ => rfl⟩

end Judged

section Stages

variable {settings : Settings} {places : Option Int} {text : String}

/-- A text without a tree is rejected, and not for its mathematics. -/
theorem rejection_of_parseText {f : Failure} (h : parseText settings text = .error f) :
    ∃ r, f = .rejection r ∧ ∀ m, r ≠ .math m := by
  rw [parseText_eq] at h
  cases hscan : Token.scan text with
  | error e =>
      simp only [tokenize, hscan, Except.mapError] at h
      cases h
      exact ⟨.unreadable e, rfl, by rintro m ⟨⟩⟩
  | ok tokens =>
      simp only [tokenize, hscan, Except.mapError] at h
      cases hparse : Expr.ofTokens settings.maxDepth tokens with
      | ok tree => simp [parseTokens, hparse, Except.mapError] at h
      | error e =>
          simp only [parseTokens, hparse, Except.mapError] at h
          cases h
          cases e with
          | malformed e => exact ⟨.malformed e, rfl, by rintro m ⟨⟩⟩
          | tooDeep limit => exact ⟨.tooDeep limit, rfl, by rintro m ⟨⟩⟩
          | unknownOperator symbol =>
              -- The operators of a text are read from the table that the parser asks.
              have hlegible := legible_of_scan hscan
              exact absurd hparse
                (Grammar.ofTokens_ne_unknownOperator fun t ht => (hlegible t ht).operator)

/-- The tree of a text has a value, or a mathematical error, or too many decimal
    places are asked for. -/
theorem comesClean_of_parseText {library : Numerics} (hlibrary : library.Reliable) {tree : Expr}
    (h : parseText settings text = .ok tree) :
    tree.ComesClean (settings.places places) (evaluateTree settings places tree) := by
  rw [parseText_eq] at h
  cases htokens : tokenize text with
  | error e =>
      rw [htokens] at h
      cases h
  | ok tokens =>
      rw [htokens] at h
      exact PostOrder.comesClean_of_clean hlibrary (PostOrder.clean_of_scan htokens h)

/-- A text that is neither blank nor too long is solved by evaluating its tree. -/
theorem solve_of_precheck [Numerics] (h : precheck settings text = .ok ()) :
    solve settings places text =
      match parseText settings text with
      | .error e => .error e
      | .ok tree => (evaluateTree settings places tree).map (Evaluation.close · text) := by
  rw [solve_eq, h, parseText_eq]
  cases tokenize text with
  | error e => rfl
  | ok tokens =>
      simp only []
      cases parseTokens settings tokens with
      | error e => rfl
      | ok tree =>
          simp only []
          cases evaluateTree settings places tree <;> rfl

theorem precheck_of_blank (h : Text.isBlankText text = true) :
    precheck settings text = .error (.rejection .blank) := by
  rw [precheck, if_pos h]

theorem precheck_of_long (hblank : Text.isBlankText text = false)
    (h : settings.maxLength < (text.length : Int)) :
    precheck settings text = .error (.rejection (.tooLong settings.maxLength)) := by
  rw [precheck, if_neg (by rw [hblank]; decide), if_pos h]

theorem precheck_of_short (hblank : Text.isBlankText text = false)
    (h : (text.length : Int) ≤ settings.maxLength) : precheck settings text = .ok () := by
  rw [precheck, if_neg (by rw [hblank]; decide), if_neg (by omega)]

/-- What is rejected before it is read is answered so. -/
theorem answer_of_precheck [Numerics] {r : Rejection}
    (h : precheck settings text = .error (.rejection r)) :
    answer settings places text = .ok (.rejected text r.report) := by
  rw [answer, solve_eq, h]
  rfl

/-- The verdict and the answer go together, unless the text is too long. -/
theorem judged {library : Numerics} (hlibrary : library.Reliable)
    (h : Text.isBlankText text = true ∨ (text.length : Int) ≤ settings.maxLength) :
    Judged settings places text (verdict settings text) (answer settings places text) := by
  cases hblank : Text.isBlankText text with
  | true =>
      rw [verdict, if_pos hblank, answer_of_precheck (precheck_of_blank hblank)]
      exact .refused nofun
  | false =>
      have hlength := h.resolve_left (by rw [hblank]; decide)
      rw [verdict, if_neg (by rw [hblank]; decide), answer,
        solve_of_precheck (precheck_of_short hblank hlength)]
      -- The tree is made once for both. Without one both stop, and with one only the answer
      -- goes on.
      cases hparse : parseText settings text with
      | error f =>
          rcases rejection_of_parseText hparse with ⟨r, rfl, hmath⟩
          exact .refused hmath
      | ok tree =>
          have hcomes : tree.ComesClean (settings.places places)
              (evaluateTree settings places tree) :=
            comesClean_of_parseText hlibrary hparse
          simp only [verdictOf]
          cases hvalue : evaluateTree settings places tree with
          | ok e => exact .solved _
          | error f =>
              rw [hvalue] at hcomes
              cases hcomes with
              | math m => exact .undefined m
              | places _ hblames => exact .unwritable hblames

end Stages

/-- With a library to be relied on, the verdict on a text and the answer to it agree. A verdict
    is a complaint exactly if the answer is an error that is not a mathematical one, and it is
    the same complaint. It is no complaint exactly if the text is solved or mathematically
    undefined, unless more decimal places are asked for than the formatter takes, and then the
    answer may be missing. A text that is too long has an answer that says so, whatever the
    verdict is, and both call a blank text blank, however long it is. -/
theorem verdict_agrees {library : Numerics} (hlibrary : library.Reliable) (settings : Settings)
    (places : Option Int) (text : String) (hplaces : 0 ≤ settings.places places) :
    ((text.length : Int) ≤ settings.maxLength →
      (∀ m, verdict settings text = .ok (some m) →
        ∃ a, answer settings places text = .ok a ∧ a.Refused ∧ a.error = some m) ∧
      (∀ a, answer settings places text = .ok a → a.Refused →
        ∃ m, a.error = some m ∧ verdict settings text = .ok (some m)) ∧
      (verdict settings text = .ok none ↔
        (∃ a, answer settings places text = .ok a ∧ (a.ok = true ∨ a.code = some "MATH_ERROR")) ∨
          ∃ fault, maxHalfWord < settings.places places ∧
            answer settings places text = .error (.places fault))) ∧
    (settings.maxLength < (text.length : Int) → Text.isBlankText text = false →
      ∃ a, answer settings places text = .ok a ∧ a.ok = false ∧ a.code = some "TOO_LONG") ∧
    (Text.isBlankText text = true →
      verdict settings text = .ok (some Report.emptyInputMessage) ∧
        ∃ a, answer settings places text = .ok a ∧ a.ok = false ∧
          a.error = some Report.emptyInputMessage) := by
  refine ⟨fun hlength => ?_, fun hlength hblank => ?_, fun hblank => ?_⟩
  · have hjudged : Judged settings places text (verdict settings text)
        (answer settings places text) :=
      judged hlibrary (.inr hlength)
    exact ⟨fun m => hjudged.answer_of_complaint, fun a => hjudged.complaint_of_answer,
      hjudged.none_iff hplaces⟩
  · rw [answer_of_precheck (precheck_of_long hblank hlength)]
    exact ⟨_, rfl, rfl, rfl⟩
  · rw [verdict, if_pos hblank, answer_of_precheck (precheck_of_blank hblank)]
    exact ⟨rfl, _, rfl, rfl, rfl⟩

/-- There is nothing wrong with `1/0` as an expression, and the answer is a
    mathematical error. -/
theorem verdict_agrees_quotient :
    0 ≤ Settings.defaults.places none ∧ verdict Settings.defaults "1/0" = .ok none ∧
      ∃ a, answer Settings.defaults none "1/0" = .ok a ∧
        (a.ok = true ∨ a.code = some "MATH_ERROR") := by
  have hplaces : 0 ≤ Settings.defaults.places none := by decide
  have hlength : (("1/0" : String).length : Int) ≤ Settings.defaults.maxLength := by decide
  have hverdict : verdict Settings.defaults "1/0" = .ok none := by decide +kernel
  refine ⟨hplaces, hverdict, ?_⟩
  rcases ((verdict_agrees Numerics.reference_reliable Settings.defaults none "1/0" hplaces).1
    hlength).2.2.1 hverdict with h | ⟨fault, hlarge, _⟩
  · exact h
  · exact absurd hlarge (by decide)

/-- With one decimal place too many there is no answer to `cos(60)/0`, and nothing wrong
    with it. -/
theorem verdict_hugePlaces :
    0 ≤ Settings.defaults.places (some (maxHalfWord + 1)) ∧
      (("cos(60)/0" : String).length : Int) ≤ Settings.defaults.maxLength ∧
      verdict Settings.defaults "cos(60)/0" = .ok none ∧
      ¬ ∃ a, answer Settings.defaults (some (maxHalfWord + 1)) "cos(60)/0" = .ok a ∧
        (a.ok = true ∨ a.code = some "MATH_ERROR") := by
  have hnone : (answer Settings.defaults (some (maxHalfWord + 1)) "cos(60)/0").toBool = false := by
    decide +kernel
  refine ⟨by decide, by decide, by decide +kernel, ?_⟩
  rintro ⟨a, ha, _⟩
  rw [ha] at hnone
  cases hnone

end Reckoner
