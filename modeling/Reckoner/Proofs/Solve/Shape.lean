import Mathlib
import Reckoner.Solve
import Reckoner.Proofs.Solve.Legible

/-!
# The Shapes of Answers

Every text gets an answer, and every answer has one of two shapes (`Settled`).
Either the text has been scanned, parsed and evaluated, and the answer has the
value and all steps, or something was wrong with the text, and the answer has a
code and a wording that starts with the headline of that code.

Nothing else comes of a text, whatever the limits on its length and depth. The
stages before have seen to it that no operator, function or number is missing.
One thing is left that no text decides: how many decimal places the caller asks
for. The formatter takes `maxHalfWord` of them at most, and past that number the
step of a named function cannot be written. `answer_hugePlaces` shows such a text.

## Main definitions

* `headlines`: The codes of rejections and what their wordings start with.
* `Settled`: The two shapes of answers.

## Theorems

* `describe_starts`: The wording of a rejection starts with its headline.
* `solve_cases`: What can come of a text.
* `answer_settled`: Every text is answered in one of the two shapes.
-/

namespace Reckoner

/-- What the texts of every kind of rejection start with, by its code. -/
def headlines : List (String × String) :=
  [("EMPTY_INPUT", "Please enter a mathematical expression"), ("TOO_LONG", "Invalid input"),
    ("TOO_DEEP", "Invalid input"), ("LEX_ERROR", "Unrecognized input"),
    ("SYNTAX_ERROR", "Invalid expression format"), ("MATH_ERROR", "Math error")]

/-- The two shapes of an answer: a solved text with its value and all steps, or
    a rejected one with neither. -/
inductive Settled [Numerics] (settings : Settings) (places : Option Int) (text : String) :
    Answer → Prop
  | solved {tokens : List Token} {tree : Expr} {e : Evaluation}
      (htokens : tokenize text = .ok tokens) (htree : parseTokens settings tokens = .ok tree)
      (hvalue : evaluateTree settings places tree = .ok e) :
      Settled settings places text
        ⟨true, text, some e.value, e.steps ++ [finalStep text e.value], none, none⟩
  | rejected {code headline error : String} (hkind : (code, headline) ∈ headlines)
      (herror : headline.toList <+: error.toList) :
      Settled settings places text ⟨false, text, none, [], some error, some code⟩

theorem prefix_headline (headline message : String) :
    headline.toList <+: s!"{headline}: {message}".toList := by
  simp [toString]

/-- The text of a rejection starts with the headline of its code. -/
theorem describe_starts (r : Rejection) :
    ∃ headline, (r.report.code, headline) ∈ headlines ∧
      headline.toList <+: r.report.describe.toList := by
  cases r with
  | blank => exact ⟨_, .head _, List.prefix_refl _⟩
  | tooLong limit =>
      have hmem : ("TOO_LONG", "Invalid input") ∈ headlines := by decide
      exact ⟨_, hmem, prefix_headline _ _⟩
  | tooDeep limit =>
      have hmem : ("TOO_DEEP", "Invalid input") ∈ headlines := by decide
      exact ⟨_, hmem, prefix_headline _ _⟩
  | unreadable e =>
      have hmem : ("LEX_ERROR", "Unrecognized input") ∈ headlines := by decide
      exact ⟨_, hmem, prefix_headline _ _⟩
  | malformed e =>
      have hmem : ("SYNTAX_ERROR", "Invalid expression format") ∈ headlines := by decide
      exact ⟨_, hmem, prefix_headline _ _⟩
  | math e =>
      have hmem : ("MATH_ERROR", "Math error") ∈ headlines := by decide
      exact ⟨_, hmem, prefix_headline _ _⟩

/-- A rejection is an answer of the second shape. -/
theorem settled_of_rejection [Numerics] {settings : Settings} {places : Option Int} {text : String}
    {r : Rejection} (h : solve settings places text = .error (.rejection r)) :
    ∃ a, answer settings places text = .ok a ∧ Settled settings places text a := by
  rcases describe_starts r with ⟨headline, hkind, herror⟩
  refine ⟨_, ?_, .rejected hkind herror⟩
  simp only [answer, h, Answer.ofOutcome, Answer.rejected]

theorem parseText_eq (settings : Settings) (text : String) :
    parseText settings text =
      match tokenize text with
      | .error e => .error e
      | .ok tokens => parseTokens settings tokens := by
  rw [parseText]
  cases tokenize text with
  | error e => rfl
  | ok tokens => rfl

/-- The stages of a solution, each on what the one before has made. -/
theorem solve_eq [Numerics] (settings : Settings) (places : Option Int) (text : String) :
    solve settings places text =
      match precheck settings text with
      | .error e => .error e
      | .ok _ =>
        match tokenize text with
        | .error e => .error e
        | .ok tokens =>
          match parseTokens settings tokens with
          | .error e => .error e
          | .ok tree =>
            match evaluateTree settings places tree with
            | .error e => .error e
            | .ok result => .ok (result.close text) := by
  simp only [solve, parseText]
  cases precheck settings text with
  | error e => rfl
  | ok _ =>
      cases tokenize text with
      | error e => rfl
      | ok tokens =>
          simp only [bind, Except.bind]
          cases parseTokens settings tokens with
          | error e => rfl
          | ok tree =>
              cases hresult : evaluateTree settings places tree with
              | error e => simp [hresult]
              | ok result => simp [hresult]; rfl

/-- A text that is solved has passed all stages. -/
theorem exists_tree_of_solve [Numerics] {settings : Settings} {places : Option Int} {text : String}
    {result : Evaluation} (h : solve settings places text = .ok result) :
    ∃ tokens tree e, tokenize text = .ok tokens ∧ parseTokens settings tokens = .ok tree ∧
      evaluateTree settings places tree = .ok e ∧ result = e.close text := by
  rw [solve_eq] at h
  cases hprecheck : precheck settings text with
  | error e => simp only [hprecheck, reduceCtorEq] at h
  | ok _ =>
  cases htokens : tokenize text with
  | error e => simp only [hprecheck, htokens, reduceCtorEq] at h
  | ok tokens =>
  cases htree : parseTokens settings tokens with
  | error e => simp only [hprecheck, htokens, htree, reduceCtorEq] at h
  | ok tree =>
  cases hvalue : evaluateTree settings places tree with
  | error e => simp only [hprecheck, htokens, htree, hvalue, reduceCtorEq] at h
  | ok e =>
      simp only [hprecheck, htokens, htree, hvalue, Except.ok.injEq] at h
      exact ⟨tokens, tree, e, rfl, htree, hvalue, h.symm⟩

/-- What can come of a text: it is solved, or it is rejected, but not for having
    no tokens, or a step of a named function cannot be written. -/
theorem solve_cases {library : Numerics} (hlibrary : library.Reliable) (settings : Settings)
    (places : Option Int) (text : String) :
    (∃ tokens tree e, tokenize text = .ok tokens ∧ parseTokens settings tokens = .ok tree ∧
      evaluateTree settings places tree = .ok e ∧
      solve settings places text = .ok (e.close text)) ∨
    (∃ r, r ≠ .malformed .empty ∧ solve settings places text = .error (.rejection r)) ∨
    (∃ tokens tree fault, tokenize text = .ok tokens ∧ parseTokens settings tokens = .ok tree ∧
      tree.calls = true ∧ fault.Blames (settings.places places) ∧
      solve settings places text = .error (.fault (.places fault))) := by
  -- One stage after the other. Each either ends in a rejection or hands on what the next one
  -- needs: tokens that are legible and not none, and a tree that is proper.
  rw [solve_eq]
  cases hblank : Text.isBlankText text with
  | true => exact .inr (.inl ⟨.blank, by rintro ⟨⟩, by simp [precheck, hblank]⟩)
  | false =>
  by_cases hlength : settings.maxLength < (text.length : Int)
  · exact .inr (.inl
      ⟨.tooLong settings.maxLength, by rintro ⟨⟩, by simp [precheck, hblank, hlength]⟩)
  have hprecheck : precheck settings text = .ok () := by simp [precheck, hblank, hlength]
  simp only [hprecheck]
  cases hscan : Token.scan text with
  | error e =>
      have htokens : tokenize text = .error (Failure.ofScan e) := by
        simp [tokenize, hscan, Except.mapError]
      simp only [htokens]
      exact .inr (.inl ⟨.unreadable e, by rintro ⟨⟩, rfl⟩)
  | ok tokens =>
  have htokens : tokenize text = .ok tokens := by simp [tokenize, hscan, Except.mapError]
  have hlegible := legible_of_scan hscan
  have hne : tokens ≠ [] := by
    rintro rfl
    exact scan_ne_nil hblank hscan
  simp only [htokens]
  cases hparse : Expr.ofTokens settings.maxDepth tokens with
  | error e =>
      have htree : parseTokens settings tokens = .error (Failure.ofParse e) := by
        simp [parseTokens, hparse, Except.mapError]
      simp only [htree]
      cases e with
      | malformed e =>
          refine .inr (.inl ⟨.malformed e, ?_, rfl⟩)
          rintro ⟨⟩
          exact Grammar.ofTokens_ne_empty hne hparse
      | tooDeep limit => exact .inr (.inl ⟨.tooDeep limit, by rintro ⟨⟩, rfl⟩)
      | unknownOperator symbol =>
          exact absurd hparse
            (Grammar.ofTokens_ne_unknownOperator fun t ht => (hlegible t ht).operator)
  | ok tree =>
  have htree : parseTokens settings tokens = .ok tree := by
    simp [parseTokens, hparse, Except.mapError]
  simp only [htree]
  rcases Grammar.derivation_of_ofTokens hparse with ⟨d⟩
  have hsettles := Expr.settles_of_proper hlibrary (settings.places places)
    (Grammar.proper_of_derivation d hlegible)
  cases hevaluate : tree.evaluate (settings.places places) with
  | ok e =>
      have hvalue : evaluateTree settings places tree = .ok e := by
        simp [evaluateTree, hevaluate, Except.mapError]
      simp only [hvalue]
      exact .inl ⟨tokens, tree, e, rfl, htree, hvalue, rfl⟩
  | error e =>
      have hvalue : evaluateTree settings places tree = .error (Failure.ofEvaluation e) := by
        simp [evaluateTree, hevaluate, Except.mapError]
      simp only [hvalue]
      rw [hevaluate] at hsettles
      cases hsettles with
      | math e => exact .inr (.inl ⟨.math e, by rintro ⟨⟩, rfl⟩)
      | places hcalls hblames =>
          exact .inr (.inr ⟨tokens, tree, _, rfl, htree, hcalls, hblames, rfl⟩)

/-- Whatever the limits are, and with any library that is to be relied on, a text is answered
    in one of the two shapes, as long as the formatter takes so many decimal places. If it does
    not, the step of a named function may fail. No text that is scanned at all is reported as
    empty. -/
theorem answer_settled {library : Numerics} (hlibrary : library.Reliable) (settings : Settings)
    (places : Option Int) (text : String) (hplaces : 0 ≤ settings.places places) :
    (settings.places places ≤ maxHalfWord →
      ∃ a, answer settings places text = .ok a ∧ Settled settings places text a) ∧
    (maxHalfWord < settings.places places →
      (∃ a, answer settings places text = .ok a ∧ Settled settings places text a) ∨
      ∃ tokens tree fault, tokenize text = .ok tokens ∧ parseTokens settings tokens = .ok tree ∧
        tree.calls = true ∧ fault.Blames (settings.places places) ∧
        answer settings places text = .error (.places fault)) ∧
    solve settings places text ≠ .error (.rejection (.malformed .empty)) := by
  rcases solve_cases hlibrary settings places text with
    ⟨tokens, tree, e, htokens, htree, hvalue, hsolve⟩ | ⟨r, hr, hsolve⟩ |
      ⟨tokens, tree, fault, htokens, htree, hcalls, hblames, hsolve⟩
  · have hanswer : ∃ a, answer settings places text = .ok a ∧ Settled settings places text a := by
      refine ⟨_, ?_, .solved htokens htree hvalue⟩
      rw [answer, hsolve]
      rfl
    rw [hsolve]
    exact ⟨fun _ => hanswer, fun _ => .inl hanswer, nofun⟩
  · have hanswer := settled_of_rejection hsolve
    refine ⟨fun _ => hanswer, fun _ => .inl hanswer, ?_⟩
    rw [hsolve]
    rintro ⟨⟩
    exact hr rfl
  · have hanswer : answer settings places text = .error (.places fault) := by
      rw [answer, hsolve]
      rfl
    refine ⟨fun hsmall => ?_, fun _ => .inr ⟨tokens, tree, fault, htokens, htree, hcalls, hblames,
      hanswer⟩, by rw [hsolve]; simp⟩
    exfalso
    -- No fault blames a number of places that is not negative and that the formatter takes.
    cases fault with
    | negative => exact absurd hplaces (Int.not_le.2 hblames)
    | tooMany => exact absurd hsmall (Int.not_le.2 hblames.1)
    | unreadable =>
        have hlarge : maxHalfWord < settings.places places := Int.lt_trans (by decide) hblames
        exact absurd hsmall (Int.not_le.2 hlarge)

theorem answer_settled_sum :
    0 ≤ Settings.defaults.places none ∧
      ∃ a, answer Settings.defaults none "2+3" = .ok a ∧
        Settled Settings.defaults none "2+3" a := by
  have hplaces : 0 ≤ Settings.defaults.places none := by decide
  exact ⟨hplaces, (answer_settled Numerics.reference_reliable Settings.defaults none "2+3"
    hplaces).1 (by decide)⟩

/-- With one decimal place too many there is no answer, although the division by
    zero that follows would have been one. -/
theorem answer_hugePlaces :
    0 ≤ Settings.defaults.places (some (maxHalfWord + 1)) ∧
      answer Settings.defaults (some (maxHalfWord + 1)) "sin(30)/0" = .error (.places .tooMany) ∧
      ¬ ∃ a, answer Settings.defaults (some (maxHalfWord + 1)) "sin(30)/0" = .ok a ∧
        Settled Settings.defaults (some (maxHalfWord + 1)) "sin(30)/0" a := by
  have hnone : (answer Settings.defaults (some (maxHalfWord + 1)) "sin(30)/0").toBool = false := by
    decide +kernel
  have hfault : answer Settings.defaults (some (maxHalfWord + 1)) "sin(30)/0" =
      .error (.places .tooMany) := by
    -- The text has no answer, so its outcome is a fault, and only one fault blames the number.
    rcases solve_cases Numerics.reference_reliable Settings.defaults (some (maxHalfWord + 1))
      "sin(30)/0" with ⟨_, _, e, _, _, _, hsolve⟩ | ⟨r, _, hsolve⟩ |
      ⟨_, _, fault, _, _, _, hblames, hsolve⟩
    · rw [answer, hsolve] at hnone
      cases hnone
    · rw [answer, hsolve] at hnone
      cases hnone
    · rw [answer, hsolve]
      cases fault with
      | negative => exact absurd hblames (by decide : ¬ maxHalfWord + 1 < 0)
      | tooMany => rfl
      | unreadable => exact absurd hblames (by decide : ¬ maxWord < maxHalfWord + 1)
  refine ⟨by decide, hfault, ?_⟩
  rintro ⟨a, ha, _⟩
  cases hfault.symm.trans ha

end Reckoner
