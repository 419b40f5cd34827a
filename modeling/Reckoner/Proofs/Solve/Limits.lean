import Mathlib
import Reckoner.Proofs.Grammar.Limit
import Reckoner.Proofs.Solve.Shape

/-!
# Limits on Texts

The two limits on a text, on its length and on the depth of its expression. Each
stands before everything that comes after it and has an error of its own. A text
that gets past both is solved as if there were none, and so it is under all
larger limits (`solve_of_limits_le`). It does not matter whether the solution is a
value or an error of another kind.

Which texts get past the limit on depth is a question about their derivations. The
grammar knows nothing of limits, and the depth of a derivation is defined along
its rules. `limits_exact` says that the parser's count is that depth.

## Main definitions

* `Settings.withLimits`: The settings with other limits.
* `PassesLimits`: An outcome that is no error about a limit.

## Theorems

* `parseTokens_of_depth_le`, `precheck_of_length_le`: The two stages that have a
  limit.
* `solve_of_limits_le`: Larger limits change nothing but errors about limits.
* `limits_exact`: Both limits are filters, and the one on depth is exact.
-/

namespace Reckoner

/-- The settings with other limits on the length and the depth. -/
def Settings.withLimits (settings : Settings) (length depth : Int) : Settings :=
  { settings with maxLength := length, maxDepth := depth }

@[simp]
theorem maxLength_withLimits (settings : Settings) (length depth : Int) :
    (settings.withLimits length depth).maxLength = length := rfl

@[simp]
theorem maxDepth_withLimits (settings : Settings) (length depth : Int) :
    (settings.withLimits length depth).maxDepth = depth := rfl

/-- The outcome is no error about a limit. -/
def PassesLimits {α : Type} (outcome : Except Failure α) : Prop :=
  ∀ limit, outcome ≠ .error (.rejection (.tooLong limit)) ∧
    outcome ≠ .error (.rejection (.tooDeep limit))

theorem passesLimits_ok {α : Type} (a : α) : PassesLimits (.ok a) := fun _ => ⟨nofun, nofun⟩

/-- Whether an error is about a limit does not depend on the stage that it ends. -/
theorem passesLimits_error_iff {α β : Type} {e : Failure} :
    PassesLimits (.error e : Except Failure α) ↔ PassesLimits (.error e : Except Failure β) := by
  simp [PassesLimits]

section Limits

variable {settings : Settings} {places : Option Int} {text : String} {tokens : List Token}
  {length depth : Int}

theorem evaluateTree_withLimits [Numerics] (tree : Expr) :
    evaluateTree (settings.withLimits length depth) places tree =
      evaluateTree settings places tree := rfl

theorem parseTokens_eq_tooDeep_iff {reported : Int} :
    parseTokens settings tokens = .error (.rejection (.tooDeep reported)) ↔
      Expr.ofTokens settings.maxDepth tokens = .error (.tooDeep reported) := by
  simp only [parseTokens]
  rcases Expr.ofTokens settings.maxDepth tokens with (e | limit | symbol) | tree <;>
    simp [Except.mapError, Failure.ofParse]

/-- A text that is not too long is not too long under a larger limit, and blank texts
    are rejected before anybody asks. -/
theorem precheck_of_length_le (hlength : settings.maxLength ≤ length)
    (h : PassesLimits (precheck settings text)) :
    precheck (settings.withLimits length depth) text = precheck settings text := by
  unfold precheck at h ⊢
  by_cases hblank : Text.isBlankText text = true
  · rw [if_pos hblank, if_pos hblank]
  · rw [if_neg hblank] at h
    rw [if_neg hblank, if_neg hblank]
    by_cases hlong : settings.maxLength < (text.length : Int)
    · rw [if_pos hlong] at h
      exact absurd rfl (h settings.maxLength).1
    · have hroom : ¬ (settings.withLimits length depth).maxLength < (text.length : Int) := by
        rw [maxLength_withLimits]
        omega
      rw [if_neg hlong, if_neg hroom]

theorem parseTokens_of_depth_le (hdepth : settings.maxDepth ≤ depth)
    (h : PassesLimits (parseTokens settings tokens)) :
    parseTokens (settings.withLimits length depth) tokens = parseTokens settings tokens := by
  have hroom : ∀ reported, Expr.ofTokens settings.maxDepth tokens ≠ .error (.tooDeep reported) :=
    fun reported hdeep => (h reported).2 (parseTokens_eq_tooDeep_iff.2 hdeep)
  simp only [parseTokens, maxDepth_withLimits, Grammar.ofTokens_of_limit_le hdepth hroom]

/-- Trees are nested no more deeply than the limit allows. -/
theorem nesting_le_maxDepth {tree : Expr} (h : parseTokens settings tokens = .ok tree) :
    (tree.nesting : Int) ≤ settings.maxDepth := by
  have hparse := mapError_eq_ok_iff.1 h
  rcases Grammar.derivation_of_ofTokens hparse with ⟨d⟩
  have hnesting := d.nesting_le_depth
  rw [Grammar.ofTokens_of_derivation settings.maxDepth d] at hparse
  by_cases hdepth : (d.depth : Int) ≤ settings.maxDepth
  · omega
  · rw [if_neg hdepth] at hparse
    cases hparse

/-- Larger limits change nothing but errors about limits. -/
theorem solve_of_limits_le [Numerics] (hlength : settings.maxLength ≤ length)
    (hdepth : settings.maxDepth ≤ depth) (h : PassesLimits (solve settings places text)) :
    solve (settings.withLimits length depth) places text = solve settings places text := by
  -- The first stage that fails decides, so none of the stages up to there is at its limit, and
  -- each of them does the same under the larger one.
  rw [solve_eq] at h
  rw [solve_eq, solve_eq]
  cases hcheck : precheck settings text with
  | error e =>
      rw [hcheck] at h
      have hpasses : PassesLimits (precheck settings text) := by
        rw [hcheck]
        exact passesLimits_error_iff.1 h
      rw [precheck_of_length_le hlength hpasses, hcheck]
  | ok _ =>
      have hpasses : PassesLimits (precheck settings text) := by
        rw [hcheck]
        exact passesLimits_ok _
      rw [precheck_of_length_le hlength hpasses, hcheck]
      simp only [hcheck] at h ⊢
      cases htokens : tokenize text with
      | error e => rfl
      | ok tokens =>
          simp only [htokens, evaluateTree_withLimits] at h ⊢
          have hpasses : PassesLimits (parseTokens settings tokens) := by
            cases hparse : parseTokens settings tokens with
            | ok tree => exact passesLimits_ok tree
            | error e =>
                simp only [hparse] at h
                exact passesLimits_error_iff.1 h
          rw [parseTokens_of_depth_le hdepth hpasses]

end Limits

/-- The limits are filters. A limit on the depth lets what is parsed without a limit
    through, or puts its own error in the place of it, and for a list with a tree the
    depth of its only derivation decides between the two. A text that passes both
    limits is solved in the same way under all larger ones. -/
theorem limits_exact [Numerics] :
    (∀ (settings : Settings) (tokens : List Token),
      parseTokens settings tokens = (Grammar.unlimited tokens).mapError Failure.ofParse ∨
        parseTokens settings tokens = .error (.rejection (.tooDeep settings.maxDepth))) ∧
    (∀ (tokens : List Token) (tree : Expr), Grammar.unlimited tokens = .ok tree →
      ∃ p : Grammar.Phrase .sum, p.tokens = tokens ∧ p.tree = tree ∧
        (∀ q : Grammar.Phrase .sum, q.tokens = tokens → q = p) ∧
        ∀ settings : Settings, parseTokens settings tokens =
          if (p.derivation.depth : Int) ≤ settings.maxDepth then .ok tree
          else .error (.rejection (.tooDeep settings.maxDepth))) ∧
    (∀ (settings : Settings) (places : Option Int) (text : String) (length depth : Int),
      settings.maxLength ≤ length → settings.maxDepth ≤ depth →
      PassesLimits (solve settings places text) →
      solve (settings.withLimits length depth) places text = solve settings places text) := by
  refine ⟨fun settings tokens => ?_, fun tokens tree htree => ?_,
    fun settings places text length depth hlength hdepth h => solve_of_limits_le hlength hdepth h⟩
  · rcases Grammar.ofTokens_eq_or settings.maxDepth tokens with h | h
    · exact .inl (by rw [parseTokens, h])
    · exact .inr (parseTokens_eq_tooDeep_iff.2 h)
  · rcases Grammar.derivation_of_ofTokens htree with ⟨d⟩
    refine ⟨⟨tokens, tree, d⟩, rfl, rfl, fun q hq => Grammar.phrase_eq_of_tokens_eq hq, ?_⟩
    intro settings
    simp only [parseTokens, Grammar.ofTokens_of_derivation settings.maxDepth d]
    by_cases hdepth : (d.depth : Int) ≤ settings.maxDepth
    · rw [if_pos hdepth, if_pos hdepth]
      rfl
    · rw [if_neg hdepth, if_neg hdepth]
      rfl

/-- The tokens of `1--2`. -/
def oneMinusMinusTwo : List Token :=
  [⟨.number, "1", some (Double.ofRat 1), 0⟩, ⟨.operator, "-", none, 1⟩, ⟨.negate, "-", none, 2⟩,
    ⟨.number, "2", some (Double.ofRat 2), 3⟩]

/-- The tree of `1--2`. -/
def oneMinusMinusTwoTree : Expr :=
  .binary "-" (.literal (some (Double.ofRat 1)))
    (.apply "neg" (.literal (some (Double.ofRat 2)))) false

/-- The negated operand is one level deeper than the difference around it. -/
def oneMinusMinusTwoPhrase : Grammar.Phrase .sum :=
  ⟨oneMinusMinusTwo, oneMinusMinusTwoTree,
    .addition (.sumOfProduct (.productOfPower (.powerOfSigned (.signedOfPrimary (.number _ rfl)))))
      ⟨.operator, "-", none, 1⟩ ⟨rfl, by simp⟩
      (.productOfPower (.powerOfSigned (.negation ⟨.negate, "-", none, 2⟩ rfl
        (.signedOfPrimary (.number _ rfl)))))⟩

theorem limits_exact_negation :
    Grammar.unlimited oneMinusMinusTwo = .ok oneMinusMinusTwoTree ∧
      (∀ settings : Settings, parseTokens settings oneMinusMinusTwo =
        if 2 ≤ settings.maxDepth then .ok oneMinusMinusTwoTree
        else .error (.rejection (.tooDeep settings.maxDepth))) ∧
      solve (Settings.defaults.withLimits 2000 200) none "1--2" =
        solve Settings.defaults none "1--2" := by
  have htree : Grammar.unlimited oneMinusMinusTwo = .ok oneMinusMinusTwoTree :=
    Grammar.unlimited_of_derivation oneMinusMinusTwoPhrase.derivation
  refine ⟨htree, ?_, ?_⟩
  · rcases limits_exact.2.1 _ _ htree with ⟨p, hp, _, hunique, hdepth⟩
    -- The phrase that there is can be no other than the one written down.
    rw [← hunique oneMinusMinusTwoPhrase rfl] at hdepth
    exact hdepth
  · refine limits_exact.2.2 _ _ _ _ _ (by decide) (by decide) ?_
    have hok : (solve Settings.defaults none "1--2").toBool = true := by decide +kernel
    cases hsolve : solve Settings.defaults none "1--2" with
    | ok result => exact passesLimits_ok result
    | error e =>
        rw [hsolve] at hok
        cases hok

end Reckoner
