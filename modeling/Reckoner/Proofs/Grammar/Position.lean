import Mathlib
import Reckoner.Proofs.Grammar.Run

/-!
# Parsing without Positions

The parser never asks where a token is. It copies positions into its errors and
does nothing else with them, so tokens that are the same but for their positions
have the same tree, or an error that differs in nothing but the place it names.

Instead of comparing two lists of tokens with each other, each is compared with
the list without positions (`runs_unplaced`). Two lists that are the same but for
positions meet there.

## Main definitions

* `Token.unplaced`: A token without its position.
* `ParseError.unplaced`: An error without the position it names.
* `Parse.unplaced`: An outcome of a call without positions.

## Theorems

* `runs_unplaced`: A call makes the same moves without positions.
* `ofTokens_unplaced`: Lists that agree but for positions have the same tree or
  the same error.
-/

namespace Reckoner

/-- The same token at the start of a text. -/
def Token.unplaced (t : Token) : Token := { t with position := 0 }

/-- The same error, said of the start of a text. -/
def GrammarError.unplaced : GrammarError → GrammarError
  | .empty => .empty
  | .missingOperandAtEnd _ => .missingOperandAtEnd 0
  | .missingParenthesis function _ => .missingParenthesis function 0
  | .nothingBeforeClosing _ => .nothingBeforeClosing 0
  | .missingOperand operator _ => .missingOperand operator 0
  | .unmatchedOpening _ => .unmatchedOpening 0
  | .unmatchedClosing _ => .unmatchedClosing 0
  | .unexpected text _ => .unexpected text 0

/-- The same error without the position it names. -/
def ParseError.unplaced : ParseError → ParseError
  | .malformed e => .malformed e.unplaced
  | .tooDeep limit => .tooDeep limit
  | .unknownOperator symbol => .unknownOperator symbol

/-- The same outcome of a call without positions. -/
def Parse.unplaced : Parse.Outcome → Parse.Outcome
  | .error e => .error e.unplaced
  | .ok (tree, rest) => .ok (tree, rest.map Token.unplaced)

namespace Grammar

theorem joint?_unplaced (ts : List Token) :
    Parse.joint? (ts.map Token.unplaced) =
      (Parse.joint? ts).map fun j => (j.1, j.2.map Token.unplaced) := by
  cases ts with
  | nil => rfl
  | cons t ts =>
      simp only [List.map_cons, Parse.joint?, Token.unplaced]
      split
      · rfl
      · split <;> rfl

theorem head?_unplaced {ts : List Token} {k : TokenKind} (h : ∀ t ∈ ts.head?, t.kind ≠ k) :
    ∀ t ∈ (ts.map Token.unplaced).head?, t.kind ≠ k := by
  cases ts with
  | nil => simp
  | cons t ts =>
      rintro _ ⟨⟩
      exact h t rfl

/-- A call makes the same moves without positions, by induction on them. -/
theorem runs_unplaced {limit stop : Int} {task : Parse.Task} {ts : List Token} {o : Parse.Outcome}
    (h : Parse.Runs limit stop task ts o) :
    Parse.Runs limit 0 task (ts.map Token.unplaced) (Parse.unplaced o) := by
  have hjoined : ∀ {ts operand : List Token} {symbol : String},
      Parse.joint? ts = some (symbol, operand) →
      Parse.joint? (ts.map Token.unplaced) = some (symbol, operand.map Token.unplaced) := by
    intro ts operand symbol hjoint
    rw [joint?_unplaced, hjoint]
    rfl
  induction h with
  | expressionTooDeep hdeep => exact .expressionTooDeep hdeep
  | firstFails hdeep _ ih => exact .firstFails hdeep ih
  | expression hdeep _ _ ihfirst ihloop => exact .expression hdeep ihfirst ihloop
  | noJoint hjoint => exact .noJoint (by rw [joint?_unplaced, hjoint]; rfl)
  | unknownOperator hjoint hop => exact .unknownOperator (hjoined hjoint) hop
  | looser hjoint hop hloose => exact .looser (hjoined hjoint) hop hloose
  | rightFails hjoint hop htight _ ih => exact .rightFails (hjoined hjoint) hop htight ih
  | absorb hjoint hop htight _ _ ihright ihloop =>
      exact .absorb (hjoined hjoint) hop htight ihright ihloop
  | negationTooDeep hkind hdeep => exact .negationTooDeep hkind hdeep
  | negationFails hkind hdeep _ ih => exact .negationFails hkind hdeep ih
  | negation hkind hdeep _ ih => exact .negation hkind hdeep ih
  | unsigned hkind _ ih => exact .unsigned (head?_unplaced hkind) ih
  | atEnd => exact .atEnd
  | literal hkind => exact .literal hkind
  | groupFails hkind _ ih => exact .groupFails hkind ih
  | groupOpen hkind _ hclose ih => exact .groupOpen hkind ih (head?_unplaced hclose)
  | group hkind _ hclose ih => exact .group hkind ih hclose
  | functionAtEnd hkind => exact .functionAtEnd hkind
  | functionBare hkind hopen => exact .functionBare hkind hopen
  | argumentFails hkind hopen _ ih => exact .argumentFails hkind hopen ih
  | argumentOpen hkind hopen _ hclose ih =>
      exact .argumentOpen hkind hopen ih (head?_unplaced hclose)
  | application hkind hopen _ hclose ih => exact .application hkind hopen ih hclose
  | closing hkind => exact .closing hkind
  | operator hkind => exact .operator hkind

theorem finish_unplaced (o : Parse.Outcome) :
    Parse.finish (Parse.unplaced o) = (Parse.finish o).mapError ParseError.unplaced := by
  rcases o with e | ⟨tree, rest⟩
  · rfl
  · cases rest with
    | nil => rfl
    | cons t rest =>
        simp only [Parse.unplaced, List.map_cons, Parse.finish, Token.unplaced]
        split <;> rfl

/-- Lists of tokens that agree but for positions have the same tree, or errors that
    do. -/
theorem ofTokens_unplaced (limit : Int) {ts us : List Token}
    (h : us.map Token.unplaced = ts.map Token.unplaced) :
    (Expr.ofTokens limit us).mapError ParseError.unplaced =
      (Expr.ofTokens limit ts).mapError ParseError.unplaced := by
  -- Both are what becomes of the list without positions.
  have hmeet : ∀ {vs : List Token} {last : Token}, vs.getLast? = some last →
      (Expr.ofTokens limit vs).mapError ParseError.unplaced =
        Parse.finish (Parse.run limit 0 (vs.map Token.unplaced) (.expression 1 0)) := by
    intro vs last hlast
    rw [ofTokens_eq_finish limit hlast, ← finish_unplaced,
      Parse.runs_iff.1 (runs_unplaced (Parse.runs_iff.2 rfl))]
  cases hts : ts.getLast? with
  | none =>
      rw [List.getLast?_eq_none_iff] at hts
      subst hts
      rw [List.map_nil, List.map_eq_nil_iff] at h
      rw [h]
  | some last =>
      cases hus : us.getLast? with
      | none =>
          rw [List.getLast?_eq_none_iff] at hus
          subst hus
          rw [List.map_nil, eq_comm, List.map_eq_nil_iff] at h
          subst h
          cases hts
      | some last' => rw [hmeet hts, hmeet hus, h]

end Grammar

end Reckoner
