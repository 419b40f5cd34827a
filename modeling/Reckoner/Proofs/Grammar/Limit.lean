import Mathlib
import Reckoner.Proofs.Grammar.Acceptance

/-!
# The Depth Limit

What the depth limit does to the parser: it lets a result through or puts its own
error in the place of it. A run that does not pass the limit never finds out what
the limit was. The moves of the parser look at it in two places, and both only ask
whether it has been passed, so the same moves are made under any larger one. That
holds of runs that end in an error as well, where there is no derivation and no
depth to go by.

A list of tokens cannot be nested more deeply than it is long. A right operand
has an operand before it, and everything else that nests has a token of its own.
So there is a limit that is never passed, and what is parsed under it is what is
parsed without a limit (`unlimited`). From below the depth is bounded by the tree: each
operand that is nested in it is nested in the derivation.

## Main definitions

* `Expr.nesting`: How deeply the operands of a tree are nested.
* `reach`: The depth that a call on so many tokens cannot pass.
* `unlimited`: The tree of a list of tokens, however deeply nested it is.

## Theorems

* `nesting_le_depth`, `depth_lt_length`: A derivation is as deep as its tree at least,
  and every level of it takes a token.
* `runs_of_limit_le`: A run that passes no limit is one under any larger limit.
* `ne_tooDeep_of_runs`: A limit out of reach is not passed.
* `unlimited_of_derivation`: What the grammar derives has its tree without a limit.
* `ofTokens_of_limit_le`: A larger limit changes nothing but depth errors.
* `ofTokens_of_length_le`: Neither does any limit at least as large as the list
  is long.
* `ofTokens_eq_or`: A limit lets the result through or replaces it.
-/

namespace Reckoner

/-- How deeply the operands of a tree are nested: right operands and arguments count,
    left operands do not. -/
def Expr.nesting : Expr → Nat
  | .literal _ => 0
  | .binary _ left right _ => max left.nesting (right.nesting + 1)
  | .apply _ argument => argument.nesting + 1
  | .foreign _ => 0

theorem Expr.nesting_grouped (e : Expr) : e.grouped.nesting = e.nesting := by
  cases e <;> rfl

namespace Grammar

/-- A derivation is at least as deep as its tree. Parentheses make it deeper. -/
theorem Derivation.nesting_le_depth {s : Stratum} {ts : List Token} {e : Expr}
    (d : Derivation s ts e) : e.nesting ≤ d.depth := by
  induction d with
  | parentheses _ _ _ _ _ ih =>
      rw [Expr.nesting_grouped]
      exact Nat.le_succ_of_le ih
  | sumOfProduct _ ih => exact ih
  | productOfPower _ ih => exact ih
  | powerOfSigned _ ih => exact ih
  | signedOfPrimary _ ih => exact ih
  | number _ _ => exact Nat.le_refl 0
  | constant _ _ => exact Nat.le_refl 0
  | negation _ _ _ ih => exact Nat.succ_le_succ ih
  | application _ _ _ _ _ _ _ ih => exact Nat.succ_le_succ ih
  | _ =>
      -- A binary rule. Both sides are made of the operands in the same way.
      simp only [Expr.nesting, depth]
      omega

/-- Every level of a derivation takes a token, and the innermost phrase has one too. -/
theorem Derivation.depth_lt_length {s : Stratum} {ts : List Token} {e : Expr}
    (d : Derivation s ts e) : d.depth < ts.length := by
  induction d with
  | sumOfProduct _ ih => exact ih
  | productOfPower _ ih => exact ih
  | powerOfSigned _ ih => exact ih
  | signedOfPrimary _ ih => exact ih
  | addition _ _ _ _ ihleft ihright =>
      simp only [depth, List.length_append, List.length_cons]
      omega
  | multiplication _ _ _ _ ihleft ihright =>
      simp only [depth, List.length_append, List.length_cons]
      omega
  | juxtaposition _ _ _ ihleft ihright =>
      -- No token joins the two factors. The level is paid for by the first token of the left one.
      simp only [depth, List.length_append, List.length_cons] at ihright ⊢
      omega
  | exponentiation _ _ _ _ ihleft ihright =>
      simp only [depth, List.length_append, List.length_cons]
      omega
  | negation _ _ _ ih =>
      simp only [depth, List.length_cons]
      omega
  | number _ _ => exact Nat.zero_lt_one
  | constant _ _ => exact Nat.zero_lt_one
  | parentheses _ _ _ _ _ ih =>
      simp only [depth, List.length_cons, List.length_append]
      omega
  | application _ _ _ _ _ _ _ ih =>
      simp only [depth, List.length_cons, List.length_append]
      omega

section Runs

variable {limit limit' stop : Int} {task : Parse.Task} {ts : List Token} {o : Parse.Outcome}

-- Induction on the moves. Where a call fails, the call inside it fails with the same error, and
-- where it succeeds, the calls before the last have succeeded too, so none of them is too deep.
theorem runs_of_limit_le (hle : limit ≤ limit') (h : Parse.Runs limit stop task ts o)
    (hdeep : ∀ reported, o ≠ .error (.tooDeep reported)) : Parse.Runs limit' stop task ts o := by
  induction h with
  | expressionTooDeep _ => exact absurd rfl (hdeep limit)
  | firstFails hroom _ ih => exact .firstFails (by omega) (ih hdeep)
  | expression hroom _ _ ihfirst ihloop =>
      exact .expression (by omega) (ihfirst (by simp)) (ihloop hdeep)
  | noJoint hjoint => exact .noJoint hjoint
  | unknownOperator hjoint hop => exact .unknownOperator hjoint hop
  | looser hjoint hop hloose => exact .looser hjoint hop hloose
  | rightFails hjoint hop htight _ ih => exact .rightFails hjoint hop htight (ih hdeep)
  | absorb hjoint hop htight _ _ ihright ihloop =>
      exact .absorb hjoint hop htight (ihright (by simp)) (ihloop hdeep)
  | negationTooDeep _ _ => exact absurd rfl (hdeep limit)
  | negationFails hkind hroom _ ih => exact .negationFails hkind (by omega) (ih hdeep)
  | negation hkind hroom _ ih => exact .negation hkind (by omega) (ih (by simp))
  | unsigned hkind _ ih => exact .unsigned hkind (ih hdeep)
  | atEnd => exact .atEnd
  | literal hkind => exact .literal hkind
  | groupFails hkind _ ih => exact .groupFails hkind (ih hdeep)
  | groupOpen hkind _ hclose ih => exact .groupOpen hkind (ih (by simp)) hclose
  | group hkind _ hclose ih => exact .group hkind (ih (by simp)) hclose
  | functionAtEnd hkind => exact .functionAtEnd hkind
  | functionBare hkind hopen => exact .functionBare hkind hopen
  | argumentFails hkind hopen _ ih => exact .argumentFails hkind hopen (ih hdeep)
  | argumentOpen hkind hopen _ hclose ih =>
      exact .argumentOpen hkind hopen (ih (by simp)) hclose
  | application hkind hopen _ hclose ih => exact .application hkind hopen (ih (by simp)) hclose
  | closing hkind => exact .closing hkind
  | operator hkind => exact .operator hkind

/-- The depth that a call cannot pass if it has so many tokens to read. The loop may
    start a right operand without reading anything before it. -/
def reach (length : Nat) : Parse.Task → Nat
  | .expression _ depth => depth + length
  | .operands _ depth _ => depth + 1 + length
  | .unary depth => depth + length
  | .primary depth => depth + length

/-- An operand takes a token, so less is left after it. -/
theorem length_of_unary {depth : Nat} {tree : Expr} {rest : List Token}
    (h : Parse.Runs limit stop (.unary depth) ts (.ok (tree, rest))) :
    rest.length < ts.length := by
  rcases spells_of_runs h _ _ rfl with ⟨xs, rfl, ⟨d⟩⟩
  have hpos := List.length_pos_iff.2 d.tokens_ne_nil
  rw [List.length_append]
  omega

theorem length_of_operand {op : Operator} {depth : Nat} {tree : Expr} {rest : List Token}
    (h : Parse.Runs limit stop (.expression op.rightLeast depth) ts (.ok (tree, rest))) :
    rest.length < ts.length := by
  rcases operand_of_runs h with ⟨xs, rfl, ⟨d⟩, _⟩
  have hpos := List.length_pos_iff.2 d.tokens_ne_nil
  rw [List.length_append]
  omega

/-- A limit that is out of reach is not passed. -/
theorem ne_tooDeep_of_runs (h : Parse.Runs limit stop task ts o)
    (hreach : (reach ts.length task : Int) ≤ limit) (reported : Int) :
    o ≠ .error (.tooDeep reported) := by
  -- Each call inside reaches no further than the one around it: what it is deeper by, it has
  -- fewer tokens to read.
  induction h with
  | expressionTooDeep hdeep =>
      simp only [reach] at hreach
      omega
  | firstFails _ _ ih => exact ih hreach
  | expression _ hfirst _ _ ihloop =>
      have hlength := length_of_unary hfirst
      simp only [reach] at hreach ihloop
      exact ihloop (by omega)
  | rightFails hjoint _ _ _ ih =>
      have hlength := Parse.joint?_length hjoint
      simp only [reach] at hreach ih
      exact ih (by omega)
  | absorb hjoint _ _ hright _ _ ihloop =>
      have hlength := Parse.joint?_length hjoint
      have hoperand := length_of_operand hright
      simp only [reach] at hreach ihloop
      exact ihloop (by omega)
  | negationTooDeep _ hdeep =>
      simp only [reach, List.length_cons] at hreach
      omega
  | negationFails _ _ _ ih =>
      simp only [reach, List.length_cons] at hreach ih
      exact ih (by omega)
  | unsigned _ _ ih => exact ih hreach
  | groupFails _ _ ih =>
      simp only [reach, List.length_cons] at hreach ih
      exact ih (by omega)
  | argumentFails _ _ _ ih =>
      simp only [reach, List.length_cons] at hreach ih
      exact ih (by omega)
  | _ => simp

end Runs

section Tokens

variable {limit limit' : Int} {tokens : List Token}

theorem finish_eq_tooDeep {o : Parse.Outcome} {reported : Int} :
    Parse.finish o = .error (.tooDeep reported) ↔ o = .error (.tooDeep reported) := by
  rcases o with e | ⟨tree, rest⟩
  · simp [Parse.finish]
  · cases rest with
    | nil => simp [Parse.finish]
    | cons t rest =>
        simp only [Parse.finish]
        split <;> simp

/-- A larger limit changes nothing but depth errors. -/
theorem ofTokens_of_limit_le (hle : limit ≤ limit')
    (h : ∀ reported, Expr.ofTokens limit tokens ≠ .error (.tooDeep reported)) :
    Expr.ofTokens limit' tokens = Expr.ofTokens limit tokens := by
  cases hlast : tokens.getLast? with
  | none => simp only [Expr.ofTokens, hlast]
  | some last =>
      simp only [ofTokens_eq_finish _ hlast, Ne, finish_eq_tooDeep] at h ⊢
      have hruns := runs_of_limit_le hle (Parse.runs_iff.2 rfl) h
      rw [Parse.runs_iff.1 hruns]

/-- The tree of a list of tokens, however deeply nested it is. No list is nested more
    deeply than it is long. -/
def unlimited (tokens : List Token) : Except ParseError Expr :=
  Expr.ofTokens tokens.length tokens

/-- What the grammar derives has its tree without a limit. -/
theorem unlimited_of_derivation {tree : Expr} (d : Derivation .sum tokens tree) :
    unlimited tokens = .ok tree := by
  have hdepth := d.depth_lt_length
  rw [unlimited, ofTokens_of_derivation _ d, if_pos (by omega)]

/-- A limit is not passed by a list that is no longer. -/
theorem ofTokens_ne_tooDeep (h : (tokens.length : Int) ≤ limit) (reported : Int) :
    Expr.ofTokens limit tokens ≠ .error (.tooDeep reported) := by
  cases hlast : tokens.getLast? with
  | none => simp [Expr.ofTokens, hlast]
  | some last =>
      rw [ofTokens_eq_finish limit hlast, Ne, finish_eq_tooDeep]
      refine ne_tooDeep_of_runs (Parse.runs_iff.2 rfl) ?_ reported
      simp only [reach]
      omega

theorem unlimited_ne_tooDeep (tokens : List Token) (reported : Int) :
    unlimited tokens ≠ .error (.tooDeep reported) :=
  ofTokens_ne_tooDeep (le_refl _) reported

theorem ofTokens_of_length_le (h : (tokens.length : Int) ≤ limit) :
    Expr.ofTokens limit tokens = unlimited tokens :=
  ofTokens_of_limit_le h (unlimited_ne_tooDeep tokens)

/-- The error about the depth names the limit that was passed. -/
theorem reported_of_runs {stop reported : Int} {task : Parse.Task} {ts : List Token}
    {o : Parse.Outcome} (h : Parse.Runs limit stop task ts o) :
    o = .error (.tooDeep reported) → reported = limit := by
  induction h with
  | expressionTooDeep _ =>
      rintro ⟨⟩
      rfl
  | negationTooDeep _ _ =>
      rintro ⟨⟩
      rfl
  | firstFails _ _ ih => exact ih
  | expression _ _ _ _ ih => exact ih
  | rightFails _ _ _ _ ih => exact ih
  | absorb _ _ _ _ _ _ ih => exact ih
  | negationFails _ _ _ ih => exact ih
  | unsigned _ _ ih => exact ih
  | groupFails _ _ ih => exact ih
  | argumentFails _ _ _ ih => exact ih
  | _ => simp

theorem reported_of_ofTokens {reported : Int}
    (h : Expr.ofTokens limit tokens = .error (.tooDeep reported)) : reported = limit := by
  cases hlast : tokens.getLast? with
  | none => simp [Expr.ofTokens, hlast] at h
  | some last =>
      rw [ofTokens_eq_finish limit hlast, finish_eq_tooDeep] at h
      exact reported_of_runs (Parse.runs_iff.2 rfl) h

/-- A limit lets the result of a list through, or puts an error about the depth in its
    place. -/
theorem ofTokens_eq_or (limit : Int) (tokens : List Token) :
    Expr.ofTokens limit tokens = unlimited tokens ∨
      Expr.ofTokens limit tokens = .error (.tooDeep limit) := by
  by_cases hdeep : ∃ reported, Expr.ofTokens limit tokens = .error (.tooDeep reported)
  · rcases hdeep with ⟨reported, hreported⟩
    rw [reported_of_ofTokens hreported] at hreported
    exact .inr hreported
  · have hroom : ∀ reported, Expr.ofTokens limit tokens ≠ .error (.tooDeep reported) :=
      fun reported h => hdeep ⟨reported, h⟩
    -- Both are compared with a limit that is larger than either.
    have hself := ofTokens_of_limit_le (le_max_left limit (tokens.length : Int)) hroom
    have hlarge := ofTokens_of_length_le (le_max_right limit (tokens.length : Int))
    exact .inl (hself.symm.trans hlarge)

end Tokens

end Grammar

end Reckoner
