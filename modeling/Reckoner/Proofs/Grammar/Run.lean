import Mathlib
import Reckoner.Expr.Parse

/-!
# Runs of the Parser

What one call of the parser can do, said once. The four functions of the parser
carry proofs in their results, and these get in the way of every argument about
trees and tokens. `run` is the parser without them, and `Runs` lists its moves:
one rule for each way in which a call succeeds or fails.

`runs_iff` says that the two agree, so that what every run preserves is proved
by induction over the rules, and what the parser does on given tokens is shown
by exhibiting them. `ofTokens_eq_finish` opens the parser's outermost call in the
same way.

## Main definitions

* `Task`: A call of one of the four functions.
* `Outcome`: A tree and the tokens left over, or an error.
* `run`: The outcome of a call.
* `Runs`: The moves of the parser.
* `close`: What becomes of the expression inside parentheses.
* `finish`: What the outermost call makes of its outcome.

## Theorems

* `runs_expression`, `runs_operands`, `runs_unary`, `runs_primary`: The parser
  makes the moves.
* `eq_run_of_runs`: No other outcome follows from them.
* `runs_iff`: The moves lead to one outcome.
* `ofTokens_eq_finish`: A tree is asked for by one call.
-/

namespace Reckoner

namespace Parse

/-- A call of one of the functions of the parser. -/
inductive Task
  | expression (least depth : Nat)
  | operands (least depth : Nat) (left : Expr)
  | unary (depth : Nat)
  | primary (depth : Nat)

/-- What a call comes to: a tree with the tokens left over, or an error. -/
abbrev Outcome := Except ParseError (Expr × List Token)

/-- The tree of a piece and the tokens after it. -/
def Piece.pair {tokens : List Token} (p : Piece tokens) : Expr × List Token := (p.tree, p.rest)

/-- The tree of an extended operand and the tokens after it. -/
def Extension.pair {tokens : List Token} (p : Extension tokens) : Expr × List Token :=
  (p.tree, p.rest)

/-- The outcome of a call. -/
def run (limit stop : Int) (tokens : List Token) : Task → Outcome
  | .expression least depth => (expression limit stop least depth tokens).map Piece.pair
  | .operands least depth left => (operands limit stop least depth left tokens).map Extension.pair
  | .unary depth => (unary limit stop depth tokens).map Piece.pair
  | .primary depth => (primary limit stop depth tokens).map Piece.pair

/-- The moves of the parser. -/
inductive Runs (limit stop : Int) : Task → List Token → Outcome → Prop
  | expressionTooDeep {least depth : Nat} {ts : List Token} (hdeep : limit < (depth : Int)) :
      Runs limit stop (.expression least depth) ts (.error (.tooDeep limit))
  | firstFails {least depth : Nat} {ts : List Token} {e : ParseError}
      (hdeep : ¬ limit < (depth : Int)) (hfirst : Runs limit stop (.unary depth) ts (.error e)) :
      Runs limit stop (.expression least depth) ts (.error e)
  | expression {least depth : Nat} {ts rest : List Token} {left : Expr} {o : Outcome}
      (hdeep : ¬ limit < (depth : Int))
      (hfirst : Runs limit stop (.unary depth) ts (.ok (left, rest)))
      (hloop : Runs limit stop (.operands least depth left) rest o) :
      Runs limit stop (.expression least depth) ts o
  | noJoint {least depth : Nat} {left : Expr} {ts : List Token} (hjoint : joint? ts = none) :
      Runs limit stop (.operands least depth left) ts (.ok (left, ts))
  | unknownOperator {least depth : Nat} {left : Expr} {ts operand : List Token} {symbol : String}
      (hjoint : joint? ts = some (symbol, operand)) (hop : Operator.ofSymbol? symbol = none) :
      Runs limit stop (.operands least depth left) ts (.error (.unknownOperator symbol))
  | looser {least depth : Nat} {left : Expr} {ts operand : List Token} {symbol : String}
      {op : Operator} (hjoint : joint? ts = some (symbol, operand))
      (hop : Operator.ofSymbol? symbol = some op) (hloose : op.precedence < least) :
      Runs limit stop (.operands least depth left) ts (.ok (left, ts))
  | rightFails {least depth : Nat} {left : Expr} {ts operand : List Token} {symbol : String}
      {op : Operator} {e : ParseError} (hjoint : joint? ts = some (symbol, operand))
      (hop : Operator.ofSymbol? symbol = some op) (htight : ¬ op.precedence < least)
      (hright : Runs limit stop (.expression op.rightLeast (depth + 1)) operand (.error e)) :
      Runs limit stop (.operands least depth left) ts (.error e)
  | absorb {least depth : Nat} {left right : Expr} {ts operand rest : List Token}
      {symbol : String} {op : Operator} {o : Outcome} (hjoint : joint? ts = some (symbol, operand))
      (hop : Operator.ofSymbol? symbol = some op) (htight : ¬ op.precedence < least)
      (hright : Runs limit stop (.expression op.rightLeast (depth + 1)) operand (.ok (right, rest)))
      (hloop : Runs limit stop (.operands least depth (.binary symbol left right false)) rest o) :
      Runs limit stop (.operands least depth left) ts o
  | negationTooDeep {depth : Nat} {t : Token} {ts : List Token} (hkind : t.kind = .negate)
      (hdeep : limit < (depth + 1 : Nat)) :
      Runs limit stop (.unary depth) (t :: ts) (.error (.tooDeep limit))
  | negationFails {depth : Nat} {t : Token} {ts : List Token} {e : ParseError}
      (hkind : t.kind = .negate) (hdeep : ¬ limit < (depth + 1 : Nat))
      (hargument : Runs limit stop (.unary (depth + 1)) ts (.error e)) :
      Runs limit stop (.unary depth) (t :: ts) (.error e)
  | negation {depth : Nat} {t : Token} {ts rest : List Token} {argument : Expr}
      (hkind : t.kind = .negate) (hdeep : ¬ limit < (depth + 1 : Nat))
      (hargument : Runs limit stop (.unary (depth + 1)) ts (.ok (argument, rest))) :
      Runs limit stop (.unary depth) (t :: ts) (.ok (.apply Unary.negate.name argument, rest))
  | unsigned {depth : Nat} {ts : List Token} {o : Outcome}
      (hkind : ∀ t ∈ ts.head?, t.kind ≠ .negate)
      (hprimary : Runs limit stop (.primary depth) ts o) : Runs limit stop (.unary depth) ts o
  | atEnd {depth : Nat} :
      Runs limit stop (.primary depth) [] (.error (.malformed (.missingOperandAtEnd stop)))
  | literal {depth : Nat} {t : Token} {ts : List Token}
      (hkind : t.kind = .number ∨ t.kind = .constant) :
      Runs limit stop (.primary depth) (t :: ts) (.ok (.literal t.value, ts))
  | groupFails {depth : Nat} {t : Token} {ts : List Token} {e : ParseError}
      (hkind : t.kind = .openParen)
      (hinner : Runs limit stop (.expression 1 (depth + 1)) ts (.error e)) :
      Runs limit stop (.primary depth) (t :: ts) (.error e)
  | groupOpen {depth : Nat} {t : Token} {ts rest : List Token} {inner : Expr}
      (hkind : t.kind = .openParen)
      (hinner : Runs limit stop (.expression 1 (depth + 1)) ts (.ok (inner, rest)))
      (hclose : ∀ c ∈ rest.head?, c.kind ≠ .closeParen) :
      Runs limit stop (.primary depth) (t :: ts)
        (.error (.malformed (.unmatchedOpening t.position)))
  | group {depth : Nat} {t c : Token} {ts rest : List Token} {inner : Expr}
      (hkind : t.kind = .openParen)
      (hinner : Runs limit stop (.expression 1 (depth + 1)) ts (.ok (inner, c :: rest)))
      (hclose : c.kind = .closeParen) :
      Runs limit stop (.primary depth) (t :: ts) (.ok (inner.grouped, rest))
  | functionAtEnd {depth : Nat} {t : Token} (hkind : t.kind = .function) :
      Runs limit stop (.primary depth) [t] (.error (.malformed (.missingParenthesis t.text stop)))
  | functionBare {depth : Nat} {t u : Token} {ts : List Token} (hkind : t.kind = .function)
      (hopen : u.kind ≠ .openParen) :
      Runs limit stop (.primary depth) (t :: u :: ts)
        (.error (.malformed (.missingParenthesis t.text u.position)))
  | argumentFails {depth : Nat} {t u : Token} {ts : List Token} {e : ParseError}
      (hkind : t.kind = .function) (hopen : u.kind = .openParen)
      (hargument : Runs limit stop (.expression 1 (depth + 1)) ts (.error e)) :
      Runs limit stop (.primary depth) (t :: u :: ts) (.error e)
  | argumentOpen {depth : Nat} {t u : Token} {ts rest : List Token} {argument : Expr}
      (hkind : t.kind = .function) (hopen : u.kind = .openParen)
      (hargument : Runs limit stop (.expression 1 (depth + 1)) ts (.ok (argument, rest)))
      (hclose : ∀ c ∈ rest.head?, c.kind ≠ .closeParen) :
      Runs limit stop (.primary depth) (t :: u :: ts)
        (.error (.malformed (.unmatchedOpening u.position)))
  | application {depth : Nat} {t u c : Token} {ts rest : List Token} {argument : Expr}
      (hkind : t.kind = .function) (hopen : u.kind = .openParen)
      (hargument : Runs limit stop (.expression 1 (depth + 1)) ts (.ok (argument, c :: rest)))
      (hclose : c.kind = .closeParen) :
      Runs limit stop (.primary depth) (t :: u :: ts) (.ok (.apply t.text argument, rest))
  | closing {depth : Nat} {t : Token} {ts : List Token} (hkind : t.kind = .closeParen) :
      Runs limit stop (.primary depth) (t :: ts)
        (.error (.malformed (.nothingBeforeClosing t.position)))
  | operator {depth : Nat} {t : Token} {ts : List Token}
      (hkind : t.kind = .operator ∨ t.kind = .negate) :
      Runs limit stop (.primary depth) (t :: ts)
        (.error (.malformed (.missingOperand t.text t.position)))

/-- Where a parenthesis is not closed, something else comes next, or nothing. -/
theorem closing_eq_error {opening : Token} {ts : List Token} {e : ParseError}
    (h : closing opening ts = .error e) :
    e = .malformed (.unmatchedOpening opening.position) ∧ ∀ c ∈ ts.head?, c.kind ≠ .closeParen := by
  cases ts with
  | nil =>
      cases h
      exact ⟨rfl, by simp⟩
  | cons c rest =>
      simp only [closing] at h
      split at h
      · cases h
      · rename_i hne
        cases h
        exact ⟨rfl, by simpa using hne⟩

theorem closing_eq_ok {opening : Token} {ts rest : List Token} {shorter : rest.length < ts.length}
    (h : closing opening ts = .ok ⟨rest, shorter⟩) :
    ∃ c, c.kind = .closeParen ∧ ts = c :: rest := by
  cases ts with
  | nil => cases h
  | cons c last =>
      simp only [closing] at h
      split at h
      · rename_i hkind
        cases h
        exact ⟨c, hkind, rfl⟩
      · cases h

mutual

/-- Each case of the parser is one move, made of the moves of its calls. -/
theorem runs_expression (limit stop : Int) (least depth : Nat) (tokens : List Token) :
    Runs limit stop (.expression least depth) tokens
      (run limit stop tokens (.expression least depth)) := by
  simp only [run]
  rw [expression]
  split
  · rename_i hdeep
    exact .expressionTooDeep hdeep
  · rename_i hdeep
    have hfirst := runs_unary limit stop depth tokens
    simp only [run] at hfirst
    split
    · rename_i e he
      rw [he] at hfirst
      exact .firstFails hdeep hfirst
    · rename_i left rest hleft he
      rw [he] at hfirst
      -- The loop takes over the outcome, only the bound on its length changes.
      have hloop := runs_operands limit stop least depth left rest
      simp only [run] at hloop
      refine .expression hdeep hfirst ?_
      split
      · rename_i e ho
        rw [ho] at hloop
        exact hloop
      · rename_i tree after hafter ho
        rw [ho] at hloop
        exact hloop
termination_by 4 * tokens.length + 2

theorem runs_operands (limit stop : Int) (least depth : Nat) (left : Expr) (tokens : List Token) :
    Runs limit stop (.operands least depth left) tokens
      (run limit stop tokens (.operands least depth left)) := by
  simp only [run]
  rw [operands]
  split
  · rename_i hjoint
    exact .noJoint hjoint
  · rename_i symbol operand hjoint
    -- An implicit multiplication leaves all tokens to its right operand.
    have hoperand := joint?_length hjoint
    simp only []
    split
    · rename_i hop
      exact .unknownOperator hjoint hop
    · rename_i op hop
      split
      · rename_i hloose
        exact .looser hjoint hop hloose
      · rename_i htight
        have hright := runs_expression limit stop op.rightLeast (depth + 1) operand
        simp only [run] at hright
        split
        · rename_i e he
          rw [he] at hright
          exact .rightFails hjoint hop htight hright
        · rename_i right rest hlength he
          rw [he] at hright
          have hloop := runs_operands limit stop least depth (.binary symbol left right false) rest
          simp only [run] at hloop
          refine .absorb hjoint hop htight hright ?_
          split
          · rename_i e ho
            rw [ho] at hloop
            exact hloop
          · rename_i tree after hafter ho
            rw [ho] at hloop
            exact hloop
termination_by 4 * tokens.length + 3

theorem runs_unary (limit stop : Int) (depth : Nat) (tokens : List Token) :
    Runs limit stop (.unary depth) tokens (run limit stop tokens (.unary depth)) := by
  simp only [run]
  rw [unary.eq_def]
  split
  -- Without a token the operand is missing, but it is a primary expression that says so.
  · exact .unsigned (by simp) (runs_primary limit stop depth [])
  · rename_i t rest
    split
    · rename_i hkind
      split
      · rename_i hdeep
        exact .negationTooDeep hkind hdeep
      · rename_i hdeep
        have hargument := runs_unary limit stop (depth + 1) rest
        simp only [run] at hargument
        split
        · rename_i e he
          rw [he] at hargument
          exact .negationFails hkind hdeep hargument
        · rename_i argument after hafter he
          rw [he] at hargument
          exact .negation hkind hdeep hargument
    · rename_i hkind
      exact .unsigned (by simpa using hkind) (runs_primary limit stop depth (t :: rest))
termination_by 4 * tokens.length + 1

theorem runs_primary (limit stop : Int) (depth : Nat) (tokens : List Token) :
    Runs limit stop (.primary depth) tokens (run limit stop tokens (.primary depth)) := by
  simp only [run]
  rw [primary.eq_def]
  split
  · exact .atEnd
  · rename_i t rest
    split
    · rename_i hkind
      exact .literal (.inl hkind)
    · rename_i hkind
      exact .literal (.inr hkind)
    · rename_i hkind
      have hinner := runs_expression limit stop 1 (depth + 1) rest
      simp only [run] at hinner
      split
      · rename_i e he
        rw [he] at hinner
        exact .groupFails hkind hinner
      · rename_i inner after hlength he
        rw [he] at hinner
        -- The expression inside is complete, and what follows it decides.
        split
        · rename_i e hc
          rcases closing_eq_error hc with ⟨rfl, hclose⟩
          exact .groupOpen hkind hinner hclose
        · rename_i last hlast hc
          rcases closing_eq_ok hc with ⟨c, hclose, rfl⟩
          exact .group hkind hinner hclose
    · rename_i hkind
      split
      · exact .functionAtEnd hkind
      · rename_i opening more
        split
        · rename_i hopen
          have hargument := runs_expression limit stop 1 (depth + 1) more
          simp only [run] at hargument
          split
          · rename_i e he
            rw [he] at hargument
            exact .argumentFails hkind hopen hargument
          · rename_i argument after hlength he
            rw [he] at hargument
            split
            · rename_i e hc
              rcases closing_eq_error hc with ⟨rfl, hclose⟩
              exact .argumentOpen hkind hopen hargument hclose
            · rename_i last hlast hc
              rcases closing_eq_ok hc with ⟨c, hclose, rfl⟩
              exact .application hkind hopen hargument hclose
        · rename_i hopen
          exact .functionBare hkind hopen
    · rename_i hkind
      exact .closing hkind
    · rename_i hkind
      exact .operator (.inl hkind)
    · rename_i hkind
      exact .operator (.inr hkind)
termination_by 4 * tokens.length

end

/-- The equations of the parser without the proofs in its results. -/
theorem run_expression (limit stop : Int) (least depth : Nat) (ts : List Token) :
    run limit stop ts (.expression least depth) =
      if limit < (depth : Int) then .error (.tooDeep limit)
      else
        match run limit stop ts (.unary depth) with
        | .error e => .error e
        | .ok (left, rest) => run limit stop rest (.operands least depth left) := by
  simp only [run]
  rw [expression]
  split
  · rfl
  · rcases unary limit stop depth ts with e | ⟨left, rest, hleft⟩
    · rfl
    · simp only [Except.map, Piece.pair]
      rcases operands limit stop least depth left rest with e | ⟨tree, after, hafter⟩ <;> rfl

theorem run_operands_none (limit stop : Int) (least depth : Nat) (left : Expr) {ts : List Token}
    (h : joint? ts = none) : run limit stop ts (.operands least depth left) = .ok (left, ts) := by
  simp only [run]
  rw [operands]
  split
  · rfl
  · rename_i hjoint
    rw [h] at hjoint
    cases hjoint

theorem run_operands_some (limit stop : Int) (least depth : Nat) (left : Expr)
    {ts operand : List Token} {symbol : String} (h : joint? ts = some (symbol, operand)) :
    run limit stop ts (.operands least depth left) =
      match Operator.ofSymbol? symbol with
      | none => .error (.unknownOperator symbol)
      | some op =>
        if op.precedence < least then .ok (left, ts)
        else
          match run limit stop operand (.expression op.rightLeast (depth + 1)) with
          | .error e => .error e
          | .ok (right, rest) =>
            run limit stop rest (.operands least depth (.binary symbol left right false)) := by
  simp only [run]
  rw [operands]
  -- The case split remembers the joint, so the two that it finds are compared.
  split
  · rename_i hjoint
    rw [h] at hjoint
    cases hjoint
  · rename_i symbol' operand' hjoint
    rw [h] at hjoint
    cases hjoint
    simp only []
    rcases Operator.ofSymbol? symbol with _ | op
    · rfl
    · simp only []
      split
      · rfl
      · rcases expression limit stop op.rightLeast (depth + 1) operand with
          e | ⟨right, rest, hright⟩
        · rfl
        · simp only [Except.map, Piece.pair]
          rcases operands limit stop least depth (.binary symbol left right false) rest with
            e | ⟨tree, after, hafter⟩ <;> rfl

theorem run_unary_negate (limit stop : Int) (depth : Nat) {t : Token} (ts : List Token)
    (h : t.kind = .negate) :
    run limit stop (t :: ts) (.unary depth) =
      if limit < (depth + 1 : Nat) then .error (.tooDeep limit)
      else
        match run limit stop ts (.unary (depth + 1)) with
        | .error e => .error e
        | .ok (argument, rest) => .ok (.apply Unary.negate.name argument, rest) := by
  simp only [run]
  rw [unary.eq_def]
  simp only [if_pos h]
  split
  · rfl
  · rcases unary limit stop (depth + 1) ts with e | ⟨argument, rest, hrest⟩ <;> rfl

theorem run_unary_primary (limit stop : Int) (depth : Nat) {ts : List Token}
    (h : ∀ t ∈ ts.head?, t.kind ≠ .negate) :
    run limit stop ts (.unary depth) = run limit stop ts (.primary depth) := by
  simp only [run]
  rw [unary.eq_def]
  cases ts with
  | nil => rfl
  | cons t rest => simp only [if_neg (h t rfl)]

/-- What a parenthesis that was opened makes of the expression inside it. -/
def close (opening : Token) (build : Expr → Expr) : Outcome → Outcome
  | .error e => .error e
  | .ok (inner, rest) =>
    match rest with
    | [] => .error (.malformed (.unmatchedOpening opening.position))
    | c :: last =>
      if c.kind = .closeParen then .ok (build inner, last)
      else .error (.malformed (.unmatchedOpening opening.position))

theorem run_primary_group (limit stop : Int) (depth : Nat) {t : Token} (ts : List Token)
    (h : t.kind = .openParen) :
    run limit stop (t :: ts) (.primary depth) =
      close t Expr.grouped (run limit stop ts (.expression 1 (depth + 1))) := by
  simp only [run]
  rw [primary.eq_def]
  simp only [h]
  rcases expression limit stop 1 (depth + 1) ts with e | ⟨inner, rest, hinner⟩
  · rfl
  · cases rest with
    | nil => rfl
    | cons c last =>
        simp only [closing, close, Except.map, Piece.pair]
        by_cases hc : c.kind = .closeParen
        · simp only [if_pos hc]
        · simp only [if_neg hc]

theorem run_primary_application (limit stop : Int) (depth : Nat) {t u : Token} (ts : List Token)
    (h : t.kind = .function) (hopen : u.kind = .openParen) :
    run limit stop (t :: u :: ts) (.primary depth) =
      close u (Expr.apply t.text) (run limit stop ts (.expression 1 (depth + 1))) := by
  simp only [run]
  rw [primary.eq_def]
  simp only [h, if_pos hopen]
  rcases expression limit stop 1 (depth + 1) ts with e | ⟨argument, rest, hargument⟩
  · rfl
  · cases rest with
    | nil => rfl
    | cons c last =>
        simp only [closing, close, Except.map, Piece.pair]
        by_cases hc : c.kind = .closeParen
        · simp only [if_pos hc]
        · simp only [if_neg hc]

theorem close_of_ne {opening : Token} {build : Expr → Expr} {inner : Expr} {rest : List Token}
    (h : ∀ c ∈ rest.head?, c.kind ≠ .closeParen) :
    close opening build (.ok (inner, rest)) =
      .error (.malformed (.unmatchedOpening opening.position)) := by
  cases rest with
  | nil => rfl
  | cons c last => simp only [close, if_neg (h c rfl)]

/-- A move leads nowhere but to the outcome of the call. -/
theorem eq_run_of_runs {limit stop : Int} {task : Task} {ts : List Token} {o : Outcome}
    (h : Runs limit stop task ts o) : run limit stop ts task = o := by
  induction h with
  | expressionTooDeep hdeep => rw [run_expression, if_pos hdeep]
  | firstFails hdeep _ ih => rw [run_expression, if_neg hdeep, ih]
  | expression hdeep _ _ ihfirst ihloop => rw [run_expression, if_neg hdeep, ihfirst]; exact ihloop
  | noJoint hjoint => rw [run_operands_none _ _ _ _ _ hjoint]
  | unknownOperator hjoint hop => rw [run_operands_some _ _ _ _ _ hjoint, hop]
  | looser hjoint hop hloose => simp only [run_operands_some _ _ _ _ _ hjoint, hop, if_pos hloose]
  | rightFails hjoint hop htight _ ih =>
      simp only [run_operands_some _ _ _ _ _ hjoint, hop, if_neg htight, ih]
  | absorb hjoint hop htight _ _ ihright ihloop =>
      simp only [run_operands_some _ _ _ _ _ hjoint, hop, if_neg htight, ihright, ihloop]
  | negationTooDeep hkind hdeep => rw [run_unary_negate _ _ _ _ hkind, if_pos hdeep]
  | negationFails hkind hdeep _ ih => rw [run_unary_negate _ _ _ _ hkind, if_neg hdeep, ih]
  | negation hkind hdeep _ ih => rw [run_unary_negate _ _ _ _ hkind, if_neg hdeep, ih]
  | unsigned hkind _ ih => rw [run_unary_primary _ _ _ hkind, ih]
  | atEnd =>
      simp only [run]
      rw [primary.eq_def]
      rfl
  | literal hkind =>
      simp only [run]
      rw [primary.eq_def]
      rcases hkind with h | h <;> simp only [h] <;> rfl
  | groupFails hkind _ ih => rw [run_primary_group _ _ _ _ hkind, ih]; rfl
  | groupOpen hkind _ hclose ih =>
      rw [run_primary_group _ _ _ _ hkind, ih, close_of_ne hclose]
  | group hkind _ hclose ih => simp only [run_primary_group _ _ _ _ hkind, ih, close, if_pos hclose]
  | functionAtEnd hkind =>
      simp only [run]
      rw [primary.eq_def]
      simp only [hkind]
      rfl
  | functionBare hkind hopen =>
      simp only [run]
      rw [primary.eq_def]
      simp only [hkind, if_neg hopen]
      rfl
  | argumentFails hkind hopen _ ih => rw [run_primary_application _ _ _ _ hkind hopen, ih]; rfl
  | argumentOpen hkind hopen _ hclose ih =>
      rw [run_primary_application _ _ _ _ hkind hopen, ih, close_of_ne hclose]
  | application hkind hopen _ hclose ih =>
      simp only [run_primary_application _ _ _ _ hkind hopen, ih, close, if_pos hclose]
  | closing hkind =>
      simp only [run]
      rw [primary.eq_def]
      simp only [hkind]
      rfl
  | operator hkind =>
      simp only [run]
      rw [primary.eq_def]
      rcases hkind with h | h <;> simp only [h] <;> rfl

/-- The moves lead to one outcome, the one that the parser has. -/
theorem runs_iff {limit stop : Int} {task : Task} {ts : List Token} {o : Outcome} :
    Runs limit stop task ts o ↔ run limit stop ts task = o := by
  refine ⟨eq_run_of_runs, fun h => ?_⟩
  rw [← h]
  cases task with
  | expression least depth => exact runs_expression limit stop least depth ts
  | operands least depth left => exact runs_operands limit stop least depth left ts
  | unary depth => exact runs_unary limit stop depth ts
  | primary depth => exact runs_primary limit stop depth ts

end Parse

/-- What becomes of the outcome of the outermost call: tokens left over are an error. -/
def Parse.finish : Parse.Outcome → Except ParseError Expr
  | .error e => .error e
  | .ok (tree, []) => .ok tree
  | .ok (_, t :: _) =>
    if t.kind = .closeParen then .error (.malformed (.unmatchedClosing t.position))
    else .error (.malformed (.unexpected t.text t.position))

/-- A list of tokens is parsed by one call, whose outcome decides. -/
theorem ofTokens_eq_finish (limit : Int) {tokens : List Token} {last : Token}
    (hlast : tokens.getLast? = some last) :
    Expr.ofTokens limit tokens =
      Parse.finish (Parse.run limit last.stop tokens (.expression 1 0)) := by
  simp only [Expr.ofTokens, hlast, Parse.run]
  rcases Parse.expression limit last.stop 1 0 tokens with e | ⟨tree, rest, hrest⟩
  · rfl
  · cases rest with
    | nil => rfl
    | cons t ts => rfl

end Reckoner
