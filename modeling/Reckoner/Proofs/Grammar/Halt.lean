import Mathlib
import Reckoner.Proofs.Grammar.Run

/-!
# Where the Parser Halts

An error says what is wrong and at which position, and that is less than what the
parser knows when it makes one: which tokens it has not read. `Halts` lists the
moves of a call that ends in an error about the tokens, each with the tokens that
are left when the error is made. Errors about the depth and about operators that
do not exist are not among them.

`halts_iff` says that this adds nothing to the moves of the parser: a call fails
with such an error exactly if it halts somewhere with it. `HaltsAt` is about the
outermost call, which may also end well and then find tokens left over.

## Main definitions

* `Parse.Halts`: The moves of a call that fails, with the tokens not yet read.
* `HaltsAt`: Where the parsing of a list of tokens fails.

## Theorems

* `halts_iff`: A call fails exactly if it halts.
* `haltsAt_iff`: A list of tokens is malformed exactly if its parsing halts.
-/

namespace Reckoner

namespace Parse

/-- A call fails with an error about the tokens, and the tokens in the last place
    are those it has not read then. -/
inductive Halts (limit stop : Int) : Task → List Token → GrammarError → List Token → Prop
  | firstFails {least depth : Nat} {ts unread : List Token} {e : GrammarError}
      (hdeep : ¬ limit < (depth : Int)) (hfirst : Halts limit stop (.unary depth) ts e unread) :
      Halts limit stop (.expression least depth) ts e unread
  | expression {least depth : Nat} {ts rest unread : List Token} {left : Expr} {e : GrammarError}
      (hdeep : ¬ limit < (depth : Int))
      (hfirst : Runs limit stop (.unary depth) ts (.ok (left, rest)))
      (hloop : Halts limit stop (.operands least depth left) rest e unread) :
      Halts limit stop (.expression least depth) ts e unread
  | rightFails {least depth : Nat} {left : Expr} {ts operand unread : List Token} {symbol : String}
      {op : Operator} {e : GrammarError} (hjoint : joint? ts = some (symbol, operand))
      (hop : Operator.ofSymbol? symbol = some op) (htight : ¬ op.precedence < least)
      (hright : Halts limit stop (.expression op.rightLeast (depth + 1)) operand e unread) :
      Halts limit stop (.operands least depth left) ts e unread
  | absorb {least depth : Nat} {left right : Expr} {ts operand rest unread : List Token}
      {symbol : String} {op : Operator} {e : GrammarError}
      (hjoint : joint? ts = some (symbol, operand)) (hop : Operator.ofSymbol? symbol = some op)
      (htight : ¬ op.precedence < least)
      (hright : Runs limit stop (.expression op.rightLeast (depth + 1)) operand (.ok (right, rest)))
      (hloop : Halts limit stop (.operands least depth (.binary symbol left right false)) rest e
        unread) :
      Halts limit stop (.operands least depth left) ts e unread
  | negation {depth : Nat} {t : Token} {ts unread : List Token} {e : GrammarError}
      (hkind : t.kind = .negate) (hdeep : ¬ limit < (depth + 1 : Nat))
      (hargument : Halts limit stop (.unary (depth + 1)) ts e unread) :
      Halts limit stop (.unary depth) (t :: ts) e unread
  | unsigned {depth : Nat} {ts unread : List Token} {e : GrammarError}
      (hkind : ∀ t ∈ ts.head?, t.kind ≠ .negate)
      (hprimary : Halts limit stop (.primary depth) ts e unread) :
      Halts limit stop (.unary depth) ts e unread
  | atEnd {depth : Nat} : Halts limit stop (.primary depth) [] (.missingOperandAtEnd stop) []
  | groupFails {depth : Nat} {t : Token} {ts unread : List Token} {e : GrammarError}
      (hkind : t.kind = .openParen)
      (hinner : Halts limit stop (.expression 1 (depth + 1)) ts e unread) :
      Halts limit stop (.primary depth) (t :: ts) e unread
  | groupOpen {depth : Nat} {t : Token} {ts rest : List Token} {inner : Expr}
      (hkind : t.kind = .openParen)
      (hinner : Runs limit stop (.expression 1 (depth + 1)) ts (.ok (inner, rest)))
      (hclose : ∀ c ∈ rest.head?, c.kind ≠ .closeParen) :
      Halts limit stop (.primary depth) (t :: ts) (.unmatchedOpening t.position) rest
  | functionAtEnd {depth : Nat} {t : Token} (hkind : t.kind = .function) :
      Halts limit stop (.primary depth) [t] (.missingParenthesis t.text stop) []
  | functionBare {depth : Nat} {t u : Token} {ts : List Token} (hkind : t.kind = .function)
      (hopen : u.kind ≠ .openParen) :
      Halts limit stop (.primary depth) (t :: u :: ts) (.missingParenthesis t.text u.position)
        (u :: ts)
  | argumentFails {depth : Nat} {t u : Token} {ts unread : List Token} {e : GrammarError}
      (hkind : t.kind = .function) (hopen : u.kind = .openParen)
      (hargument : Halts limit stop (.expression 1 (depth + 1)) ts e unread) :
      Halts limit stop (.primary depth) (t :: u :: ts) e unread
  | argumentOpen {depth : Nat} {t u : Token} {ts rest : List Token} {argument : Expr}
      (hkind : t.kind = .function) (hopen : u.kind = .openParen)
      (hargument : Runs limit stop (.expression 1 (depth + 1)) ts (.ok (argument, rest)))
      (hclose : ∀ c ∈ rest.head?, c.kind ≠ .closeParen) :
      Halts limit stop (.primary depth) (t :: u :: ts) (.unmatchedOpening u.position) rest
  | closing {depth : Nat} {t : Token} {ts : List Token} (hkind : t.kind = .closeParen) :
      Halts limit stop (.primary depth) (t :: ts) (.nothingBeforeClosing t.position) (t :: ts)
  | operator {depth : Nat} {t : Token} {ts : List Token}
      (hkind : t.kind = .operator ∨ t.kind = .negate) :
      Halts limit stop (.primary depth) (t :: ts) (.missingOperand t.text t.position) (t :: ts)

variable {limit stop : Int}

/-- A call that fails halts somewhere, by induction on its moves. -/
theorem halts_of_runs {task : Task} {ts : List Token} {o : Outcome}
    (h : Runs limit stop task ts o) :
    ∀ e, o = .error (.malformed e) → ∃ unread, Halts limit stop task ts e unread := by
  induction h with
  | firstFails hdeep _ ih =>
      rintro e ⟨⟩
      exact (ih e rfl).imp fun _ => .firstFails hdeep
  | expression hdeep hfirst _ _ ihloop =>
      rintro e rfl
      exact (ihloop e rfl).imp fun _ => .expression hdeep hfirst
  | rightFails hjoint hop htight _ ih =>
      rintro e ⟨⟩
      exact (ih e rfl).imp fun _ => .rightFails hjoint hop htight
  | absorb hjoint hop htight hright _ _ ihloop =>
      rintro e rfl
      exact (ihloop e rfl).imp fun _ => .absorb hjoint hop htight hright
  | negationFails hkind hdeep _ ih =>
      rintro e ⟨⟩
      exact (ih e rfl).imp fun _ => .negation hkind hdeep
  | unsigned hkind _ ih =>
      rintro e rfl
      exact (ih e rfl).imp fun _ => .unsigned hkind
  | groupFails hkind _ ih =>
      rintro e ⟨⟩
      exact (ih e rfl).imp fun _ => .groupFails hkind
  | argumentFails hkind hopen _ ih =>
      rintro e ⟨⟩
      exact (ih e rfl).imp fun _ => .argumentFails hkind hopen
  | atEnd =>
      rintro e ⟨⟩
      exact ⟨_, .atEnd⟩
  | groupOpen hkind hinner hclose =>
      rintro e ⟨⟩
      exact ⟨_, .groupOpen hkind hinner hclose⟩
  | functionAtEnd hkind =>
      rintro e ⟨⟩
      exact ⟨_, .functionAtEnd hkind⟩
  | functionBare hkind hopen =>
      rintro e ⟨⟩
      exact ⟨_, .functionBare hkind hopen⟩
  | argumentOpen hkind hopen hargument hclose =>
      rintro e ⟨⟩
      exact ⟨_, .argumentOpen hkind hopen hargument hclose⟩
  | closing hkind =>
      rintro e ⟨⟩
      exact ⟨_, .closing hkind⟩
  | operator hkind =>
      rintro e ⟨⟩
      exact ⟨_, .operator hkind⟩
  -- The other moves end well, or with an error that is not about the tokens.
  | _ => rintro e ⟨⟩

/-- A call that halts fails. -/
theorem runs_of_halts {task : Task} {ts unread : List Token} {e : GrammarError}
    (h : Halts limit stop task ts e unread) :
    Runs limit stop task ts (.error (.malformed e)) := by
  induction h with
  | firstFails hdeep _ ih => exact .firstFails hdeep ih
  | expression hdeep hfirst _ ih => exact .expression hdeep hfirst ih
  | rightFails hjoint hop htight _ ih => exact .rightFails hjoint hop htight ih
  | absorb hjoint hop htight hright _ ih => exact .absorb hjoint hop htight hright ih
  | negation hkind hdeep _ ih => exact .negationFails hkind hdeep ih
  | unsigned hkind _ ih => exact .unsigned hkind ih
  | atEnd => exact .atEnd
  | groupFails hkind _ ih => exact .groupFails hkind ih
  | groupOpen hkind hinner hclose => exact .groupOpen hkind hinner hclose
  | functionAtEnd hkind => exact .functionAtEnd hkind
  | functionBare hkind hopen => exact .functionBare hkind hopen
  | argumentFails hkind hopen _ ih => exact .argumentFails hkind hopen ih
  | argumentOpen hkind hopen hargument hclose => exact .argumentOpen hkind hopen hargument hclose
  | closing hkind => exact .closing hkind
  | operator hkind => exact .operator hkind

/-- A call fails with an error about the tokens exactly if it halts with it. -/
theorem halts_iff {task : Task} {ts : List Token} {e : GrammarError} :
    Runs limit stop task ts (.error (.malformed e)) ↔
      ∃ unread, Halts limit stop task ts e unread :=
  ⟨fun h => halts_of_runs h e rfl, fun ⟨_, h⟩ => runs_of_halts h⟩

end Parse

/-- The parsing of a list of tokens fails with an error about them, and the tokens
    in the last place are those that have not been read then. Either the outermost
    call halts, or it ends well and tokens are left over. -/
inductive HaltsAt (limit : Int) (tokens : List Token) : GrammarError → List Token → Prop
  | inside {last : Token} {e : GrammarError} {unread : List Token}
      (hlast : tokens.getLast? = some last)
      (h : Parse.Halts limit last.stop (.expression 1 0) tokens e unread) :
      HaltsAt limit tokens e unread
  | closing {last t : Token} {tree : Expr} {rest : List Token} (hlast : tokens.getLast? = some last)
      (h : Parse.Runs limit last.stop (.expression 1 0) tokens (.ok (tree, t :: rest)))
      (hkind : t.kind = .closeParen) :
      HaltsAt limit tokens (.unmatchedClosing t.position) (t :: rest)
  | leftover {last t : Token} {tree : Expr} {rest : List Token}
      (hlast : tokens.getLast? = some last)
      (h : Parse.Runs limit last.stop (.expression 1 0) tokens (.ok (tree, t :: rest)))
      (hkind : t.kind ≠ .closeParen) :
      HaltsAt limit tokens (.unexpected t.text t.position) (t :: rest)

/-- A list of tokens is malformed exactly if its parsing halts somewhere. -/
theorem haltsAt_iff {limit : Int} {tokens : List Token} {e : GrammarError} (hne : tokens ≠ []) :
    Expr.ofTokens limit tokens = .error (.malformed e) ↔
      ∃ unread, HaltsAt limit tokens e unread := by
  constructor
  · intro h
    rcases Option.ne_none_iff_exists'.1 (mt List.getLast?_eq_none_iff.1 hne) with ⟨last, hlast⟩
    rw [ofTokens_eq_finish limit hlast] at h
    -- The outermost call has failed itself, or it has left tokens over.
    cases hrun : Parse.run limit last.stop tokens (.expression 1 0) with
    | error e' =>
        rw [hrun] at h
        cases h
        exact (Parse.halts_iff.1 (Parse.runs_iff.2 hrun)).imp fun _ => .inside hlast
    | ok p =>
        rcases p with ⟨tree, _ | ⟨t, rest⟩⟩ <;> rw [hrun] at h
        · cases h
        · simp only [Parse.finish] at h
          split at h
          · rename_i hkind
            cases h
            exact ⟨_, .closing hlast (Parse.runs_iff.2 hrun) hkind⟩
          · rename_i hkind
            cases h
            exact ⟨_, .leftover hlast (Parse.runs_iff.2 hrun) hkind⟩
  · rintro ⟨unread, hhalts⟩
    cases hhalts with
    | inside hlast h =>
        rw [ofTokens_eq_finish limit hlast, Parse.runs_iff.1 (Parse.runs_of_halts h)]
        rfl
    | closing hlast h hkind =>
        rw [ofTokens_eq_finish limit hlast, Parse.runs_iff.1 h]
        simp only [Parse.finish, if_pos hkind]
    | leftover hlast h hkind =>
        rw [ofTokens_eq_finish limit hlast, Parse.runs_iff.1 h]
        simp only [Parse.finish, if_neg hkind]

end Reckoner
