import Mathlib
import Reckoner.Expr.Parse

/-!
# The Grammar of Expressions

The grammar that an expression follows, written down without regard to how one
would parse it. It has five strata, and each binds tighter than the one before.
Sums and products take further operands on their right end, powers recurse to
the right, and a sign stands before a signed operand. A product may go without
its sign where the next factor starts with a constant, a parenthesis or a
function, so that the reader is not led to take two numbers for one.

    sum     → product | sum (+|-) product
    product → power | product (*|/) power | product power
    power   → signed | signed ^ power
    signed  → negate signed | primary
    primary → number | constant | ( sum ) | function ( sum )

A `Derivation` is data, not a proposition. Two derivations of the same tokens
can be compared, which is what it takes to say that the grammar is unambiguous,
and each has a `depth`. A `Phrase` bundles a derivation with the tokens it
spells and the tree it builds.

## Main definitions

* `Stratum`: The strata of the grammar.
* `Derivation`: The derivations of the grammar with the trees they build.
* `Derivation.depth`: How deeply the operands of a derivation are nested.
* `Phrase`: A derivation with its tokens and its tree.
* `Stratum.least`, `Stratum.bar`: The strata as precedences.
* `Stops`: No operator that binds tightly enough comes next.

## Theorems

* `tokens_ne_nil`: Nothing is derived from no tokens.
* `head_of_primary`: How a primary phrase begins.
* `joint?_eq_some`: What joins an operand to the next.
* `stops_sign`, `stops_opensFactor`, `stops_closeParen`: What stops an expression.
-/

namespace Reckoner

namespace Grammar

/-- The strata of the grammar, from the loosest to the tightest. -/
inductive Stratum
  | sum
  | product
  | power
  | signed
  | primary
deriving DecidableEq, Repr

/-- The token is an operator, written with one of the given symbols. -/
def IsSign (t : Token) (symbols : List String) : Prop := t.kind = .operator ∧ t.text ∈ symbols

/-- The token can begin a factor that has no sign before it. -/
def OpensFactor (t : Token) : Prop :=
  t.kind = .constant ∨ t.kind = .openParen ∨ t.kind = .function

/-- The derivations of the grammar. The rules that pass a phrase on to a looser
    stratum keep its tree, and parentheses mark the tree they enclose. -/
inductive Derivation : Stratum → List Token → Expr → Type
  | sumOfProduct {ts : List Token} {e : Expr} (d : Derivation .product ts e) :
      Derivation .sum ts e
  | addition {ls rs : List Token} {l r : Expr} (left : Derivation .sum ls l) (op : Token)
      (hop : IsSign op ["+", "-"]) (right : Derivation .product rs r) :
      Derivation .sum (ls ++ op :: rs) (.binary op.text l r false)
  | productOfPower {ts : List Token} {e : Expr} (d : Derivation .power ts e) :
      Derivation .product ts e
  | multiplication {ls rs : List Token} {l r : Expr} (left : Derivation .product ls l) (op : Token)
      (hop : IsSign op ["*", "/"]) (right : Derivation .power rs r) :
      Derivation .product (ls ++ op :: rs) (.binary op.text l r false)
  | juxtaposition {ls rs : List Token} {l r : Expr} {t : Token} (left : Derivation .product ls l)
      (hfirst : OpensFactor t) (right : Derivation .power (t :: rs) r) :
      Derivation .product (ls ++ t :: rs) (.binary "*" l r false)
  | powerOfSigned {ts : List Token} {e : Expr} (d : Derivation .signed ts e) :
      Derivation .power ts e
  | exponentiation {ls rs : List Token} {l r : Expr} (left : Derivation .signed ls l) (op : Token)
      (hop : IsSign op ["^"]) (right : Derivation .power rs r) :
      Derivation .power (ls ++ op :: rs) (.binary op.text l r false)
  | negation {ts : List Token} {e : Expr} (t : Token) (hkind : t.kind = .negate)
      (argument : Derivation .signed ts e) : Derivation .signed (t :: ts) (.apply "neg" e)
  | signedOfPrimary {ts : List Token} {e : Expr} (d : Derivation .primary ts e) :
      Derivation .signed ts e
  | number (t : Token) (hkind : t.kind = .number) : Derivation .primary [t] (.literal t.value)
  | constant (t : Token) (hkind : t.kind = .constant) : Derivation .primary [t] (.literal t.value)
  | parentheses {ts : List Token} {e : Expr} (o c : Token) (ho : o.kind = .openParen)
      (hc : c.kind = .closeParen) (inner : Derivation .sum ts e) :
      Derivation .primary (o :: (ts ++ [c])) e.grouped
  | application {ts : List Token} {e : Expr} (f o c : Token) (hf : f.kind = .function)
      (ho : o.kind = .openParen) (hc : c.kind = .closeParen) (argument : Derivation .sum ts e) :
      Derivation .primary (f :: o :: (ts ++ [c])) (.apply f.text e)

namespace Derivation

/-- How deeply the operands of a derivation are nested: right operands, operands
    of negations, parentheses and arguments count, left operands do not. -/
def depth {s : Stratum} {ts : List Token} {e : Expr} : Derivation s ts e → Nat
  | .sumOfProduct d => d.depth
  | .addition left _ _ right => max left.depth (right.depth + 1)
  | .productOfPower d => d.depth
  | .multiplication left _ _ right => max left.depth (right.depth + 1)
  | .juxtaposition left _ right => max left.depth (right.depth + 1)
  | .powerOfSigned d => d.depth
  | .exponentiation left _ _ right => max left.depth (right.depth + 1)
  | .negation _ _ argument => argument.depth + 1
  | .signedOfPrimary d => d.depth
  | .number _ _ => 0
  | .constant _ _ => 0
  | .parentheses _ _ _ _ inner => inner.depth + 1
  | .application _ _ _ _ _ _ argument => argument.depth + 1

/-- Nothing is derived from no tokens. -/
theorem tokens_ne_nil {s : Stratum} {ts : List Token} {e : Expr} (d : Derivation s ts e) :
    ts ≠ [] := by
  induction d with
  | sumOfProduct _ ih => exact ih
  | productOfPower _ ih => exact ih
  | powerOfSigned _ ih => exact ih
  | signedOfPrimary _ ih => exact ih
  | _ => simp

/-- A primary phrase begins with a number, a constant, a parenthesis or a
    function. -/
theorem head_of_primary {ts : List Token} {e : Expr} (d : Derivation .primary ts e) :
    ∃ t rest, ts = t :: rest ∧ (t.kind = .number ∨ OpensFactor t) := by
  cases d with
  | number t hkind => exact ⟨t, [], rfl, .inl hkind⟩
  | constant t hkind => exact ⟨t, [], rfl, .inr (.inl hkind)⟩
  | parentheses o c ho hc inner => exact ⟨o, _, rfl, .inr (.inr (.inl ho))⟩
  | application f o c hf ho hc argument => exact ⟨f, _, rfl, .inr (.inr (.inr hf))⟩

/-- A primary phrase does not begin with a negation. -/
theorem not_negate {ts : List Token} {e : Expr} (d : Derivation .primary ts e)
    (rest : List Token) : ∀ t ∈ (ts ++ rest).head?, t.kind ≠ .negate := by
  rcases d.head_of_primary with ⟨t, tail, rfl, hkind⟩
  rintro u hu
  cases hu
  rcases hkind with h | h | h | h <;> simp [h]

end Derivation

/-- A derivation with its tokens and its tree. -/
structure Phrase (s : Stratum) where
  tokens : List Token
  tree : Expr
  derivation : Derivation s tokens tree

/-- The least precedence of the operators that a phrase of this stratum may have
    outside parentheses; four is past them all. -/
def Stratum.least : Stratum → Nat
  | .sum => 1
  | .product => 2
  | .power => 3
  | .signed => 4
  | .primary => 4

/-- Operators of this precedence and above never follow a phrase of this
    stratum, because they would have taken in its last operand. -/
def Stratum.bar : Stratum → Nat
  | .sum => 2
  | .product => 3
  | .power => 3
  | .signed => 4
  | .primary => 4

/-- The stratum that an operator's phrases belong to. -/
def stratumOf : Operator → Stratum
  | .add => .sum
  | .subtract => .sum
  | .multiply => .product
  | .divide => .product
  | .power => .power

/-- The stratum of an operator's left operand. -/
def leftStratumOf : Operator → Stratum
  | .add => .sum
  | .subtract => .sum
  | .multiply => .product
  | .divide => .product
  | .power => .signed

/-- The stratum of an operator's right operand. -/
def rightStratumOf : Operator → Stratum
  | .add => .product
  | .subtract => .product
  | .multiply => .power
  | .divide => .power
  | .power => .power

theorem least_stratumOf (op : Operator) : (stratumOf op).least = op.precedence := by
  cases op <;> rfl

theorem bar_stratumOf (op : Operator) : (stratumOf op).bar = op.rightLeast := by
  cases op <;> rfl

theorem least_rightStratumOf (op : Operator) : (rightStratumOf op).least = op.rightLeast := by
  cases op <;> rfl

theorem stratumOf_ne_primary (op : Operator) : stratumOf op ≠ .primary := by
  cases op <;> simp [stratumOf]

theorem rightStratumOf_ne_primary (op : Operator) : rightStratumOf op ≠ .primary := by
  cases op <;> simp [rightStratumOf]

/-- The symbols of the operators that a stratum adds. -/
def symbolsOf : Stratum → List String
  | .sum => ["+", "-"]
  | .product => ["*", "/"]
  | .power => ["^"]
  | .signed => []
  | .primary => []

/-- The operator behind a sign of a rule. -/
theorem operator_of_isSign {s : Stratum} {t : Token} (h : IsSign t (symbolsOf s)) :
    ∃ op, Operator.ofSymbol? t.text = some op ∧ stratumOf op = s := by
  -- The symbols of a stratum are few, and the table of operators has each of them.
  have hall : ∀ symbol ∈ symbolsOf s, (Operator.ofSymbol? symbol).map stratumOf = some s := by
    cases s <;> decide
  rcases Option.map_eq_some_iff.1 (hall t.text h.2) with ⟨op, hop, hs⟩
  exact ⟨op, hop, hs⟩

theorem OpensFactor.ne_operator {t : Token} (h : OpensFactor t) : t.kind ≠ .operator := by
  rcases h with h | h | h <;> simp [h]

theorem Stratum.least_le_bar (s : Stratum) : s.least ≤ s.bar := by
  cases s <;> decide

/-- What follows does not continue an expression whose operators have at least
    the given precedence. -/
def Stops (least : Nat) (rest : List Token) : Prop :=
  match Parse.joint? rest with
  | none => True
  | some (symbol, _) => ∃ op, Operator.ofSymbol? symbol = some op ∧ op.precedence < least

/-- At the end nothing continues. -/
theorem stops_nil (least : Nat) : Stops least [] := by
  simp only [Stops, Parse.joint?]

theorem Stops.mono {least least' : Nat} {rest : List Token} (h : Stops least rest)
    (hle : least ≤ least') : Stops least' rest := by
  unfold Stops at h ⊢
  split
  · trivial
  · rename_i symbol operand hjoint
    rw [hjoint] at h
    rcases h with ⟨op, hop, hlt⟩
    exact ⟨op, hop, Nat.lt_of_lt_of_le hlt hle⟩

theorem joint?_operator {t : Token} (ts : List Token) (h : t.kind = .operator) :
    Parse.joint? (t :: ts) = some (t.text, ts) := by
  simp only [Parse.joint?, if_pos h]

theorem joint?_opensFactor {t : Token} (ts : List Token) (h : OpensFactor t) :
    Parse.joint? (t :: ts) = some ("*", t :: ts) := by
  rcases h with h | h | h <;> simp [Parse.joint?, h, TokenKind.multiplies]

theorem joint?_closeParen {t : Token} (ts : List Token) (h : t.kind = .closeParen) :
    Parse.joint? (t :: ts) = none := by
  simp [Parse.joint?, h, TokenKind.multiplies]

/-- What joins an operand to the next is a sign, or the next begins a factor. -/
theorem joint?_eq_some {ts operand : List Token} {symbol : String}
    (h : Parse.joint? ts = some (symbol, operand)) :
    ∃ t rest, ts = t :: rest ∧
      ((t.kind = .operator ∧ symbol = t.text ∧ operand = rest) ∨
        (OpensFactor t ∧ symbol = "*" ∧ operand = t :: rest)) := by
  cases ts with
  | nil => cases h
  | cons t rest =>
      refine ⟨t, rest, rfl, ?_⟩
      by_cases hoperator : t.kind = .operator
      · rw [joint?_operator rest hoperator] at h
        cases h
        exact .inl ⟨hoperator, rfl, rfl⟩
      · simp only [Parse.joint?, if_neg hoperator] at h
        split at h
        -- The kinds that multiply are those that open a factor.
        · rename_i hmultiplies
          cases h
          refine .inr ⟨?_, rfl, rfl⟩
          unfold OpensFactor
          cases hkind : t.kind <;> rw [hkind] at hmultiplies <;> simp_all [TokenKind.multiplies]
        · cases h

/-- A joint stops an expression unless its operator binds tightly enough. -/
theorem stops_of_joint {ts operand : List Token} {symbol : String} {op : Operator} {bar : Nat}
    (hjoint : Parse.joint? ts = some (symbol, operand))
    (hop : Operator.ofSymbol? symbol = some op) : Stops bar ts ↔ op.precedence < bar := by
  simp only [Stops, hjoint, hop, Option.some.injEq]
  constructor
  · rintro ⟨_, rfl, hlt⟩
    exact hlt
  · intro hlt
    exact ⟨op, rfl, hlt⟩

theorem stops_sign {s : Stratum} {t : Token} (rest : List Token) (bar : Nat)
    (h : IsSign t (symbolsOf s)) : Stops bar (t :: rest) ↔ s.least < bar := by
  rcases operator_of_isSign h with ⟨op, hop, rfl⟩
  rw [stops_of_joint (joint?_operator rest h.1) hop, least_stratumOf]

theorem stops_opensFactor {t : Token} (rest : List Token) (bar : Nat) (h : OpensFactor t) :
    Stops bar (t :: rest) ↔ Stratum.product.least < bar :=
  stops_of_joint (joint?_opensFactor rest h) (Operator.ofSymbol?_symbol .multiply)

theorem stops_closeParen {t : Token} (rest : List Token) (bar : Nat) (h : t.kind = .closeParen) :
    Stops bar (t :: rest) := by
  simp only [Stops, joint?_closeParen rest h]

end Grammar

end Reckoner
