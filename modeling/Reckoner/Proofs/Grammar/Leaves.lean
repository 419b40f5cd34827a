import Mathlib
import Reckoner.Proofs.Grammar.Derivation

/-!
# The Leaves of a Tree

Where the numbers of a tree come from. Parsing keeps them in their order and
invents none: read from left to right, the leaves of a derived tree are the
numbers and constants among its tokens, and every other token has become part of
an operation, or of none.

## Main definitions

* `Expr.literals`: The leaves of a tree from left to right.
* `Token.Denotes`: The token is a number or a constant.

## Theorems

* `literals_of_derivation`: The leaves are the values of these tokens.
-/

namespace Reckoner

/-- The numbers at the leaves of a tree, from left to right. -/
def Expr.literals : Expr → List (Option Double)
  | .literal value => [value]
  | .binary _ left right _ => left.literals ++ right.literals
  | .apply _ argument => argument.literals
  | .foreign _ => []

theorem Expr.literals_grouped (e : Expr) : e.grouped.literals = e.literals := by
  cases e <;> rfl

/-- The token is a number or a constant, so it denotes a number. -/
def Token.Denotes (t : Token) : Prop := t.kind = .number ∨ t.kind = .constant

instance (t : Token) : Decidable t.Denotes := by
  unfold Token.Denotes
  infer_instance

namespace Grammar

/-- The values of the tokens that denote numbers. -/
def valuesOf (tokens : List Token) : List (Option Double) :=
  (tokens.filter fun t => decide t.Denotes).map Token.value

theorem valuesOf_append (ts us : List Token) :
    valuesOf (ts ++ us) = valuesOf ts ++ valuesOf us := by
  simp only [valuesOf, List.filter_append, List.map_append]

theorem valuesOf_cons_of_not {t : Token} (ts : List Token) (h : ¬ t.Denotes) :
    valuesOf (t :: ts) = valuesOf ts := by
  simp [valuesOf, h]

theorem valuesOf_singleton {t : Token} (h : t.Denotes) : valuesOf [t] = [t.value] := by
  simp [valuesOf, h]

theorem not_denotes {t : Token} {k : TokenKind} (h : t.kind = k) (hnumber : k ≠ .number)
    (hconstant : k ≠ .constant) : ¬ t.Denotes := by
  rintro (hk | hk)
  · exact hnumber (h.symm.trans hk)
  · exact hconstant (h.symm.trans hk)

/-- The leaves of a derived tree are the numbers among its tokens, by induction on
    the derivation. -/
theorem literals_of_derivation {s : Stratum} {ts : List Token} {e : Expr}
    (d : Derivation s ts e) : e.literals = valuesOf ts := by
  induction d with
  | sumOfProduct _ ih => exact ih
  | productOfPower _ ih => exact ih
  | powerOfSigned _ ih => exact ih
  | signedOfPrimary _ ih => exact ih
  | addition _ op hop _ ihleft ihright =>
      rw [valuesOf_append, valuesOf_cons_of_not _ (not_denotes hop.1 nofun nofun), ← ihleft,
        ← ihright]
      rfl
  | multiplication _ op hop _ ihleft ihright =>
      rw [valuesOf_append, valuesOf_cons_of_not _ (not_denotes hop.1 nofun nofun), ← ihleft,
        ← ihright]
      rfl
  | exponentiation _ op hop _ ihleft ihright =>
      rw [valuesOf_append, valuesOf_cons_of_not _ (not_denotes hop.1 nofun nofun), ← ihleft,
        ← ihright]
      rfl
  | juxtaposition _ _ _ ihleft ihright =>
      -- The token in the middle belongs to the right operand and may denote a number itself.
      rw [valuesOf_append, ← ihleft, ← ihright]
      rfl
  | negation t hkind _ ih =>
      rw [valuesOf_cons_of_not _ (not_denotes hkind nofun nofun), ← ih]
      rfl
  | number t hkind => rw [valuesOf_singleton (.inl hkind)]; rfl
  | constant t hkind => rw [valuesOf_singleton (.inr hkind)]; rfl
  | parentheses o c ho hc _ ih =>
      rw [Expr.literals_grouped, ih, valuesOf_cons_of_not _ (not_denotes ho nofun nofun),
        valuesOf_append, valuesOf_cons_of_not [] (not_denotes hc nofun nofun)]
      exact (List.append_nil _).symm
  | application f o c hf ho hc _ ih =>
      rw [valuesOf_cons_of_not _ (not_denotes hf nofun nofun),
        valuesOf_cons_of_not _ (not_denotes ho nofun nofun), valuesOf_append,
        valuesOf_cons_of_not [] (not_denotes hc nofun nofun), ← ih]
      exact (List.append_nil _).symm

end Grammar

end Reckoner
