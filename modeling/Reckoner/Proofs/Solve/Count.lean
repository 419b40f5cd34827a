import Mathlib
import Reckoner.Proofs.Grammar.Leaves
import Reckoner.Proofs.Solve.Composition
import Reckoner.Proofs.Solve.Minus

/-!
# Counting Steps

How many steps a solution has can be read off the tokens of its text, without a
tree. Operators, negations and functions are an operation each. A multiplication
without a sign has no token of its own, but it can be seen too: it is where an
operand has just ended and the next token opens a factor. Such a place is a
*seam*, and nothing but a multiplication without a sign makes one.

So the parser drops, repeats and exchanges nothing. The operations of a tree are
as many as its tokens ask for, and its leaves are the numbers among them, in their
order (`literals_of_derivation`).

## Main definitions

* `Acts`: The token is an operation of its own.
* `EndsOperand`: An operand may end with the token.
* `actions`: The number of tokens that are operations.
* `seams`: The number of multiplications without a sign.

## Theorems

* `seams_append`: Seams are counted piece by piece, with one where pieces meet.
* `endsOperand_of_derivation`: The last token of a phrase ends an operand.
* `operations_of_derivation`: The operations of a phrase are counted.
* `steps_counted`: The steps of a solution are counted.
-/

namespace Reckoner

namespace Grammar

/-- The token is an operation of its own. -/
def Acts (t : Token) : Prop := t.kind = .operator ∨ t.kind = .negate ∨ t.kind = .function

instance (t : Token) : Decidable (Acts t) := inferInstanceAs (Decidable (_ ∨ _ ∨ _))

/-- An operand may end with the token. -/
def EndsOperand (t : Token) : Prop :=
  t.kind = .number ∨ t.kind = .constant ∨ t.kind = .closeParen

instance (t : Token) : Decidable (EndsOperand t) := inferInstanceAs (Decidable (_ ∨ _ ∨ _))

instance (t : Token) : Decidable (OpensFactor t) := inferInstanceAs (Decidable (_ ∨ _ ∨ _))

/-- The number of tokens that are operations. -/
def actions (ts : List Token) : Nat := ts.countP fun t => decide (Acts t)

/-- A multiplication without a sign, if the first token ends an operand and the
    second opens a factor. -/
def seam (before after : Option Token) : Nat :=
  match before, after with
  | some t, some u => if EndsOperand t ∧ OpensFactor u then 1 else 0
  | _, _ => 0

/-- The number of multiplications without a sign: of pairs of neighbours of which
    the first ends an operand and the second opens a factor. -/
def seams (ts : List Token) : Nat :=
  (ts.zip ts.tail).countP fun p => decide (EndsOperand p.1 ∧ OpensFactor p.2)

section Counting

variable {t : Token}

theorem actions_append (ts us : List Token) : actions (ts ++ us) = actions ts + actions us :=
  List.countP_append

theorem actions_cons_of (ts : List Token) (h : Acts t) : actions (t :: ts) = actions ts + 1 :=
  List.countP_cons_of_pos (decide_eq_true h)

theorem actions_cons_of_not (ts : List Token) (h : ¬ Acts t) : actions (t :: ts) = actions ts :=
  List.countP_cons_of_neg (by simpa using h)

theorem seams_cons (t : Token) (ts : List Token) :
    seams (t :: ts) = seam (some t) ts.head? + seams ts := by
  cases ts with
  | nil => rfl
  | cons u ts =>
      simp only [seams, List.tail_cons, List.zip_cons_cons, List.countP_cons, List.head?_cons, seam,
        decide_eq_true_eq]
      omega

/-- The seams of two lists put together are theirs, and possibly one between them. -/
theorem seams_append (ts us : List Token) :
    seams (ts ++ us) = seams ts + seam ts.getLast? us.head? + seams us := by
  induction ts with
  | nil => simp [seams, seam]
  | cons t ts ih =>
      rw [List.cons_append, seams_cons, seams_cons, ih]
      cases ts with
      | nil => simp [seam, seams]
      | cons u ts =>
          simp only [List.cons_append, List.head?_cons, List.getLast?_cons_cons]
          omega

theorem seam_of_not_endsOperand (after : Option Token) (h : ¬ EndsOperand t) :
    seam (some t) after = 0 := by
  cases after with
  | none => rfl
  | some u => exact if_neg fun hseam => h hseam.1

theorem seam_of_not_opensFactor (before : Option Token) (h : ¬ OpensFactor t) :
    seam before (some t) = 0 := by
  cases before with
  | none => rfl
  | some u => exact if_neg fun hseam => h hseam.2

/-- A token that ends no operand makes no seam with what follows. -/
theorem seams_cons_of_not (ts : List Token) (h : ¬ EndsOperand t) : seams (t :: ts) = seams ts := by
  rw [seams_cons, seam_of_not_endsOperand _ h, Nat.zero_add]

/-- A token that opens no factor makes no seam with what is before it. -/
theorem seams_append_cons_of_not (ls rs : List Token) (h : ¬ OpensFactor t) :
    seams (ls ++ t :: rs) = seams ls + seams (t :: rs) := by
  rw [seams_append, List.head?_cons, seam_of_not_opensFactor _ h, Nat.add_zero]

/-- A closing parenthesis adds nothing to what it closes. -/
theorem actions_closed (ts : List Token) (h : t.kind = .closeParen) :
    actions (ts ++ [t]) = actions ts := by
  have hacts : ¬ Acts t := by simp [Acts, h]
  rw [actions_append, actions_cons_of_not _ hacts]
  rfl

theorem seams_closed (ts : List Token) (h : t.kind = .closeParen) :
    seams (ts ++ [t]) = seams ts := by
  have hopens : ¬ OpensFactor t := by simp [OpensFactor, h]
  rw [seams_append_cons_of_not _ _ hopens]
  rfl

end Counting

/-- The last token of a phrase ends an operand. -/
theorem endsOperand_of_derivation {s : Stratum} {ts : List Token} {e : Expr}
    (d : Derivation s ts e) : ∃ t, ts.getLast? = some t ∧ EndsOperand t := by
  rcases List.eq_nil_or_concat ts with hnil | ⟨init, t, rfl⟩
  · exact absurd hnil d.tokens_ne_nil
  · -- After a phrase a minus is an operator, and only an operand leaves it that way.
    have hoperator := (placed_of_derivation d none (starts_of_minusKind _ rfl)).2
    rw [List.concat_eq_append, lastKind_append, lastKind_cons] at hoperator
    refine ⟨t, by simp, ?_⟩
    unfold EndsOperand
    cases hkind : t.kind <;>
      simp [lastKind, minusKind, hkind, TokenKind.startsOperand] at hoperator ⊢

/-- The operations of a phrase are its tokens for them and its seams, by induction on
    the derivation. -/
theorem operations_of_derivation {s : Stratum} {ts : List Token} {e : Expr}
    (d : Derivation s ts e) : e.operations = actions ts + seams ts := by
  -- An operator between two operands counts as a token, and there is no seam on either side.
  have hsign : ∀ {ls rs : List Token} {l r : Expr} {op : Token}, op.kind = .operator →
      l.operations = actions ls + seams ls → r.operations = actions rs + seams rs →
      1 + l.operations + r.operations = actions (ls ++ op :: rs) + seams (ls ++ op :: rs) := by
    intro ls rs l r op hkind hl hr
    have hopens : ¬ OpensFactor op := fun h => h.ne_operator hkind
    have hends : ¬ EndsOperand op := by simp [EndsOperand, hkind]
    rw [actions_append, actions_cons_of rs (.inl hkind), seams_append_cons_of_not ls rs hopens,
      seams_cons_of_not rs hends]
    omega
  induction d with
  | sumOfProduct _ ih => exact ih
  | productOfPower _ ih => exact ih
  | powerOfSigned _ ih => exact ih
  | signedOfPrimary _ ih => exact ih
  | addition _ _ hop _ ihleft ihright => exact hsign hop.1 ihleft ihright
  | multiplication _ _ hop _ ihleft ihright => exact hsign hop.1 ihleft ihright
  | exponentiation _ _ hop _ ihleft ihright => exact hsign hop.1 ihleft ihright
  | juxtaposition left hfirst _ ihleft ihright =>
      -- No token is the multiplication, but the left operand ends where a factor opens.
      rcases endsOperand_of_derivation left with ⟨last, hlast, hends⟩
      have hseam : ∀ t, OpensFactor t → seam (some last) (some t) = 1 :=
        fun t ht => if_pos ⟨hends, ht⟩
      rw [actions_append, seams_append, hlast, List.head?_cons, hseam _ hfirst]
      simp only [Expr.operations]
      omega
  | negation t hkind _ ih =>
      have hends : ¬ EndsOperand t := by simp [EndsOperand, hkind]
      rw [actions_cons_of _ (.inr (.inl hkind)), seams_cons_of_not _ hends]
      simp only [Expr.operations]
      omega
  | number t hkind => simp [Expr.operations, actions, Acts, seams, hkind]
  | constant t hkind => simp [Expr.operations, actions, Acts, seams, hkind]
  | parentheses o c ho hc _ ih =>
      have hacts : ¬ Acts o := by simp [Acts, ho]
      have hends : ¬ EndsOperand o := by simp [EndsOperand, ho]
      rw [Expr.operations_grouped, ih, actions_cons_of_not _ hacts, seams_cons_of_not _ hends,
        actions_closed _ hc, seams_closed _ hc]
  | application f o c hf ho hc _ ih =>
      have hacts : ¬ Acts o := by simp [Acts, ho]
      have hends : ¬ EndsOperand f ∧ ¬ EndsOperand o := by simp [EndsOperand, hf, ho]
      rw [actions_cons_of _ (.inr (.inr hf)), actions_cons_of_not _ hacts,
        seams_cons_of_not _ hends.1, seams_cons_of_not _ hends.2, actions_closed _ hc,
        seams_closed _ hc]
      simp only [Expr.operations]
      omega

end Grammar

/-- Whatever the limit is, a parsed list of tokens has as many operations as it has
    tokens for them and seams, and its numbers are the leaves of the tree in their
    order. A solution has a step for each of these operations, and the one that
    closes it. -/
theorem steps_counted [Numerics] :
    (∀ (limit : Int) (tokens : List Token) (tree : Expr), Expr.ofTokens limit tokens = .ok tree →
      tree.operations = Grammar.actions tokens + Grammar.seams tokens ∧
        tree.literals = Grammar.valuesOf tokens) ∧
    (∀ (settings : Settings) (places : Option Int) (text : String) (e : Evaluation),
      solve settings places text = .ok e →
      ∃ tokens, tokenize text = .ok tokens ∧
        e.steps.length = Grammar.actions tokens + Grammar.seams tokens + 1) := by
  refine ⟨fun limit tokens tree htree => ?_, fun settings places text e hsolve => ?_⟩
  · rcases Grammar.derivation_of_ofTokens htree with ⟨d⟩
    exact ⟨Grammar.operations_of_derivation d, Grammar.literals_of_derivation d⟩
  · rcases exists_tree_of_solve hsolve with ⟨tokens, tree, result, htokens, htree, hvalue, rfl⟩
    rcases Grammar.derivation_of_ofTokens (mapError_eq_ok_iff.1 htree) with ⟨d⟩
    have hsteps := Expr.evaluate_steps (mapError_eq_ok_iff.1 hvalue)
    refine ⟨tokens, htokens, ?_⟩
    rw [← Grammar.operations_of_derivation d, ← hsteps]
    simp [Evaluation.close]

/-- The text `2(3+4)sin(30)` has two tokens for operations and two seams, so it takes
    five steps to solve it. -/
theorem steps_counted_seams :
    ∃ e tokens, solve Settings.defaults none "2(3+4)sin(30)" = .ok e ∧
      tokenize "2(3+4)sin(30)" = .ok tokens ∧ Grammar.actions tokens = 2 ∧
      Grammar.seams tokens = 2 ∧ e.steps.length = 5 := by
  have hsolved : (solve Settings.defaults none "2(3+4)sin(30)").toBool = true := by decide +kernel
  have hcounts : (tokenize "2(3+4)sin(30)").map (fun ts => (Grammar.actions ts, Grammar.seams ts)) =
      .ok (2, 2) := by decide +kernel
  cases hsolve : solve Settings.defaults none "2(3+4)sin(30)" with
  | error e =>
      rw [hsolve] at hsolved
      cases hsolved
  | ok e =>
      rcases steps_counted.2 _ _ _ _ hsolve with ⟨tokens, htokens, hlength⟩
      rw [htokens] at hcounts
      simp only [Except.map, Except.ok.injEq, Prod.mk.injEq] at hcounts
      exact ⟨e, tokens, rfl, htokens, hcounts.1, hcounts.2, by omega⟩

end Reckoner
