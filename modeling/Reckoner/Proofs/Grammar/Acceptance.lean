import Mathlib
import Reckoner.Proofs.Grammar.Run
import Reckoner.Proofs.Grammar.Unambiguous

/-!
# The Parser and the Grammar

The parser accepts what the grammar derives and builds the tree of the
derivation. Neither knows about the other: the grammar has a stratum for each
level of precedence and recurses to the left, while the parser has one loop and
a number.

From the parser to the grammar, `Spells` says what a call that succeeds has
read. The loop has an operand in its hand that belongs to some stratum, and the
invariant is that no operator follows which that stratum could not take in on
the left (`Stratum.bar`).

From the grammar to the parser, a derivation is read with anything after it.
`Within` hands the tree over to the loop and lets it go on, which is what a left
operand needs: after it the loop is not at its end. `Beyond` is the other half.
A derivation that is nested past the limit is given up, wherever in it the limit
is passed, so that the depth of a derivation decides between the two.

## Main definitions

* `Spells`: What a successful call has read.
* `Within`: The parser reads a phrase whose depth is within the limit.
* `Beyond`: The parser gives up on a phrase whose depth is past it.
* `KnownOperators`: Every operator among the tokens exists.

## Theorems

* `raise`: A phrase of a tight stratum is one of every looser stratum.
* `spells_of_runs`, `phrase_of_runs`, `operand_of_runs`: What is read is derived.
* `within_of_derivation`, `beyond_of_derivation`: What is derived is read, or
  given up for its depth.
* `ofTokens_of_derivation`: A derivation decides what its tokens are parsed to.
* `ofTokens_iff_derivation`: Parsing is derivability, and derivations are
  unique.
-/

namespace Reckoner

namespace Grammar

/-- A phrase of a tight stratum is one of every looser stratum. -/
theorem raise (s' : Stratum) {s : Stratum} {ts : List Token} {e : Expr} (d : Derivation s ts e)
    (hs : s ≠ .primary) (hs' : s' ≠ .primary) (h : s'.least ≤ s.least) :
    Nonempty (Derivation s' ts e) := by
  have habsurd : ∀ {p : Prop} {m n : Nat}, n < m → m ≤ n → p := fun hlt hle => by omega
  -- A looser stratum is reached by the rules that pass a phrase on, one after the other. The
  -- tighter ones contradict the precedences.
  cases s with
  | sum =>
      cases s' with
      | sum => exact ⟨d⟩
      | primary => exact absurd rfl hs'
      | _ => exact habsurd (by decide) h
  | product =>
      cases s' with
      | sum => exact ⟨.sumOfProduct d⟩
      | product => exact ⟨d⟩
      | primary => exact absurd rfl hs'
      | _ => exact habsurd (by decide) h
  | power =>
      cases s' with
      | sum => exact ⟨.sumOfProduct (.productOfPower d)⟩
      | product => exact ⟨.productOfPower d⟩
      | power => exact ⟨d⟩
      | primary => exact absurd rfl hs'
      | signed => exact habsurd (by decide) h
  | signed =>
      cases s' with
      | sum => exact ⟨.sumOfProduct (.productOfPower (.powerOfSigned d))⟩
      | product => exact ⟨.productOfPower (.powerOfSigned d)⟩
      | power => exact ⟨.powerOfSigned d⟩
      | signed => exact ⟨d⟩
      | primary => exact absurd rfl hs'
  | primary => exact absurd rfl hs

/-- A phrase can be the left operand of an operator that may follow it. -/
theorem raise_left (op : Operator) {s : Stratum} {ts : List Token} {e : Expr}
    (d : Derivation s ts e) (hs : s ≠ .primary) (hbar : op.precedence < s.bar) :
    Nonempty (Derivation (leftStratumOf op) ts e) := by
  refine raise _ d hs (by cases op <;> simp [leftStratumOf]) ?_
  cases op <;> cases s <;>
    simp_all [leftStratumOf, Stratum.bar, Stratum.least, Operator.precedence]

/-- A right operand read after a joint extends the operand on its left. -/
theorem extend {s : Stratum} {ls ts operand rs rest : List Token} {l r : Expr} {symbol : String}
    {op : Operator} (left : Derivation s ls l) (hs : s ≠ .primary)
    (hleft : op.precedence < s.bar) (hjoint : Parse.joint? ts = some (symbol, operand))
    (hop : Operator.ofSymbol? symbol = some op) (hoperand : operand = rs ++ rest)
    (right : Derivation (rightStratumOf op) rs r) :
    ∃ xs, ts = xs ++ rest ∧
      Nonempty (Derivation (stratumOf op) (ls ++ xs) (.binary symbol l r false)) := by
  rcases raise_left op left hs hleft with ⟨left⟩
  rcases joint?_eq_some hjoint with ⟨t, tail, rfl, ⟨hkind, rfl, rfl⟩ | ⟨hfirst, rfl, rfl⟩⟩
  · -- The joint is a sign, and the rule is that of its operator.
    have htext := Operator.symbol_of_ofSymbol? hop
    refine ⟨t :: rs, by rw [hoperand, List.cons_append], ?_⟩
    have hsign : ∀ symbols, op.symbol ∈ symbols → IsSign t symbols :=
      fun symbols hmem => ⟨hkind, by rw [htext]; exact hmem⟩
    cases op with
    | add => exact ⟨.addition left t (hsign _ (by decide)) right⟩
    | subtract => exact ⟨.addition left t (hsign _ (by decide)) right⟩
    | multiply => exact ⟨.multiplication left t (hsign _ (by decide)) right⟩
    | divide => exact ⟨.multiplication left t (hsign _ (by decide)) right⟩
    | power => exact ⟨.exponentiation left t (hsign _ (by decide)) right⟩
  · -- There is no sign, so the token that was seen belongs to the right operand.
    have hmultiply : op = .multiply := by
      have h := Operator.ofSymbol?_symbol .multiply
      rw [show Operator.symbol .multiply = "*" from rfl, hop] at h
      injection h
    subst hmultiply
    cases rs with
    | nil => exact absurd rfl right.tokens_ne_nil
    | cons u rs =>
        rw [List.cons_append, List.cons.injEq] at hoperand
        rcases hoperand with ⟨rfl, rfl⟩
        exact ⟨t :: rs, rfl, ⟨.juxtaposition left hfirst right⟩⟩

/-- What a successful call has read. -/
def Spells (rest : List Token) (tree : Expr) (ts : List Token) : Parse.Task → Prop
  | .expression least _ => ∀ s, s ≠ .primary → s.least = least →
      ∃ xs, ts = xs ++ rest ∧ Nonempty (Derivation s xs tree) ∧ Stops least rest
  | .operands least _ left => ∀ s s' ls, s ≠ .primary → s' ≠ .primary → s.least = least →
      least ≤ s'.least → Nonempty (Derivation s' ls left) → s' = .signed ∨ Stops s'.bar ts →
      ∃ xs, ts = xs ++ rest ∧ Nonempty (Derivation s (ls ++ xs) tree) ∧ Stops least rest
  | .unary _ => ∃ xs, ts = xs ++ rest ∧ Nonempty (Derivation .signed xs tree)
  | .primary _ => ∃ xs, ts = xs ++ rest ∧ Nonempty (Derivation .primary xs tree)

/-- What is read is derived, by induction on the moves that read it. -/
theorem spells_of_runs {limit stop : Int} {task : Parse.Task} {ts : List Token} {o : Parse.Outcome}
    (h : Parse.Runs limit stop task ts o) :
    ∀ tree rest, o = .ok (tree, rest) → Spells rest tree ts task := by
  induction h with
  | expression hdeep hfirst hloop ihfirst ihloop =>
      rintro tree rest rfl s hs hleast
      rcases ihfirst _ _ rfl with ⟨xs, rfl, hleft⟩
      rcases ihloop _ _ rfl s .signed xs hs (by simp) hleast (by subst hleast; cases s <;> decide)
        hleft (.inl rfl) with ⟨ys, rfl, htree, hstop⟩
      exact ⟨xs ++ ys, by rw [List.append_assoc], htree, hstop⟩
  | noJoint hjoint =>
      rintro tree rest ho s s' ls hs hs' hleast hle ⟨left⟩ -
      cases ho
      refine ⟨[], rfl, ?_, by simp only [Stops, hjoint]⟩
      rw [List.append_nil]
      exact raise _ left hs' hs (by omega)
  | looser hjoint hop hloose =>
      rintro tree rest ho s s' ls hs hs' hleast hle ⟨left⟩ -
      cases ho
      refine ⟨[], rfl, ?_, by simp only [Stops, hjoint]; exact ⟨_, hop, hloose⟩⟩
      rw [List.append_nil]
      exact raise _ left hs' hs (by omega)
  | @absorb _ _ _ _ ts operand _ symbol op o hjoint hop htight _ _ ihright ihloop =>
      rintro tree after rfl s s' ls hs hs' hleast hle ⟨left⟩ hbar
      rcases ihright _ _ rfl _ (rightStratumOf_ne_primary op) (least_rightStratumOf op) with
        ⟨rs, hoperand, ⟨r⟩, hstop⟩
      -- The operator may follow the operand in hand, by the invariant of the loop.
      have hleft : op.precedence < s'.bar := by
        rcases hbar with rfl | hbar
        · cases op <;> decide
        · simp only [Stops, hjoint, hop, Option.some.injEq] at hbar
          rcases hbar with ⟨_, rfl, hlt⟩
          exact hlt
      rcases extend left hs' hleft hjoint hop hoperand r with ⟨js, rfl, hextended⟩
      rcases ihloop _ _ rfl s (stratumOf op) (ls ++ js) hs (stratumOf_ne_primary op) hleast
        (by rw [least_stratumOf]; omega) hextended (.inr (by rw [bar_stratumOf]; exact hstop)) with
        ⟨ys, rfl, htree, hend⟩
      exact ⟨js ++ ys, by rw [List.append_assoc], by rw [← List.append_assoc]; exact htree, hend⟩
  | @negation depth t ts rest argument hkind hdeep _ ih =>
      rintro tree after ho
      cases ho
      rcases ih _ _ rfl with ⟨xs, rfl, ⟨d⟩⟩
      exact ⟨t :: xs, rfl, ⟨.negation t hkind d⟩⟩
  | unsigned hkind _ ih =>
      rintro tree rest ho
      rcases ih _ _ ho with ⟨xs, rfl, ⟨d⟩⟩
      exact ⟨xs, rfl, ⟨.signedOfPrimary d⟩⟩
  | @literal depth t ts hkind =>
      rintro tree rest ho
      cases ho
      refine ⟨[t], rfl, ?_⟩
      rcases hkind with h | h
      · exact ⟨.number t h⟩
      · exact ⟨.constant t h⟩
  | @group depth t c ts rest inner hkind _ hclose ih =>
      rintro tree after ho
      cases ho
      rcases ih _ _ rfl .sum (by simp) rfl with ⟨xs, rfl, ⟨d⟩, -⟩
      exact ⟨t :: (xs ++ [c]), by simp, ⟨.parentheses t c hkind hclose d⟩⟩
  | @application depth t u c ts rest argument hkind hopen _ hclose ih =>
      rintro tree after ho
      cases ho
      rcases ih _ _ rfl .sum (by simp) rfl with ⟨xs, rfl, ⟨d⟩, -⟩
      exact ⟨t :: u :: (xs ++ [c]), by simp, ⟨.application t u c hkind hopen hclose d⟩⟩
  | _ =>
      rintro tree rest ho
      cases ho

section Read

variable {limit stop : Int} {depth : Nat} {ts rest : List Token} {tree : Expr}

/-- What is read as a whole expression is one. -/
theorem phrase_of_runs
    (h : Parse.Runs limit stop (.expression 1 depth) ts (.ok (tree, rest))) :
    ∃ xs, ts = xs ++ rest ∧ Nonempty (Derivation .sum xs tree) ∧ Stops 1 rest :=
  spells_of_runs h _ _ rfl .sum (by simp) rfl

/-- What is read as a right operand is one, and no operator follows that would take
    it from the one before. -/
theorem operand_of_runs {op : Operator}
    (h : Parse.Runs limit stop (.expression op.rightLeast depth) ts (.ok (tree, rest))) :
    ∃ xs, ts = xs ++ rest ∧ Nonempty (Derivation (rightStratumOf op) xs tree) ∧
      Stops op.rightLeast rest :=
  spells_of_runs h _ _ rfl _ (rightStratumOf_ne_primary op) (least_rightStratumOf op)

end Read

/-- The parser reads a phrase whose operators may be as loose as `least`, and
    goes on with what follows it, if that does not bind as tightly as `bar`. -/
def Reads (limit stop : Int) (depth : Nat) (xs : List Token) (tree : Expr) (least bar : Nat) :
    Prop :=
  ∀ (least' nesting : Nat) (rest : List Token) (o : Parse.Outcome), least' ≤ least →
    Stops bar rest → ((nesting + depth : Nat) : Int) ≤ limit →
    Parse.Runs limit stop (.operands least' nesting tree) rest o →
    Parse.Runs limit stop (.expression least' nesting) (xs ++ rest) o

/-- The parser reads a phrase of the given stratum and depth wherever that depth
    is within the limit. -/
def Within (limit stop : Int) (depth : Nat) (xs : List Token) (tree : Expr) : Stratum → Prop
  | .signed => ∀ (nesting : Nat) (rest : List Token), ((nesting + depth : Nat) : Int) ≤ limit →
      Parse.Runs limit stop (.unary nesting) (xs ++ rest) (.ok (tree, rest))
  | .primary => ∀ (nesting : Nat) (rest : List Token), ((nesting + depth : Nat) : Int) ≤ limit →
      Parse.Runs limit stop (.primary nesting) (xs ++ rest) (.ok (tree, rest))
  | .sum => Reads limit stop depth xs tree Stratum.sum.least Stratum.sum.bar
  | .product => Reads limit stop depth xs tree Stratum.product.least Stratum.product.bar
  | .power => Reads limit stop depth xs tree Stratum.power.least Stratum.power.bar

/-- A phrase that nothing continues is complete. -/
theorem runs_of_stops (limit stop : Int) {least depth : Nat} {left : Expr} {rest : List Token}
    (h : Stops least rest) :
    Parse.Runs limit stop (.operands least depth left) rest (.ok (left, rest)) := by
  unfold Stops at h
  split at h
  · rename_i hjoint
    exact .noJoint hjoint
  · rename_i symbol operand hjoint
    rcases h with ⟨op, hop, hloose⟩
    exact .looser hjoint hop hloose

/-- Right operands are read from the least precedence allowed in them. -/
theorem right_reads {limit stop : Int} {depth : Nat} {rs : List Token} {r : Expr} (op : Operator)
    (h : Within limit stop depth rs r (rightStratumOf op)) :
    Reads limit stop depth rs r op.rightLeast 3 := by
  cases op <;> exact h

/-- An operand that is joined to a right one is continued by the whole
    operation. -/
theorem runs_of_right {limit stop : Int} {least nesting depth : Nat} {l r : Expr} {op : Operator}
    {ts rs rest : List Token} {symbol : String} {o : Parse.Outcome}
    (hjoint : Parse.joint? ts = some (symbol, rs ++ rest))
    (hop : Operator.ofSymbol? symbol = some op) (hleast : least ≤ op.precedence)
    (hright : Within limit stop depth rs r (rightStratumOf op)) (hstop : Stops op.rightLeast rest)
    (hdepth : ((nesting + (depth + 1) : Nat) : Int) ≤ limit)
    (hloop : Parse.Runs limit stop (.operands least nesting (.binary symbol l r false)) rest o) :
    Parse.Runs limit stop (.operands least nesting l) ts o := by
  refine .absorb hjoint hop (by omega) ?_ hloop
  refine right_reads op hright op.rightLeast (nesting + 1) rest _ (Nat.le_refl _)
    (hstop.mono (by cases op <;> decide)) (by omega) ?_
  exact runs_of_stops limit stop hstop

/-- An operation that groups to the left is read once both its operands are. -/
theorem reads_binary {limit stop : Int} {ml mr : Nat} {ls js rs : List Token} {l r : Expr}
    {op : Operator} {symbol : String}
    (hjoint : ∀ rest, Parse.joint? (js ++ rest) = some (symbol, rs ++ rest))
    (hop : Operator.ofSymbol? symbol = some op) (hgroups : op.precedence < op.rightLeast)
    (hleft : Reads limit stop ml ls l op.precedence op.rightLeast)
    (hright : Within limit stop mr rs r (rightStratumOf op)) :
    Reads limit stop (max ml (mr + 1)) (ls ++ js) (.binary symbol l r false) op.precedence
      op.rightLeast := by
  intro least nesting rest o hleast hstop hdepth hloop
  rw [List.append_assoc]
  refine hleft least nesting (js ++ rest) o hleast ((stops_of_joint (hjoint rest) hop).2 hgroups)
    (by omega) ?_
  exact runs_of_right (hjoint rest) hop hleast hright hstop (by omega) hloop

/-- What is derived within the limit is read, by induction on the derivation. -/
theorem within_of_derivation (limit stop : Int) {s : Stratum} {xs : List Token} {tree : Expr}
    (d : Derivation s xs tree) : Within limit stop d.depth xs tree s := by
  induction d with
  | sumOfProduct d ih =>
      intro least nesting rest o hleast hstop hdepth hloop
      exact ih least nesting rest o (Nat.le_trans hleast (by decide)) (hstop.mono (by decide))
        hdepth hloop
  | @addition ls rs l r left op hop right ihleft ihright =>
      -- The two signs of the rule are the two operators of its stratum.
      rcases operator_of_isSign (s := .sum) hop with ⟨p, hp, hsum⟩
      have hjoint := fun rest => joint?_operator (rs ++ rest) hop.1
      cases p with
      | add => exact reads_binary hjoint hp (by decide) ihleft ihright
      | subtract => exact reads_binary hjoint hp (by decide) ihleft ihright
      | _ => cases hsum
  | productOfPower d ih =>
      intro least nesting rest o hleast hstop hdepth hloop
      exact ih least nesting rest o (Nat.le_trans hleast (by decide)) hstop hdepth hloop
  | @multiplication ls rs l r left op hop right ihleft ihright =>
      rcases operator_of_isSign (s := .product) hop with ⟨p, hp, hproduct⟩
      have hjoint := fun rest => joint?_operator (rs ++ rest) hop.1
      cases p with
      | multiply => exact reads_binary hjoint hp (by decide) ihleft ihright
      | divide => exact reads_binary hjoint hp (by decide) ihleft ihright
      | _ => cases hproduct
  | @juxtaposition ls rs l r t left hfirst right ihleft ihright =>
      -- The implicit sign is a multiplication that uses up no token.
      have hjoint : ∀ rest, Parse.joint? (t :: rs ++ rest) = some ("*", t :: rs ++ rest) :=
        fun rest => joint?_opensFactor (rs ++ rest) hfirst
      have hop := Operator.ofSymbol?_symbol .multiply
      exact reads_binary hjoint hop (by decide) ihleft ihright
  | powerOfSigned d ih =>
      intro least nesting rest o hleast hstop hdepth hloop
      exact .expression (by omega) (ih nesting rest hdepth) hloop
  | @exponentiation ls rs l r left op hop right ihleft ihright =>
      rcases operator_of_isSign (s := .power) hop with ⟨p, hp, hpower⟩
      intro least nesting rest o hleast hstop hdepth hloop
      simp only [Derivation.depth] at hdepth
      -- The base is what the expression starts with, before its loop.
      have hjoint := joint?_operator (rs ++ rest) hop.1
      have hleft := ihleft nesting (op :: rs ++ rest) (by omega)
      rw [List.append_assoc]
      cases p with
      | power =>
          refine .expression (by omega) hleft ?_
          exact runs_of_right hjoint hp hleast ihright hstop (by omega) hloop
      | _ => cases hpower
  | negation t hkind argument ih =>
      intro nesting rest hdepth
      simp only [Derivation.depth] at hdepth
      exact .negation hkind (by omega) (ih (nesting + 1) rest (by omega))
  | signedOfPrimary d ih =>
      intro nesting rest hdepth
      exact .unsigned (d.not_negate rest) (ih nesting rest hdepth)
  | number t hkind =>
      intro nesting rest _
      exact .literal (.inl hkind)
  | constant t hkind =>
      intro nesting rest _
      exact .literal (.inr hkind)
  | @parentheses ts e o c ho hc inner ih =>
      intro nesting rest hdepth
      simp only [Derivation.depth] at hdepth
      -- Whatever the precedence, a closing parenthesis ends the expression inside.
      have hstop := fun bar => stops_closeParen rest bar hc
      have hinner := ih 1 (nesting + 1) (c :: rest) _ (Nat.le_refl _) (hstop _) (by omega)
        (runs_of_stops limit stop (hstop _))
      rw [List.cons_append, List.append_assoc]
      exact .group ho hinner hc
  | @application ts e f o c hf ho hc argument ih =>
      intro nesting rest hdepth
      simp only [Derivation.depth] at hdepth
      have hstop := fun bar => stops_closeParen rest bar hc
      have hargument := ih 1 (nesting + 1) (c :: rest) _ (Nat.le_refl _) (hstop _) (by omega)
        (runs_of_stops limit stop (hstop _))
      rw [List.cons_append, List.cons_append, List.append_assoc]
      exact .application hf ho hargument hc

/-- The parser gives up on a phrase whose operators may be as loose as `least`. -/
def Refuses (limit stop : Int) (depth : Nat) (xs : List Token) (least : Nat) : Prop :=
  ∀ (least' nesting : Nat) (rest : List Token), least' ≤ least → limit < (nesting + depth : Nat) →
    Parse.Runs limit stop (.expression least' nesting) (xs ++ rest) (.error (.tooDeep limit))

/-- The parser gives up on a phrase of the given stratum and depth wherever that
    depth is past the limit. -/
def Beyond (limit stop : Int) (depth : Nat) (xs : List Token) : Stratum → Prop
  | .signed => ∀ (nesting : Nat) (rest : List Token), (nesting : Int) ≤ limit →
      limit < (nesting + depth : Nat) →
      Parse.Runs limit stop (.unary nesting) (xs ++ rest) (.error (.tooDeep limit))
  | .primary => ∀ (nesting : Nat) (rest : List Token), (nesting : Int) ≤ limit →
      limit < (nesting + depth : Nat) →
      Parse.Runs limit stop (.primary nesting) (xs ++ rest) (.error (.tooDeep limit))
  | .sum => Refuses limit stop depth xs Stratum.sum.least
  | .product => Refuses limit stop depth xs Stratum.product.least
  | .power => Refuses limit stop depth xs Stratum.power.least

theorem right_refuses {limit stop : Int} {depth : Nat} {rs : List Token} (op : Operator)
    (h : Beyond limit stop depth rs (rightStratumOf op)) :
    Refuses limit stop depth rs op.rightLeast := by
  cases op <;> exact h

/-- An operation that groups to the left is given up where its left operand is,
    and else where its right one is. -/
theorem refuses_binary {limit stop : Int} {ml mr : Nat} {ls js rs : List Token} {l : Expr}
    {op : Operator} {symbol : String}
    (hjoint : ∀ rest, Parse.joint? (js ++ rest) = some (symbol, rs ++ rest))
    (hop : Operator.ofSymbol? symbol = some op) (hgroups : op.precedence < op.rightLeast)
    (hreads : Reads limit stop ml ls l op.precedence op.rightLeast)
    (hleft : Refuses limit stop ml ls op.precedence)
    (hright : Beyond limit stop mr rs (rightStratumOf op)) :
    Refuses limit stop (max ml (mr + 1)) (ls ++ js) op.precedence := by
  intro least nesting rest hleast hdepth
  rw [List.append_assoc]
  -- The first operand past the limit is the one that is given up.
  by_cases hl : limit < (nesting + ml : Nat)
  · exact hleft least nesting (js ++ rest) hleast hl
  · refine hreads least nesting (js ++ rest) _ hleast ((stops_of_joint (hjoint rest) hop).2 hgroups)
      (by omega) ?_
    refine .rightFails (hjoint rest) hop (by omega) ?_
    exact right_refuses op hright op.rightLeast (nesting + 1) rest (Nat.le_refl _) (by omega)

/-- What is derived past the limit is given up, by induction on the derivation. -/
theorem beyond_of_derivation (limit stop : Int) {s : Stratum} {xs : List Token} {tree : Expr}
    (d : Derivation s xs tree) : Beyond limit stop d.depth xs s := by
  induction d with
  | sumOfProduct d ih =>
      intro least nesting rest hleast hdepth
      exact ih least nesting rest (Nat.le_trans hleast (by decide)) hdepth
  | @addition ls rs l r left op hop right ihleft ihright =>
      rcases operator_of_isSign (s := .sum) hop with ⟨p, hp, hsum⟩
      have hjoint := fun rest => joint?_operator (rs ++ rest) hop.1
      -- To give up on the right operand the parser first has to read the left one.
      have hreads := within_of_derivation limit stop left
      cases p with
      | add => exact refuses_binary hjoint hp (by decide) hreads ihleft ihright
      | subtract => exact refuses_binary hjoint hp (by decide) hreads ihleft ihright
      | _ => cases hsum
  | productOfPower d ih =>
      intro least nesting rest hleast hdepth
      exact ih least nesting rest (Nat.le_trans hleast (by decide)) hdepth
  | @multiplication ls rs l r left op hop right ihleft ihright =>
      rcases operator_of_isSign (s := .product) hop with ⟨p, hp, hproduct⟩
      have hjoint := fun rest => joint?_operator (rs ++ rest) hop.1
      have hreads := within_of_derivation limit stop left
      cases p with
      | multiply => exact refuses_binary hjoint hp (by decide) hreads ihleft ihright
      | divide => exact refuses_binary hjoint hp (by decide) hreads ihleft ihright
      | _ => cases hproduct
  | @juxtaposition ls rs l r t left hfirst right ihleft ihright =>
      have hjoint : ∀ rest, Parse.joint? (t :: rs ++ rest) = some ("*", t :: rs ++ rest) :=
        fun rest => joint?_opensFactor (rs ++ rest) hfirst
      have hop := Operator.ofSymbol?_symbol .multiply
      exact refuses_binary hjoint hop (by decide) (within_of_derivation limit stop left) ihleft
        ihright
  | powerOfSigned d ih =>
      intro least nesting rest hleast hdepth
      -- The depth is checked once before the operand, and it may be too deep already.
      by_cases hdeep : limit < (nesting : Int)
      · exact .expressionTooDeep hdeep
      · exact .firstFails hdeep (ih nesting rest (by omega) hdepth)
  | @exponentiation ls rs l r left op hop right ihleft ihright =>
      rcases operator_of_isSign (s := .power) hop with ⟨p, hp, hpower⟩
      intro least nesting rest hleast hdepth
      simp only [Derivation.depth] at hdepth
      rw [List.append_assoc]
      by_cases hdeep : limit < (nesting : Int)
      · exact .expressionTooDeep hdeep
      by_cases hl : limit < (nesting + left.depth : Nat)
      · exact .firstFails hdeep (ihleft nesting (op :: rs ++ rest) (by omega) hl)
      -- The left operand fits, so it is the exponent that is nested too deeply.
      have hleft := within_of_derivation limit stop left nesting (op :: rs ++ rest) (by omega)
      cases p with
      | power =>
          refine .expression hdeep hleft ?_
          refine .rightFails (joint?_operator (rs ++ rest) hop.1) hp (Nat.not_lt_of_le hleast) ?_
          exact ihright Operator.power.rightLeast (nesting + 1) rest (Nat.le_refl _) (by omega)
      | _ => cases hpower
  | negation t hkind argument ih =>
      intro nesting rest hnesting hdepth
      simp only [Derivation.depth] at hdepth
      by_cases hdeep : limit < (nesting + 1 : Nat)
      · exact .negationTooDeep hkind hdeep
      · exact .negationFails hkind hdeep (ih (nesting + 1) rest (by omega) (by omega))
  | signedOfPrimary d ih =>
      intro nesting rest hnesting hdepth
      exact .unsigned (d.not_negate rest) (ih nesting rest hnesting hdepth)
  | number t hkind =>
      intro nesting rest hnesting hdepth
      simp only [Derivation.depth] at hdepth
      omega
  | constant t hkind =>
      intro nesting rest hnesting hdepth
      simp only [Derivation.depth] at hdepth
      omega
  | @parentheses ts e o c ho hc inner ih =>
      intro nesting rest hnesting hdepth
      simp only [Derivation.depth] at hdepth
      rw [List.cons_append, List.append_assoc]
      exact .groupFails ho (ih 1 (nesting + 1) (c :: rest) (Nat.le_refl _) (by omega))
  | @application ts e f o c hf ho hc argument ih =>
      intro nesting rest hnesting hdepth
      simp only [Derivation.depth] at hdepth
      rw [List.cons_append, List.cons_append, List.append_assoc]
      exact .argumentFails hf ho (ih 1 (nesting + 1) (c :: rest) (Nat.le_refl _) (by omega))

/-- A list of tokens that is derived has the tree of its derivation, as long as
    that is not nested past the limit. -/
theorem ofTokens_of_derivation (limit : Int) {tokens : List Token} {tree : Expr}
    (d : Derivation .sum tokens tree) :
    Expr.ofTokens limit tokens =
      if (d.depth : Int) ≤ limit then .ok tree else .error (.tooDeep limit) := by
  rcases Option.ne_none_iff_exists'.1 (mt List.getLast?_eq_none_iff.1 d.tokens_ne_nil) with
    ⟨last, hlast⟩
  rw [ofTokens_eq_finish limit hlast]
  split
  -- Nothing follows the tokens, so the outermost call is at its end after the derivation.
  · rename_i hdepth
    have hruns := within_of_derivation limit last.stop d 1 0 [] _ (Nat.le_refl _) (stops_nil _)
      (by omega) (runs_of_stops limit last.stop (stops_nil 1))
    rw [List.append_nil] at hruns
    rw [Parse.runs_iff.1 hruns]
    rfl
  · rename_i hdepth
    have hruns := beyond_of_derivation limit last.stop d 1 0 [] (Nat.le_refl _) (by omega)
    rw [List.append_nil] at hruns
    rw [Parse.runs_iff.1 hruns]
    rfl

/-- What is parsed is derived. -/
theorem derivation_of_ofTokens {limit : Int} {tokens : List Token} {tree : Expr}
    (h : Expr.ofTokens limit tokens = .ok tree) : Nonempty (Derivation .sum tokens tree) := by
  cases hlast : tokens.getLast? with
  | none =>
      simp only [Expr.ofTokens, hlast, reduceCtorEq] at h
  | some last =>
      rw [ofTokens_eq_finish limit hlast] at h
      cases hrun : Parse.run limit last.stop tokens (.expression 1 0) with
      | error e =>
          rw [hrun] at h
          cases h
      | ok p =>
          rcases p with ⟨e, rest⟩
          rw [hrun] at h
          cases rest with
          | nil =>
              cases h
              rcases spells_of_runs (Parse.runs_iff.2 hrun) _ _ rfl .sum (by simp) rfl with
                ⟨xs, hxs, hd, -⟩
              rw [hxs, List.append_nil]
              exact hd
          | cons t rest =>
              simp only [Parse.finish] at h
              split at h <;> cases h

theorem joint?_suffix {ts operand : List Token} {symbol : String}
    (h : Parse.joint? ts = some (symbol, operand)) : operand <:+ ts := by
  rcases joint?_eq_some h with ⟨t, rest, rfl, ⟨_, _, rfl⟩ | ⟨_, _, rfl⟩⟩
  · exact List.suffix_cons t operand
  · exact List.suffix_refl _

/-- What is left over is a tail of what there was. -/
theorem suffix_of_runs {limit stop : Int} {task : Parse.Task} {ts : List Token}
    {o : Parse.Outcome} (h : Parse.Runs limit stop task ts o) :
    ∀ tree rest, o = .ok (tree, rest) → rest <:+ ts := by
  induction h with
  | expression _ _ _ ihfirst ihloop =>
      intro tree rest ho
      exact (ihloop _ _ ho).trans (ihfirst _ _ rfl)
  | noJoint hjoint =>
      intro tree rest ho
      cases ho
      exact List.suffix_refl _
  | looser hjoint hop hloose =>
      intro tree rest ho
      cases ho
      exact List.suffix_refl _
  | absorb hjoint _ _ _ _ ihright ihloop =>
      intro tree rest ho
      exact ((ihloop _ _ ho).trans (ihright _ _ rfl)).trans (joint?_suffix hjoint)
  | negation _ _ _ ih =>
      intro tree rest ho
      cases ho
      exact (ih _ _ rfl).trans (List.suffix_cons _ _)
  | unsigned _ _ ih => exact ih
  | literal _ =>
      intro tree rest ho
      cases ho
      exact List.suffix_cons _ _
  | @group depth t c ts rest inner _ _ _ ih =>
      intro tree after ho
      cases ho
      exact ((List.suffix_cons c rest).trans (ih _ _ rfl)).trans (List.suffix_cons t ts)
  | @application depth t u c ts rest argument _ _ _ _ ih =>
      intro tree after ho
      cases ho
      exact (((List.suffix_cons c rest).trans (ih _ _ rfl)).trans (List.suffix_cons u ts)).trans
        (List.suffix_cons t (u :: ts))
  | _ =>
      intro tree rest ho
      cases ho

/-- Only an operator that does not exist is reported as one. -/
theorem unknown_of_runs {limit stop : Int} {task : Parse.Task} {ts : List Token}
    {o : Parse.Outcome} (h : Parse.Runs limit stop task ts o) :
    ∀ symbol, o = .error (.unknownOperator symbol) →
      ∃ t ∈ ts, t.kind = .operator ∧ Operator.ofSymbol? t.text = none := by
  -- A failure is passed on from a call that had a tail of the tokens, so the culprit is there.
  induction h with
  | firstFails _ _ ih => exact ih
  | expression _ hfirst _ _ ihloop =>
      intro symbol ho
      rcases ihloop symbol ho with ⟨t, hmem, ht⟩
      exact ⟨t, (suffix_of_runs hfirst _ _ rfl).mem hmem, ht⟩
  | unknownOperator hjoint hop =>
      intro symbol _
      rcases joint?_eq_some hjoint with ⟨t, rest, rfl, ⟨hkind, rfl, -⟩ | ⟨-, rfl, -⟩⟩
      · exact ⟨t, List.mem_cons_self, hkind, hop⟩
      · cases hop
  | rightFails hjoint _ _ _ ih =>
      intro symbol ho
      rcases ih symbol ho with ⟨t, hmem, ht⟩
      exact ⟨t, (joint?_suffix hjoint).mem hmem, ht⟩
  | absorb hjoint _ _ hright _ _ ihloop =>
      intro symbol ho
      rcases ihloop symbol ho with ⟨t, hmem, ht⟩
      exact ⟨t, ((suffix_of_runs hright _ _ rfl).trans (joint?_suffix hjoint)).mem hmem, ht⟩
  | negationFails _ _ _ ih =>
      intro symbol ho
      rcases ih symbol ho with ⟨t, hmem, ht⟩
      exact ⟨t, List.mem_cons_of_mem _ hmem, ht⟩
  | unsigned _ _ ih => exact ih
  | groupFails _ _ ih =>
      intro symbol ho
      rcases ih symbol ho with ⟨t, hmem, ht⟩
      exact ⟨t, List.mem_cons_of_mem _ hmem, ht⟩
  | argumentFails _ _ _ ih =>
      intro symbol ho
      rcases ih symbol ho with ⟨t, hmem, ht⟩
      exact ⟨t, List.mem_cons_of_mem _ (List.mem_cons_of_mem _ hmem), ht⟩
  | _ =>
      intro symbol ho
      cases ho

/-- Every operator among the tokens is one of the five. -/
def KnownOperators (tokens : List Token) : Prop :=
  ∀ t ∈ tokens, t.kind = .operator → t.text ∈ ["+", "-", "*", "/", "^"]

theorem ofTokens_ne_unknownOperator {limit : Int} {tokens : List Token} {symbol : String}
    (hops : KnownOperators tokens) :
    Expr.ofTokens limit tokens ≠ .error (.unknownOperator symbol) := by
  intro h
  cases hlast : tokens.getLast? with
  | none => simp only [Expr.ofTokens, hlast, Except.error.injEq, reduceCtorEq] at h
  | some last =>
      rw [ofTokens_eq_finish limit hlast] at h
      cases hrun : Parse.run limit last.stop tokens (.expression 1 0) with
      | error e =>
          rw [hrun] at h
          cases h
          rcases unknown_of_runs (Parse.runs_iff.2 hrun) symbol rfl with ⟨t, hmem, hkind, hnone⟩
          have hknown : ∀ symbol ∈ ["+", "-", "*", "/", "^"],
              Operator.ofSymbol? symbol ≠ none := by decide
          exact hknown t.text (hops t hmem hkind) hnone
      | ok p =>
          rcases p with ⟨e, rest⟩
          rw [hrun] at h
          cases rest with
          | nil => cases h
          | cons t rest =>
              simp only [Parse.finish] at h
              split at h <;> cases h

/-- As long as the limit is not hit, the parser accepts exactly what the grammar
    derives and builds its tree. No list of tokens has two derivations, and one
    that has none is malformed. -/
theorem ofTokens_iff_derivation (limit : Int) (tokens : List Token)
    (hops : KnownOperators tokens)
    (hlimit : ∀ reported, Expr.ofTokens limit tokens ≠ .error (.tooDeep reported)) :
    (∀ tree, Expr.ofTokens limit tokens = .ok tree ↔ Nonempty (Derivation .sum tokens tree)) ∧
      (∀ p q : Phrase .sum, p.tokens = tokens → q.tokens = tokens → p = q) ∧
      ((∀ tree, ¬ Nonempty (Derivation .sum tokens tree)) →
        ∃ e, Expr.ofTokens limit tokens = .error (.malformed e)) := by
  refine ⟨fun tree => ⟨derivation_of_ofTokens, ?_⟩, ?_, ?_⟩
  · rintro ⟨d⟩
    have houtcome := ofTokens_of_derivation limit d
    split at houtcome
    · exact houtcome
    · exact absurd houtcome (hlimit limit)
  · intro p q hp hq
    exact phrase_eq_of_tokens_eq (hp.trans hq.symm)
  · intro hnone
    cases houtcome : Expr.ofTokens limit tokens with
    | ok tree =>
        exact absurd (derivation_of_ofTokens houtcome) (hnone tree)
    | error e =>
        cases e with
        | malformed e => exact ⟨e, rfl⟩
        | tooDeep reported => exact absurd houtcome (hlimit reported)
        | unknownOperator symbol => exact absurd houtcome (ofTokens_ne_unknownOperator hops)

/-- The tokens of `-2(3+4)^2`. -/
def negatedProduct : List Token :=
  [⟨.negate, "-", none, 0⟩, ⟨.number, "2", some (Double.ofRat 2), 1⟩, ⟨.openParen, "(", none, 2⟩,
    ⟨.number, "3", some (Double.ofRat 3), 3⟩, ⟨.operator, "+", none, 4⟩,
    ⟨.number, "4", some (Double.ofRat 4), 5⟩, ⟨.closeParen, ")", none, 6⟩,
    ⟨.operator, "^", none, 7⟩, ⟨.number, "2", some (Double.ofRat 2), 8⟩]

/-- The tree of `-2(3+4)^2`. The negation and the power both bind tighter than
    the product without a sign, and the sum remembers its parentheses. -/
def negatedProductTree : Expr :=
  let two : Expr := .literal (some (Double.ofRat 2))
  let sum : Expr :=
    .binary "+" (.literal (some (Double.ofRat 3))) (.literal (some (Double.ofRat 4))) true
  .binary "*" (.apply "neg" two) (.binary "^" sum two false) false

def negatedProductDerivation : Derivation .sum negatedProduct negatedProductTree :=
  let number (position : Int) (text : String) (value : Rat) :
      Derivation .signed [⟨.number, text, some (Double.ofRat value), position⟩]
        (.literal (some (Double.ofRat value))) :=
    .signedOfPrimary (.number _ rfl)
  let sum := Derivation.addition (.sumOfProduct (.productOfPower (.powerOfSigned (number 3 "3" 3))))
    ⟨.operator, "+", none, 4⟩ ⟨rfl, by simp⟩ (.productOfPower (.powerOfSigned (number 5 "4" 4)))
  let power := Derivation.exponentiation
    (.signedOfPrimary
      (.parentheses ⟨.openParen, "(", none, 2⟩ ⟨.closeParen, ")", none, 6⟩ rfl rfl sum))
    ⟨.operator, "^", none, 7⟩ ⟨rfl, by simp⟩ (.powerOfSigned (number 8 "2" 2))
  let negation := Derivation.negation ⟨.negate, "-", none, 0⟩ rfl (number 1 "2" 2)
  .sumOfProduct
    (.juxtaposition (.productOfPower (.powerOfSigned negation)) (.inr (.inl rfl)) power)

theorem ofTokens_negatedProduct :
    KnownOperators negatedProduct ∧
      (∀ reported, Expr.ofTokens 3 negatedProduct ≠ .error (.tooDeep reported)) ∧
      Expr.ofTokens 3 negatedProduct = .ok negatedProductTree := by
  have hops : KnownOperators negatedProduct := by simp [KnownOperators, negatedProduct]
  have hlimit : ∀ reported, Expr.ofTokens 3 negatedProduct ≠ .error (.tooDeep reported) := by
    intro reported
    rw [ofTokens_of_derivation 3 negatedProductDerivation, if_pos (by decide)]
    simp
  exact ⟨hops, hlimit, ((ofTokens_iff_derivation 3 negatedProduct hops hlimit).1 _).2
    ⟨negatedProductDerivation⟩⟩

end Grammar

end Reckoner
