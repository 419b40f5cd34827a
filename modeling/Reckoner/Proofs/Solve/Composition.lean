import Mathlib
import Reckoner.Proofs.Evaluation.PostOrder
import Reckoner.Proofs.Scan.Concatenation
import Reckoner.Proofs.Solve.Shape

/-!
# Solving Texts Made of Texts

Two solved texts in parentheses with an operator between them make a text whose
solution follows from theirs. The same goes for one text in the parentheses of a
function, and for one in parentheses after a minus. First come the steps of the
one text, then those of the other, then a step for the operation, and where one of
them has an error, that is the error of the whole.

Each stage contributes a law of its own. Between parentheses the scanner finds the
tokens it has found before, at other positions. A phrase does not depend on
positions, so the two trees are found again and become operands. Evaluation does
not depend on parentheses, except that the step of a binary operation inside them
gets a note (`evaluateTree_grouped`).

The longer text may be rejected for its length or its depth although its parts are
not, and that is the only way in which it can differ (`SolvedUnlessLarge`).

## Main definitions

* `Expr.noted`: The steps of a tree that is put into parentheses.
* `joinSolutions`, `applySolution`: What solutions make of each other.
* `SolvedUnlessLarge`: A text has an outcome, unless it is too large.

## Theorems

* `derivation_moved`: A phrase is one wherever its tokens are.
* `derivation_joined`, `derivation_applied`, `derivation_negated`: The trees of
  texts made of texts.
* `evaluateTree_grouped`: Parentheses change nothing but a note.
* `solve_of_tokenize`, `solve_of_derivation`, `solve_of_parseText`: Solving a text
  with tokens, with a derivation, and with a tree.
* `solve_compositional`: Texts made of texts are solved from their solutions.
-/

namespace Reckoner

namespace Grammar

/-- A phrase is one wherever its tokens are. -/
theorem derivation_moved {s : Stratum} {ts : List Token} {e : Expr} (d : Derivation s ts e)
    (distance : Int) : Nonempty (Derivation s (ts.map (Token.moved distance)) e) := by
  induction d with
  | sumOfProduct _ ih => exact ih.map .sumOfProduct
  | productOfPower _ ih => exact ih.map .productOfPower
  | powerOfSigned _ ih => exact ih.map .powerOfSigned
  | signedOfPrimary _ ih => exact ih.map .signedOfPrimary
  | addition _ op hop _ ihleft ihright =>
      rcases ihleft, ihright with ⟨⟨left⟩, ⟨right⟩⟩
      rw [List.map_append, List.map_cons]
      exact ⟨.addition left (op.moved distance) hop right⟩
  | multiplication _ op hop _ ihleft ihright =>
      rcases ihleft, ihright with ⟨⟨left⟩, ⟨right⟩⟩
      rw [List.map_append, List.map_cons]
      exact ⟨.multiplication left (op.moved distance) hop right⟩
  | exponentiation _ op hop _ ihleft ihright =>
      rcases ihleft, ihright with ⟨⟨left⟩, ⟨right⟩⟩
      rw [List.map_append, List.map_cons]
      exact ⟨.exponentiation left (op.moved distance) hop right⟩
  | juxtaposition _ hfirst _ ihleft ihright =>
      rcases ihleft, ihright with ⟨⟨left⟩, ⟨right⟩⟩
      -- The rule names the first token of the right operand, so it is moved by itself.
      rw [List.map_cons] at right
      rw [List.map_append, List.map_cons]
      exact ⟨.juxtaposition left hfirst right⟩
  | negation t hkind _ ih => exact ih.map (.negation (t.moved distance) hkind)
  | number t hkind => exact ⟨.number (t.moved distance) hkind⟩
  | constant t hkind => exact ⟨.constant (t.moved distance) hkind⟩
  | parentheses o c ho hc _ ih =>
      rcases ih with ⟨inner⟩
      rw [List.map_cons, List.map_append]
      exact ⟨.parentheses (o.moved distance) (c.moved distance) ho hc inner⟩
  | application f o c hf ho hc _ ih =>
      rcases ih with ⟨argument⟩
      rw [List.map_cons, List.map_cons, List.map_append]
      exact ⟨.application (f.moved distance) (o.moved distance) (c.moved distance) hf ho hc
        argument⟩

/-- An expression in parentheses is a primary one, wherever it is. -/
theorem derivation_enclosed {ts : List Token} {e : Expr} (d : Derivation .sum ts e)
    (position length : Nat) :
    Nonempty (Derivation .primary (Lexical.enclosed position length ts) e.grouped) := by
  rcases derivation_moved d (position + 1) with ⟨inner⟩
  exact ⟨.parentheses _ _ rfl rfl inner⟩

/-- Two signed expressions and an operator between them make an expression. A signed
    operand is tight enough for any operator, on either side. -/
theorem derivation_joined {op : Operator} {o : Token} {ls rs : List Token} {l r : Expr}
    (hkind : o.kind = .operator) (htext : o.text = op.symbol) (left : Derivation .signed ls l)
    (right : Derivation .signed rs r) :
    ∃ d : Derivation .sum (ls ++ o :: rs) (.binary op.symbol l r false),
      d.depth = max left.depth (right.depth + 1) := by
  rw [← htext]
  cases op with
  | add =>
      exact ⟨.addition (.sumOfProduct (.productOfPower (.powerOfSigned left))) o
        ⟨hkind, by simp [htext, Operator.symbol]⟩ (.productOfPower (.powerOfSigned right)), rfl⟩
  | subtract =>
      exact ⟨.addition (.sumOfProduct (.productOfPower (.powerOfSigned left))) o
        ⟨hkind, by simp [htext, Operator.symbol]⟩ (.productOfPower (.powerOfSigned right)), rfl⟩
  | multiply =>
      exact ⟨.sumOfProduct (.multiplication (.productOfPower (.powerOfSigned left)) o
        ⟨hkind, by simp [htext, Operator.symbol]⟩ (.powerOfSigned right)), rfl⟩
  | divide =>
      exact ⟨.sumOfProduct (.multiplication (.productOfPower (.powerOfSigned left)) o
        ⟨hkind, by simp [htext, Operator.symbol]⟩ (.powerOfSigned right)), rfl⟩
  | power =>
      exact ⟨.sumOfProduct (.productOfPower (.exponentiation left o
        ⟨hkind, by simp [htext, Operator.symbol]⟩ (.powerOfSigned right))), rfl⟩

theorem derivation_applied {f : Unary} {o : Token} {ts : List Token} {e : Expr}
    (hkind : o.kind = .function) (htext : o.text = f.name) (d : Derivation .sum ts e)
    (position length : Nat) :
    Nonempty (Derivation .sum (o :: Lexical.enclosed position length ts) (.apply f.name e)) := by
  rcases derivation_moved d (position + 1) with ⟨argument⟩
  rw [← htext]
  exact raise .sum (.signedOfPrimary (.application o _ _ hkind rfl rfl argument)) (by decide)
    (by decide) (by decide)

theorem derivation_negated {o : Token} {ts : List Token} {e : Expr} (hkind : o.kind = .negate)
    (d : Derivation .primary ts e) :
    Nonempty (Derivation .sum (o :: ts) (.apply Unary.negate.name e)) :=
  raise .sum (.negation o hkind (.signedOfPrimary d)) (by decide) (by decide) (by decide)

end Grammar

/-- The step with a note that it is in parentheses. -/
def Step.noted (s : Step) : Step :=
  { s with explanation := s!"{s.explanation}; {Step.parenthesesNote}" }

/-- The steps of a tree that is put into parentheses: the last one gets a note, if the
    root is a binary operation that does not have it already. -/
def Expr.noted (tree : Expr) (steps : List Step) : List Step :=
  match tree with
  | .binary _ _ _ false => steps.dropLast ++ (steps.getLast?.map Step.noted).toList
  | _ => steps

namespace PostOrder

variable {settings : Settings} {places : Option Int}

theorem ofOperator_noted (op : Operator) (left right value : Double) :
    (Step.ofOperator op left right value false).noted =
      Step.ofOperator op left right value true := rfl

/-- An operation in parentheses has the same value and the same errors, and a note
    on its step. -/
theorem operate_grouped (symbol : String) (left right : Expr) (grouped : Bool)
    (l r : Evaluation) :
    operate symbol true l r = (operate symbol grouped l r).map fun result =>
      ⟨result.value, (Expr.binary symbol left right grouped).noted result.steps⟩ := by
  cases hvalue : applyOperator symbol l.value r.value with
  | error e => rw [operate_of_error hvalue, operate_of_error hvalue]; rfl
  | ok value =>
      rcases exists_of_applyOperator hvalue with ⟨op, hop⟩
      rw [operate_of_ok hop hvalue, operate_of_ok hop hvalue]
      cases grouped with
      | true => rfl
      | false => simp [Except.map, Expr.noted, ofOperator_noted]

/-- Parentheses change nothing in an evaluation but the note on its last step. -/
theorem evaluateTree_grouped [Numerics] (tree : Expr) :
    evaluateTree settings places tree.grouped =
      (evaluateTree settings places tree).map fun result =>
        ⟨result.value, tree.noted result.steps⟩ := by
  have hother : ∀ o : Except Failure Evaluation,
      o = o.map fun result => ⟨result.value, result.steps⟩ := by
    rintro (e | result) <;> rfl
  cases tree with
  | binary symbol left right grouped =>
      simp only [Expr.grouped, evaluateTree_binary]
      cases evaluateTree settings places left with
      | error e => rfl
      | ok l =>
          cases evaluateTree settings places right with
          | error e => rfl
          | ok r => exact operate_grouped symbol left right grouped l r
  | literal value => exact hother _
  | apply name argument => exact hother _
  | foreign shown => exact hother _

end PostOrder

section Solutions

variable {settings : Settings} {places : Option Int} {text s t : String}

/-- A blank text has no tokens. -/
theorem scan_of_isBlankText (h : Text.isBlankText text = true) : Token.scan text = .ok [] := by
  have hblank : ∀ c ∈ text.toList, Text.isBlank c = true := List.all_eq_true.1 h
  have hscan : ∀ (cs : List Char) (position : Nat), (∀ c ∈ cs, Text.isBlank c = true) →
      Token.scanFrom position none (normalizeChars cs) = .ok [] := by
    intro cs
    induction cs with
    | nil => exact fun _ _ => by simp [normalizeChars, Token.scanFrom]
    | cons c cs ih =>
        intro position hcs
        rw [normalizeChars, List.flatMap_cons, Lexical.spell_of_isBlank (hcs c (.head _)),
          List.singleton_append, Lexical.scanFrom_blank _ _ _ (hcs c (.head _))]
        exact ih _ fun d hd => hcs d (.tail _ hd)
  exact hscan _ 0 hblank

/-- A text with tokens is not blank, so only its length stands before parsing. -/
theorem solve_of_tokenize [Numerics] {tokens : List Token} (h : tokenize text = .ok tokens)
    (hne : tokens ≠ []) :
    solve settings places text =
      if settings.maxLength < (text.length : Int) then
        .error (.rejection (.tooLong settings.maxLength))
      else
        match parseTokens settings tokens with
        | .error e => .error e
        | .ok tree => (evaluateTree settings places tree).map (Evaluation.close · text) := by
  have hblank : ¬ Text.isBlankText text = true := by
    intro hblank
    have hscan := mapError_eq_ok_iff.1 h
    rw [scan_of_isBlankText hblank] at hscan
    cases hscan
    exact hne rfl
  rw [solve_eq, precheck, if_neg hblank]
  by_cases hlength : settings.maxLength < (text.length : Int)
  · rw [if_pos hlength, if_pos hlength]
  · rw [if_neg hlength, if_neg hlength]
    simp only [h]
    cases parseTokens settings tokens with
    | error e => rfl
    | ok tree =>
        simp only []
        cases evaluateTree settings places tree <;> rfl

/-- A text with a derivation yields the value of the derived tree, and it is not too
    long then. -/
theorem solve_of_derivation [Numerics] (settings : Settings) (places : Option Int)
    {tokens : List Token} {tree : Expr} (h : Token.scan text = .ok tokens)
    (d : Nonempty (Grammar.Derivation .sum tokens tree)) :
    solve settings places text = .error (.rejection (.tooLong settings.maxLength)) ∨
      solve settings places text = .error (.rejection (.tooDeep settings.maxDepth)) ∨
      ((text.length : Int) ≤ settings.maxLength ∧ solve settings places text =
        (evaluateTree settings places tree).map (Evaluation.close · text)) := by
  rcases d with ⟨d⟩
  have htokens : tokenize text = .ok tokens := mapError_eq_ok_iff.2 h
  rw [solve_of_tokenize htokens d.tokens_ne_nil]
  by_cases hlength : settings.maxLength < (text.length : Int)
  · exact .inl (if_pos hlength)
  · rw [if_neg hlength, parseTokens, Grammar.ofTokens_of_derivation settings.maxDepth d]
    by_cases hdepth : (d.depth : Int) ≤ settings.maxDepth
    · rw [if_pos hdepth]
      exact .inr (.inr ⟨Int.not_lt.1 hlength, rfl⟩)
    · rw [if_neg hdepth]
      exact .inr (.inl rfl)

theorem derivation_of_parseText {tree : Expr} (h : parseText settings text = .ok tree) :
    ∃ tokens, Token.scan text = .ok tokens ∧ parseTokens settings tokens = .ok tree ∧
      Nonempty (Grammar.Derivation .sum tokens tree) := by
  rw [parseText_eq] at h
  cases htokens : tokenize text with
  | error e =>
      rw [htokens] at h
      cases h
  | ok tokens =>
      rw [htokens] at h
      exact ⟨tokens, mapError_eq_ok_iff.1 htokens, h,
        Grammar.derivation_of_ofTokens (mapError_eq_ok_iff.1 h)⟩

/-- A text with a tree is solved by evaluating it, if it is not too long. -/
theorem solve_of_parseText [Numerics] {tree : Expr} (h : parseText settings text = .ok tree)
    (hlength : (text.length : Int) ≤ settings.maxLength) :
    solve settings places text =
      (evaluateTree settings places tree).map (Evaluation.close · text) := by
  rcases derivation_of_parseText h with ⟨tokens, hscan, htree, ⟨d⟩⟩
  rw [solve_of_tokenize (mapError_eq_ok_iff.2 hscan) d.tokens_ne_nil,
    if_neg (Int.not_lt.2 hlength)]
  simp only [htree]

/-- The outcome of an operation, from the solutions of two texts with the given
    trees. -/
def joinSolutions (op : Operator) (left right : Expr) (text : String)
    (l r : Except Failure Evaluation) : Except Failure Evaluation :=
  match l, r with
  | .error e, _ => .error e
  | .ok _, .error e => .error e
  | .ok l, .ok r =>
    match applyOperator op.symbol l.value r.value with
    | .error e => .error e
    | .ok value =>
      .ok ⟨value, left.noted l.steps.dropLast ++ right.noted r.steps.dropLast ++
        [Step.ofOperator op l.value r.value value false] ++ [finalStep text value]⟩

/-- The outcome of a function, from the solution of a text. What becomes of its steps
    is left open, because they get a note if the parentheses are not those of the
    function. -/
def applySolution [Numerics] (settings : Settings) (places : Option Int) (f : Unary)
    (note : List Step → List Step) (text : String) (a : Except Failure Evaluation) :
    Except Failure Evaluation :=
  match a with
  | .error e => .error e
  | .ok a =>
    match applyFunction f.name a.value with
    | .error e => .error e
    | .ok value =>
      match Step.ofUnary (settings.places places) f a.value value with
      | .error fault => .error (.fault (.places fault))
      | .ok step => .ok ⟨value, note a.steps.dropLast ++ [step] ++ [finalStep text value]⟩

theorem evaluateTree_joined [Numerics] (op : Operator) (left right : Expr) (text : String) :
    (evaluateTree settings places (.binary op.symbol left.grouped right.grouped false)).map
        (Evaluation.close · text) =
      joinSolutions op left right text
        ((evaluateTree settings places left).map (Evaluation.close · s))
        ((evaluateTree settings places right).map (Evaluation.close · t)) := by
  rw [PostOrder.evaluateTree_binary, PostOrder.evaluateTree_grouped,
    PostOrder.evaluateTree_grouped]
  cases evaluateTree settings places left with
  | error e => rfl
  | ok l =>
      cases evaluateTree settings places right with
      | error e => rfl
      | ok r =>
          simp only [Except.map, joinSolutions, Evaluation.close, List.dropLast_concat]
          cases hvalue : applyOperator op.symbol l.value r.value with
          | error e => rw [PostOrder.operate_of_error (by exact hvalue)]
          | ok value =>
              rw [PostOrder.operate_of_ok (Operator.ofSymbol?_symbol op) (by exact hvalue)]

/-- A function of an evaluated argument, which may be in parentheses of its own. -/
theorem evaluateTree_applied [Numerics] (f : Unary) (argument : Expr) (note : List Step → List Step)
    (text : String) {tree : Expr}
    (h : evaluateTree settings places argument =
      (evaluateTree settings places tree).map fun result => ⟨result.value, note result.steps⟩) :
    (evaluateTree settings places (.apply f.name argument)).map (Evaluation.close · text) =
      applySolution settings places f note text
        ((evaluateTree settings places tree).map (Evaluation.close · s)) := by
  rw [PostOrder.evaluateTree_apply, h]
  cases evaluateTree settings places tree with
  | error e => rfl
  | ok a =>
      simp only [Except.map, applySolution, Evaluation.close, List.dropLast_concat]
      cases hvalue : applyFunction f.name a.value with
      | error e => rw [PostOrder.callOn_of_error (by exact hvalue)]
      | ok value =>
          rw [PostOrder.callOn_of_ok (Unary.ofName?_name f) (by exact hvalue)]
          simp only []
          cases Step.ofUnary (settings.places places) f a.value value <;> rfl

/-- A text is solved to an outcome, unless it is too long or nested too deeply. -/
def SolvedUnlessLarge [Numerics] (settings : Settings) (places : Option Int) (text : String)
    (outcome : Except Failure Evaluation) : Prop :=
  solve settings places text = .error (.rejection (.tooLong settings.maxLength)) ∨
    solve settings places text = .error (.rejection (.tooDeep settings.maxDepth)) ∨
    solve settings places text = outcome

/-- Solving is compositional over parentheses. The texts made of solved texts are
    solved to what their solutions make of each other, with all steps of them except
    the last, which only restates the result. -/
theorem solve_compositional [Numerics] (settings : Settings) (places : Option Int) {s t : String}
    {left right : Expr} (hs : parseText settings s = .ok left)
    (ht : parseText settings t = .ok right) :
    (∀ op : Operator,
      SolvedUnlessLarge settings places (parenthesized s ++ op.symbol ++ parenthesized t)
        (joinSolutions op left right (parenthesized s ++ op.symbol ++ parenthesized t)
          (solve settings places s) (solve settings places t))) ∧
    (∀ f ∈ Unary.named,
      SolvedUnlessLarge settings places (f.name ++ parenthesized s)
        (applySolution settings places f id (f.name ++ parenthesized s)
          (solve settings places s))) ∧
    SolvedUnlessLarge settings places ("-" ++ parenthesized s)
      (applySolution settings places .negate left.noted ("-" ++ parenthesized s)
        (solve settings places s)) := by
  rcases derivation_of_parseText hs with ⟨ts, hts, -, ⟨ds⟩⟩
  rcases derivation_of_parseText ht with ⟨us, hus, -, ⟨dt⟩⟩
  -- What fits in a longer text is not too long itself, so it has been solved.
  have hsolved : ∀ {text : String}, s.length ≤ text.length →
      (text.length : Int) ≤ settings.maxLength → solve settings places s =
        (evaluateTree settings places left).map (Evaluation.close · s) :=
    fun hle hlength => solve_of_parseText hs (by omega)
  refine ⟨fun op => ?_, fun f hf => ?_, ?_⟩
  · rcases Grammar.derivation_enclosed ds 0 (Lexical.width s) with ⟨l⟩
    rcases Grammar.derivation_enclosed dt (Lexical.width s + 3) (Lexical.width t) with ⟨r⟩
    rcases Grammar.derivation_joined
      (o := ⟨.operator, op.symbol, none, (Lexical.width s + 2 : Nat)⟩) rfl rfl
      (.signedOfPrimary l) (.signedOfPrimary r) with ⟨d, -⟩
    rcases solve_of_derivation settings places (Lexical.scan_joined op hts hus) ⟨d⟩ with
      h | h | ⟨hlength, h⟩
    · exact .inl h
    · exact .inr (.inl h)
    · have hle : s.length ≤ (parenthesized s ++ op.symbol ++ parenthesized t).length ∧
          t.length ≤ (parenthesized s ++ op.symbol ++ parenthesized t).length := by
        simp only [parenthesized, String.length_append]
        omega
      rw [hsolved hle.1 hlength, solve_of_parseText ht (by omega)]
      exact .inr (.inr (h.trans (evaluateTree_joined op left right _)))
  · rcases solve_of_derivation settings places (Lexical.scan_applied hf hts)
      (Grammar.derivation_applied rfl rfl ds _ _) with h | h | ⟨hlength, h⟩
    · exact .inl h
    · exact .inr (.inl h)
    · have hle : s.length ≤ (f.name ++ parenthesized s).length := by
        simp only [parenthesized, String.length_append]
        omega
      rw [hsolved hle hlength]
      refine .inr (.inr (h.trans (evaluateTree_applied f left id _ ?_)))
      cases evaluateTree settings places left <;> rfl
  · rcases Grammar.derivation_enclosed ds 1 (Lexical.width s) with ⟨a⟩
    rcases solve_of_derivation settings places (Lexical.scan_negated hts)
      (Grammar.derivation_negated rfl a) with h | h | ⟨hlength, h⟩
    · exact .inl h
    · exact .inr (.inl h)
    · have hle : s.length ≤ ("-" ++ parenthesized s).length := by
        simp only [parenthesized, String.length_append]
        omega
      rw [hsolved hle hlength]
      exact .inr (.inr (h.trans (evaluateTree_applied .negate left.grouped left.noted _
        (PostOrder.evaluateTree_grouped left))))

/-- The trees of `1+2` and of `2-3`. -/
def onePlusTwo : Expr :=
  .binary "+" (.literal (some (Double.ofRat 1))) (.literal (some (Double.ofRat 2))) false

def twoMinusThree : Expr :=
  .binary "-" (.literal (some (Double.ofRat 2))) (.literal (some (Double.ofRat 3))) false

/-- A product of two texts in parentheses is solved from their solutions. -/
theorem solve_compositional_product :
    parseText Settings.defaults "1+2" = .ok onePlusTwo ∧
      parseText Settings.defaults "2-3" = .ok twoMinusThree ∧
      solve Settings.defaults none "(1+2)*(2-3)" =
        joinSolutions .multiply onePlusTwo twoMinusThree "(1+2)*(2-3)"
          (solve Settings.defaults none "1+2") (solve Settings.defaults none "2-3") := by
  have hs : parseText Settings.defaults "1+2" = .ok onePlusTwo := by decide +kernel
  have ht : parseText Settings.defaults "2-3" = .ok twoMinusThree := by decide +kernel
  have hsolved : (solve Settings.defaults none "(1+2)*(2-3)").toBool = true := by decide +kernel
  refine ⟨hs, ht, ?_⟩
  rcases (solve_compositional Settings.defaults none hs ht).1 .multiply with h | h | h
  · rw [show solve Settings.defaults none "(1+2)*(2-3)" = _ from h] at hsolved
    cases hsolved
  · rw [show solve Settings.defaults none "(1+2)*(2-3)" = _ from h] at hsolved
    cases hsolved
  · exact h

end Solutions

end Reckoner
