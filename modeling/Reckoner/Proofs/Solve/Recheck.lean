import Mathlib
import Reckoner.Proofs.Evaluation.Clean
import Reckoner.Proofs.Evaluation.Record
import Reckoner.Proofs.Scan.Calculation
import Reckoner.Proofs.Solve.Composition
import Reckoner.Proofs.Solve.Limits

/-!
# Steps That Check Themselves

A step of a binary operation shows an equation, and what is left of the equals sign is
an expression. Somebody who doubts the step can type that expression in. If neither
number has an exponent, it is solved, and to the very number that the operation had
before, so the last step of its solution reads as the doubted one does.

Each stage of solving gives back what the step was made from. The numerals are scanned
to the same doubles, and a minus before one becomes a negation, which has the number as
its value again. The expression is not nested too deeply, because a negative operand
came from an operation, and that was at least as deep where it stood.

## Main definitions

* `signedTree`: The tree of a number as it is shown.
* `Rechecks`: The step of a node can be checked.

## Theorems

* `evaluateTree_signedTree`: A number as it is shown has itself as its value.
* `isNegative_le_nesting`: Negative numbers come from operations.
* `solve_calculation`: An operation as it is shown is solved.
* `solve_recheck`: So the steps of a solved text can be checked.
-/

namespace Reckoner

/-- The tree of a number as it is shown: a negation if it is negative. -/
def signedTree (x : Double) : Expr :=
  if x.isNegative then .apply Unary.negate.name (.literal (some x.abs)) else .literal (some x.abs)

/-- The tokens of a number as it is shown make a signed expression, and a minus makes it
    one level deep. -/
theorem Grammar.derivation_signedTree (x : Double) (cs : List Char) (position : Nat) :
    ∃ d : Derivation .signed (Lexical.signedTokens x.isNegative cs x.abs position) (signedTree x),
      d.depth = x.isNegative.toNat := by
  rw [Lexical.signedTokens, signedTree]
  cases x.isNegative with
  | false => exact ⟨.signedOfPrimary (.number _ rfl), rfl⟩
  | true => exact ⟨.negation _ rfl (.signedOfPrimary (.number _ rfl)), rfl⟩

/-- The tokens of an operation as it is shown make an expression. Its operands are those
    numbers, and it is no deeper than a minus makes them. -/
theorem Grammar.derivation_calculation (op : Operator) (l r : Double) (cs ds : List Char) :
    ∃ d : Derivation .sum (Lexical.calculationTokens op l r cs ds)
        (.binary op.symbol (signedTree l) (signedTree r) false),
      d.depth = max l.isNegative.toNat (r.isNegative.toNat + 1) := by
  rcases derivation_signedTree l cs 0 with ⟨left, hleft⟩
  rcases derivation_signedTree r ds (l.compact.length + 3) with ⟨right, hright⟩
  rw [← hleft, ← hright]
  exact derivation_joined rfl rfl left right

section Operation

variable {settings : Settings} {places : Option Int} {op : Operator} {l r value : Double}

/-- A number as it is shown has itself as its value. -/
theorem evaluateTree_signedTree [Numerics] (settings : Settings) (places : Option Int) {x : Double}
    (h : x.Clean) : ∃ steps, evaluateTree settings places (signedTree x) = .ok ⟨x, steps⟩ := by
  rcases Double.eq_abs_or h with ⟨hsign, hx⟩ | ⟨hsign, hx⟩
  · rw [signedTree, hsign, if_neg (by decide), ← hx]
    exact ⟨[], rfl⟩
  · have hzero : x.abs.isZero = false := by
      rw [Double.isZero_abs, Double.isZero_of_isNegative hsign]
    have hnegate : applyFunction Unary.negate.name x.abs = .ok x := by
      simp only [applyFunction, Unary.ofName?_name, Unary.calculate, hzero, Bool.false_eq_true,
        if_false, ← hx]
    rw [signedTree, hsign, if_pos rfl, PostOrder.evaluateTree_apply]
    simp only [evaluateTree, Expr.evaluate, Except.mapError]
    rw [PostOrder.callOn_of_ok (Unary.ofName?_name .negate) hnegate]
    exact ⟨_, rfl⟩

/-- A negative number does not stand in a text as it is. It comes from an operation. -/
theorem isNegative_le_nesting [Numerics] {tree : Expr} {e : Evaluation}
    (hunsigned : ∀ v, some v ∈ tree.literals → v.signBit = false)
    (h : evaluateTree settings places tree = .ok e) : e.value.isNegative.toNat ≤ tree.nesting := by
  cases tree with
  | literal value =>
      cases value with
      | none => cases h
      | some v =>
          cases h
          have hsign := hunsigned v (.head _)
          have hnegative : v.isNegative = false := by
            cases v <;> simp_all [Double.isNegative, Double.signBit]
          simp [hnegative]
  | foreign shown => cases h
  | binary symbol left right grouped =>
      have hsign := Bool.toNat_le e.value.isNegative
      simp only [Expr.nesting]
      omega
  | apply name argument =>
      have hsign := Bool.toNat_le e.value.isNegative
      simp only [Expr.nesting]
      omega

/-- An operation as it is shown is solved, and to the value that it has. -/
theorem solve_calculation [Numerics] (settings : Settings) (places : Option Int) (hl : l.Clean)
    (hr : r.Clean) (hlplain : 'e' ∉ l.compact.toList) (hrplain : 'e' ∉ r.compact.toList)
    (hvalue : applyOperator op.symbol l r = .ok value)
    (hlength : ((op.calculation l r).length : Int) ≤ settings.maxLength)
    (hdepth : (max l.isNegative.toNat (r.isNegative.toNat + 1) : Nat) ≤ settings.maxDepth) :
    ∃ again, solve settings places (op.calculation l r) = .ok again ∧ again.value = value ∧
      again.steps.getLast? = some (Step.final (op.calculation l r) value) := by
  rcases Double.exists_shownAs hl.1 hlplain with ⟨cs, hcs⟩
  rcases Double.exists_shownAs hr.1 hrplain with ⟨ds, hds⟩
  have hscan := Lexical.scan_calculation op hcs hds ((Double.isFinite_abs l).trans hl.1)
    ((Double.isFinite_abs r).trans hr.1)
  rcases Grammar.derivation_calculation op l r cs ds with ⟨d, hd⟩
  rcases evaluateTree_signedTree settings places hl with ⟨lsteps, hlvalue⟩
  rcases evaluateTree_signedTree settings places hr with ⟨rsteps, hrvalue⟩
  have htree : evaluateTree settings places
      (.binary op.symbol (signedTree l) (signedTree r) false) =
        .ok ⟨value, lsteps ++ rsteps ++ [Step.ofOperator op l r value false]⟩ := by
    rw [PostOrder.evaluateTree_binary, hlvalue, hrvalue]
    exact PostOrder.operate_of_ok (Operator.ofSymbol?_symbol op) hvalue
  have hparse : parseTokens settings (Lexical.calculationTokens op l r cs ds) =
      .ok (.binary op.symbol (signedTree l) (signedTree r) false) := by
    rw [parseTokens, Grammar.ofTokens_of_derivation _ d, hd, if_pos hdepth]
    rfl
  rw [solve_of_tokenize (mapError_eq_ok_iff.2 hscan) d.tokens_ne_nil,
    if_neg (Int.not_lt.2 hlength), hparse]
  simp only [htree, Except.map]
  refine ⟨_, rfl, rfl, ?_⟩
  rw [Evaluation.close, finalStep, Lexical.strip_calculation op hcs hds, List.getLast?_concat]

end Operation

section Steps

variable {settings : Settings} {places : Option Int} {tokens : List Token} {tree n : Expr}

/-- The step of a binary operation can be checked, unless one of its numbers is shown with
    an exponent: with room for the text, what is left of its equals sign is solved to the
    value that the operation had, and the last step reads as the step does. -/
def Rechecks [Numerics] (settings : Settings) (places : Option Int) : Expr → Step → Prop
  | .binary symbol left right grouped, step =>
    ∃ op l r value, PostOrder.Operates settings places symbol left right op l r value ∧
      step = Step.ofOperator op l r value grouped ∧
      ('e' ∉ l.compact.toList → 'e' ∉ r.compact.toList →
        ∀ (length : Int) (places' : Option Int), ((op.calculation l r).length : Int) ≤ length →
          ∃ again, solve (settings.withLimits length settings.maxDepth) places'
              (op.calculation l r) = .ok again ∧
            again.value = value ∧
            again.steps.getLast?.map Step.calculation = some step.calculation)
  | _, _ => True

/-- An operand in the tree of a text has a clean value, and a negative one is nested. -/
theorem operand_of_scan {library : Numerics} (hlibrary : library.Reliable) {text : String}
    {operand : Expr} {x : Double} (htokens : tokenize text = .ok tokens)
    (htree : parseTokens settings tokens = .ok tree) (hclean : operand.Clean)
    (hliterals : operand.literals ⊆ tree.literals)
    (h : ∃ steps, evaluateTree settings places operand = .ok ⟨x, steps⟩) :
    x.Clean ∧ x.isNegative.toNat ≤ operand.nesting := by
  rcases h with ⟨steps, h⟩
  exact ⟨Expr.value_clean hlibrary hclean (mapError_eq_ok_iff.1 h), isNegative_le_nesting
    (fun v hv => PostOrder.signBit_of_scan htokens htree (hliterals hv)) h⟩

/-- What is true of the step of every operation in a tree is true of all steps of a solved
    text but the last. -/
theorem forall_steps_of_solve [Numerics] {text : String} {result : Evaluation}
    {Shown : Expr → Step → Prop} (h : solve settings places text = .ok result)
    (hshown : ∀ {tokens tree node step}, tokenize text = .ok tokens →
      parseTokens settings tokens = .ok tree → node ∈ PostOrder.operationNodes tree →
        PostOrder.Records settings places node step → Shown node step) :
    ∃ tree, parseText settings text = .ok tree ∧
      List.Forall₂ (fun node step => PostOrder.Records settings places node step ∧ Shown node step)
        (PostOrder.operationNodes tree) result.steps.dropLast := by
  rcases exists_tree_of_solve h with ⟨tokens, tree, e, htokens, htree, hevaluate, rfl⟩
  refine ⟨tree, by simp only [parseText_eq, htokens, htree], ?_⟩
  -- The last step closes the solution, and the others are those of the tree.
  rw [Evaluation.close, List.dropLast_concat]
  have hrecords := (List.forall₂_and_left _ _).2
    ⟨fun n hn => hn, PostOrder.records_of_evaluateTree hevaluate⟩
  exact hrecords.imp fun n step hn => ⟨hn.2, hshown htokens htree hn.1 hn.2⟩

/-- Every operation of the tree of a text has a step that can be checked. -/
theorem rechecks_of_records {library : Numerics} (hlibrary : library.Reliable) {text : String}
    {step : Step} (htokens : tokenize text = .ok tokens)
    (htree : parseTokens settings tokens = .ok tree) (hn : n ∈ PostOrder.operationNodes tree)
    (h : PostOrder.Records settings places n step) : Rechecks settings places n step := by
  cases h with
  | apply _ _ => trivial
  | @binary symbol left right grouped op l r value h =>
      refine ⟨op, l, r, value, h, rfl, fun hlplain hrplain length places' hlength => ?_⟩
      have hnode := List.mem_of_mem_filter hn
      have hclean := PostOrder.clean_of_mem_nodes (PostOrder.clean_of_scan htokens htree) hnode
      have hliterals := PostOrder.literals_of_mem_nodes hnode
      rcases operand_of_scan hlibrary htokens htree hclean.left
        (fun v hv => hliterals (List.mem_append_left _ hv)) h.left with ⟨hl, hlsign⟩
      rcases operand_of_scan hlibrary htokens htree hclean.right
        (fun v hv => hliterals (List.mem_append_right _ hv)) h.right with ⟨hr, hrsign⟩
      -- The operation is nested no more deeply than the text was, which has passed the limit.
      have hnesting := PostOrder.nesting_of_mem_nodes hnode
      have hdepth := nesting_le_maxDepth htree
      simp only [Expr.nesting] at hnesting
      have hvalue := h.value
      rw [Operator.symbol_of_ofSymbol? h.found] at hvalue
      rcases solve_calculation (settings.withLimits length settings.maxDepth) places' hl hr hlplain
        hrplain hvalue hlength (by rw [maxDepth_withLimits]; omega) with
        ⟨again, hsolve, hagain, hlast⟩
      exact ⟨again, hsolve, hagain, by rw [hlast]; rfl⟩

end Steps

/-- With a library to be relied on, the steps of a solved text check themselves. Apart from the
    last, each of them is the step of one operation of the tree, in post-order, and each that
    belongs to a binary operation can be checked by solving its left side. -/
theorem solve_recheck {library : Numerics} (hlibrary : library.Reliable) {settings : Settings}
    {places : Option Int} {text : String} {result : Evaluation}
    (h : solve settings places text = .ok result) :
    ∃ tree, parseText settings text = .ok tree ∧
      List.Forall₂ (fun node step => PostOrder.Records settings places node step ∧
        Rechecks settings places node step)
        (PostOrder.operationNodes tree) result.steps.dropLast :=
  forall_steps_of_solve h (rechecks_of_records hlibrary)

/-- The steps of `(2-5)*3` can be checked, and the second has a negative number on the
    left of its operator. -/
theorem solve_recheck_product :
    ∃ result tree, solve Settings.defaults none "(2-5)*3" = .ok result ∧
      result.steps.map Step.calculation = ["2 - 5 = -3", "-3 * 3 = -9", "(2-5)*3 = -9"] ∧
      parseText Settings.defaults "(2-5)*3" = .ok tree ∧
      List.Forall₂ (fun node step => PostOrder.Records Settings.defaults none node step ∧
        Rechecks Settings.defaults none node step)
        (PostOrder.operationNodes tree) result.steps.dropLast := by
  have hshown : (solve Settings.defaults none "(2-5)*3").map
      (fun result => result.steps.map Step.calculation) =
        .ok ["2 - 5 = -3", "-3 * 3 = -9", "(2-5)*3 = -9"] := by decide +kernel
  cases hsolve : solve Settings.defaults none "(2-5)*3" with
  | error e =>
      rw [hsolve] at hshown
      cases hshown
  | ok result =>
      rw [hsolve] at hshown
      rcases solve_recheck Numerics.reference_reliable hsolve with ⟨tree, htree, hsteps⟩
      exact ⟨result, tree, rfl, Except.ok.inj hshown, htree, hsteps⟩

end Reckoner
