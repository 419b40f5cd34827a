import Mathlib
import Reckoner.Proofs.Number.NegativeZero
import Reckoner.Proofs.Solve.Precision
import Reckoner.Proofs.Solve.Recheck

/-!
# Negative Zeros in Steps

Which steps show a negative zero. A step is put together from words and numbers, and its
text is looked through piece by piece. A number in it ends before the next word does, and
no word has a minus with zeros after it. So it comes down to the numbers. Those that are
shown compactly are never negative zeros, and that is all that there is in the step of an
operator or of a negation.

The result of a named function is shown with decimal places. It has been rounded for that,
and a negative value that is rounded to zero still has its minus. That is the one exception,
and it is exact: the step of a named function shows a negative zero if its value is negative
and at most half a unit of the last decimal place, or has so many digits with the decimal
places asked for that none of them is shown.

## Main definitions

* `Step.ShowsNegativeZero`: A text of the step has a negative zero in it.
* `ZeroSigned`: The step of a node shows a negative zero in the one case only.

## Theorems

* `shows_number`, `shows_calculation`, `shows_call`: The pieces of a step.
* `Step.not_shows_ofOperator`, `Step.shows_ofUnary_iff`: The steps of one operation.
* `solve_negativeZeros`: The steps of a solved text.
-/

namespace Reckoner

/-- Somewhere in the step there is a negative zero. -/
def Step.ShowsNegativeZero (s : Step) : Prop :=
  Text.ShowsNegativeZero s.description.toList ∨ Text.ShowsNegativeZero s.calculation.toList ∨
    Text.ShowsNegativeZero s.explanation.toList

namespace Text

open Lexical Numeral

variable {rest : List Char}

/-- A word starts with a character that does not continue a number. -/
theorem clear_word {word : List Char} {c : Char} (hword : word.head? = some c)
    (hc : isNumeral c = false) (rest : List Char) : Clear isNumeral (word ++ rest) := by
  rcases List.head?_eq_some_iff.1 hword with ⟨cs, rfl⟩
  rintro d ⟨⟩
  exact hc

/-- A number is skipped if nothing continues it. -/
theorem shows_number (x : Double) (hclear : Clear isNumeral rest) :
    ShowsNegativeZero (x.compact.toList ++ rest) ↔ ShowsNegativeZero rest := by
  rw [shows_append hclear, or_iff_right (not_shows_compact x)]

/-- So is an operation. A minus that is an operator has a blank after it. -/
theorem shows_calculation (op : Operator) (l r : Double) (hclear : Clear isNumeral rest) :
    ShowsNegativeZero ((op.calculation l r).toList ++ rest) ↔ ShowsNegativeZero rest := by
  have hsymbol : ¬ ShowsNegativeZero op.symbol.toList := by
    cases op with
    | subtract =>
        have hminus : Operator.subtract.symbol.toList = ['-'] := rfl
        rw [hminus, shows_cons]
        rintro (⟨-, hzero⟩ | hnil)
        · rcases head_of_startsInZero hzero with hhead | hhead <;> cases hhead
        · exact not_shows_nil hnil
    | add | multiply | divide | power => exact not_shows_of_not_mem (by decide)
  have hblank : ∀ cs, Clear isNumeral (" ".toList ++ cs) := clear_word rfl rfl
  have hpieces : (op.calculation l r).toList ++ rest = l.compact.toList ++ (" ".toList ++
      (op.symbol.toList ++ (" ".toList ++ (r.compact.toList ++ rest)))) := by
    simp only [Operator.calculation, String.toList_append, List.append_assoc]
    rfl
  rw [hpieces, shows_number l (hblank _), shows_plain (by decide), shows_append (hblank _),
    or_iff_right hsymbol, shows_plain (by decide), shows_number r hclear]

/-- So is a function with its argument. -/
theorem shows_call (f : Unary) (x : Double) (rest : List Char) :
    ShowsNegativeZero ((f.calculation x).toList ++ rest) ↔ ShowsNegativeZero rest := by
  have hname : '-' ∉ f.name.toList := by
    cases f <;> decide
  have hpieces : ∃ close : String, close.toList.head? ∈ [some '°', some ')'] ∧
      '-' ∉ close.toList ∧ (f.calculation x).toList ++ rest = f.name.toList ++ ("(".toList ++
        (x.compact.toList ++ (close.toList ++ rest))) := by
    rw [Unary.calculation]
    split
    · refine ⟨"°)", by decide, by decide, ?_⟩
      simp only [String.toList_append, List.append_assoc]
      rfl
    · refine ⟨")", by decide, by decide, ?_⟩
      simp only [String.toList_append, List.append_assoc]
      rfl
  rcases hpieces with ⟨close, hhead, hclose, hpieces⟩
  have hclear : Clear isNumeral (close.toList ++ rest) := by
    rcases List.mem_pair.1 hhead with hhead | hhead
    · exact clear_word hhead rfl rest
    · exact clear_word hhead rfl rest
  rw [hpieces, shows_plain hname, shows_plain (by decide), shows_number x hclear,
    shows_plain hclose]

/-- A text that ends in a number, after words. -/
theorem not_shows_number_last (x : Double) {words : List Char} (h : '-' ∉ words) :
    ¬ ShowsNegativeZero (words ++ x.compact.toList) := by
  rw [shows_plain h]
  exact not_shows_compact x

theorem not_shows_calculation_last (op : Operator) (l r : Double) {words : List Char}
    (h : '-' ∉ words) : ¬ ShowsNegativeZero (words ++ (op.calculation l r).toList) := by
  rw [shows_plain h, ← List.append_nil (op.calculation l r).toList,
    shows_calculation op l r (by rintro c ⟨⟩)]
  exact not_shows_nil

theorem not_shows_call_last (f : Unary) (x : Double) {words : List Char} (h : '-' ∉ words) :
    ¬ ShowsNegativeZero (words ++ (f.calculation x).toList) := by
  rw [shows_plain h, ← List.append_nil (f.calculation x).toList, shows_call]
  exact not_shows_nil

end Text

section Steps

open Text

variable {places : Int} {f : Unary} {x value : Double} {step : Step} {v : Rat}

/-- The operands of an operator in words. -/
theorem Step.shows_explanation (op : Operator) (l r value : Double) {rest : List Char}
    (hclear : Lexical.Clear Numeral.isNumeral rest) : Text.ShowsNegativeZero
      ((Step.ofOperator op l r value false).explanation.toList ++ rest) ↔
        Text.ShowsNegativeZero rest := by
  have hblank : ∀ cs, Lexical.Clear Numeral.isNumeral (" ".toList ++ cs) := clear_word rfl rfl
  have hphrase : '-' ∉ op.phrase.toList := by cases op <;> decide
  have hpieces : (Step.ofOperator op l r value false).explanation.toList ++ rest =
      l.compact.toList ++ (" ".toList ++ (op.phrase.toList ++ (" ".toList ++
        (r.compact.toList ++ rest)))) := by
    simp only [Step.ofOperator, Bool.false_eq_true, if_false, String.toList_append,
      List.append_assoc]
    rfl
  rw [hpieces, shows_number l (hblank _), shows_plain (by decide), shows_plain hphrase,
    shows_plain (by decide), shows_number r hclear]

/-- The step of an operator does not show a negative zero. -/
theorem Step.not_shows_ofOperator (op : Operator) (l r value : Double) (grouped : Bool) :
    ¬ (Step.ofOperator op l r value grouped).ShowsNegativeZero := by
  rintro (h | h | h)
  · have hpieces : (Step.ofOperator op l r value grouped).description.toList =
        (op.title.toList ++ ": ".toList) ++ (op.calculation l r).toList := by
      simp only [Step.ofOperator, String.toList_append]
      rfl
    rw [hpieces] at h
    exact not_shows_calculation_last op l r (by cases op <;> decide) h
  · have hpieces : (Step.ofOperator op l r value grouped).calculation.toList =
        (op.calculation l r).toList ++ (" = ".toList ++ value.compact.toList) := by
      simp only [Step.ofOperator, String.toList_append, List.append_assoc]
      rfl
    rw [hpieces, shows_calculation op l r (clear_word rfl rfl _)] at h
    exact not_shows_number_last value (by decide) h
  · cases grouped with
    | false =>
        rw [← List.append_nil (Step.explanation _).toList,
          Step.shows_explanation op l r value (by rintro c ⟨⟩)] at h
        exact not_shows_nil h
    | true =>
        have hnote : (Step.ofOperator op l r value true).explanation =
            (Step.ofOperator op l r value false).explanation ++ "; " ++ Step.parenthesesNote := rfl
        rw [hnote, String.toList_append, String.toList_append, List.append_assoc,
          Step.shows_explanation op l r value (clear_word rfl rfl _)] at h
        exact not_shows_of_not_mem (by decide) h

/-- The words of a function's step have no negative zero in them, and neither has the
    argument. -/
theorem Step.not_shows_wording (f : Unary) (x : Double) :
    '-' ∉ (Step.wording f x).1.toList ∧ ¬ Text.ShowsNegativeZero (Step.wording f x).2.toList := by
  have hdegrees : ∀ {words : String}, '-' ∉ words.toList → ¬ Text.ShowsNegativeZero
      (words.toList ++ (" of ".toList ++ (x.compact.toList ++ " degrees".toList))) := by
    intro words hwords
    rw [shows_plain hwords, shows_plain (by decide), shows_number x (by rintro c ⟨⟩; rfl)]
    exact not_shows_of_not_mem (by decide)
  -- The base of a logarithm comes after a minus, and it does not start with a zero.
  have hbase : ¬ Text.ShowsNegativeZero
      ("Base-10 logarithm of ".toList ++ x.compact.toList) := by
    have hminus : "Base-10 logarithm of ".toList =
        "Base".toList ++ '-' :: "10 logarithm of ".toList := rfl
    rw [hminus, List.append_assoc, shows_plain (by decide), List.cons_append, shows_cons]
    rintro (⟨-, hzero⟩ | hlater)
    · rcases head_of_startsInZero hzero with hhead | hhead <;> cases hhead
    · exact not_shows_number_last x (by decide) hlater
  cases f with
  | negate =>
      refine ⟨by simp only [Step.wording]; decide, ?_⟩
      simp only [Step.wording, String.toList_append]
      exact not_shows_number_last x (by decide)
  | squareRoot =>
      refine ⟨by simp only [Step.wording]; decide, ?_⟩
      simp only [Step.wording, String.toList_append]
      exact not_shows_number_last x (by decide)
  | naturalLog =>
      refine ⟨by simp only [Step.wording]; decide, ?_⟩
      simp only [Step.wording, String.toList_append]
      exact not_shows_number_last x (by decide)
  | decimalLog =>
      refine ⟨by simp only [Step.wording]; decide, ?_⟩
      simp only [Step.wording, String.toList_append]
      exact hbase
  | sine | cosine | tangent =>
      refine ⟨by simp only [Step.wording]; decide, ?_⟩
      simp only [Step.wording, String.toList_append, List.append_assoc]
      exact hdegrees (by decide)

/-- A numeral that the formatter writes is that of the value. -/
theorem eq_of_fixedNumeral {shown : String} (h : fixedNumeral x places = .ok shown) :
    shown = x.counted places.toNat := by
  rw [fixedNumeral] at h
  split_ifs at h
  cases h
  rfl

/-- The step of a function shows a negative zero if its value is shown with decimal places,
    is negative, and is rounded to zero or has too many digits. -/
theorem Step.shows_ofUnary_iff (hstep : Step.ofUnary places f x value = .ok step)
    (hv : value.toRat? = some v) : step.ShowsNegativeZero ↔
      f ≠ .negate ∧ v < 0 ∧
        (|v| * (10 : Rat) ^ places.toNat ≤ 1 / 2 ∨ ¬ HasRoom v places.toNat) := by
  rcases Step.not_shows_wording f x with ⟨htitle, hwording⟩
  -- Only what comes after the equals sign differs between functions.
  have hshows : ∀ shown : String,
      (⟨s!"{(Step.wording f x).1}: {f.calculation x}", s!"{f.calculation x} = {shown}",
        (Step.wording f x).2⟩ : Step).ShowsNegativeZero ↔ Text.ShowsNegativeZero shown.toList := by
    intro shown
    have hwords : '-' ∉ (Step.wording f x).1.toList ++ ": ".toList := by
      rw [List.mem_append, not_or]
      exact ⟨htitle, by decide⟩
    have hdescription : ¬ Text.ShowsNegativeZero
        (s!"{(Step.wording f x).1}: {f.calculation x}").toList := by
      rw [String.toList_append, String.toList_append]
      exact not_shows_call_last f x hwords
    have hcalculation : (s!"{f.calculation x} = {shown}").toList =
        (f.calculation x).toList ++ (" = ".toList ++ shown.toList) := by
      simp only [String.toList_append, List.append_assoc]
      rfl
    rw [Step.ShowsNegativeZero, or_iff_right hdescription, or_iff_left hwording, hcalculation,
      shows_call, shows_plain (by decide)]
  by_cases hf : f = .negate
  · subst hf
    cases hstep
    refine iff_of_false ((hshows value.compact).not.2 (not_shows_compact value)) ?_
    exact fun h => h.1 rfl
  · rw [ofUnary_of_ne hf] at hstep
    cases hshown : fixedNumeral value places with
    | error fault =>
        rw [hshown] at hstep
        cases hstep
    | ok shown =>
        rw [hshown] at hstep
        cases hstep
        rw [hshows, eq_of_fixedNumeral hshown, shows_counted_iff hv]
        exact (and_iff_right hf).symm

end Steps

section Solved

open Text

variable {settings : Settings} {places : Option Int} {tokens : List Token} {tree n : Expr}

/-- Among the steps only that of a named function shows a negative zero, and only if its
    value is negative and at most half a unit of the last decimal place, or has too many
    digits. -/
def ZeroSigned [Numerics] (settings : Settings) (places : Option Int) : Expr → Step → Prop
  | .apply name argument, step =>
    ∃ f a value v, PostOrder.Applies settings places name argument f a value ∧
      value.toRat? = some v ∧
      (step.ShowsNegativeZero ↔
        f ≠ .negate ∧ v < 0 ∧ (|v| * (10 : Rat) ^ (settings.places places).toNat ≤ 1 / 2 ∨
          ¬ HasRoom v (settings.places places).toNat))
  | _, step => ¬ step.ShowsNegativeZero

/-- The value of a function on a finite number is a finite number. -/
theorem exists_toRat?_of_applyFunction {library : Numerics} (hlibrary : library.Reliable)
    {name : String} {a value : Double} (ha : a.Clean) (h : applyFunction name a = .ok value) :
    ∃ v, value.toRat? = some v := by
  rcases PostOrder.exists_of_applyFunction h with ⟨f, hf⟩
  simp only [applyFunction, hf] at h
  rcases Unary.calculate_settles (f := f) hlibrary ha.1 with
    ⟨result, hresult, hclean⟩ | ⟨e, he⟩
  · simp only [hresult] at h
    cases h
    exact Double.exists_toRat? hclean.1
  · simp only [he] at h
    cases h

/-- The step of every operation in the tree of a text. -/
theorem zeroSigned_of_records {library : Numerics} (hlibrary : library.Reliable) {text : String}
    {step : Step} (htokens : tokenize text = .ok tokens)
    (htree : parseTokens settings tokens = .ok tree) (hn : n ∈ PostOrder.operationNodes tree)
    (h : PostOrder.Records settings places n step) : ZeroSigned settings places n step := by
  cases h with
  | binary _ => exact Step.not_shows_ofOperator _ _ _ _ _
  | @apply name argument f a value step h hstep =>
      have hnode := List.mem_of_mem_filter hn
      have hclean := PostOrder.clean_of_mem_nodes (PostOrder.clean_of_scan htokens htree) hnode
      rcases h.argument with ⟨steps, hargument⟩
      have ha : a.Clean :=
        Expr.value_clean hlibrary hclean.argument (mapError_eq_ok_iff.1 hargument)
      rcases exists_toRat?_of_applyFunction hlibrary ha h.value with ⟨v, hv⟩
      exact ⟨f, a, value, v, h, hv, Step.shows_ofUnary_iff hstep hv⟩

/-- With a library to be relied on, the steps of a solved text show what is zero without a
    sign, with one exception. The result of a named function is shown as a negative zero where
    its value is negative and is rounded to zero for display, or where it has more digits than
    can be counted. -/
theorem solve_negativeZeros {library : Numerics} (hlibrary : library.Reliable) {text : String}
    {result : Evaluation} (h : solve settings places text = .ok result) :
    ∃ tree, parseText settings text = .ok tree ∧
      List.Forall₂ (fun node step => PostOrder.Records settings places node step ∧
        ZeroSigned settings places node step)
        (PostOrder.operationNodes tree) result.steps.dropLast :=
  forall_steps_of_solve h (zeroSigned_of_records hlibrary)

/-- The steps of `ln(0.5)-1` have negative numbers in them, and none of them is a zero. -/
theorem solve_negativeZeros_logarithm :
    ∃ result tree, solve Settings.defaults none "ln(0.5)-1" = .ok result ∧
      result.steps.map Step.calculation = ["ln(0.5) = -0.693147",
        "-0.6931471805599453 - 1 = -1.6931471805599454", "ln(0.5)-1 = -1.6931471805599454"] ∧
      parseText Settings.defaults "ln(0.5)-1" = .ok tree ∧
      List.Forall₂ (fun node step => PostOrder.Records Settings.defaults none node step ∧
        ZeroSigned Settings.defaults none node step)
        (PostOrder.operationNodes tree) result.steps.dropLast := by
  have hshown : (solve Settings.defaults none "ln(0.5)-1").map
      (fun result => result.steps.map Step.calculation) =
        .ok ["ln(0.5) = -0.693147", "-0.6931471805599453 - 1 = -1.6931471805599454",
          "ln(0.5)-1 = -1.6931471805599454"] := by decide +kernel
  cases hsolve : solve Settings.defaults none "ln(0.5)-1" with
  | error e =>
      rw [hsolve] at hshown
      cases hshown
  | ok result =>
      rw [hsolve] at hshown
      rcases solve_negativeZeros Numerics.reference_reliable hsolve with ⟨tree, htree, hsteps⟩
      exact ⟨result, tree, rfl, Except.ok.inj hshown, htree, hsteps⟩

/-- The exception: a small logarithm is shown as a negative zero. -/
theorem negativeZero_shown :
    ∃ result, solve Settings.defaults none "ln(0.9999999)" = .ok result ∧
      ∃ step ∈ result.steps.dropLast, step.calculation = "ln(0.9999999) = -0.000000" ∧
        step.ShowsNegativeZero := by
  have hshown : (solve Settings.defaults none "ln(0.9999999)").map
      (fun result => result.steps.dropLast.map Step.calculation) =
        .ok ["ln(0.9999999) = -0.000000"] := by decide +kernel
  cases hsolve : solve Settings.defaults none "ln(0.9999999)" with
  | error e =>
      rw [hsolve] at hshown
      cases hshown
  | ok result =>
      rw [hsolve] at hshown
      have hsteps := Except.ok.inj hshown
      rcases List.map_eq_singleton_iff.1 hsteps with ⟨step, hstep, hcalculation⟩
      refine ⟨result, rfl, step, by rw [hstep]; exact .head _, hcalculation, .inr (.inl ?_)⟩
      rw [hcalculation]
      have hzeros : ∀ c ∈ '0' :: '.' :: List.replicate 6 '0', c = '0' ∨ c = '.' := by simp
      exact ⟨"ln(0.9999999) = ".toList, _, rfl,
        (startsInZero_iff (isNumeral_of_zeros hzeros)).2 ⟨.head _, hzeros⟩⟩

end Solved

end Reckoner
