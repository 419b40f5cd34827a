import Mathlib
import Reckoner.Proofs.Evaluation.PostOrder
import Reckoner.Proofs.Solve.Shape

/-!
# Precision Is for Display

Solving the same text twice, with two numbers of decimal places. What is handed
from one operation to the next is the value, never the numeral that stands for it
in a step, so the two calculations go the same way. They end in the same error, or
with the same value and the same steps, up to how the results of named functions
are written (`Step.SameButShown`).

The two runs go side by side through the tree. An operation on the same operands
is the same in both, and what it adds to the steps differs in one place only, the
numeral of a function's result. Nothing that comes later reads a step.

A number of decimal places that the formatter does not take is the exception
(`Unwritable`). Such a run ends where the first function is, and what comes after
it is never found out. `precision_hugePlaces` has one run that ends so and one that
comes to a division by zero.

## Main definitions

* `Step.SameButShown`: Two steps that differ in the numeral of a function's result.
* `SameButShown`: Two outcomes that differ in nothing but such steps.
* `Unwritable`: The outcome is that a step cannot be written.
* `RunAlike`: Two runs are the same but for numerals, or one of them is unwritable.

## Theorems

* `ofUnary_sameButShown`: The steps of a function, written twice.
* `evaluateTree_runAlike`, `solve_runAlike`: A tree and a text, run twice.
* `solve_sameButShown`: A text, solved twice.
-/

namespace Reckoner

/-- The steps are the same, except that in the step of a named function what comes after
    the equals sign may be another numeral. -/
structure Step.SameButShown (s t : Step) : Prop where
  description : s.description = t.description
  explanation : s.explanation = t.explanation
  calculation : s.calculation = t.calculation ∨
    ∃ f ∈ Unary.named, ∃ (argument : Double) (shown other : String),
      s.calculation = s!"{f.calculation argument} = {shown}" ∧
        t.calculation = s!"{f.calculation argument} = {other}"

/-- The same error, or the same value and the same steps but for numerals. -/
inductive SameButShown : Except Failure Evaluation → Except Failure Evaluation → Prop
  | error (e : Failure) : SameButShown (.error e) (.error e)
  | ok {r r' : Evaluation} (hvalue : r.value = r'.value)
      (hsteps : List.Forall₂ Step.SameButShown r.steps r'.steps) : SameButShown (.ok r) (.ok r')

/-- The outcome is that a step cannot be written with so many decimal places. -/
def Unwritable (places : Int) (o : Except Failure Evaluation) : Prop :=
  ∃ fault : PlacesFault, fault.Blames places ∧ o = .error (.fault (.places fault))

/-- Two runs of the same calculation, with different numbers of decimal places: one of
    them cannot be written, or they are the same but for numerals. -/
def RunAlike (p p' : Int) (o o' : Except Failure Evaluation) : Prop :=
  Unwritable p o ∨ Unwritable p' o' ∨ SameButShown o o'

theorem Step.sameButShown_refl (s : Step) : s.SameButShown s := ⟨rfl, rfl, .inl rfl⟩

theorem forall₂_sameButShown_refl (steps : List Step) :
    List.Forall₂ Step.SameButShown steps steps :=
  List.forall₂_same.2 fun s _ => s.sameButShown_refl

/-- A formatter that accepts the number of decimal places is never to blame. -/
theorem not_unwritable {places : Int} {o : Except Failure Evaluation} (hlow : 0 ≤ places)
    (hhigh : places ≤ maxHalfWord) : ¬ Unwritable places o := by
  have hword : maxHalfWord < maxWord := by decide
  rintro ⟨fault, hblames, _⟩
  cases fault <;> simp only [PlacesFault.Blames] at hblames <;> omega

/-- Two runs go on alike, if they do so from the same value. -/
theorem RunAlike.bind {p p' : Int} {o o' : Except Failure Evaluation}
    {next next' : Evaluation → Except Failure Evaluation} (h : RunAlike p p' o o')
    (hnext : ∀ r r', r.value = r'.value → List.Forall₂ Step.SameButShown r.steps r'.steps →
      RunAlike p p' (next r) (next' r')) :
    RunAlike p p' (o.bind next) (o'.bind next') := by
  rcases h with ⟨fault, hblames, rfl⟩ | ⟨fault, hblames, rfl⟩ | h
  · exact .inl ⟨fault, hblames, rfl⟩
  · exact .inr (.inl ⟨fault, hblames, rfl⟩)
  · cases h with
    | error e => exact .inr (.inr (.error e))
    | ok hvalue hsteps => exact hnext _ _ hvalue hsteps

/-- Steps that two runs have taken before are in front of those that they take next. -/
theorem RunAlike.after {p p' : Int} {before before' : List Step} {o o' : Except Failure Evaluation}
    (hsteps : List.Forall₂ Step.SameButShown before before') (h : RunAlike p p' o o') :
    RunAlike p p' (o.map fun r => ⟨r.value, before ++ r.steps⟩)
      (o'.map fun r => ⟨r.value, before' ++ r.steps⟩) := by
  rcases h with ⟨fault, hblames, rfl⟩ | ⟨fault, hblames, rfl⟩ | h
  · exact .inl ⟨fault, hblames, rfl⟩
  · exact .inr (.inl ⟨fault, hblames, rfl⟩)
  · cases h with
    | error e => exact .inr (.inr (.error e))
    | ok hvalue hnext => exact .inr (.inr (.ok hvalue (List.rel_append hsteps hnext)))

theorem mem_named_of_ne {f : Unary} (h : f ≠ .negate) : f ∈ Unary.named := by
  cases f <;> simp_all [Unary.named]

/-- The step of a named function is settled up to the numeral of its result. -/
theorem ofUnary_of_ne {f : Unary} (hf : f ≠ .negate) (places : Int) (x value : Double) :
    Step.ofUnary places f x value = (fixedNumeral value places).map fun shown =>
      ⟨s!"{(Step.wording f x).1}: {f.calculation x}", s!"{f.calculation x} = {shown}",
        (Step.wording f x).2⟩ := by
  cases f with
  | negate => exact absurd rfl hf
  | _ => rfl

/-- The step of a function, written with two numbers of decimal places. -/
theorem ofUnary_sameButShown {p p' : Int} {f : Unary} {x value : Double} {s s' : Step}
    (hs : Step.ofUnary p f x value = .ok s) (hs' : Step.ofUnary p' f x value = .ok s') :
    s.SameButShown s' := by
  by_cases hf : f = .negate
  · -- A negation shows its result compactly, so the number is not asked for.
    subst hf
    cases hs
    cases hs'
    exact Step.sameButShown_refl _
  · rw [ofUnary_of_ne hf] at hs hs'
    cases hshown : fixedNumeral value p with
    | error fault =>
        rw [hshown] at hs
        cases hs
    | ok shown =>
        cases hother : fixedNumeral value p' with
        | error fault =>
            rw [hother] at hs'
            cases hs'
        | ok other =>
            rw [hshown] at hs
            rw [hother] at hs'
            cases hs
            cases hs'
            exact ⟨rfl, rfl, .inr ⟨f, mem_named_of_ne hf, x, shown, other, rfl, rfl⟩⟩

namespace PostOrder

variable {settings : Settings} {places places' : Option Int}

/-- A function of the same number, applied in both runs. -/
theorem callOn_runAlike [Numerics] (settings : Settings) (places places' : Option Int)
    (name : String) (x : Double) :
    RunAlike (settings.places places) (settings.places places')
      (callOn settings places name ⟨x, []⟩) (callOn settings places' name ⟨x, []⟩) := by
  cases hvalue : applyFunction name x with
  | error e =>
      rw [callOn_of_error (by exact hvalue), callOn_of_error (by exact hvalue)]
      exact .inr (.inr (.error e))
  | ok value =>
      rcases exists_of_applyFunction hvalue with ⟨f, hf⟩
      rw [callOn_of_ok hf (by exact hvalue), callOn_of_ok hf (by exact hvalue)]
      cases hs : Step.ofUnary (settings.places places) f x value with
      | error fault => exact .inl ⟨fault, (Step.ofUnary_eq_error_iff.1 hs).2, rfl⟩
      | ok s =>
          cases hs' : Step.ofUnary (settings.places places') f x value with
          | error fault => exact .inr (.inl ⟨fault, (Step.ofUnary_eq_error_iff.1 hs').2, rfl⟩)
          | ok s' => exact .inr (.inr (.ok rfl (.cons (ofUnary_sameButShown hs hs') .nil)))

/-- An operator on the same numbers, which has nothing to ask about decimal places. -/
theorem operate_runAlike (p p' : Int) (symbol : String) (grouped : Bool) (x y : Double) :
    RunAlike p p' (operate symbol grouped ⟨x, []⟩ ⟨y, []⟩)
      (operate symbol grouped ⟨x, []⟩ ⟨y, []⟩) := by
  cases operate symbol grouped ⟨x, []⟩ ⟨y, []⟩ with
  | error e => exact .inr (.inr (.error e))
  | ok result => exact .inr (.inr (.ok rfl (forall₂_sameButShown_refl result.steps)))

theorem evaluateTree_binary_bind [Numerics] (settings : Settings) (places : Option Int)
    (symbol : String) (left right : Expr) (grouped : Bool) :
    evaluateTree settings places (.binary symbol left right grouped) =
      (evaluateTree settings places left).bind fun l =>
        (evaluateTree settings places right).bind fun r => operate symbol grouped l r := by
  rw [evaluateTree_binary]
  cases evaluateTree settings places left with
  | error e => rfl
  | ok l =>
      simp only [Except.bind]
      cases evaluateTree settings places right <;> rfl

theorem evaluateTree_apply_bind [Numerics] (settings : Settings) (places : Option Int)
    (name : String) (argument : Expr) :
    evaluateTree settings places (.apply name argument) =
      (evaluateTree settings places argument).bind fun a => callOn settings places name a := by
  rw [evaluateTree_apply]
  cases evaluateTree settings places argument <;> rfl

/-- A tree, evaluated in both runs. -/
theorem evaluateTree_runAlike [Numerics] (settings : Settings) (places places' : Option Int)
    (tree : Expr) :
    RunAlike (settings.places places) (settings.places places')
      (evaluateTree settings places tree) (evaluateTree settings places' tree) := by
  -- Induction on the tree. The operands have the same values in both runs, and so the operation
  -- at the root is applied to the same numbers.
  induction tree with
  | literal value =>
      cases value with
      | none => exact .inr (.inr (.error _))
      | some value => exact .inr (.inr (.ok rfl .nil))
  | foreign shown => exact .inr (.inr (.error _))
  | binary symbol left right grouped ihleft ihright =>
      rw [evaluateTree_binary_bind, evaluateTree_binary_bind]
      refine ihleft.bind fun l l' hl hlsteps => ihright.bind fun r r' hr hrsteps => ?_
      rw [operate_alone symbol grouped l r, operate_alone symbol grouped l' r', hl, hr]
      exact (operate_runAlike _ _ symbol grouped l'.value r'.value).after
        (List.rel_append hlsteps hrsteps)
  | apply name argument ih =>
      rw [evaluateTree_apply_bind, evaluateTree_apply_bind]
      refine ih.bind fun a a' ha hsteps => ?_
      rw [callOn_alone name a, callOn_alone name a', ha]
      exact (callOn_runAlike settings places places' name a'.value).after hsteps

end PostOrder

/-- Only the last stage of a solution knows of decimal places. -/
theorem solve_bind [Numerics] (settings : Settings) (places : Option Int) (text : String) :
    solve settings places text =
      (precheck settings text).bind fun _ => (parseText settings text).bind fun tree =>
        (evaluateTree settings places tree).bind fun result => .ok (result.close text) := rfl

/-- A text, solved in both runs. -/
theorem solve_runAlike [Numerics] (settings : Settings) (places places' : Option Int)
    (text : String) :
    RunAlike (settings.places places) (settings.places places')
      (solve settings places text) (solve settings places' text) := by
  rw [solve_bind, solve_bind]
  cases precheck settings text with
  | error e => exact .inr (.inr (.error e))
  | ok _ =>
      cases parseText settings text with
      | error e => exact .inr (.inr (.error e))
      | ok tree =>
          refine (PostOrder.evaluateTree_runAlike settings places places' tree).bind ?_
          intro r r' hvalue hsteps
          -- The closing step shows the value compactly, and the value is the same.
          refine .inr (.inr (.ok hvalue (List.rel_append hsteps ?_)))
          rw [hvalue]
          exact forall₂_sameButShown_refl _

/-- The number of decimal places changes nothing but how the results of named functions
    are written, as long as the formatter takes it. If it does not, a run can end
    there, and that is the only other thing that can happen. -/
theorem solve_sameButShown [Numerics] (settings : Settings) (places places' : Option Int)
    (text : String) :
    (0 ≤ settings.places places → settings.places places ≤ maxHalfWord →
      0 ≤ settings.places places' → settings.places places' ≤ maxHalfWord →
      SameButShown (solve settings places text) (solve settings places' text)) ∧
    (Unwritable (settings.places places) (solve settings places text) ∨
      Unwritable (settings.places places') (solve settings places' text) ∨
      SameButShown (solve settings places text) (solve settings places' text)) := by
  have halike := solve_runAlike settings places places' text
  refine ⟨fun hlow hhigh hlow' hhigh' => ?_, halike⟩
  exact (halike.resolve_left (not_unwritable hlow hhigh)).resolve_left (not_unwritable hlow' hhigh')

/-- A sine written with two and with eight decimal places. -/
theorem solve_sameButShown_sine :
    0 ≤ Settings.defaults.places (some 2) ∧ Settings.defaults.places (some 2) ≤ maxHalfWord ∧
      0 ≤ Settings.defaults.places (some 8) ∧ Settings.defaults.places (some 8) ≤ maxHalfWord ∧
      SameButShown (solve Settings.defaults (some 2) "sin(10)+1")
        (solve Settings.defaults (some 8) "sin(10)+1") :=
  ⟨by decide, by decide, by decide, by decide,
    (solve_sameButShown Settings.defaults (some 2) (some 8) "sin(10)+1").1 (by decide) (by decide)
      (by decide) (by decide)⟩

/-- With one decimal place too many the root in `sqrt(4)/0` is the end of it, and with six
    it is the division. -/
theorem precision_hugePlaces :
    0 ≤ Settings.defaults.places (some (maxHalfWord + 1)) ∧
      0 ≤ Settings.defaults.places (some 6) ∧
      ¬ SameButShown (solve Settings.defaults (some (maxHalfWord + 1)) "sqrt(4)/0")
        (solve Settings.defaults (some 6) "sqrt(4)/0") := by
  have hfirst : solve Settings.defaults (some (maxHalfWord + 1)) "sqrt(4)/0" =
      .error (.fault (.places .tooMany)) := by decide +kernel
  have hsecond : solve Settings.defaults (some 6) "sqrt(4)/0" =
      .error (.rejection (.math (.divisionByZero "2 / 0"))) := by decide +kernel
  refine ⟨by decide, by decide, ?_⟩
  rw [hfirst, hsecond]
  nofun

end Reckoner
