import Mathlib
import Reckoner.Failure
import Reckoner.Proofs.Grammar.Acceptance
import Reckoner.Proofs.Grammar.Halt
import Reckoner.Proofs.Scan.Segmentation
import Reckoner.Proofs.Solve.Shape
import Reckoner.Proofs.Text.Line

/-!
# Messages on One Line

Messages about rejected texts quote them without any care. They repeat a character, a
word, a number or a token as it stands in the text, so it has to be seen from each of
them that it cannot end a line. What is repeated by the scanner and the parser has no
blanks, because blanks are skipped and everything else is read as far as it is legible
(`ScanError.excerpt`, `GrammarError.excerpt`). What is repeated by the evaluator is a
calculation, and that is made of numerals (`MathError.calculation`).

## Main definitions

* `ScanError.excerpt`, `GrammarError.excerpt`: What an error repeats of a text.
* `MathError.calculation`: The calculation that an error names.

## Theorems

* `unblank_excerpt_of_scanFrom`: The scanner repeats no blanks.
* `excerpt_of_halts`: The parser repeats tokens.
* `calculation_of_calculate`: The evaluator repeats the calculation that failed.
* `oneLine_of_parseText`, `oneLine_of_evaluateTree`: The message about a rejected text is
  on one line.
-/

namespace Reckoner

open Text (OneLine oneLine_literal oneLine_nat oneLine_int)

/-! ## Scanning -/

/-- What a scanning error repeats of the text. -/
def ScanError.excerpt : ScanError → List Char
  | .noFraction literal _ => literal.toList
  | .secondPoint literal _ => literal.toList
  | .noLeadingDigit _ => []
  | .tooLarge _ => []
  | .unknownName word _ => word.toList
  | .unexpected c _ => [c]

/-- No character passes for a blank. -/
def Unblank (cs : List Char) : Prop := ∀ c ∈ cs, Text.isBlank c = false

theorem unblank_append {cs ds : List Char} : Unblank (cs ++ ds) ↔ Unblank cs ∧ Unblank ds :=
  List.forall_mem_append

namespace Lexical

theorem unblank_of_isDigit {cs : List Char} (h : ∀ c ∈ cs, c.isDigit = true) : Unblank cs :=
  fun c hc => isBlank_of_isDigit (h c hc)

theorem unblank_takeWhile_isDigit (cs : List Char) : Unblank (cs.takeWhile Char.isDigit) :=
  unblank_of_isDigit fun _ hc => List.mem_takeWhile_imp hc

section Read

variable {position : Nat} {previous : Option TokenKind} {c : Char} {rest : List Char}
  {e : ScanError}

theorem unblank_excerpt_of_number (hc : c.isDigit = true)
    (h : Lexeme.number position c rest = .error e) : Unblank e.excerpt := by
  have hwhole : Unblank (c :: rest.takeWhile Char.isDigit) :=
    List.forall_mem_cons.2 ⟨isBlank_of_isDigit hc, unblank_takeWhile_isDigit rest⟩
  have hfinite : ∀ {spelling after : List Char} {value : Double}
      {split : c :: rest = spelling ++ after} {nonempty : spelling ≠ []},
      Lexeme.finiteNumber position spelling after value split nonempty = .error e →
        Unblank e.excerpt := by
    intro spelling after value split nonempty h
    simp only [Lexeme.finiteNumber] at h
    split at h <;> cases h
    exact List.forall_mem_nil _
  simp only [Lexeme.number] at h
  split at h
  · rename_i more _
    have hliteral :
        Unblank (c :: rest.takeWhile Char.isDigit ++ '.' :: more.takeWhile Char.isDigit) :=
      unblank_append.2 ⟨hwhole, List.forall_mem_cons.2 ⟨rfl, unblank_takeWhile_isDigit more⟩⟩
    split at h
    · cases h
      simpa only [ScanError.excerpt, String.toList_ofList] using hliteral
    · split at h
      · cases h
        simp only [ScanError.excerpt, String.toList_ofList]
        exact unblank_append.2 ⟨hliteral, List.forall_mem_singleton.2 rfl⟩
      · exact hfinite h
  · exact hfinite h

theorem unblank_excerpt_of_word (hc : c.isAlpha = true)
    (h : Lexeme.word position c rest = .error e) : Unblank e.excerpt := by
  have hletters : Unblank (c :: rest.takeWhile Char.isAlpha) :=
    List.forall_mem_cons.2 ⟨isBlank_of_isAlpha hc, fun d hd =>
      isBlank_of_isAlpha (List.mem_takeWhile_imp hd)⟩
  simp only [Lexeme.word] at h
  split at h
  · cases h
  · split at h <;> cases h
    simpa only [ScanError.excerpt, String.toList_ofList] using hletters

/-- What is not read where a text has no blank is repeated without any. -/
theorem unblank_excerpt_of_read (hc : Text.isBlank c = false)
    (h : Lexeme.read position previous c rest = .error e) : Unblank e.excerpt := by
  simp only [Lexeme.read] at h
  split at h
  · rename_i hdigit
    exact unblank_excerpt_of_number hdigit h
  split at h
  · cases h
    exact List.forall_mem_nil _
  split at h
  · cases h
  split at h
  · cases h
  split at h
  · cases h
  split at h
  · cases h
  split at h
  · cases h
  split at h
  · rename_i halpha
    exact unblank_excerpt_of_word halpha h
  · cases h
    exact List.forall_mem_singleton.2 hc

/-- Blanks are skipped, so an error is always about something else. -/
theorem unblank_excerpt_of_scanFrom {cs : List Char}
    (h : Token.scanFrom position previous cs = .error e) : Unblank e.excerpt := by
  fun_induction Token.scanFrom position previous cs with
  | case1 => cases h
  | case2 position previous c rest hblank ih => exact ih h
  | case3 position previous c rest hblank e' hread =>
      cases h
      exact unblank_excerpt_of_read (by simpa using hblank) hread
  | case4 position previous c rest hblank l hread e' hrest ih =>
      cases h
      exact ih hrest
  | case5 => cases h

end Read

/-- No lexeme has a blank. -/
theorem unblank_of_isLexeme {kind : TokenKind} {spelling after : List Char}
    {value : Option Double} (h : IsLexeme kind spelling value after) : Unblank spelling := by
  cases h with
  | integer _ hdigits _ _ => exact unblank_of_isDigit hdigits
  | decimal _ hdigits _ hfdigits _ _ =>
      exact unblank_append.2 ⟨unblank_of_isDigit hdigits,
        List.forall_mem_cons.2 ⟨rfl, unblank_of_isDigit hfdigits⟩⟩
  | @operator d _ hd =>
      have hplain : ∀ d ∈ ['+', '-', '*', '/', '^'], Text.isBlank d = false := by
        simp [Text.isBlank, Text.blankRanges]
      exact List.forall_mem_singleton.2 (hplain d hd)
  | function hname _ => exact fun c hc => isBlank_of_isAlpha ((function_name_isAlpha hname).2 c hc)
  | constantName _ => exact List.forall_mem_cons.2 ⟨rfl, List.forall_mem_singleton.2 rfl⟩
  | constantSign => exact List.forall_mem_singleton.2 rfl
  | negate => exact List.forall_mem_singleton.2 rfl
  | openParen => exact List.forall_mem_singleton.2 rfl
  | closeParen => exact List.forall_mem_singleton.2 rfl

theorem unblank_text_of_scan {text : String} {tokens : List Token}
    (h : Token.scan text = .ok tokens) : ∀ t ∈ tokens, Unblank t.text.toList := by
  intro t ht
  rcases ((scanFrom_eq_ok_iff _ rfl).1 h).lexemes t ht with ⟨n, after, -, -, hlexeme⟩
  exact unblank_of_isLexeme hlexeme

end Lexical

/-- A scanning error is told on one line. -/
theorem ScanError.oneLine_message {e : ScanError} (h : Unblank e.excerpt) : OneLine e.message := by
  cases e with
  | noFraction literal p =>
      have hliteral : OneLine literal := Text.oneLine_of_not_isBlank h
      exact .append (.append (.append (oneLine_literal rfl) hliteral) (oneLine_literal rfl))
        (oneLine_nat p)
  | secondPoint literal p =>
      have hliteral : OneLine literal := Text.oneLine_of_not_isBlank h
      exact .append (.append (.append (.append (oneLine_literal rfl) hliteral)
        (oneLine_literal rfl)) (oneLine_nat p)) (oneLine_literal rfl)
  | noLeadingDigit p =>
      exact .append (.append (oneLine_literal rfl) (oneLine_nat p)) (oneLine_literal rfl)
  | tooLarge p => exact .append (oneLine_literal rfl) (oneLine_nat p)
  | unknownName word p =>
      have hword : OneLine word := Text.oneLine_of_not_isBlank h
      exact .append (.append (.append (oneLine_literal rfl) hword) (oneLine_literal rfl))
        (oneLine_nat p)
  | unexpected c p =>
      have hc : OneLine (String.ofList [c]) := Text.oneLine_of_not_isBlank (by
        rw [String.toList_ofList]
        exact h)
      exact .append (.append (.append (oneLine_literal rfl) hc) (oneLine_literal rfl))
        (oneLine_nat p)

/-! ## Parsing -/

/-- What an error about tokens repeats of them. -/
def GrammarError.excerpt : GrammarError → Option String
  | .missingParenthesis function _ => some function
  | .missingOperand operator _ => some operator
  | .unexpected text _ => some text
  | _ => none

namespace Grammar

variable {limit stop : Int}

/-- The parser repeats a token that it was given, by induction on its moves. -/
theorem excerpt_of_halts {task : Parse.Task} {ts unread : List Token} {e : GrammarError}
    (h : Parse.Halts limit stop task ts e unread) :
    ∀ s ∈ e.excerpt, ∃ t ∈ ts, t.text = s := by
  induction h with
  | firstFails _ _ ih => exact ih
  | expression _ hfirst _ ih =>
      intro s hs
      rcases ih s hs with ⟨t, hmem, ht⟩
      exact ⟨t, (suffix_of_runs hfirst _ _ rfl).mem hmem, ht⟩
  | rightFails hjoint _ _ _ ih =>
      intro s hs
      rcases ih s hs with ⟨t, hmem, ht⟩
      exact ⟨t, (joint?_suffix hjoint).mem hmem, ht⟩
  | absorb hjoint _ _ hright _ ih =>
      intro s hs
      rcases ih s hs with ⟨t, hmem, ht⟩
      exact ⟨t, ((suffix_of_runs hright _ _ rfl).trans (joint?_suffix hjoint)).mem hmem, ht⟩
  | negation _ _ _ ih =>
      intro s hs
      rcases ih s hs with ⟨t, hmem, ht⟩
      exact ⟨t, List.mem_cons_of_mem _ hmem, ht⟩
  | unsigned _ _ ih => exact ih
  | groupFails _ _ ih =>
      intro s hs
      rcases ih s hs with ⟨t, hmem, ht⟩
      exact ⟨t, List.mem_cons_of_mem _ hmem, ht⟩
  | functionAtEnd _ =>
      rintro s ⟨⟩
      exact ⟨_, List.mem_cons_self, rfl⟩
  | functionBare _ _ =>
      rintro s ⟨⟩
      exact ⟨_, List.mem_cons_self, rfl⟩
  | argumentFails _ _ _ ih =>
      intro s hs
      rcases ih s hs with ⟨t, hmem, ht⟩
      exact ⟨t, List.mem_cons_of_mem _ (List.mem_cons_of_mem _ hmem), ht⟩
  | operator _ =>
      rintro s ⟨⟩
      exact ⟨_, List.mem_cons_self, rfl⟩
  -- The other errors name a place only.
  | _ => rintro s ⟨⟩

/-- So does the outermost call, which may find a token left over. -/
theorem excerpt_of_haltsAt {tokens unread : List Token} {e : GrammarError}
    (h : HaltsAt limit tokens e unread) : ∀ s ∈ e.excerpt, ∃ t ∈ tokens, t.text = s := by
  cases h with
  | inside _ h => exact excerpt_of_halts h
  | closing _ _ _ => rintro s ⟨⟩
  | leftover _ h _ =>
      rintro s ⟨⟩
      exact ⟨_, (suffix_of_runs h _ _ rfl).mem List.mem_cons_self, rfl⟩

end Grammar

/-- An error about tokens is told on one line. -/
theorem GrammarError.oneLine_message {e : GrammarError} (h : ∀ s ∈ e.excerpt, OneLine s) :
    OneLine e.message := by
  cases e with
  | empty => exact oneLine_literal rfl
  | missingOperandAtEnd p =>
      exact .append (.append (oneLine_literal rfl) (oneLine_int p)) (oneLine_literal rfl)
  | missingParenthesis function p =>
      exact .append (.append (.append (.append (oneLine_literal rfl) (h _ rfl))
        (oneLine_literal rfl)) (oneLine_int p)) (oneLine_literal rfl)
  | nothingBeforeClosing p => exact .append (oneLine_literal rfl) (oneLine_int p)
  | missingOperand operator p =>
      exact .append (.append (.append (oneLine_literal rfl) (h _ rfl)) (oneLine_literal rfl))
        (oneLine_int p)
  | unmatchedOpening p => exact .append (oneLine_literal rfl) (oneLine_int p)
  | unmatchedClosing p => exact .append (oneLine_literal rfl) (oneLine_int p)
  | unexpected text p =>
      exact .append (.append (.append (oneLine_literal rfl) (h _ rfl)) (oneLine_literal rfl))
        (oneLine_int p)

/-! ## Evaluating -/

/-- The calculation that a mathematical error names. -/
def MathError.calculation : MathError → String
  | .divisionByZero calculation => calculation
  | .zeroToNegative calculation => calculation
  | .notReal calculation => calculation
  | .tooLarge calculation => calculation
  | .negativeRoot calculation => calculation
  | .logOfNonPositive calculation => calculation
  | .undefined calculation => calculation

/-- A mathematical error is told on one line. -/
theorem MathError.oneLine_message {e : MathError} (h : OneLine e.calculation) :
    OneLine e.message := by
  cases e with
  | divisionByZero calculation => exact .append (oneLine_literal rfl) h
  | zeroToNegative calculation => exact .append (oneLine_literal rfl) h
  | notReal calculation => exact .append h (oneLine_literal rfl)
  | tooLarge calculation => exact .append (.append (oneLine_literal rfl) h) (oneLine_literal rfl)
  | negativeRoot calculation => exact .append (oneLine_literal rfl) h
  | logOfNonPositive calculation => exact .append (oneLine_literal rfl) h
  | undefined calculation => exact .append h (oneLine_literal rfl)

theorem calculation_of_checked {shown : String} {result : Double} {e : MathError}
    (h : checked shown result = .error e) : e.calculation = shown := by
  simp only [checked] at h
  split at h <;> cases h
  rfl

/-- An operator that fails names its own calculation. -/
theorem Operator.calculation_of_calculate {op : Operator} {l r : Double} {e : MathError}
    (h : op.calculate l r = .error e) : e.calculation = op.calculation l r := by
  cases op with
  | add => exact calculation_of_checked h
  | subtract => exact calculation_of_checked h
  | multiply => exact calculation_of_checked h
  | divide =>
      simp only [calculate] at h
      split at h
      · cases h
        rfl
      · exact calculation_of_checked h
  | power =>
      simp only [calculate] at h
      split at h
      · exact calculation_of_checked h
      · cases h
        rfl
      · cases h
        rfl
      · cases h
        rfl

theorem Unary.calculation_of_calculateSeen [Numerics] {f : Unary} {x : Double} {e : MathError}
    (h : f.calculateSeen x = .error (.math e)) : e.calculation = f.calculation x := by
  simp only [calculateSeen] at h
  split at h
  · cases h
  · split at h <;> cases h
    rfl

theorem UnaryFailure.of_mapError_math {x : Except MathError Double} {e : MathError}
    (h : x.mapError UnaryFailure.math = .error (.math e)) : x = .error e := by
  cases x <;> cases h
  rfl

/-- So does a function. -/
theorem Unary.calculation_of_calculate [Numerics] {f : Unary} {x : Double} {e : MathError}
    (h : f.calculate x = .error (.math e)) : e.calculation = f.calculation x := by
  cases f with
  | negate => cases h
  | squareRoot =>
      simp only [calculate] at h
      split at h
      · cases h
        rfl
      · exact calculation_of_calculateSeen h
  | sine | cosine | tangent =>
      simp only [calculate] at h
      split at h
      · rename_i hseen
        cases h
        exact calculation_of_calculateSeen hseen
      · exact calculation_of_checked (UnaryFailure.of_mapError_math h)
  | decimalLog | naturalLog =>
      simp only [calculate] at h
      split at h
      · cases h
        rfl
      · exact calculation_of_calculateSeen h

theorem Operator.oneLine_calculation (op : Operator) (l r : Double) :
    OneLine (op.calculation l r) := by
  have hsymbol : OneLine op.symbol := by
    cases op <;> exact oneLine_literal rfl
  exact .append (.append (.append (.append (Text.oneLine_compact l) (oneLine_literal rfl)) hsymbol)
    (oneLine_literal rfl)) (Text.oneLine_compact r)

theorem Unary.oneLine_calculation (f : Unary) (x : Double) : OneLine (f.calculation x) := by
  have hname : OneLine f.name := by
    cases f <;> exact oneLine_literal rfl
  rw [calculation]
  split
  · exact .append (.append (.append hname (oneLine_literal rfl)) (Text.oneLine_compact x))
      (oneLine_literal rfl)
  · exact .append (.append (.append hname (oneLine_literal rfl)) (Text.oneLine_compact x))
      (oneLine_literal rfl)

/-- What fails in a tree is an operation with numbers, whatever the tree is. -/
theorem Expr.oneLine_calculation [Numerics] {places : Int} {tree : Expr} {e : MathError}
    (h : tree.evaluate places = .error (.math e)) : OneLine e.calculation := by
  induction tree with
  | literal value => cases value <;> cases h
  | foreign shown => cases h
  | binary symbol left right grouped ihleft ihright =>
      rw [evaluate] at h
      split at h
      · rename_i e' hleft
        cases h
        exact ihleft hleft
      split at h
      · rename_i e' hright
        cases h
        exact ihright hright
      rw [evaluateBinary] at h
      split at h
      · cases h
      split at h
      · rename_i hcalculate
        cases h
        rw [Operator.calculation_of_calculate hcalculate]
        exact Operator.oneLine_calculation _ _ _
      · cases h
  | apply name argument ih =>
      rw [evaluate] at h
      split at h
      · rename_i e' hargument
        cases h
        exact ih hargument
      rw [evaluateUnary] at h
      split at h
      · cases h
      split at h
      · rename_i hcalculate
        cases h
        rw [Unary.calculation_of_calculate hcalculate]
        exact Unary.oneLine_calculation _ _
      · cases h
      split at h
      · cases h
      · cases h

/-! ## Rejections -/

section Rejections

variable {settings : Settings} {places : Option Int} {text : String} {r : Rejection}

/-- A text without tokens is rejected on one line. -/
theorem oneLine_of_tokenize (h : tokenize text = .error (.rejection r)) :
    OneLine r.report.message := by
  rw [tokenize] at h
  cases hscan : Token.scan text with
  | ok tokens =>
      rw [hscan] at h
      cases h
  | error e =>
      rw [hscan] at h
      cases h
      exact e.oneLine_message (Lexical.unblank_excerpt_of_scanFrom hscan)

/-- A limit is told on one line. -/
theorem oneLine_tooDeep (limit : Int) : OneLine (Rejection.tooDeep limit).report.message :=
  .append (.append (oneLine_literal rfl) (oneLine_int limit)) (oneLine_literal rfl)

/-- Tokens of a text without a tree are rejected on one line. -/
theorem oneLine_of_parseTokens {tokens : List Token} (hscan : Token.scan text = .ok tokens)
    (h : parseTokens settings tokens = .error (.rejection r)) : OneLine r.report.message := by
  rw [parseTokens] at h
  cases hparse : Expr.ofTokens settings.maxDepth tokens with
  | ok tree =>
      rw [hparse] at h
      cases h
  | error e =>
      rw [hparse] at h
      cases e with
      | tooDeep limit =>
          cases h
          exact oneLine_tooDeep limit
      | unknownOperator symbol => cases h
      | malformed e =>
          cases h
          refine e.oneLine_message fun s hs => ?_
          by_cases hne : tokens = []
          · -- Without tokens there is nothing to repeat.
            subst hne
            cases hparse
            cases hs
          · rcases (haltsAt_iff hne).1 hparse with ⟨unread, hhalts⟩
            rcases Grammar.excerpt_of_haltsAt hhalts s hs with ⟨t, hmem, rfl⟩
            exact Text.oneLine_of_not_isBlank (Lexical.unblank_text_of_scan hscan t hmem)

theorem oneLine_of_parseText (h : parseText settings text = .error (.rejection r)) :
    OneLine r.report.message := by
  rw [parseText_eq] at h
  cases htokens : tokenize text with
  | error e =>
      rw [htokens] at h
      cases h
      exact oneLine_of_tokenize htokens
  | ok tokens =>
      rw [htokens] at h
      exact oneLine_of_parseTokens (mapError_eq_ok_iff.1 htokens) h

/-- A tree without a value is rejected on one line. -/
theorem oneLine_of_evaluateTree [Numerics] {tree : Expr}
    (h : evaluateTree settings places tree = .error (.rejection r)) :
    OneLine r.report.message := by
  rw [evaluateTree] at h
  cases hvalue : tree.evaluate (settings.places places) with
  | ok e =>
      rw [hvalue] at h
      cases h
  | error e =>
      rw [hvalue] at h
      cases e with
      | math e =>
          cases h
          exact e.oneLine_message (Expr.oneLine_calculation hvalue)
      | _ => cases h

end Rejections

end Reckoner
