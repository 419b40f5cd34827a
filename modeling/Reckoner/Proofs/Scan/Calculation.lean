import Mathlib
import Reckoner.Proofs.Number.ReadBack
import Reckoner.Proofs.Scan.Concatenation

/-!
# Scanning a Calculation

A step shows an operation as two numbers with an operator between them. That is a
text like any other, and here it is read back. Each number comes to one token, or to
two if it is negative. A minus before the number on the right follows an operator, and
a minus before the one on the left is at the start of the text, so both negate. A minus
between the numbers follows a number and is an operator.

Only blanks keep the operator apart from the numbers, and blanks are in no token.

## Main definitions

* `signedTokens`, `calculationTokens`: The tokens of a number and of an operation, as
  they are shown.

## Theorems

* `isLexeme_of_plain`: A plain numeral is a lexeme with the value that it denotes.
* `scanFrom_shown`: A number is scanned as it is shown.
* `scan_calculation`: An operation is scanned as it is shown.
* `strip_calculation`: There is nothing to strip from it.
-/

namespace Reckoner

namespace Lexical

section Numerals

variable {x : Double} {cs after : List Char}

theorem isNumeric_of_plain (h : Double.Plain cs x) : ∀ c ∈ cs, isNumeric c = true := by
  have hdigit : ∀ {c : Char}, c.isDigit = true → isNumeric c = true := by
    intro c hc
    simp [isNumeric, hc]
  intro c hc
  cases h with
  | integer _ hdigits => exact hdigit (hdigits c hc)
  | decimal _ hdigits _ hfdigits =>
      rcases List.mem_append.1 hc with hc | hc
      · exact hdigit (hdigits c hc)
      · rcases List.mem_cons.1 hc with rfl | hc
        · decide
        · exact hdigit (hfdigits c hc)

theorem ne_nil_of_plain (h : Double.Plain cs x) : cs ≠ [] := by
  cases h with
  | integer hne _ => exact hne
  | decimal _ _ _ _ => simp

theorem normalizeChars_of_spell (h : ∀ c ∈ cs, spell c = [c]) : normalizeChars cs = cs := by
  induction cs with
  | nil => rfl
  | cons c cs ih =>
      rw [normalizeChars, List.flatMap_cons, h c (.head _), List.singleton_append]
      exact congrArg (c :: ·) (ih fun d hd => h d (.tail _ hd))

/-- A number as it is shown has digits, a point and a minus in it, and nothing else. -/
theorem mem_shown (h : x.ShownAs cs) : ∀ c ∈ x.compact.toList, c = '-' ∨ isNumeric c = true := by
  intro c hc
  rw [h.compact_eq, Double.withSign, String.toList_ofList] at hc
  split at hc
  · rcases List.mem_cons.1 hc with rfl | hc
    · exact .inl rfl
    · exact .inr (isNumeric_of_plain h.plain c hc)
  · exact .inr (isNumeric_of_plain h.plain c hc)

theorem normalizeChars_shown (h : x.ShownAs cs) :
    normalizeChars x.compact.toList = x.compact.toList := by
  refine normalizeChars_of_spell fun c hc => ?_
  rcases mem_shown h c hc with rfl | hc
  · decide
  · exact spell_of_test (by decide) hc

theorem isBlank_of_isNumeric {c : Char} (h : isNumeric c = true) : Text.isBlank c = false := by
  simp only [isNumeric, Bool.or_eq_true, beq_iff_eq] at h
  rcases h with h | rfl
  · exact isBlank_of_isDigit h
  · decide

theorem isBlank_of_shown (h : x.ShownAs cs) : ∀ c ∈ x.compact.toList, Text.isBlank c = false := by
  intro c hc
  rcases mem_shown h c hc with rfl | hc
  · decide
  · exact isBlank_of_isNumeric hc

theorem shown_ne_nil (h : x.ShownAs cs) : x.compact.toList ≠ [] := by
  have hne := ne_nil_of_plain h.plain
  rw [h.compact_eq, Double.withSign, String.toList_ofList]
  split
  · simp
  · exact hne

/-- A plain numeral is a lexeme with the value that it denotes. -/
theorem isLexeme_of_plain (h : Double.Plain cs x) (hfinite : x.isFinite = true)
    (hafter : Clear isNumeric after) : IsLexeme .number cs (some x) after := by
  cases h with
  | integer hne hdigits => exact .integer hne hdigits hafter hfinite
  | decimal hne hdigits hfraction hfdigits =>
      exact .decimal hne hdigits hfraction hfdigits hafter hfinite

theorem minusFits_of_plain (h : Double.Plain cs x) (previous : Option TokenKind)
    (kind : TokenKind) : MinusFits previous kind cs := by
  rintro rfl
  exact absurd (isNumeric_of_plain h '-' (.head _)) (by decide)

/-- The tokens of a number as it is shown: a negation, if there is a minus, and the
    number without its sign. -/
def signedTokens (negative : Bool) (cs : List Char) (x : Double) (position : Nat) : List Token :=
  if negative then
    [⟨.negate, "-", none, position⟩, ⟨.number, String.ofList cs, some x, (position + 1 : Nat)⟩]
  else [⟨.number, String.ofList cs, some x, position⟩]

/-- Where an operand may start, a number is scanned as it is shown. -/
theorem scanFrom_shown (h : x.ShownAs cs) (hfinite : x.abs.isFinite = true)
    {previous : Option TokenKind} (hstarts : StartsOperand previous)
    (hafter : Clear isNumeric after) (position : Nat) :
    Token.scanFrom position previous (x.compact.toList ++ after) =
      (Token.scanFrom (position + x.compact.length) (some .number) after).map fun ts =>
        signedTokens x.isNegative cs x.abs position ++ ts := by
  have hnumber := isLexeme_of_plain h.plain hfinite hafter
  have hlength : x.compact.length = x.compact.toList.length := String.length_toList.symm
  rw [hlength, h.compact_eq, Double.withSign, String.toList_ofList, signedTokens]
  cases x.isNegative with
  | false =>
      simp only [Bool.false_eq_true, if_false]
      exact scanFrom_lexeme position hnumber (minusFits_of_plain h.plain _ _)
  | true =>
      have hminus : MinusFits previous .negate ['-'] := fun _ => ⟨fun _ => hstarts, fun _ => rfl⟩
      have hnegate : IsLexeme .negate ['-'] none (cs ++ after) := .negate
      simp only [if_true]
      rw [List.cons_append, ← List.singleton_append, scanFrom_lexeme position hnegate hminus,
        scanFrom_lexeme _ hnumber (minusFits_of_plain h.plain _ _)]
      have hposition : position + ('-' :: cs).length = position + 1 + cs.length := by
        rw [List.length_cons]
        omega
      rw [hposition, List.length_singleton]
      cases Token.scanFrom (position + 1 + cs.length) (some .number) after with
      | error e => rfl
      | ok ts => rfl

end Numerals

/-- Nothing is stripped from a text whose ends fail the test. -/
theorem stripBy_eq_self {test : Char → Bool} {cs : List Char}
    (hfirst : ∀ c ∈ cs.head?, test c = false) (hlast : ∀ c ∈ cs.getLast?, test c = false) :
    Text.stripBy test cs = cs := by
  have hdrop : ∀ {ds : List Char}, (∀ c ∈ ds.head?, test c = false) → ds.dropWhile test = ds := by
    intro ds hds
    cases ds with
    | nil => rfl
    | cons d ds => exact List.dropWhile_cons_of_neg (by simp [hds d rfl])
  rw [Text.stripBy, hdrop hfirst, hdrop (by rwa [List.head?_reverse]), List.reverse_reverse]

section Operation

variable {l r : Double} {cs ds : List Char}

theorem toList_calculation (op : Operator) (l r : Double) :
    (op.calculation l r).toList =
      l.compact.toList ++ ' ' :: (op.symbol.toList ++ ' ' :: r.compact.toList) := by
  have hblank : " ".toList = [' '] := rfl
  simp only [Operator.calculation, String.toList_append, toString, hblank, List.append_assoc,
    List.cons_append, List.nil_append]

/-- An operation as it is shown has no blanks at its ends. -/
theorem strip_calculation (op : Operator) (hl : l.ShownAs cs) (hr : r.ShownAs ds) :
    Text.strip (op.calculation l r) = op.calculation l r := by
  have hstrip : Text.stripBy Text.isBlank (op.calculation l r).toList =
      (op.calculation l r).toList := by
    rw [toList_calculation]
    refine stripBy_eq_self (fun c hc => ?_) (fun c hc => ?_)
    · rw [List.head?_append_of_ne_nil _ (shown_ne_nil hl)] at hc
      exact isBlank_of_shown hl c (List.mem_of_mem_head? hc)
    · -- The number on the right is at the end, whatever is before it.
      rw [← List.cons_append, ← List.append_assoc, List.append_cons,
        List.getLast?_append_of_ne_nil _ (shown_ne_nil hr)] at hc
      exact isBlank_of_shown hr c (List.mem_of_mem_getLast? hc)
  rw [Text.strip, hstrip, String.ofList_toList]

/-- The tokens of an operation as it is shown. -/
def calculationTokens (op : Operator) (l r : Double) (cs ds : List Char) : List Token :=
  signedTokens l.isNegative cs l.abs 0 ++
    ⟨.operator, op.symbol, none, (l.compact.length + 1 : Nat)⟩ ::
      signedTokens r.isNegative ds r.abs (l.compact.length + 3)

/-- An operation is scanned as it is shown. -/
theorem scan_calculation (op : Operator) (hl : l.ShownAs cs) (hr : r.ShownAs ds)
    (hlfinite : l.abs.isFinite = true) (hrfinite : r.abs.isFinite = true) :
    Token.scan (op.calculation l r) = .ok (calculationTokens op l r cs ds) := by
  have htext : normalizeChars (op.calculation l r).toList = (op.calculation l r).toList := by
    have hblank : ∀ rest, normalizeChars (' ' :: rest) = ' ' :: normalizeChars rest :=
      fun rest => rfl
    rw [toList_calculation]
    simp only [normalizeChars_append, hblank, normalizeChars_shown hl, normalizeChars_shown hr,
      normalizeChars_symbol]
  have hstarts : StartsOperand none ∧ StartsOperand (some .operator) := by simp [StartsOperand]
  have hminus : MinusFits (some .number) .operator op.symbol.toList := by
    intro _
    simp [StartsOperand]
  have hclear : Clear isNumeric (' ' :: (op.symbol.toList ++ ' ' :: r.compact.toList)) :=
    clear_cons _ (by decide)
  have hright : Token.scanFrom (l.compact.length + 3) (some .operator) r.compact.toList =
      .ok (signedTokens r.isNegative ds r.abs (l.compact.length + 3)) := by
    rw [← List.append_nil r.compact.toList,
      scanFrom_shown hr hrfinite hstarts.2 (by simp [Clear]), Token.scanFrom]
    simp only [Except.map, List.append_nil]
  -- The left number, the operator and the right number are taken off the front in turn.
  rw [Token.scan, htext, toList_calculation, scanFrom_shown hl hlfinite hstarts.1 hclear,
    scanFrom_blank _ _ _ (by decide), scanFrom_lexeme _ (isLexeme_symbol op _) hminus,
    scanFrom_blank _ _ _ (by decide), length_symbol, Nat.zero_add, hright]
  simp only [Except.map, String.ofList_toList, calculationTokens]

end Operation

end Lexical

end Reckoner
