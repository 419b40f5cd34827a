import Mathlib
import Reckoner.Token.Scan

/-!
# Lexemes

What the words of the language of expressions are, said without a scanner. A
lexeme is a spelling with a kind and a value, and whether a spelling is one
depends on what follows it. A number is not followed by a further digit or
point, and a name not by a further letter, so a lexeme is always the longest that
starts where it does.

A minus sign is a lexeme twice over, and which of the two it is depends on what
stands before it (`MinusFits`). Everything else about a lexeme depends on its own
characters and the next one only.

`read_complete` and `read_sound` say that the scanner's single step finds the
lexeme at the front of a text, and `not_isLexeme_of_error` that it fails only
where there is none.

## Main definitions

* `Clear`: The next character fails a test.
* `IsLexeme`: The lexemes of the language.
* `StartsOperand`: An operand comes next, so that a minus negates it.
* `MinusFits`: A minus has the kind that its place asks for.

## Theorems

* `first_not_blank`: No lexeme starts with a blank.
* `read_sound`: What is read is a lexeme.
* `read_complete`: A lexeme is read.
* `not_isLexeme_of_error`: Where nothing can be read there is no lexeme.
-/

namespace Reckoner

namespace Lexical

/-- No character that passes the test comes next. -/
def Clear (test : Char → Bool) (rest : List Char) : Prop := ∀ c ∈ rest.head?, test c = false

/-- The characters that numbers are made of. -/
def isNumeric (c : Char) : Bool := c.isDigit || c == '.'

theorem canonical_circleRatio : Canonical 7074237752028440 (-51) := by decide

/-- The double nearest to the ratio of a circle's circumference to its diameter. -/
def circleRatio : Double := .finite false 7074237752028440 (-51) canonical_circleRatio

/-- The lexemes of the language, each with its kind, its spelling, its value and
    a text that may follow it. -/
inductive IsLexeme : TokenKind → List Char → Option Double → List Char → Prop
  | integer {digits rest : List Char} (hne : digits ≠ [])
      (hdigits : ∀ c ∈ digits, c.isDigit = true) (hrest : Clear isNumeric rest)
      (hfinite : (Double.ofParts digits []).isFinite = true) :
      IsLexeme .number digits (some (Double.ofParts digits [])) rest
  | decimal {digits fraction rest : List Char} (hne : digits ≠ [])
      (hdigits : ∀ c ∈ digits, c.isDigit = true) (hfraction : fraction ≠ [])
      (hfdigits : ∀ c ∈ fraction, c.isDigit = true) (hrest : Clear isNumeric rest)
      (hfinite : (Double.ofParts digits fraction).isFinite = true) :
      IsLexeme .number (digits ++ '.' :: fraction) (some (Double.ofParts digits fraction)) rest
  | operator {c : Char} {rest : List Char} (hc : c ∈ ['+', '-', '*', '/', '^']) :
      IsLexeme .operator [c] none rest
  | negate {rest : List Char} : IsLexeme .negate ['-'] none rest
  | openParen {rest : List Char} : IsLexeme .openParen ['('] none rest
  | closeParen {rest : List Char} : IsLexeme .closeParen [')'] none rest
  | constantSign {rest : List Char} : IsLexeme .constant ['π'] (some circleRatio) rest
  | constantName {rest : List Char} (hrest : Clear Char.isAlpha rest) :
      IsLexeme .constant ['p', 'i'] (some circleRatio) rest
  | function {name rest : List Char}
      (hname : String.ofList name ∈ ["sqrt", "sin", "cos", "tan", "log", "ln"])
      (hrest : Clear Char.isAlpha rest) : IsLexeme .function name none rest

/-- An operand comes next: it is the start of the text, or the token before is an
    operator, a negation, an opening parenthesis or a function. -/
def StartsOperand (previous : Option TokenKind) : Prop :=
  ∀ k ∈ previous, k = .operator ∨ k = .negate ∨ k = .openParen ∨ k = .function

/-- A minus has the kind that its place asks for. -/
def MinusFits (previous : Option TokenKind) (kind : TokenKind) (spelling : List Char) : Prop :=
  spelling = ['-'] → (kind = .negate ↔ StartsOperand previous)

theorem startsOperand_iff (previous : Option TokenKind) :
    previous.all TokenKind.startsOperand = true ↔ StartsOperand previous := by
  cases previous with
  | none => simp [StartsOperand]
  | some k => cases k <;> simp [StartsOperand, TokenKind.startsOperand]

theorem Clear.append {test : Char → Bool} {rest more : List Char} (h : Clear test rest)
    (hmore : Clear test more) : Clear test (rest ++ more) := by
  cases rest with
  | nil => exact hmore
  | cons c rest => exact h

theorem clear_cons {test : Char → Bool} {c : Char} (rest : List Char) (h : test c = false) :
    Clear test (c :: rest) := by
  rintro d ⟨⟩
  exact h

theorem clear_dropWhile (test : Char → Bool) (cs : List Char) : Clear test (cs.dropWhile test) := by
  intro c hc
  induction cs with
  | nil => cases hc
  | cons d rest ih =>
      by_cases h : test d = true
      · rw [List.dropWhile_cons_of_pos h] at hc
        exact ih hc
      · rw [List.dropWhile_cons_of_neg h] at hc
        cases hc
        simpa using h

theorem takeWhile_append_of_clear {test : Char → Bool} {run rest : List Char}
    (hrun : ∀ c ∈ run, test c = true) (hrest : Clear test rest) :
    (run ++ rest).takeWhile test = run ∧ (run ++ rest).dropWhile test = rest := by
  rw [List.takeWhile_append_of_pos hrun, List.dropWhile_append_of_pos hrun]
  cases rest with
  | nil => simp
  | cons c rest =>
      have hc := hrest c rfl
      simp [hc]

theorem mem_takeWhile {test : Char → Bool} {cs : List Char} {c : Char}
    (h : c ∈ cs.takeWhile test) : test c = true :=
  List.all_eq_true.1 List.all_takeWhile c h

/-- A text that is clear of digits and does not open with a point is clear of
    what numbers are made of. -/
theorem clear_isNumeric {rest : List Char} (hdigit : Clear Char.isDigit rest)
    (hpoint : ∀ more, rest ≠ '.' :: more) : Clear isNumeric rest := by
  intro c hc
  cases rest with
  | nil => cases hc
  | cons d rest =>
      cases hc
      have hne : c ≠ '.' := fun h => hpoint rest (h ▸ rfl)
      simp [isNumeric, hdigit c rfl, hne]

theorem isDigit_clear_of_isNumeric {rest : List Char} (h : Clear isNumeric rest) :
    Clear Char.isDigit rest := by
  intro c hc
  have hnumeric := h c hc
  simp only [isNumeric, Bool.or_eq_false_iff] at hnumeric
  exact hnumeric.1

theorem ne_point_of_clear {rest more : List Char} (h : Clear isNumeric rest) :
    rest ≠ '.' :: more := by
  rintro rfl
  exact absurd (h '.' rfl) (by decide)

theorem finiteNumber_eq_ok {position : Nat} {cs spelling rest : List Char} {value : Double}
    {split : cs = spelling ++ rest} {nonempty : spelling ≠ []} {l : Lexeme cs}
    (h : Lexeme.finiteNumber position spelling rest value split nonempty = .ok l) :
    value.isFinite = true ∧ l = ⟨.number, spelling, some value, rest, split, nonempty⟩ := by
  simp only [Lexeme.finiteNumber] at h
  split at h
  · rename_i hfinite
    cases h
    exact ⟨hfinite, rfl⟩
  · cases h

theorem number_sound {position : Nat} {c : Char} {rest : List Char} {l : Lexeme (c :: rest)}
    (hc : c.isDigit = true) (h : Lexeme.number position c rest = .ok l) :
    IsLexeme l.kind l.spelling l.value l.rest := by
  have hwhole : ∀ d ∈ c :: rest.takeWhile Char.isDigit, d.isDigit = true := by
    intro d hd
    rcases List.mem_cons.1 hd with rfl | hd
    · exact hc
    · exact mem_takeWhile hd
  simp only [Lexeme.number] at h
  split at h
  · rename_i more hpoint
    split at h
    · cases h
    · rename_i hfraction
      split at h
      · cases h
      · rename_i hne
        rcases finiteNumber_eq_ok h with ⟨hfinite, rfl⟩
        exact .decimal (by simp) hwhole (by simpa using hfraction) (fun d => mem_takeWhile)
          (clear_isNumeric (clear_dropWhile _ _) hne) hfinite
  · rename_i hne
    rcases finiteNumber_eq_ok h with ⟨hfinite, rfl⟩
    exact .integer (by simp) hwhole (clear_isNumeric (clear_dropWhile _ _) hne) hfinite

/-- A number is read as far as it goes. -/
theorem number_complete {position : Nat} {c : Char} {rest spelling after : List Char}
    {value : Option Double} (h : IsLexeme .number spelling value after)
    (hsplit : c :: rest = spelling ++ after) :
    ∃ l, Lexeme.number position c rest = .ok l ∧ l.kind = .number ∧ l.spelling = spelling ∧
      l.value = value ∧ l.rest = after := by
  cases h with
  | integer hne hdigits hrest hfinite =>
      rcases List.exists_cons_of_ne_nil hne with ⟨d, ds, rfl⟩
      simp only [List.cons_append, List.cons.injEq] at hsplit
      rcases hsplit with ⟨rfl, rfl⟩
      rcases takeWhile_append_of_clear (fun d hd => hdigits d (.tail _ hd))
        (isDigit_clear_of_isNumeric hrest) with ⟨htake, hdrop⟩
      simp only [Lexeme.number]
      split
      · rename_i more hpoint
        exact absurd (hdrop.symm.trans hpoint) (ne_point_of_clear hrest)
      · simp only [htake, hdrop, Lexeme.finiteNumber, hfinite, if_true]
        exact ⟨_, rfl, rfl, rfl, rfl, rfl⟩
  | @decimal digits fraction _ hne hdigits hfraction hfdigits hrest hfinite =>
      rcases List.exists_cons_of_ne_nil hne with ⟨d, ds, rfl⟩
      simp only [List.cons_append, List.append_assoc, List.cons.injEq] at hsplit
      rcases hsplit with ⟨rfl, rfl⟩
      have hclear : Clear Char.isDigit ('.' :: (fraction ++ after)) := by
        rintro d ⟨⟩
        decide
      rcases takeWhile_append_of_clear (fun d hd => hdigits d (.tail _ hd)) hclear
        with ⟨htake, hdrop⟩
      rcases takeWhile_append_of_clear hfdigits (isDigit_clear_of_isNumeric hrest)
        with ⟨hftake, hfdrop⟩
      simp only [Lexeme.number]
      split
      · rename_i more hpoint
        rw [hdrop] at hpoint
        cases hpoint
        rw [if_neg (by simpa [hftake] using hfraction)]
        split
        · rename_i hpoint'
          exact absurd (hfdrop.symm.trans hpoint') (ne_point_of_clear hrest)
        · simp only [htake, hftake, hfdrop, Lexeme.finiteNumber, hfinite, if_true]
          exact ⟨_, rfl, rfl, rfl, rfl, rfl⟩
      · rename_i hne
        exact absurd hdrop (hne _)

theorem named_any_iff (text : String) :
    (Unary.named.any fun f => f.name == text) = true ↔
      text ∈ ["sqrt", "sin", "cos", "tan", "log", "ln"] := by
  simp only [List.any_eq_true, beq_iff_eq]
  exact List.mem_map.symm

theorem operator_any_iff (c : Char) :
    (Operator.all.any fun op => op.symbol == String.singleton c) = true ↔
      c ∈ ['+', '-', '*', '/', '^'] := by
  simp only [List.any_eq_true, beq_iff_eq]
  constructor
  · rintro ⟨op, _, hop⟩
    have hc : op.symbol.toList = [c] := by
      rw [hop]
      exact String.toList_singleton c
    cases op <;> simp [Operator.symbol] at hc <;> simp [hc.symm]
  · intro hc
    simp only [List.mem_cons, List.not_mem_nil, or_false] at hc
    rcases hc with rfl | rfl | rfl | rfl | rfl
    · exact ⟨.add, by decide⟩
    · exact ⟨.subtract, by decide⟩
    · exact ⟨.multiply, by decide⟩
    · exact ⟨.divide, by decide⟩
    · exact ⟨.power, by decide⟩

theorem lookup_constants_eq_some {text : String} {value : Double}
    (h : constants.lookup text = some value) :
    (text = "π" ∨ text = "pi") ∧ value = circleRatio := by
  have hmem : (text, value) ∈ constants := mem_of_lookup h
  simp only [constants, List.mem_cons, Prod.mk.injEq, List.not_mem_nil, or_false] at hmem
  rcases hmem with ⟨rfl, rfl⟩ | ⟨rfl, rfl⟩
  · exact ⟨.inl rfl, rfl⟩
  · exact ⟨.inr rfl, rfl⟩

/-- The only constant of one character is the sign. -/
theorem lookup_singleton {c : Char} {value : Double}
    (h : constants.lookup (String.singleton c) = some value) : c = 'π' ∧ value = circleRatio := by
  rcases lookup_constants_eq_some h with ⟨hsign | hname, hvalue⟩
  · have hc := congrArg String.toList hsign
    simp only [String.toList_singleton] at hc
    exact ⟨by simpa using hc, hvalue⟩
  · have hc := congrArg String.toList hname
    simp at hc

theorem isDigit_of_isAlpha {c : Char} (hc : c.isAlpha = true) : c.isDigit = false := by
  simp only [Char.isAlpha, Char.isUpper, Char.isLower, Char.isDigit] at hc ⊢
  simp [UInt32.le_iff_toNat_le] at hc ⊢
  omega

/-- What a name starts with starts nothing else. -/
theorem read_of_isAlpha {position : Nat} {previous : Option TokenKind} {c : Char}
    {rest : List Char} (hc : c.isAlpha = true) :
    Lexeme.read position previous c rest = Lexeme.word position c rest := by
  have hne : ∀ d : Char, d.isAlpha = false → c ≠ d := by
    rintro d hd rfl
    rw [hc] at hd
    cases hd
  have hdigit : c.isDigit = false := isDigit_of_isAlpha hc
  have hoperator : ¬ (Operator.all.any fun op => op.symbol == String.singleton c) = true := by
    rw [operator_any_iff]
    simp [hne '+' (by decide), hne '-' (by decide), hne '*' (by decide), hne '/' (by decide),
      hne '^' (by decide)]
  have hconstant : constants.lookup (String.singleton c) = none := by
    cases hlookup : constants.lookup (String.singleton c) with
    | none => rfl
    | some value => exact absurd (lookup_singleton hlookup).1 (hne 'π' (by decide))
  simp [Lexeme.read, hdigit, hne '.' (by decide), hne '-' (by decide), hoperator,
    hne '(' (by decide), hne ')' (by decide), hconstant, hc]

theorem word_sound {position : Nat} {c : Char} {rest : List Char} {l : Lexeme (c :: rest)}
    (hc : c.isAlpha = true) (h : Lexeme.word position c rest = .ok l) :
    IsLexeme l.kind l.spelling l.value l.rest := by
  simp only [Lexeme.word] at h
  split at h
  · rename_i hname
    cases h
    exact .function ((named_any_iff _).1 hname) (clear_dropWhile _ _)
  · split at h
    · rename_i value hvalue
      cases h
      rcases lookup_constants_eq_some hvalue with ⟨hsign | hname, rfl⟩
      -- The sign is a constant too, but it is no letter.
      · have hspelling : c :: rest.takeWhile Char.isAlpha = ['π'] := String.ofList_injective hsign
        cases List.head_eq_of_cons_eq hspelling
        exact absurd hc (by decide)
      · have hspelling : c :: rest.takeWhile Char.isAlpha = ['p', 'i'] :=
          String.ofList_injective hname
        simp only [hspelling]
        exact .constantName (clear_dropWhile _ _)
    · cases h

/-- The name of a function is made of letters, and of one at least. -/
theorem function_name_isAlpha {name : List Char}
    (hname : String.ofList name ∈ ["sqrt", "sin", "cos", "tan", "log", "ln"]) :
    name ≠ [] ∧ ∀ c ∈ name, c.isAlpha = true := by
  have htext : name = (String.ofList name).toList := String.toList_ofList.symm
  have hall : ∀ text ∈ ["sqrt", "sin", "cos", "tan", "log", "ln"],
      text.toList ≠ [] ∧ ∀ c ∈ text.toList, c.isAlpha = true := by simp
  rw [htext]
  exact hall _ hname

/-- A name is read to the end of its letters. -/
theorem word_split {c : Char} {rest name after : List Char} (hne : name ≠ [])
    (halpha : ∀ d ∈ name, d.isAlpha = true) (hafter : Clear Char.isAlpha after)
    (hsplit : c :: rest = name ++ after) :
    c.isAlpha = true ∧ c :: rest.takeWhile Char.isAlpha = name ∧
      rest.dropWhile Char.isAlpha = after := by
  rcases List.exists_cons_of_ne_nil hne with ⟨d, ds, rfl⟩
  simp only [List.cons_append, List.cons.injEq] at hsplit
  rcases hsplit with ⟨rfl, rfl⟩
  rcases takeWhile_append_of_clear (fun d hd => halpha d (.tail _ hd)) hafter with ⟨htake, hdrop⟩
  exact ⟨halpha c (.head _), by rw [htake], hdrop⟩

/-- A lexeme that does not start with a minus has no kind to fit. -/
theorem minusFits_of_ne {previous : Option TokenKind} {c : Char} {rest : List Char}
    (l : Lexeme (c :: rest)) (hc : c ≠ '-') : MinusFits previous l.kind l.spelling := by
  intro hminus
  have hsplit := l.split
  rw [hminus, List.cons_append, List.cons.injEq] at hsplit
  exact absurd hsplit.1 hc

theorem read_sound {position : Nat} {previous : Option TokenKind} {c : Char} {rest : List Char}
    {l : Lexeme (c :: rest)} (h : Lexeme.read position previous c rest = .ok l) :
    IsLexeme l.kind l.spelling l.value l.rest ∧ MinusFits previous l.kind l.spelling := by
  -- The tests of `Lexeme.read` are taken in its order. Letters come last there, but none of
  -- the tests before them is passed by one.
  by_cases halpha : c.isAlpha = true
  · rw [read_of_isAlpha halpha] at h
    refine ⟨word_sound halpha h, minusFits_of_ne l ?_⟩
    rintro rfl
    exact absurd halpha (by decide)
  simp only [Lexeme.read] at h
  split at h
  · rename_i hdigit
    refine ⟨number_sound hdigit h, minusFits_of_ne l ?_⟩
    rintro rfl
    exact absurd hdigit (by decide)
  split at h
  · cases h
  split at h
  · rename_i hminus
    cases h
    rcases hminus with ⟨rfl, hprevious⟩
    exact ⟨.negate, fun _ => ⟨fun _ => (startsOperand_iff previous).1 hprevious, fun _ => rfl⟩⟩
  split at h
  · rename_i hnegate hoperator
    cases h
    refine ⟨.operator ((operator_any_iff c).1 hoperator), fun hminus => ⟨nofun, fun hstarts => ?_⟩⟩
    cases hminus
    exact absurd ⟨rfl, (startsOperand_iff previous).2 hstarts⟩ hnegate
  split at h
  · rename_i hc
    cases h
    cases hc
    exact ⟨.openParen, nofun⟩
  split at h
  · rename_i hc
    cases h
    cases hc
    exact ⟨.closeParen, nofun⟩
  split at h
  · rename_i value hvalue
    cases h
    rcases lookup_singleton hvalue with ⟨rfl, rfl⟩
    exact ⟨.constantSign, nofun⟩
  · cases h

/-- A result is a certain lexeme. -/
def Finds {cs : List Char} (result : Except ScanError (Lexeme cs)) (kind : TokenKind)
    (spelling : List Char) (value : Option Double) (rest : List Char) : Prop :=
  ∃ l, result = .ok l ∧ l.kind = kind ∧ l.spelling = spelling ∧ l.value = value ∧ l.rest = rest

theorem read_of_operator {position : Nat} {previous : Option TokenKind} {c : Char}
    {rest : List Char} (hc : c ∈ ['+', '-', '*', '/', '^'])
    (hminus : MinusFits previous .operator [c]) :
    Lexeme.read position previous c rest = .ok (.single .operator none c rest) := by
  have hplain : ∀ d ∈ ['+', '-', '*', '/', '^'], d.isDigit = false ∧ d ≠ '.' := by simp
  rcases hplain c hc with ⟨hdigit, hpoint⟩
  have hnot : ¬ (c = '-' ∧ previous.all TokenKind.startsOperand = true) := by
    rintro ⟨rfl, hprevious⟩
    have hkind := (hminus rfl).2 ((startsOperand_iff previous).1 hprevious)
    cases hkind
  simp only [Lexeme.read, hdigit, hpoint, if_neg hnot, (operator_any_iff c).2 hc, if_true,
    if_false, Bool.false_eq_true]

theorem read_complete (position : Nat) {previous : Option TokenKind} {kind : TokenKind} {c : Char}
    {rest spelling after : List Char} {value : Option Double}
    (h : IsLexeme kind spelling value after) (hminus : MinusFits previous kind spelling)
    (hsplit : c :: rest = spelling ++ after) :
    Finds (Lexeme.read position previous c rest) kind spelling value after := by
  -- Both forms of a number are found once the first character is known to be a digit.
  have hnumber : c.isDigit = true → IsLexeme .number spelling value after →
      Finds (Lexeme.read position previous c rest) .number spelling value after := by
    intro hdigit hlexeme
    simp only [Lexeme.read, hdigit, if_true]
    exact number_complete hlexeme hsplit
  cases h with
  | integer hne hdigits hrest hfinite =>
      refine hnumber ?_ (.integer hne hdigits hrest hfinite)
      rcases List.exists_cons_of_ne_nil hne with ⟨d, ds, rfl⟩
      cases hsplit
      exact hdigits c (.head _)
  | decimal hne hdigits hfraction hfdigits hrest hfinite =>
      refine hnumber ?_ (.decimal hne hdigits hfraction hfdigits hrest hfinite)
      rcases List.exists_cons_of_ne_nil hne with ⟨d, ds, rfl⟩
      cases hsplit
      exact hdigits c (.head _)
  | operator hd =>
      cases hsplit
      exact ⟨_, read_of_operator hd hminus, rfl, rfl, rfl, rfl⟩
  | negate =>
      cases hsplit
      -- The test for a negation comes before the one for operators, which a minus passes too.
      have hprevious := (startsOperand_iff previous).2 ((hminus rfl).1 rfl)
      refine ⟨.single .negate none '-' after, ?_, rfl, rfl, rfl, rfl⟩
      rw [Lexeme.read, if_neg (by decide), if_neg (by decide), if_pos ⟨rfl, hprevious⟩]
      rfl
  | openParen =>
      cases hsplit
      exact ⟨.single .openParen none '(' after, rfl, rfl, rfl, rfl, rfl⟩
  | closeParen =>
      cases hsplit
      exact ⟨.single .closeParen none ')' after, rfl, rfl, rfl, rfl, rfl⟩
  | constantSign =>
      cases hsplit
      exact ⟨.single .constant (some circleRatio) 'π' after, rfl, rfl, rfl, rfl, rfl⟩
  | constantName hafter =>
      rcases word_split (by simp) (by simp) hafter hsplit with ⟨hc, hspelling, hrest⟩
      have hlookup : constants.lookup (String.ofList ['p', 'i']) = some circleRatio := rfl
      rw [read_of_isAlpha hc, Lexeme.word]
      simp only [hspelling]
      rw [if_neg (by decide)]
      split
      · rename_i found hfound
        cases hlookup.symm.trans hfound
        exact ⟨_, rfl, rfl, rfl, rfl, hrest⟩
      · rename_i hnone
        cases hlookup.symm.trans hnone
  | function hname hafter =>
      rcases function_name_isAlpha hname with ⟨hne, halpha⟩
      rcases word_split hne halpha hafter hsplit with ⟨hc, hspelling, hrest⟩
      rw [read_of_isAlpha hc, Lexeme.word]
      simp only [hspelling]
      rw [if_pos ((named_any_iff _).2 hname)]
      exact ⟨_, rfl, rfl, rfl, rfl, hrest⟩

/-- Where nothing can be read, no lexeme starts. -/
theorem not_isLexeme_of_error {position : Nat} {previous : Option TokenKind} {c : Char}
    {rest : List Char} {e : ScanError} (h : Lexeme.read position previous c rest = .error e)
    {kind : TokenKind} {spelling after : List Char} {value : Option Double}
    (hlexeme : IsLexeme kind spelling value after) : c :: rest ≠ spelling ++ after := by
  intro hsplit
  -- A minus can always be read, as one of its two kinds, so the kind is no obstacle.
  have hfits : ∃ kind value, IsLexeme kind spelling value after ∧
      MinusFits previous kind spelling := by
    by_cases hminus : spelling = ['-']
    · subst hminus
      by_cases hstarts : StartsOperand previous
      · exact ⟨.negate, none, .negate, fun _ => ⟨fun _ => hstarts, fun _ => rfl⟩⟩
      · exact ⟨.operator, none, .operator (by simp), fun _ => ⟨nofun, fun h => absurd h hstarts⟩⟩
    · exact ⟨kind, value, hlexeme, fun h => absurd h hminus⟩
  rcases hfits with ⟨kind, value, hlexeme, hminus⟩
  rcases read_complete position hlexeme hminus hsplit with ⟨l, hl, _⟩
  rw [h] at hl
  cases hl

theorem number_error_position {position : Nat} {c : Char} {rest : List Char} {e : ScanError}
    (h : Lexeme.number position c rest = .error e) : e.position = position := by
  have hfinite : ∀ {cs spelling rest : List Char} {value : Double}
      {split : cs = spelling ++ rest} {nonempty : spelling ≠ []},
      Lexeme.finiteNumber position spelling rest value split nonempty = .error e →
        e.position = position := by
    intro cs spelling rest value split nonempty h
    simp only [Lexeme.finiteNumber] at h
    split at h <;> cases h
    rfl
  -- A stray second point is reported where the number starts, and so is too large a number.
  simp only [Lexeme.number] at h
  split at h
  · split at h
    · cases h
      rfl
    · split at h
      · cases h
        rfl
      · exact hfinite h
  · exact hfinite h

/-- The scanner stops where nothing can be read. -/
theorem read_error_position {position : Nat} {previous : Option TokenKind} {c : Char}
    {rest : List Char} {e : ScanError} (h : Lexeme.read position previous c rest = .error e) :
    e.position = position := by
  have hword : Lexeme.word position c rest = .error e → e.position = position := by
    intro h
    simp only [Lexeme.word] at h
    split at h
    · cases h
    · split at h <;> cases h
      rfl
  simp only [Lexeme.read] at h
  repeat' split at h
  all_goals first
    | exact number_error_position h
    | exact hword h
    | (cases h; try rfl)

theorem isBlank_of_isDigit {c : Char} (hc : c.isDigit = true) : Text.isBlank c = false := by
  simp only [Char.isDigit] at hc
  simp [UInt32.le_iff_toNat_le, Text.isBlank, Text.blankRanges] at hc ⊢
  omega

theorem isBlank_of_isAlpha {c : Char} (hc : c.isAlpha = true) : Text.isBlank c = false := by
  simp only [Char.isAlpha, Char.isUpper, Char.isLower] at hc
  simp [UInt32.le_iff_toNat_le, Text.isBlank, Text.blankRanges] at hc ⊢
  omega

/-- A blank starts no lexeme. -/
theorem first_not_blank {kind : TokenKind} {spelling after : List Char} {value : Option Double}
    (h : IsLexeme kind spelling value after) :
    ∃ c rest, spelling = c :: rest ∧ Text.isBlank c = false := by
  cases h with
  | integer hne hdigits _ _ =>
      rcases List.exists_cons_of_ne_nil hne with ⟨d, ds, rfl⟩
      exact ⟨d, ds, rfl, isBlank_of_isDigit (hdigits d (.head _))⟩
  | decimal hne hdigits _ _ _ _ =>
      rcases List.exists_cons_of_ne_nil hne with ⟨d, ds, rfl⟩
      exact ⟨d, _, rfl, isBlank_of_isDigit (hdigits d (.head _))⟩
  | @operator d _ hd =>
      have hplain : ∀ d ∈ ['+', '-', '*', '/', '^'], Text.isBlank d = false := by
        simp [Text.isBlank, Text.blankRanges]
      exact ⟨d, [], rfl, hplain d hd⟩
  | function hname _ =>
      rcases function_name_isAlpha hname with ⟨hne, halpha⟩
      rcases List.exists_cons_of_ne_nil hne with ⟨d, ds, rfl⟩
      exact ⟨d, ds, rfl, isBlank_of_isAlpha (halpha d (.head _))⟩
  | constantName _ => exact ⟨'p', ['i'], rfl, by decide⟩
  | constantSign => exact ⟨'π', [], rfl, by decide⟩
  | negate => exact ⟨'-', [], rfl, by decide⟩
  | openParen => exact ⟨'(', [], rfl, by decide⟩
  | closeParen => exact ⟨')', [], rfl, by decide⟩

theorem Clear.take {test : Char → Bool} {rest : List Char} (h : Clear test rest) (n : Nat) :
    Clear test (rest.take n) := by
  intro c hc
  cases rest with
  | nil => simp at hc
  | cons d rest =>
      cases n with
      | zero => simp at hc
      | succ n => exact h c hc

/-- A lexeme is still one when the text after it is cut short. -/
theorem IsLexeme.take {kind : TokenKind} {spelling after : List Char} {value : Option Double}
    (h : IsLexeme kind spelling value after) (n : Nat) :
    IsLexeme kind spelling value (after.take n) := by
  cases h with
  | integer hne hdigits hrest hfinite => exact .integer hne hdigits (hrest.take n) hfinite
  | decimal hne hdigits hfraction hfdigits hrest hfinite =>
      exact .decimal hne hdigits hfraction hfdigits (hrest.take n) hfinite
  | operator hc => exact .operator hc
  | negate => exact .negate
  | openParen => exact .openParen
  | closeParen => exact .closeParen
  | constantSign => exact .constantSign
  | constantName hrest => exact .constantName (hrest.take n)
  | function hname hrest => exact .function hname (hrest.take n)

end Lexical

end Reckoner
