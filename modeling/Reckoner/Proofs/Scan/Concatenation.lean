import Mathlib
import Reckoner.Proofs.Scan.Segmentation

/-!
# Scanning Texts inside Texts

What becomes of the tokens of a text when it is put into a longer one. In general
a lot, because a name or a number may go on, and a minus may get another kind.
Between parentheses nothing becomes of them but that they move: an opening
parenthesis is followed by an operand like the start of a text, and a closing one
belongs to no number and no name.

The text before is dealt with one lexeme at a time (`scanFrom_lexeme`), and the
text inside by an induction along the scanner (`scanFrom_closing`). Both say what
is scanned in terms of what is scanned after it, whatever that is.

## Main definitions

* `Token.moved`: A token at another position.
* `enclosed`: The tokens of a text between parentheses.

## Theorems

* `scanFrom_lexeme`: A lexeme is scanned and then what follows it.
* `scanFrom_closing`: A text is scanned up to a closing parenthesis.
* `scanFrom_enclosed`: A text is scanned between parentheses.
* `scan_joined`, `scan_applied`, `scan_negated`: Texts made of texts are scanned.
-/

namespace Reckoner

/-- The same token at another position. -/
def Token.moved (distance : Int) (t : Token) : Token :=
  { t with position := t.position + distance }

/-- A text between parentheses. -/
def parenthesized (text : String) : String := "(" ++ text ++ ")"

namespace Lexical

/-- A lexeme is still one when more text follows that goes on with no number and
    no name. -/
theorem IsLexeme.append {kind : TokenKind} {spelling after more : List Char}
    {value : Option Double} (h : IsLexeme kind spelling value after)
    (hnumeric : Clear isNumeric more) (halpha : Clear Char.isAlpha more) :
    IsLexeme kind spelling value (after ++ more) := by
  cases h with
  | integer hne hdigits hrest hfinite =>
      exact .integer hne hdigits (hrest.append hnumeric) hfinite
  | decimal hne hdigits hfraction hfdigits hrest hfinite =>
      exact .decimal hne hdigits hfraction hfdigits (hrest.append hnumeric) hfinite
  | operator hc => exact .operator hc
  | negate => exact .negate
  | openParen => exact .openParen
  | closeParen => exact .closeParen
  | constantSign => exact .constantSign
  | constantName hrest => exact .constantName (hrest.append halpha)
  | function hname hrest => exact .function hname (hrest.append halpha)

/-- A lexeme at the front of a text is scanned, and then what follows it. -/
theorem scanFrom_lexeme (position : Nat) {previous : Option TokenKind} {kind : TokenKind}
    {spelling after : List Char} {value : Option Double}
    (h : IsLexeme kind spelling value after) (hminus : MinusFits previous kind spelling) :
    Token.scanFrom position previous (spelling ++ after) =
      (Token.scanFrom (position + spelling.length) (some kind) after).map
        fun ts => ⟨kind, String.ofList spelling, value, position⟩ :: ts := by
  rcases first_not_blank h with ⟨c, rest, rfl, hblank⟩
  rcases read_complete position h hminus (List.cons_append ..).symm with
    ⟨l, hread, rfl, hspelling, rfl, hrest⟩
  rw [List.cons_append, Token.scanFrom, if_neg (by simp [hblank])]
  simp only [hread, Lexeme.token, hspelling, hrest]
  cases Token.scanFrom (position + (c :: rest).length) (some l.kind) after with
  | error e => rfl
  | ok ts => rfl

theorem minusFits_of_singleton_ne {previous : Option TokenKind} {kind : TokenKind} {c : Char}
    (h : c ≠ '-') : MinusFits previous kind [c] := by
  rintro ⟨⟩
  exact absurd rfl h

/-- A minus fits where another token before it asks for the same kind. -/
theorem MinusFits.of_startsOperand {previous previous' : Option TokenKind} {kind : TokenKind}
    {spelling : List Char} (h : MinusFits previous kind spelling)
    (hprevious : StartsOperand previous' ↔ StartsOperand previous) :
    MinusFits previous' kind spelling := fun hspelling => (h hspelling).trans hprevious.symm

theorem scanFrom_blank (position : Nat) (previous : Option TokenKind) {c : Char}
    (rest : List Char) (hblank : Text.isBlank c = true) :
    Token.scanFrom position previous (c :: rest) =
      Token.scanFrom (position + 1) previous rest := by
  rw [Token.scanFrom, if_pos hblank]

/-- A text that is scanned alone is scanned up to a closing parenthesis, wherever it
    starts, if an operand may start there exactly when it may at its own start. -/
theorem scanFrom_closing {position : Nat} {previous : Option TokenKind} {cs : List Char}
    {ts : List Token} (h : Token.scanFrom position previous cs = .ok ts) :
    ∀ (position' : Nat) (previous' : Option TokenKind) (distance : Int) (rest : List Char),
      (position' : Int) = position + distance →
      (StartsOperand previous' ↔ StartsOperand previous) →
      Token.scanFrom position' previous' (cs ++ ')' :: rest) =
        (Token.scanFrom (position' + cs.length + 1) (some .closeParen) rest).map fun us =>
          ts.map (Token.moved distance) ++
            ⟨.closeParen, ")", none, (position' + cs.length : Nat)⟩ :: us := by
  fun_induction Token.scanFrom position previous cs generalizing ts with
  | case1 position previous =>
      cases h
      intro position' previous' distance rest _ _
      have hclosing : IsLexeme .closeParen [')'] none rest := .closeParen
      exact scanFrom_lexeme position' hclosing (minusFits_of_singleton_ne (by decide))
  | case2 position previous c rest hblank ih =>
      intro position' previous' distance more hposition hprevious
      rw [List.cons_append, scanFrom_blank _ _ _ hblank,
        ih h (position' + 1) previous' distance more (by push_cast; omega) hprevious,
        List.length_cons, Nat.add_assoc, Nat.add_comm 1]
  | case3 position previous c rest hblank e hread => cases h
  | case4 position previous c rest hblank l hread e hrest ih => cases h
  | case5 position previous c rest hblank l hread ts hrest ih =>
      cases h
      intro position' previous' distance more hposition hprevious
      rcases read_sound hread with ⟨hlexeme, hminus⟩
      -- The lexeme is followed by more text now, and ends where it did.
      have hnumeric : Clear isNumeric (')' :: more) := clear_cons more (by decide)
      have hlexeme := hlexeme.append hnumeric (clear_cons more (by decide))
      have hsplit : c :: rest ++ ')' :: more = l.spelling ++ (l.rest ++ ')' :: more) := by
        rw [← List.append_assoc, ← l.split]
      have hlength := congrArg List.length l.split
      rw [List.length_append] at hlength
      rw [hsplit, hlength,
        scanFrom_lexeme position' hlexeme (hminus.of_startsOperand hprevious),
        ih hrest (position' + l.spelling.length) (some l.kind) distance more
          (by push_cast; omega) Iff.rfl,
        Nat.add_assoc position']
      cases Token.scanFrom (position' + (l.spelling.length + l.rest.length) + 1) (some .closeParen)
        more with
      | error e => rfl
      | ok us =>
          simp only [Except.map, List.map_cons, List.cons_append, Token.moved, Lexeme.token,
            hposition]

/-- The tokens of a text between parentheses, of which the first is at the given
    position. -/
def enclosed (position length : Nat) (ts : List Token) : List Token :=
  ⟨.openParen, "(", none, position⟩ :: (ts.map (Token.moved (position + 1)) ++
    [⟨.closeParen, ")", none, (position + 1 + length : Nat)⟩])

/-- A text between parentheses is scanned as it is alone, but for the positions. -/
theorem scanFrom_enclosed {cs : List Char} {ts : List Token}
    (h : Token.scanFrom 0 none cs = .ok ts) (position : Nat) (previous : Option TokenKind)
    (rest : List Char) :
    Token.scanFrom position previous ('(' :: (cs ++ ')' :: rest)) =
      (Token.scanFrom (position + 1 + cs.length + 1) (some .closeParen) rest).map fun us =>
        enclosed position cs.length ts ++ us := by
  -- A minus has the same kind after the parenthesis as at the start of a text.
  have hstarts : StartsOperand (some .openParen) ↔ StartsOperand none := by simp [StartsOperand]
  have hopening : IsLexeme .openParen ['('] none (cs ++ ')' :: rest) := .openParen
  rw [← List.singleton_append, scanFrom_lexeme position hopening
      (minusFits_of_singleton_ne (by decide)), List.length_singleton,
    scanFrom_closing h (position + 1) (some .openParen) (position + 1) rest (by simp) hstarts]
  cases Token.scanFrom (position + 1 + cs.length + 1) (some .closeParen) rest with
  | error e => rfl
  | ok us => simp [Except.map, enclosed]

/-- A character that passes a test which no glyph passes is left as it is. -/
theorem spell_of_test {test : Char → Bool} (hglyphs : ∀ entry ∈ glyphs, test entry.1 = false)
    {c : Char} (h : test c = true) : spell c = [c] := by
  refine spell_of_not_glyph ?_
  cases hlookup : glyphs.lookup c with
  | none => rfl
  | some spelling =>
      rw [hglyphs _ (mem_of_lookup hlookup)] at h
      cases h

theorem spell_of_isBlank {c : Char} (h : Text.isBlank c = true) : spell c = [c] :=
  spell_of_test (by simp [glyphs, Text.isBlank, Text.blankRanges]) h

theorem normalizeChars_parenthesized (text : String) :
    normalizeChars (parenthesized text).toList = '(' :: (normalizeChars text.toList ++ [')']) := by
  simp only [parenthesized, String.toList_append, normalizeChars_append]
  rfl

/-- How many characters a text has once it is normalized. -/
def width (text : String) : Nat := (normalizeChars text.toList).length

section Texts

variable {s t : String} {ts us : List Token}

theorem isLexeme_symbol (op : Operator) (after : List Char) :
    IsLexeme .operator op.symbol.toList none after := by
  cases op <;> exact .operator (by decide)

theorem normalizeChars_symbol (op : Operator) :
    normalizeChars op.symbol.toList = op.symbol.toList := by
  cases op <;> decide

theorem length_symbol (op : Operator) : op.symbol.toList.length = 1 := by
  cases op <;> rfl

/-- An operator between two texts in parentheses is scanned as one, a minus
    included. -/
theorem scan_joined (op : Operator) (hs : Token.scan s = .ok ts) (ht : Token.scan t = .ok us) :
    Token.scan (parenthesized s ++ op.symbol ++ parenthesized t) =
      .ok (enclosed 0 (width s) ts ++ ⟨.operator, op.symbol, none, (width s + 2 : Nat)⟩ ::
        enclosed (width s + 3) (width t) us) := by
  have hminus : MinusFits (some .closeParen) .operator op.symbol.toList := by
    intro _
    simp [StartsOperand]
  simp only [Token.scan, String.toList_append, normalizeChars_append,
    normalizeChars_parenthesized, normalizeChars_symbol, List.cons_append, List.append_assoc,
    List.nil_append]
  rw [scanFrom_enclosed hs, scanFrom_lexeme _ (isLexeme_symbol op _) hminus,
    scanFrom_enclosed ht, Token.scanFrom, String.ofList_toList, length_symbol]
  have hwidth : ∀ n, 0 + 1 + n + 1 = n + 2 := fun n => by omega
  simp only [Except.map, List.append_nil, width, hwidth]

theorem isLexeme_name {f : Unary} (hf : f ∈ Unary.named) {after : List Char}
    (hafter : Clear Char.isAlpha after) : IsLexeme .function f.name.toList none after := by
  refine .function ?_ hafter
  rw [String.ofList_toList]
  exact List.mem_map_of_mem hf

theorem normalizeChars_name (f : Unary) : normalizeChars f.name.toList = f.name.toList := by
  cases f <;> decide

/-- The name of a function before a text in parentheses is scanned as one. -/
theorem scan_applied {f : Unary} (hf : f ∈ Unary.named) (hs : Token.scan s = .ok ts) :
    Token.scan (f.name ++ parenthesized s) =
      .ok (⟨.function, f.name, none, 0⟩ :: enclosed f.name.toList.length (width s) ts) := by
  have hminus : MinusFits none .function f.name.toList := by
    intro hspelling
    cases f <;> cases hspelling
  simp only [Token.scan, String.toList_append, normalizeChars_append,
    normalizeChars_parenthesized, normalizeChars_name]
  rw [scanFrom_lexeme _ (isLexeme_name hf (clear_cons _ (by decide))) hminus,
    scanFrom_enclosed hs, Token.scanFrom, String.ofList_toList]
  simp only [Except.map, List.append_nil, width, Nat.zero_add, Nat.cast_zero]

/-- A minus before a text in parentheses is scanned as a negation. -/
theorem scan_negated (hs : Token.scan s = .ok ts) :
    Token.scan ("-" ++ parenthesized s) =
      .ok (⟨.negate, "-", none, 0⟩ :: enclosed 1 (width s) ts) := by
  have hminus : MinusFits none .negate ['-'] := fun _ => by simp [StartsOperand]
  have hchars : normalizeChars "-".toList = ['-'] := by decide
  simp only [Token.scan, String.toList_append, normalizeChars_append,
    normalizeChars_parenthesized, hchars]
  rw [scanFrom_lexeme _ .negate hminus, scanFrom_enclosed hs, Token.scanFrom]
  simp only [Except.map, List.append_nil, width, List.length_singleton, Nat.zero_add,
    Nat.cast_zero]

end Texts

end Lexical

end Reckoner
