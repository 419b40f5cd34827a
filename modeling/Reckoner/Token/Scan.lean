import Reckoner.Number.Numeral
import Reckoner.Text.Blank
import Reckoner.Token.Basic
import Reckoner.Token.Glyph
import Reckoner.Operation.Unary

/-!
# Scanning

From characters to tokens. The text is normalized first, and then taken apart
from the left, one lexeme at a time and always the longest that fits.

A `Lexeme` of a text holds its own spelling together with the text that follows,
and a proof that the two make up the whole. Nothing can be lost or read twice
that way, and because the spelling is never empty, the scanner recurses on a
shorter text without any bound on its steps.

Blanks are skipped between lexemes and nowhere else. What no lexeme starts with
is an error at its position, and so is a number whose notation is broken or whose
value is past the largest double.

## Main definitions

* `ScanError`: Why a text has no tokens.
* `Lexeme`: A token at the front of a text, with what follows it.
* `Lexeme.read`: The longest lexeme at the front of a text.
* `Token.scanFrom`: The tokens of a text from a position on.
* `Token.scan`: The tokens of a text.

## Theorems

* `Lexeme.rest_length`: What follows a lexeme is shorter than the text.
-/

namespace Reckoner

/-- Why a text has no tokens. Positions count characters of the normalized
    text. -/
inductive ScanError
  | noFraction (literal : String) (position : Nat)
  | secondPoint (literal : String) (position : Nat)
  | noLeadingDigit (position : Nat)
  | tooLarge (position : Nat)
  | unknownName (word : String) (position : Nat)
  | unexpected (c : Char) (position : Nat)
deriving DecidableEq, Repr

namespace ScanError

/-- The position of the character that cannot be read. -/
def position : ScanError → Nat
  | .noFraction _ p => p
  | .secondPoint _ p => p
  | .noLeadingDigit p => p
  | .tooLarge p => p
  | .unknownName _ p => p
  | .unexpected _ p => p

/-- The wording of a scanning error. -/
def message : ScanError → String
  | .noFraction literal p => s!"Malformed number '{literal}' at position {p}"
  | .secondPoint literal p =>
    s!"Malformed number '{literal}' at position {p}: more than one decimal point"
  | .noLeadingDigit p => s!"Malformed number at position {p}: missing leading digit"
  | .tooLarge p => s!"Number too large at position {p}"
  | .unknownName word p => s!"Unknown name '{word}' at position {p}"
  | .unexpected c p => s!"Unexpected character '{c}' at position {p}"

end ScanError

/-- The constants and their values. -/
def constants : List (String × Double) :=
  let pi : Double := .finite false 7074237752028440 (-51) (by decide)
  [("π", pi), ("pi", pi)]

/-- A token at the front of a text, before it has a position. -/
structure Lexeme (cs : List Char) where
  kind : TokenKind
  spelling : List Char
  value : Option Double
  rest : List Char
  split : cs = spelling ++ rest
  nonempty : spelling ≠ []

namespace Lexeme

theorem rest_length {cs : List Char} (l : Lexeme cs) : l.rest.length < cs.length := by
  have hlen := congrArg List.length l.split
  have hpos := List.length_pos_iff.2 l.nonempty
  simp only [List.length_append] at hlen
  omega

/-- A lexeme of one character. -/
def single (kind : TokenKind) (value : Option Double) (c : Char) (rest : List Char) :
    Lexeme (c :: rest) :=
  ⟨kind, [c], value, rest, rfl, by simp⟩

/-- The token that a lexeme makes at a position. -/
def token {cs : List Char} (l : Lexeme cs) (position : Nat) : Token :=
  ⟨l.kind, String.ofList l.spelling, l.value, position⟩

/-- Check the value of a number before it becomes a lexeme. -/
def finiteNumber {cs : List Char} (position : Nat) (spelling rest : List Char) (value : Double)
    (split : cs = spelling ++ rest) (nonempty : spelling ≠ []) :
    Except ScanError (Lexeme cs) :=
  if value.isFinite then .ok ⟨.number, spelling, some value, rest, split, nonempty⟩
  else .error (.tooLarge position)

/-- The number at the front of a text that starts with a digit: digits, and a
    fraction if a point follows. -/
def number (position : Nat) (c : Char) (rest : List Char) :
    Except ScanError (Lexeme (c :: rest)) :=
  let whole := c :: rest.takeWhile Char.isDigit
  match hpoint : rest.dropWhile Char.isDigit with
  | '.' :: more =>
    let fraction := more.takeWhile Char.isDigit
    let literal := whole ++ '.' :: fraction
    if fraction.isEmpty then .error (.noFraction (String.ofList literal) position)
    else
      match hafter : more.dropWhile Char.isDigit with
      | '.' :: _ => .error (.secondPoint (String.ofList (literal ++ ['.'])) position)
      | after =>
        finiteNumber position literal after (Double.ofParts whole fraction)
          (by
            have hrest := List.takeWhile_append_dropWhile (p := Char.isDigit) (l := rest)
            have hmore := List.takeWhile_append_dropWhile (p := Char.isDigit) (l := more)
            rw [hafter] at hmore
            rw [hpoint] at hrest
            simp only [literal, whole, fraction, List.append_assoc, List.cons_append, hmore, hrest])
          (by simp [literal, whole])
  | after =>
    finiteNumber position whole after (Double.ofParts whole [])
      (by
        have hrest := List.takeWhile_append_dropWhile (p := Char.isDigit) (l := rest)
        rw [hpoint] at hrest
        simp only [whole, List.cons_append, hrest])
      (by simp [whole])

/-- The name at the front of a text that starts with a letter. -/
def word (position : Nat) (c : Char) (rest : List Char) :
    Except ScanError (Lexeme (c :: rest)) :=
  let spelling := c :: rest.takeWhile Char.isAlpha
  let text := String.ofList spelling
  let named (kind : TokenKind) (value : Option Double) : Lexeme (c :: rest) :=
    ⟨kind, spelling, value, rest.dropWhile Char.isAlpha,
      by simp only [spelling, List.cons_append, List.takeWhile_append_dropWhile],
      by simp [spelling]⟩
  if Unary.named.any fun f => f.name == text then .ok (named .function none)
  else
    match constants.lookup text with
    | some value => .ok (named .constant (some value))
    | none => .error (.unknownName text position)

/-- The longest lexeme at the front of a text that starts with no blank, given
    the kind of the token before it. -/
def read (position : Nat) (previous : Option TokenKind) (c : Char) (rest : List Char) :
    Except ScanError (Lexeme (c :: rest)) :=
  if c.isDigit then number position c rest
  else if c = '.' then .error (.noLeadingDigit position)
  else if c = '-' ∧ previous.all TokenKind.startsOperand = true then
    .ok (.single .negate none c rest)
  else if Operator.all.any fun op => op.symbol == String.singleton c then
    .ok (.single .operator none c rest)
  else if c = '(' then .ok (.single .openParen none c rest)
  else if c = ')' then .ok (.single .closeParen none c rest)
  else
    match constants.lookup (String.singleton c) with
    | some value => .ok (.single .constant (some value) c rest)
    | none =>
      if c.isAlpha then word position c rest
      else .error (.unexpected c position)

end Lexeme

namespace Token

/-- The tokens of a text from a position on, given the kind of the token before
    it. -/
def scanFrom (position : Nat) (previous : Option TokenKind) : List Char →
    Except ScanError (List Token)
  | [] => .ok []
  | c :: rest =>
    if Text.isBlank c then scanFrom (position + 1) previous rest
    else
      match Lexeme.read position previous c rest with
      | .error e => .error e
      | .ok l =>
        match scanFrom (position + l.spelling.length) (some l.kind) l.rest with
        | .error e => .error e
        | .ok tokens => .ok (l.token position :: tokens)
termination_by cs => cs.length
decreasing_by
  · simp
  · exact l.rest_length

/-- The tokens of a text. -/
def scan (s : String) : Except ScanError (List Token) :=
  scanFrom 0 none (normalizeChars s.toList)

end Token

end Reckoner
