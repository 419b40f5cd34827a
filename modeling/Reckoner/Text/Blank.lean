/-!
# Blank Characters

What separates tokens and what is cut off at the ends of a text: the spaces,
tabs and line ends of every script, and the four information separators. The
zero width space and the byte order mark are not among them.

## Main definitions

* `isBlank`: Whether a character is blank.
* `stripBy`: A text without the characters at its ends that pass a test.
* `strip`: A text without the blanks at its ends.
* `isBlankText`: Whether a text has nothing but blanks.
-/

namespace Reckoner

namespace Text

/-- The code points of blank characters, as ranges. -/
def blankRanges : List (Nat × Nat) :=
  [(0x9, 0xD), (0x1C, 0x20), (0x85, 0x85), (0xA0, 0xA0), (0x1680, 0x1680), (0x2000, 0x200A),
    (0x2028, 0x2029), (0x202F, 0x202F), (0x205F, 0x205F), (0x3000, 0x3000)]

/-- Whether a character is blank. -/
def isBlank (c : Char) : Bool :=
  blankRanges.any fun range => range.1 ≤ c.toNat && c.toNat ≤ range.2

/-- A text without the characters at either end that pass a test. -/
def stripBy (test : Char → Bool) (cs : List Char) : List Char :=
  ((cs.dropWhile test).reverse.dropWhile test).reverse

/-- A text without the blanks at either end. -/
def strip (s : String) : String := String.ofList (stripBy isBlank s.toList)

/-- Whether a text has nothing but blanks. -/
def isBlankText (s : String) : Bool := s.toList.all isBlank

theorem dropWhile_eq_nil_iff {test : Char → Bool} {cs : List Char} :
    cs.dropWhile test = [] ↔ ∀ c ∈ cs, test c = true := by
  induction cs with
  | nil => simp
  | cons c rest ih =>
      by_cases h : test c = true
      · simp [List.dropWhile, h, ih]
      · simp [List.dropWhile, h]

end Text

end Reckoner
