import Reckoner.Text.Printable
import Reckoner.Number.Numeral

/-!
# Quoted Text

How a text is shown inside a message: between quotes, on one line, with every
character visible. The quotes are apostrophes, unless the text has an apostrophe
and no double quote. The quote itself and the backslash are escaped, the three
common control characters have names, and any other unprintable character is
written by its code point, in the shortest of three widths.

## Main definitions

* `quoteFor`: The quote a text is put in.
* `escape`: One character inside quotes.
* `quoted`: A text between quotes.
-/

namespace Reckoner

namespace Text

/-- The apostrophe, the usual quote. -/
def apostrophe : Char := '\x27'

/-- The double quote, used around texts that hold only apostrophes. -/
def doubleQuote : Char := '"'

/-- The quote that a text is put in. -/
def quoteFor (cs : List Char) : Char :=
  if cs.contains apostrophe && !cs.contains doubleQuote then doubleQuote else apostrophe

/-- A number in hexadecimal, padded with zeros to a width. -/
def hexadecimal (width n : Nat) : List Char :=
  let ds := Nat.toDigits 16 n
  List.replicate (width - ds.length) '0' ++ ds

/-- A character by its code point. -/
def codePoint (c : Char) : List Char :=
  if c.toNat < 0x100 then '\\' :: 'x' :: hexadecimal 2 c.toNat
  else if c.toNat < 0x10000 then '\\' :: 'u' :: hexadecimal 4 c.toNat
  else '\\' :: 'U' :: hexadecimal 8 c.toNat

/-- One character inside quotes. -/
def escape (quote c : Char) : List Char :=
  if c = quote ∨ c = '\\' then ['\\', c]
  else if c = '\n' then ['\\', 'n']
  else if c = '\r' then ['\\', 'r']
  else if c = '\t' then ['\\', 't']
  else if isPrintable c then [c]
  else codePoint c

/-- A text between quotes, character by character. -/
def quotedChars (cs : List Char) : List Char :=
  let quote := quoteFor cs
  quote :: (cs.flatMap (escape quote) ++ [quote])

/-- A text between quotes. -/
def quoted (s : String) : String := String.ofList (quotedChars s.toList)

end Text

end Reckoner
