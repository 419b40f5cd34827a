import Reckoner.Number.Numeral

/-!
# JSON Documents

The documents in which answers are printed for programs. Fields keep their
order, every level is indented by two blanks, and an empty array or object stays
on its line. In strings only the quote, the backslash and the control characters
below U+0020 are escaped; all other characters stand for themselves.

Numbers are written as their shortest numerals. The infinities and the
indefinite value have no place in the format and are written as words.

## Main definitions

* `Json`: A document.
* `Json.escape`: One character inside a string.
* `Json.pretty`: The printed document.
-/

namespace Reckoner

/-- A document. -/
inductive Json
  | bool (value : Bool)
  | number (value : Double)
  | text (value : String)
  | array (items : List Json)
  | object (fields : List (String × Json))

namespace Json

/-- One character inside a string. -/
def escape (c : Char) : List Char :=
  if c = '"' then ['\\', '"']
  else if c = '\\' then ['\\', '\\']
  else if c = '\n' then ['\\', 'n']
  else if c = '\r' then ['\\', 'r']
  else if c = '\t' then ['\\', 't']
  else if c = '\x08' then ['\\', 'b']
  else if c = '\x0c' then ['\\', 'f']
  else if c.toNat < 0x20 then
    '\\' :: 'u' :: '0' :: '0' :: Nat.digitChar (c.toNat / 16) :: [Nat.digitChar (c.toNat % 16)]
  else [c]

/-- A string of the document, with its quotes. -/
def stringChars (cs : List Char) : List Char := '"' :: (cs.flatMap escape ++ ['"'])

/-- A number of the document. -/
def numberChars (x : Double) : List Char :=
  match x with
  | .nan => ['N', 'a', 'N']
  | .infinite false => ['I', 'n', 'f', 'i', 'n', 'i', 't', 'y']
  | .infinite true => ['-', 'I', 'n', 'f', 'i', 'n', 'i', 't', 'y']
  | .finite .. => x.text.toList

/-- The start of a line at a level. -/
def newline (level : Nat) : List Char := '\n' :: List.replicate (2 * level) ' '

mutual

/-- A document at a level of indentation. -/
def chars (level : Nat) : Json → List Char
  | .bool true => ['t', 'r', 'u', 'e']
  | .bool false => ['f', 'a', 'l', 's', 'e']
  | .number x => numberChars x
  | .text s => stringChars s.toList
  | .array [] => ['[', ']']
  | .array (item :: rest) =>
    '[' :: (newline (level + 1) ++ chars (level + 1) item ++ itemChars (level + 1) rest ++
      newline level ++ [']'])
  | .object [] => ['\x7b', '\x7d']
  | .object ((name, value) :: rest) =>
    '\x7b' :: (newline (level + 1) ++ stringChars name.toList ++ [':', ' '] ++
      chars (level + 1) value ++ fieldChars (level + 1) rest ++ newline level ++ ['\x7d'])

/-- The items of an array after the first. -/
def itemChars (level : Nat) : List Json → List Char
  | [] => []
  | item :: rest => ',' :: (newline level ++ chars level item ++ itemChars level rest)

/-- The fields of an object after the first. -/
def fieldChars (level : Nat) : List (String × Json) → List Char
  | [] => []
  | (name, value) :: rest =>
    ',' :: (newline level ++ stringChars name.toList ++ [':', ' '] ++ chars level value ++
      fieldChars level rest)

end

/-- The printed document. -/
def pretty (j : Json) : String := String.ofList (chars 0 j)

end Json

end Reckoner
