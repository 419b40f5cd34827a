import Reckoner.Text.Replace

/-!
# Glyphs

Four signs of printed mathematics have an equivalent on every keyboard, and
expressions are read as if they had been typed that way. Positions in messages
are positions in the text that has its glyphs spelled out.

There are two ways to spell them out. A text can be gone through once for every
glyph, and what one pass has put in is there for the next to see. Or it can be gone
through once, character by character, as the scanner does. No spelling contains a
glyph, and so it makes no difference which way is taken.

## Main definitions

* `glyphs`: The four glyphs and their spellings.
* `replaceEach`: A text after one pass for every entry of a table.
* `normalize`: A text with its glyphs spelled out, one glyph after another.
* `spell`: The spelling of one character.
* `normalizeChars`: A text with its glyphs spelled out, character by character.

## Theorems

* `normalizeChars_append`: Texts can be normalized piece by piece.
* `normalizeChars_idem`: Normalizing twice changes nothing more.
-/

namespace Reckoner

/-- The glyphs and how they are spelled. -/
def glyphs : List (Char × List Char) :=
  [('√', ['s', 'q', 'r', 't']), ('×', ['*']), ('÷', ['/']), ('−', ['-'])]

/-- The spelling of one character, itself unless it is a glyph. -/
def spell (c : Char) : List Char := (glyphs.lookup c).getD [c]

/-- A list of characters with its glyphs spelled out. -/
def normalizeChars (cs : List Char) : List Char := cs.flatMap spell

/-- A text in which the character of an entry has been replaced throughout. -/
def replaceEntry (cs : List Char) (entry : Char × List Char) : List Char :=
  Text.replaceAll entry.1 [] entry.2 cs

/-- A text after one pass for every entry of a table, in the order of the table. -/
def replaceEach (table : List (Char × List Char)) (s : String) : String :=
  String.ofList (table.foldl replaceEntry s.toList)

/-- A text with its glyphs spelled out, one glyph after another. -/
def normalize (s : String) : String := replaceEach glyphs s

theorem normalizeChars_cons (c : Char) (cs : List Char) :
    normalizeChars (c :: cs) = spell c ++ normalizeChars cs :=
  List.flatMap_cons

theorem normalizeChars_append (a b : List Char) :
    normalizeChars (a ++ b) = normalizeChars a ++ normalizeChars b := by
  simp only [normalizeChars, List.flatMap_append]

theorem spell_of_not_glyph {c : Char} (h : glyphs.lookup c = none) : spell c = [c] := by
  simp only [spell, h, Option.getD_none]

/-- What is found in a table is an entry of it. -/
theorem mem_of_lookup {α β : Type} [BEq α] [LawfulBEq α] {table : List (α × β)} {key : α}
    {value : β} (h : table.lookup key = some value) : (key, value) ∈ table := by
  rcases List.lookup_eq_some_iff.1 h with ⟨before, after, hsplit, _⟩
  rw [hsplit]
  exact List.mem_append_right before (.head after)

theorem normalizeChars_spell (c : Char) : normalizeChars (spell c) = spell c := by
  cases h : glyphs.lookup c with
  | none => simp [normalizeChars, spell_of_not_glyph h]
  | some spelling =>
      have hfix : ∀ entry ∈ glyphs, normalizeChars entry.2 = entry.2 := by decide
      simp only [spell, h, Option.getD_some]
      exact hfix (c, spelling) (mem_of_lookup h)

theorem normalizeChars_idem (cs : List Char) :
    normalizeChars (normalizeChars cs) = normalizeChars cs := by
  induction cs with
  | nil => rfl
  | cons c rest ih => rw [normalizeChars_cons, normalizeChars_append, normalizeChars_spell, ih]

end Reckoner
