import Mathlib
import Reckoner.Log.Journal
import Reckoner.Proofs.Scan.Segmentation

/-!
# Pass by Pass and Character by Character

Glyphs are spelled out in passes over the whole text, one for every entry of the table,
and a pass does not know what an earlier one has put in. In general the result depends
on the order of the passes, and making them all a second time can change a text that
has been through them once.

Neither happens with a table that keeps its entries out of each other's way. If no entry
puts in a character that any entry replaces, a later pass leaves alone what an earlier
one has put in, so each character of the text meets one entry at most
(`foldl_replaceEntry`). If no two entries are about one character either, any two passes
can change places (`replaceEntry_comm`), and with them all of them (`replaceEach_perm`).

The table of glyphs is such a table. Texts are therefore normalized character by
character, and the scanner reads a text just as it reads the normalized one.

## Main definitions

* `Independent`: A table keeps its entries out of each other's way.
* `SpelledOut`: A text has its glyphs spelled out and everything else kept.

## Theorems

* `replaceEntry_comm`: Two passes can change places.
* `replaceEach_perm`: Passes can be made in any order.
* `foldl_replaceEntry`: All passes together replace character by character.
* `toList_normalize`: Normalizing goes character by character.
* `spelledOut_iff`: There is one way to have the glyphs spelled out.
* `normalize_characterwise`: What normalizing does, and what it does to scanning.
-/

namespace Reckoner

namespace Lexical

/-- What a table of replacements needs for its entries to keep out of each other's way:
    nothing put in by an entry is replaced by an entry, and no character is replaced by
    two. -/
structure Independent (table : List (Char × List Char)) : Prop where
  settled : ∀ x ∈ table, ∀ y ∈ table, y.1 ∉ x.2
  distinct : ∀ x ∈ table, ∀ y ∈ table, x ≠ y → x.1 ≠ y.1

theorem independent_glyphs : Independent glyphs := ⟨by decide, by decide⟩

/-- A text with its glyphs spelled out, and every other character kept where it stood
    among them. -/
inductive SpelledOut : List Char → List Char → Prop
  | nil : SpelledOut [] []
  | glyph {c : Char} {spelling cs ds : List Char} (hmem : (c, spelling) ∈ glyphs)
    (hrest : SpelledOut cs ds) : SpelledOut (c :: cs) (spelling ++ ds)
  | other {c : Char} {cs ds : List Char} (hother : ∀ entry ∈ glyphs, entry.1 ≠ c)
    (hrest : SpelledOut cs ds) : SpelledOut (c :: cs) (c :: ds)

section Tables

variable {table order : List (Char × List Char)} {x y : Char × List Char}

theorem replaceEntry_append (a b : List Char) :
    replaceEntry (a ++ b) x = replaceEntry a x ++ replaceEntry b x := by
  simp only [replaceEntry, Text.replaceAll_char, List.flatMap_append]

theorem replaceEntry_self : replaceEntry [x.1] x = x.2 := by
  rw [replaceEntry, Text.replaceAll_char, List.flatMap_singleton, if_pos rfl]

theorem replaceEntry_of_not_mem {cs : List Char} (h : x.1 ∉ cs) : replaceEntry cs x = cs :=
  Text.replaceAll_of_not_mem h

theorem replaceEntry_of_ne {c : Char} (h : x.1 ≠ c) : replaceEntry [c] x = [c] :=
  replaceEntry_of_not_mem fun hmem => h (List.mem_singleton.1 hmem)

/-- Two passes can change places. On a single character at most one of them has
    something to do, and what it puts in is nothing to the other. -/
theorem replaceEntry_comm (h : Independent table) (hx : x ∈ table) (hy : y ∈ table)
    (cs : List Char) :
    replaceEntry (replaceEntry cs x) y = replaceEntry (replaceEntry cs y) x := by
  by_cases hxy : x = y
  · rw [hxy]
  have hne := h.distinct x hx y hy hxy
  induction cs with
  | nil => simp only [replaceEntry, Text.replaceAll]
  | cons c cs ih =>
      have hchar : replaceEntry (replaceEntry [c] x) y = replaceEntry (replaceEntry [c] y) x := by
        by_cases hcx : x.1 = c
        · subst hcx
          rw [replaceEntry_self, replaceEntry_of_not_mem (h.settled x hx y hy),
            replaceEntry_of_ne hne.symm, replaceEntry_self]
        · rw [replaceEntry_of_ne hcx]
          by_cases hcy : y.1 = c
          · subst hcy
            rw [replaceEntry_self, replaceEntry_of_not_mem (h.settled y hy x hx)]
          · rw [replaceEntry_of_ne hcy, replaceEntry_of_ne hcx]
      rw [← List.singleton_append]
      simp only [replaceEntry_append, hchar, ih]

/-- The passes of a table can be made in any order. -/
theorem replaceEach_perm (h : Independent table) (horder : order.Perm table) (s : String) :
    replaceEach order s = replaceEach table s := by
  have hpasses := horder.symm.foldl_eq' (f := replaceEntry)
    (fun x hx y hy cs => replaceEntry_comm h hx hy cs) s.toList
  rw [replaceEach, replaceEach, hpasses]

/-- Where one entry replaces what another puts in, the order matters. -/
example : replaceEach [('×', ['·']), ('·', ['*'])] "2×3" = "2*3" ∧
    replaceEach [('·', ['*']), ('×', ['·'])] "2×3" = "2·3" := by decide +kernel

/-- A text with none of a table's characters goes through all passes unchanged. -/
theorem foldl_replaceEntry_of_not_mem {cs : List Char} (h : ∀ x ∈ table, x.1 ∉ cs) :
    table.foldl replaceEntry cs = cs := by
  induction table with
  | nil => rfl
  | cons x rest ih =>
      rw [List.foldl_cons, replaceEntry_of_not_mem (h x (.head _)), ih fun y hy => h y (.tail _ hy)]

/-- All passes together replace character by character, by induction on the table. What
    the first pass puts in for a character goes unchanged through the others. -/
theorem foldl_replaceEntry (h : ∀ x ∈ table, ∀ y ∈ table, y.1 ∉ x.2) (cs : List Char) :
    table.foldl replaceEntry cs = cs.flatMap fun c => (table.lookup c).getD [c] := by
  induction table generalizing cs with
  | nil => simp
  | cons x rest ih =>
      have hrest : ∀ y ∈ rest, ∀ z ∈ rest, z.1 ∉ y.2 :=
        fun y hy z hz => h y (.tail _ hy) z (.tail _ hz)
      rw [List.foldl_cons, ih hrest, replaceEntry, Text.replaceAll_char, List.flatMap_assoc]
      refine List.flatMap_congr fun c _ => ?_
      by_cases hc : c = x.1
      · subst hc
        have hspelling : x.2.flatMap (fun d => (rest.lookup d).getD [d]) = x.2 := by
          rw [← ih hrest]
          exact foldl_replaceEntry_of_not_mem fun y hy => h x (.head _) y (.tail _ hy)
        rw [if_pos rfl, hspelling, List.lookup_cons, beq_self_eq_true]
        rfl
      · rw [if_neg hc, List.flatMap_singleton, List.lookup_cons, beq_false_of_ne hc]

end Tables

section Glyphs

variable {cs ds : List Char}

/-- Normalizing goes character by character, as scanning does. -/
theorem toList_normalize (s : String) : (normalize s).toList = normalizeChars s.toList := by
  rw [normalize, replaceEach, String.toList_ofList, foldl_replaceEntry independent_glyphs.settled]
  rfl

/-- There is exactly one way to have the glyphs of a text spelled out. -/
theorem spelledOut_iff : SpelledOut cs ds ↔ ds = normalizeChars cs := by
  constructor
  · intro h
    induction h with
    | nil => rfl
    | glyph hmem _ ih =>
        have hspell : ∀ entry ∈ glyphs, spell entry.1 = entry.2 := by decide
        rw [normalizeChars_cons, hspell _ hmem, ih]
    | other hother _ ih =>
        have hnone := List.lookup_eq_none_iff.2 fun entry hentry =>
          bne_iff_ne.2 (hother entry hentry).symm
        rw [normalizeChars_cons, spell_of_not_glyph hnone, ih, List.singleton_append]
  · rintro rfl
    induction cs with
    | nil => exact .nil
    | cons c cs ih =>
        rw [normalizeChars_cons]
        cases hlookup : glyphs.lookup c with
        | none =>
            rw [spell_of_not_glyph hlookup]
            refine .other (fun entry hentry => ?_) ih
            exact (bne_iff_ne.1 (List.lookup_eq_none_iff.1 hlookup entry hentry)).symm
        | some spelling =>
            rw [spell, hlookup, Option.getD_some]
            exact .glyph (mem_of_lookup hlookup) ih

/-- No glyph is left in a text that has been normalized. -/
theorem not_mem_normalizeChars {entry : Char × List Char} (h : entry ∈ glyphs) :
    entry.1 ∉ normalizeChars cs := by
  have hspell : ∀ entry ∈ glyphs, spell entry.1 ≠ [entry.1] := by decide
  exact fun hmem => hspell entry h (spell_of_mem_normalizeChars hmem)

theorem normalize_append (a b : String) : normalize (a ++ b) = normalize a ++ normalize b := by
  refine String.toList_injective ?_
  simp only [toList_normalize, String.toList_append, normalizeChars_append]

theorem normalize_normalize (s : String) : normalize (normalize s) = normalize s := by
  refine String.toList_injective ?_
  rw [toList_normalize, toList_normalize, normalizeChars_idem]

theorem scan_eq_scanFrom_normalize (s : String) :
    Token.scan s = Token.scanFrom 0 none (normalize s).toList := by
  rw [Token.scan, toList_normalize]

theorem tokenize_normalize (s : String) : tokenize (normalize s) = tokenize s := by
  rw [tokenize, tokenize, scan_eq_scanFrom_normalize, normalize_normalize,
    scan_eq_scanFrom_normalize s]

/-- Normalizing is one substitution for all characters of a text, whatever the order of
    the passes over it. It goes piece by piece, a second time it does nothing, and it
    leaves no glyph. The scanner reads the normalized text, so a text has the tokens, the
    errors and the records of that text. -/
theorem normalize_characterwise (a b : String) {order : List (Char × List Char)}
    (horder : order.Perm glyphs) :
    (∀ cs, SpelledOut a.toList cs ↔ cs = (normalize a).toList) ∧
    replaceEach order a = normalize a ∧
    normalize (a ++ b) = normalize a ++ normalize b ∧
    normalize (normalize a) = normalize a ∧
    (∀ entry ∈ glyphs, entry.1 ∉ (normalize a).toList) ∧
    Token.scan a = Token.scanFrom 0 none (normalize a).toList ∧
    tokenize (normalize a) = tokenize a ∧
    Journal.tokenize (normalize a) = Journal.tokenize a := by
  refine ⟨fun cs => ?_, replaceEach_perm independent_glyphs horder a, normalize_append a b,
    normalize_normalize a, fun entry hentry => ?_, scan_eq_scanFrom_normalize a,
    tokenize_normalize a, ?_⟩
  · rw [toList_normalize]
    exact spelledOut_iff
  · rw [toList_normalize]
    exact not_mem_normalizeChars hentry
  · rw [Journal.tokenize, Journal.tokenize, tokenize_normalize, normalize_normalize]

/-- From the last glyph to the first, the passes come to the same text. It is cut here
    between two glyphs, which is where a spelling could run on. -/
theorem normalize_characterwise_reversed :
    glyphs.reverse.Perm glyphs ∧
    SpelledOut "2√(9)×".toList "2sqrt(9)*".toList ∧
    replaceEach glyphs.reverse "2√(9)×" = "2sqrt(9)*" ∧
    normalize ("2√(9)×" ++ "−√4") = "2sqrt(9)*" ++ "-sqrt4" ∧
    tokenize "2sqrt(9)*" = tokenize "2√(9)×" := by
  have horder := List.reverse_perm glyphs
  have hleft : normalize "2√(9)×" = "2sqrt(9)*" := by decide +kernel
  have hright : normalize "−√4" = "-sqrt4" := by decide +kernel
  rcases normalize_characterwise "2√(9)×" "−√4" horder with
    ⟨hspelled, hpasses, happend, -, -, -, htokens, -⟩
  rw [hleft] at hspelled hpasses happend htokens
  rw [hright] at happend
  exact ⟨horder, (hspelled _).2 rfl, hpasses, happend, htokens⟩

end Glyphs

end Lexical

end Reckoner
