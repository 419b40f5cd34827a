import Mathlib
import Reckoner.Proofs.Evaluation.Proper
import Reckoner.Proofs.Grammar.Acceptance
import Reckoner.Proofs.Scan.Segmentation

/-!
# From Text to Proper Trees

What scanning and parsing hand on to the evaluator. The tokens of a text are
legible: their operators and functions are among those that exist, and their
numbers are there and finite. A tree derived from legible tokens is proper, so
the tables of the parser and of the evaluator are never asked for a name that
they do not have.

The other way around, a text with something in it has a token. The scanner skips
a blank at a time and blank texts are found by looking at their ends, but both go
by the same test, so an empty list of tokens never comes from a text that has
passed as not blank.

## Main definitions

* `Token.Legible`: The operator or function exists, the number is finite.

## Theorems

* `legible_of_scan`: Every token of a text is legible.
* `scan_ne_nil`: A text that is not blank has a token.
* `proper_of_derivation`: Legible tokens make proper trees.
* `ofTokens_ne_empty`: Only a list without tokens is called empty.
-/

namespace Reckoner

/-- What the later stages need to know about a token: its operator or function
    exists, and its number is there and finite. -/
structure Token.Legible (t : Token) : Prop where
  operator : t.kind = .operator → t.text ∈ ["+", "-", "*", "/", "^"]
  value : t.kind = .number ∨ t.kind = .constant → ∃ v, t.value = some v ∧ v.isFinite = true
  function : t.kind = .function → t.text ∈ ["sqrt", "sin", "cos", "tan", "log", "ln"]

theorem Lexical.legible_of_stands {s : List Char} {t : Token} (h : Lexical.Stands s t) :
    t.Legible := by
  rcases h with ⟨n, after, -, -, hlexeme⟩
  rcases t with ⟨kind, text, value, position⟩
  simp only at hlexeme
  -- The spelling of a token is a lexeme only as a list, so the cases are taken on that.
  generalize hspelling : text.toList = spelling at hlexeme
  cases hlexeme with
  | integer _ _ _ hfinite => exact ⟨nofun, fun _ => ⟨_, rfl, hfinite⟩, nofun⟩
  | decimal _ _ _ _ _ hfinite => exact ⟨nofun, fun _ => ⟨_, rfl, hfinite⟩, nofun⟩
  | operator hc =>
      refine ⟨fun _ => ?_, by simp, nofun⟩
      have hall : ∀ c ∈ ['+', '-', '*', '/', '^'],
          String.ofList [c] ∈ ["+", "-", "*", "/", "^"] := by simp
      rw [← String.ofList_toList (s := text), hspelling]
      exact hall _ hc
  | constantSign => exact ⟨nofun, fun _ => ⟨_, rfl, rfl⟩, nofun⟩
  | constantName _ => exact ⟨nofun, fun _ => ⟨_, rfl, rfl⟩, nofun⟩
  | function hname _ =>
      refine ⟨nofun, by simp, fun _ => ?_⟩
      rwa [← hspelling, String.ofList_toList] at hname
  | negate => exact ⟨nofun, by simp, nofun⟩
  | openParen => exact ⟨nofun, by simp, nofun⟩
  | closeParen => exact ⟨nofun, by simp, nofun⟩

/-- Every token that is scanned is legible. -/
theorem legible_of_scan {text : String} {tokens : List Token}
    (h : Token.scan text = .ok tokens) : ∀ t ∈ tokens, t.Legible := by
  intro t ht
  have hsegmentation := (Lexical.scanFrom_eq_ok_iff _ rfl).1 h
  exact Lexical.legible_of_stands (hsegmentation.lexemes t ht)

theorem exists_nonblank_normalizeChars {cs : List Char} {c : Char} (hmem : c ∈ cs)
    (hc : Text.isBlank c = false) : ∃ d ∈ normalizeChars cs, Text.isBlank d = false := by
  have hspell : ∃ d ∈ spell c, Text.isBlank d = false := by
    cases hlookup : glyphs.lookup c with
    | none =>
        rw [spell_of_not_glyph hlookup]
        exact ⟨c, by simp, hc⟩
    | some spelling =>
        have hplain : ∀ entry ∈ glyphs, ∃ d ∈ entry.2, Text.isBlank d = false := by
          simp [glyphs, Text.isBlank, Text.blankRanges]
        simp only [spell, hlookup, Option.getD_some]
        exact hplain _ (mem_of_lookup hlookup)
  rcases hspell with ⟨d, hd, hblank⟩
  exact ⟨d, List.mem_flatMap.2 ⟨c, hmem, hd⟩, hblank⟩

/-- A text that is not blank has tokens, if it can be scanned. -/
theorem scan_ne_nil {text : String} (hblank : Text.isBlankText text = false) :
    Token.scan text ≠ .ok [] := by
  intro h
  have hsegmentation := (Lexical.scanFrom_eq_ok_iff _ rfl).1 h
  simp only [Text.isBlankText, List.all_eq_false, Bool.not_eq_true] at hblank
  rcases hblank with ⟨c, hmem, hc⟩
  -- Normalizing leaves something to be covered, so there is a token that covers it.
  rcases exists_nonblank_normalizeChars hmem hc with ⟨d, hd, hnonblank⟩
  rcases List.mem_iff_getElem?.1 hd with ⟨n, hn⟩
  rcases hsegmentation.covered n d (by omega) (List.getElem?_eq_some_iff.1 hn).1 hn with
    hcontra | ⟨t, ht, _⟩
  · rw [hnonblank] at hcontra
    cases hcontra
  · cases ht

theorem Expr.Proper.grouped {e : Expr} (h : e.Proper) : e.grouped.Proper := by
  cases h with
  | literal hfinite => exact .literal hfinite
  | binary hop hleft hright => exact .binary hop hleft hright
  | apply hf hargument => exact .apply hf hargument

namespace Grammar

/-- An operator of the grammar exists. -/
theorem ofSymbol?_of_mem {symbol : String} (h : symbol ∈ ["+", "-", "*", "/", "^"]) :
    ∃ op, Operator.ofSymbol? symbol = some op := by
  have hall : ∀ symbol ∈ ["+", "-", "*", "/", "^"], (Operator.ofSymbol? symbol).isSome = true := by
    decide
  exact Option.isSome_iff_exists.1 (hall symbol h)

theorem ofName?_of_mem {name : String} (h : name ∈ ["sqrt", "sin", "cos", "tan", "log", "ln"]) :
    ∃ f, Unary.ofName? name = some f := by
  have hall : ∀ name ∈ ["sqrt", "sin", "cos", "tan", "log", "ln"],
      (Unary.ofName? name).isSome = true := by decide
  exact Option.isSome_iff_exists.1 (hall name h)

/-- What is derived from legible tokens is proper. -/
theorem proper_of_derivation {s : Stratum} {ts : List Token} {e : Expr} (d : Derivation s ts e)
    (hlegible : ∀ t ∈ ts, t.Legible) : e.Proper := by
  induction d with
  | sumOfProduct _ ih => exact ih hlegible
  | productOfPower _ ih => exact ih hlegible
  | powerOfSigned _ ih => exact ih hlegible
  | signedOfPrimary _ ih => exact ih hlegible
  | addition _ op hop _ ihleft ihright =>
      rcases ofSymbol?_of_mem ((hlegible op (by simp)).operator hop.1) with ⟨o, ho⟩
      exact .binary ho (ihleft fun t ht => hlegible t (by simp [ht]))
        (ihright fun t ht => hlegible t (by simp [ht]))
  | multiplication _ op hop _ ihleft ihright =>
      rcases ofSymbol?_of_mem ((hlegible op (by simp)).operator hop.1) with ⟨o, ho⟩
      exact .binary ho (ihleft fun t ht => hlegible t (by simp [ht]))
        (ihright fun t ht => hlegible t (by simp [ht]))
  | exponentiation _ op hop _ ihleft ihright =>
      rcases ofSymbol?_of_mem ((hlegible op (by simp)).operator hop.1) with ⟨o, ho⟩
      exact .binary ho (ihleft fun t ht => hlegible t (by simp [ht]))
        (ihright fun t ht => hlegible t (by simp [ht]))
  | juxtaposition _ _ _ ihleft ihright =>
      -- The product that is not written needs no token, only the operator in the table.
      exact .binary (Operator.ofSymbol?_symbol .multiply)
        (ihleft fun t ht => hlegible t (by simp [ht]))
        (ihright fun t ht => hlegible t (by simp_all))
  | negation t _ _ ih =>
      exact .apply (Unary.ofName?_name .negate) (ih fun u hu => hlegible u (by simp [hu]))
  | number t hkind =>
      rcases (hlegible t (by simp)).value (.inl hkind) with ⟨v, hv, hfinite⟩
      rw [hv]
      exact .literal hfinite
  | constant t hkind =>
      rcases (hlegible t (by simp)).value (.inr hkind) with ⟨v, hv, hfinite⟩
      rw [hv]
      exact .literal hfinite
  | parentheses o c _ _ _ ih => exact (ih fun t ht => hlegible t (by simp [ht])).grouped
  | application g o c hg _ _ _ ih =>
      rcases ofName?_of_mem ((hlegible g (by simp)).function hg) with ⟨f, hf⟩
      exact .apply hf (ih fun t ht => hlegible t (by simp [ht]))

/-- Only a list without tokens is reported as empty. -/
theorem not_empty_of_runs {limit stop : Int} {task : Parse.Task} {ts : List Token}
    {o : Parse.Outcome} (h : Parse.Runs limit stop task ts o) : o ≠ .error (.malformed .empty) := by
  -- Either the outcome is passed on from a run inside, or the rule says what it is.
  induction h with
  | firstFails _ _ ih => exact ih
  | expression _ _ _ _ ih => exact ih
  | rightFails _ _ _ _ ih => exact ih
  | absorb _ _ _ _ _ _ ih => exact ih
  | negationFails _ _ _ ih => exact ih
  | unsigned _ _ ih => exact ih
  | groupFails _ _ ih => exact ih
  | argumentFails _ _ _ ih => exact ih
  | _ => simp

theorem ofTokens_ne_empty {limit : Int} {tokens : List Token} (hne : tokens ≠ []) :
    Expr.ofTokens limit tokens ≠ .error (.malformed .empty) := by
  rcases Option.ne_none_iff_exists'.1 (mt List.getLast?_eq_none_iff.1 hne) with ⟨last, hlast⟩
  rw [ofTokens_eq_finish limit hlast]
  cases hrun : Parse.run limit last.stop tokens (.expression 1 0) with
  | error e =>
      rintro ⟨⟩
      exact not_empty_of_runs (Parse.runs_iff.2 hrun) rfl
  | ok p =>
      rcases p with ⟨tree, rest⟩
      cases rest with
      | nil => simp [Parse.finish]
      | cons t rest =>
          simp only [Parse.finish]
          split <;> simp

end Grammar

end Reckoner
