import Mathlib
import Reckoner.Proofs.Grammar.Position
import Reckoner.Proofs.Scan.Spacing
import Reckoner.Proofs.Solve.Composition

/-!
# Blanks Say Nothing

A text can be spread out or drawn together, and nothing about its solution changes
but the text that the last step restates. The tokens stay what they are, each at
another position, and positions come up again in errors and nowhere else. With
blanks only at its ends, even the last step stays the same.

There is one way for blanks to matter, which is that they count towards the limit
on length. So a text that is solved may have other blanks with which it is not,
and the other way around.

## Main definitions

* `Failure.unplaced`: A failure without the position it names.
* `Evaluation.unclosed`: An evaluation without the closing step.

## Theorems

* `scan_padded`: The tokens of a text with blanks at its ends.
* `solve_of_unplaced`: Texts with the same tokens but for positions are solved
  from one evaluation.
* `spacing_irrelevant`: What is in the gaps of a text says nothing.
-/

namespace Reckoner

/-- The same failure, said of the start of a text. -/
def Failure.unplaced : Failure → Failure
  | .rejection (.malformed e) => .rejection (.malformed e.unplaced)
  | f => f

/-- An evaluation without the step that closes it. -/
def Evaluation.unclosed (e : Evaluation) : Evaluation := ⟨e.value, e.steps.dropLast⟩

/-- Without the closing step, nothing is left of the text. -/
theorem Evaluation.unclosed_close (outcome : Except Failure Evaluation) (text : String) :
    (outcome.map (close · text)).map unclosed = outcome := by
  cases outcome with
  | error e => rfl
  | ok e => simp only [Except.map, unclosed, close, List.dropLast_concat]

theorem Failure.unplaced_ofParse (e : ParseError) :
    (ofParse e).unplaced = ofParse e.unplaced := by
  cases e <;> rfl

/-- Nothing about tokens but their positions changes when they are moved. -/
theorem Token.map_unplaced_moved (ts : List Token) (distance : Nat → Int) :
    (ts.mapIdx fun i t => t.moved (distance i)).map Token.unplaced = ts.map Token.unplaced := by
  refine List.ext_getElem (by simp) fun i hi hi' => ?_
  simp only [List.getElem_map, List.getElem_mapIdx, Token.unplaced, Token.moved]

section Padding

variable {before after : List Char} (hbefore : ∀ c ∈ before, Text.isBlank c = true)
  (hafter : ∀ c ∈ after, Text.isBlank c = true)

include hbefore in
theorem Text.dropWhile_padded (cs : List Char) :
    (before ++ cs).dropWhile isBlank = cs.dropWhile isBlank := by
  rw [List.dropWhile_append, if_pos (List.isEmpty_iff.2 (dropWhile_eq_nil_iff.2 hbefore))]

include hbefore hafter in
/-- What blanks at the ends of a text were added to is left when they are cut off. -/
theorem Text.stripBy_padded (cs : List Char) :
    stripBy isBlank (before ++ (cs ++ after)) = stripBy isBlank cs := by
  have hreversed : ∀ c ∈ after.reverse, isBlank c = true := fun c hc =>
    hafter c (List.mem_reverse.1 hc)
  rw [stripBy, dropWhile_padded hbefore, List.dropWhile_append]
  split
  · -- Nothing but blanks was between the two ends.
    rename_i hempty
    rw [dropWhile_eq_nil_iff.2 hafter, stripBy, List.isEmpty_iff.1 hempty]
  · rw [List.reverse_append, dropWhile_padded hreversed, stripBy]

include hbefore in
theorem Lexical.normalizeChars_of_isBlank : normalizeChars before = before :=
  normalizeChars_of_spell fun c hc => spell_of_isBlank (hbefore c hc)

include hbefore hafter in
/-- A text with blanks at its ends has the same tokens, but for positions. -/
theorem Lexical.scan_padded {text : String} {tokens : List Token}
    (h : Token.scan text = .ok tokens) :
    ∃ others, Token.scan (String.ofList (before ++ (text.toList ++ after))) = .ok others ∧
      others.map Token.unplaced = tokens.map Token.unplaced := by
  rcases exists_padded hbefore hafter (length_gaps _ tokens) (isBlank_of_mem_gaps h) with
    ⟨news, hnews, htext⟩
  rw [spaced_gaps h] at htext
  refine ⟨_, Eq.trans ?_ (scan_respaced h hnews), Token.map_unplaced_moved _ _⟩
  -- The text that is scanned there has been normalized already.
  rw [Token.scan, Token.scan, String.toList_ofList, String.toList_ofList,
    normalizeChars_of_spell
      (spell_of_mem_spaced h hnews fun c hc => spell_of_mem_normalizeChars hc),
    htext, normalizeChars_append, normalizeChars_append, normalizeChars_of_isBlank hbefore,
    normalizeChars_of_isBlank hafter]

end Padding

section Alike

variable {settings : Settings} {places : Option Int} {text other : String} {ts us : List Token}

/-- Lists of tokens that agree but for positions have the same tree, or failures that
    do. -/
theorem parseTokens_unplaced (settings : Settings)
    (h : us.map Token.unplaced = ts.map Token.unplaced) :
    (parseTokens settings us).mapError Failure.unplaced =
      (parseTokens settings ts).mapError Failure.unplaced := by
  have hfailure : ∀ vs : List Token, (parseTokens settings vs).mapError Failure.unplaced =
      ((Expr.ofTokens settings.maxDepth vs).mapError ParseError.unplaced).mapError
        Failure.ofParse := by
    intro vs
    rw [parseTokens]
    cases Expr.ofTokens settings.maxDepth vs with
    | error e => exact congrArg Except.error (Failure.unplaced_ofParse e)
    | ok tree => rfl
  rw [hfailure, hfailure, Grammar.ofTokens_unplaced settings.maxDepth h]

/-- Texts with the same tokens but for positions are solved from one evaluation, which
    each of them closes in its own words. -/
theorem solve_of_unplaced [Numerics] (settings : Settings) (places : Option Int)
    (hts : tokenize text = .ok ts) (hus : tokenize other = .ok us)
    (h : us.map Token.unplaced = ts.map Token.unplaced) :
    solve settings places text = .error (.rejection (.tooLong settings.maxLength)) ∨
      solve settings places other = .error (.rejection (.tooLong settings.maxLength)) ∨
      ∃ outcome : Except Failure Evaluation,
        (solve settings places text).mapError Failure.unplaced =
          outcome.map (Evaluation.close · text) ∧
        (solve settings places other).mapError Failure.unplaced =
          outcome.map (Evaluation.close · other) := by
  have hblank : ∀ {v : String}, tokenize v = .ok [] →
      solve settings places v = .error (.rejection .blank) := by
    intro v hv
    cases hv' : Text.isBlankText v with
    | true => rw [solve_eq, precheck, if_pos hv']
    | false => exact absurd (mapError_eq_ok_iff.1 hv) (scan_ne_nil hv')
  by_cases hnil : ts = []
  · subst hnil
    rw [List.map_nil, List.map_eq_nil_iff] at h
    subst h
    rw [hblank hts, hblank hus]
    exact .inr (.inr ⟨.error (.rejection .blank), rfl, rfl⟩)
  · have hnil' : us ≠ [] := by
      rintro rfl
      exact hnil (List.map_eq_nil_iff.1 h.symm)
    rw [solve_of_tokenize hts hnil, solve_of_tokenize hus hnil']
    by_cases hlong : settings.maxLength < (text.length : Int)
    · exact .inl (if_pos hlong)
    by_cases hlong' : settings.maxLength < (other.length : Int)
    · exact .inr (.inl (if_pos hlong'))
    rw [if_neg hlong, if_neg hlong']
    have hparse := parseTokens_unplaced settings h
    refine .inr (.inr ?_)
    cases hts : parseTokens settings ts with
    | error e =>
        rw [hts] at hparse
        cases hus : parseTokens settings us with
        | error e' =>
            rw [hus] at hparse
            have hunplaced : e'.unplaced = e.unplaced := Except.error.inj hparse
            exact ⟨.error e.unplaced, rfl, congrArg Except.error hunplaced⟩
        | ok tree =>
            rw [hus] at hparse
            cases hparse
    | ok tree =>
        rw [hts] at hparse
        simp only [mapError_eq_ok_iff.1 hparse]
        refine ⟨(evaluateTree settings places tree).mapError Failure.unplaced, ?_, ?_⟩ <;>
          cases evaluateTree settings places tree <;> rfl

end Alike

/-- What is in the gaps of a text says nothing. Once its glyphs have been spelled out, a
    text that can be scanned is its tokens with blank gaps around them. With other blanks
    in the gaps, it has the same tokens, each of them moved by what the gaps before it
    have grown. So it has the same tree, or the same error at another position, and it is
    solved to the same value in the same steps, except that the last step restates the
    text. That stays the same as well if blanks are only added at the ends of the text. -/
theorem spacing_irrelevant [Numerics] {text : String} {tokens : List Token}
    (h : tokenize text = .ok tokens) :
    ((Lexical.gaps (normalizeChars text.toList) tokens).length = tokens.length + 1 ∧
      (∀ gap ∈ Lexical.gaps (normalizeChars text.toList) tokens,
        ∀ c ∈ gap, Text.isBlank c = true) ∧
      Lexical.spaced (Lexical.gaps (normalizeChars text.toList) tokens) tokens =
        normalizeChars text.toList) ∧
    (∀ news, List.Forall₂ Lexical.Replaces
        (Lexical.gaps (normalizeChars text.toList) tokens) news →
      tokenize (String.ofList (Lexical.spaced news tokens)) =
        .ok (tokens.mapIdx fun i t => t.moved ((Lexical.blanksUpTo news i : Int) -
          Lexical.blanksUpTo (Lexical.gaps (normalizeChars text.toList) tokens) i)) ∧
      ∀ settings : Settings,
        (parseText settings (String.ofList (Lexical.spaced news tokens))).mapError
            Failure.unplaced =
          (parseText settings text).mapError Failure.unplaced ∧
        ∀ places : Option Int,
          solve settings places text = .error (.rejection (.tooLong settings.maxLength)) ∨
          solve settings places (String.ofList (Lexical.spaced news tokens)) =
            .error (.rejection (.tooLong settings.maxLength)) ∨
          ((solve settings places (String.ofList (Lexical.spaced news tokens))).mapError
              Failure.unplaced).map Evaluation.unclosed =
            ((solve settings places text).mapError Failure.unplaced).map
              Evaluation.unclosed) ∧
    ∀ before after : List Char, (∀ c ∈ before, Text.isBlank c = true) →
      (∀ c ∈ after, Text.isBlank c = true) → ∀ (settings : Settings) (places : Option Int),
        solve settings places text = .error (.rejection (.tooLong settings.maxLength)) ∨
        solve settings places (String.ofList (before ++ (text.toList ++ after))) =
          .error (.rejection (.tooLong settings.maxLength)) ∨
        (solve settings places (String.ofList (before ++ (text.toList ++ after)))).mapError
            Failure.unplaced =
          (solve settings places text).mapError Failure.unplaced := by
  have hscan := mapError_eq_ok_iff.1 h
  refine ⟨⟨Lexical.length_gaps _ _, Lexical.isBlank_of_mem_gaps hscan,
    Lexical.spaced_gaps hscan⟩, fun news hnews => ?_,
    fun before after hbefore hafter settings places => ?_⟩
  · have hother := mapError_eq_ok_iff (f := Failure.ofScan).2 (Lexical.scan_respaced hscan hnews)
    rw [← tokenize] at hother
    have halike := Token.map_unplaced_moved tokens fun i => (Lexical.blanksUpTo news i : Int) -
      Lexical.blanksUpTo (Lexical.gaps (normalizeChars text.toList) tokens) i
    refine ⟨hother, fun settings => ⟨?_, fun places => ?_⟩⟩
    · rw [parseText_eq, parseText_eq, hother, h]
      exact parseTokens_unplaced settings halike
    · rcases solve_of_unplaced settings places h hother halike with
        hlong | hlong | ⟨outcome, htext, hrespaced⟩
      · exact .inl hlong
      · exact .inr (.inl hlong)
      · -- Both solutions are one evaluation with different last steps.
        rw [htext, hrespaced, Evaluation.unclosed_close, Evaluation.unclosed_close]
        exact .inr (.inr rfl)
  · rcases Lexical.scan_padded hbefore hafter hscan with ⟨others, hothers, halike⟩
    rcases solve_of_unplaced settings places h (mapError_eq_ok_iff.2 hothers) halike with
      hlong | hlong | ⟨outcome, htext, hpadded⟩
    · exact .inl hlong
    · exact .inr (.inl hlong)
    · have hclose : (fun e : Evaluation =>
          e.close (String.ofList (before ++ (text.toList ++ after)))) =
          (Evaluation.close · text) := by
        funext e
        rw [Evaluation.close, Evaluation.close, finalStep, finalStep, Text.strip, Text.strip,
          String.toList_ofList, Text.stripBy_padded hbefore hafter]
      rw [htext, hpadded, hclose]
      exact .inr (.inr rfl)

/-- The tokens of a difference, from the positions of its three lexemes. -/
def twoMinusPi (two minus pi : Int) : List Token :=
  [⟨.number, "2", some (Double.ofRat 2), two⟩, ⟨.operator, "-", none, minus⟩,
    ⟨.constant, "π", constants.lookup "π", pi⟩]

/-- The sign of a difference stays where it is in the list of tokens, and its solution
    what it is, when the text is spread out. -/
theorem spacing_irrelevant_difference :
    tokenize "2 −π" = .ok (twoMinusPi 0 2 3) ∧
      tokenize " 2\t\t-\u2003π" = .ok (twoMinusPi 1 4 6) ∧
      ((solve Settings.defaults none " 2\t\t-\u2003π").mapError Failure.unplaced).map
          Evaluation.unclosed =
        ((solve Settings.defaults none "2 −π").mapError Failure.unplaced).map
          Evaluation.unclosed ∧
      (solve Settings.defaults none " 2 −π\n").mapError Failure.unplaced =
        (solve Settings.defaults none "2 −π").mapError Failure.unplaced := by
  have h : tokenize "2 −π" = .ok (twoMinusPi 0 2 3) := by decide +kernel
  have hgaps : Lexical.gaps (normalizeChars "2 −π".toList) (twoMinusPi 0 2 3) =
      [[], [' '], [], []] := by decide +kernel
  have hblank : (Text.isBlank ' ' ∧ Text.isBlank '\t') ∧ Text.isBlank '\u2003' ∧
      Text.isBlank '\n' := by decide
  have hnews : List.Forall₂ Lexical.Replaces
      (Lexical.gaps (normalizeChars "2 −π".toList) (twoMinusPi 0 2 3))
      [[' '], ['\t', '\t'], ['\u2003'], []] := by
    rw [hgaps]
    simp [Lexical.Replaces, hblank]
  have hspread : String.ofList (Lexical.spaced [[' '], ['\t', '\t'], ['\u2003'], []]
      (twoMinusPi 0 2 3)) = " 2\t\t-\u2003π" := by decide +kernel
  have hpadded : String.ofList ([' '] ++ ("2 −π".toList ++ ['\n'])) = " 2 −π\n" := by decide +kernel
  have hmoved : ((twoMinusPi 0 2 3).mapIdx fun i t =>
      t.moved ((Lexical.blanksUpTo [[' '], ['\t', '\t'], ['\u2003'], []] i : Int) -
        Lexical.blanksUpTo [[], [' '], [], []] i)) = twoMinusPi 1 4 6 := by decide +kernel
  -- None of the three texts is too long.
  have hsolved : ∀ {text : String} {f : Failure},
      (solve Settings.defaults none text).toBool = true →
        solve Settings.defaults none text ≠ .error f := by
    intro text f hbool herror
    rw [herror] at hbool
    cases hbool
  have hsolved₀ : (solve Settings.defaults none "2 −π").toBool = true := by decide +kernel
  rcases (spacing_irrelevant h).2.1 _ hnews with ⟨htokens, hsolve⟩
  rw [hspread, hgaps, hmoved] at htokens
  rw [hspread] at hsolve
  refine ⟨h, htokens, ?_, ?_⟩
  · rcases (hsolve Settings.defaults).2 none with hlong | hlong | hsame
    · exact absurd hlong (hsolved hsolved₀)
    · exact absurd hlong (hsolved (by decide +kernel))
    · exact hsame
  · have hends := (spacing_irrelevant h).2.2 [' '] ['\n'] (by simp [hblank]) (by simp [hblank])
      Settings.defaults none
    rw [hpadded] at hends
    rcases hends with hlong | hlong | hsame
    · exact absurd hlong (hsolved hsolved₀)
    · exact absurd hlong (hsolved (by decide +kernel))
    · exact hsame

end Reckoner
