import Mathlib
import Reckoner.Proofs.Scan.Apart

/-!
# Glyphs and their Neighbours

A glyph is spelled out before anything is scanned, and from then on nothing tells its
spelling from what stands beside it. Three of the four are spelled with a single sign,
which is a token beside anything. The root sign is spelled with letters, and letters
run on.

So a glyph can be set off with blanks without any effect, unless it is a root sign that
touches a letter or another root sign (`sameTokens_setOff`). If one does, there are five
letters in a row in the spelled text, and no name has that many. Such a text is never
scanned, whatever the glyph stands for (`exists_letters_of_touches`).

## Main definitions

* `setOff`: A text with a blank on either side of every glyph.
* `touches`: A root sign stands beside a letter or another root sign.

## Theorems

* `apart_spelling_before`, `apart_spelling_after`: A glyph is apart from its neighbours but for
  letters and roots.
* `sameTokens_setOff`: Blanks around glyphs make no difference where nothing touches.
* `exists_letters_of_touches`: Where a root touches, five letters stand in a row.
* `glyphs_amongNeighbours`: Which texts may have their glyphs set off.
-/

namespace Reckoner

namespace Lexical

/-- A character with a blank on either side if it is a glyph. -/
def setOffChar (c : Char) : List Char := if (glyphs.lookup c).isSome then [' ', c, ' '] else [c]

/-- A text with a blank on either side of every glyph. -/
def setOff (s : String) : String := String.ofList (s.toList.flatMap setOffChar)

/-- A root sign stands beside a letter or another root sign. -/
def touching (x y : Char) : Bool :=
  (x == '√' && (y == '√' || y.isAlpha)) || (x.isAlpha && y == '√')

/-- Somewhere in a text a root sign stands beside a letter or another root sign. -/
def touches : List Char → Bool
  | x :: y :: rest => touching x y || touches (y :: rest)
  | _ => false

section Spelling

variable {c d x : Char} {spelling rest pre cs : List Char}

theorem glyph_cases (h : glyphs.lookup c = some spelling) :
    (c = '√' ∧ spelling = ['s', 'q', 'r', 't']) ∨ ∃ sign ∈ ['*', '/', '-'], spelling = [sign] := by
  have hmem : (c, spelling) ∈ glyphs := mem_of_lookup h
  simp only [glyphs, List.mem_cons, Prod.mk.injEq, List.not_mem_nil, or_false] at hmem
  rcases hmem with h | ⟨-, rfl⟩ | ⟨-, rfl⟩ | ⟨-, rfl⟩
  · exact .inl h
  · exact .inr ⟨'*', by simp, rfl⟩
  · exact .inr ⟨'/', by simp, rfl⟩
  · exact .inr ⟨'-', by simp, rfl⟩

/-- Signs are neither letters nor numeric, so they are apart from everything. -/
theorem not_together_sign (hc : c ∈ ['*', '/', '-']) : ¬ Together x c ∧ ¬ Together c x := by
  have hplain : ∀ d ∈ ['*', '/', '-'], d.isAlpha = false ∧ isNumeric d = false := by
    simp [isNumeric]
  rcases hplain c hc with ⟨halpha, hnumeric⟩
  constructor <;> rintro (⟨hx, hy⟩ | ⟨hx, hy⟩) <;> simp_all

theorem spell_of_isAlpha (h : c.isAlpha = true) : spell c = [c] :=
  spell_of_test (by simp [glyphs]) h

/-- A spelled text starts with a letter only where a letter or a root sign stood. -/
theorem isAlpha_head_normalizeChars (hx : x ∈ (normalizeChars (d :: rest)).head?)
    (halpha : x.isAlpha = true) : d = '√' ∨ d.isAlpha = true := by
  rw [normalizeChars, List.flatMap_cons] at hx
  cases hlookup : glyphs.lookup d with
  | none =>
      rw [spell_of_not_glyph hlookup] at hx
      cases hx
      exact .inr halpha
  | some spelling =>
      rcases glyph_cases hlookup with ⟨rfl, -⟩ | ⟨sign, hsign, rfl⟩
      · exact .inl rfl
      · rw [spell, hlookup] at hx
        cases hx
        have hplain : ∀ d ∈ ['*', '/', '-'], d.isAlpha = false := by simp
        rw [hplain x hsign] at halpha
        cases halpha

/-- A glyph is apart from what stands before it, but for a root sign after a letter. -/
theorem apart_spelling_before (h : glyphs.lookup c = some spelling)
    (hpre : c = '√' → ∀ x ∈ pre.getLast?, x.isAlpha = false) (more : List Char) :
    Apart pre (spelling ++ more) := by
  intro x hx y hy
  rcases glyph_cases h with ⟨hroot, rfl⟩ | ⟨sign, hsign, rfl⟩
  · cases hy
    rintro (⟨halpha, -⟩ | ⟨-, hnumeric⟩)
    · rw [hpre hroot x hx] at halpha
      cases halpha
    · exact absurd hnumeric (by decide)
  · cases hy
    exact (not_together_sign hsign).1

/-- A glyph is apart from what stands after it, but for a root sign before a letter or
    another root sign. -/
theorem apart_spelling_after (h : glyphs.lookup c = some spelling)
    (hrest : touches (c :: rest) = false) (before : List Char) :
    Apart (before ++ spelling) (normalizeChars rest) := by
  intro x hx y hy
  rcases glyph_cases h with ⟨rfl, rfl⟩ | ⟨sign, hsign, rfl⟩
  · rw [List.getLast?_append] at hx
    cases hx
    rintro (⟨-, halpha⟩ | ⟨hnumeric, -⟩)
    · cases rest with
      | nil => cases hy
      | cons d rest =>
          rw [touches, Bool.or_eq_false_iff] at hrest
          rcases isAlpha_head_normalizeChars hy halpha with rfl | hd
          · exact absurd hrest.1 (by decide)
          · simp [touching, hd] at hrest
    · exact absurd hnumeric (by decide)
  · rw [List.getLast?_append] at hx
    cases hx
    exact (not_together_sign hsign).2

theorem touches_of_cons (h : touches (c :: cs) = false) : touches cs = false := by
  cases cs with
  | nil => rfl
  | cons d cs =>
      rw [touches, Bool.or_eq_false_iff] at h
      exact h.2

/-- Where nothing touches, blanks around glyphs make no difference, by induction on the
    text. What has been gone through already has its blanks. -/
theorem sameTokens_setOff (pre : List Char) (hcs : touches cs = false)
    (hpre : cs.head? = some '√' → ∀ x ∈ pre.getLast?, x.isAlpha = false) :
    SameTokens (Token.scanFrom 0 none (pre ++ normalizeChars cs))
      (Token.scanFrom 0 none (pre ++ normalizeChars (cs.flatMap setOffChar))) := by
  induction cs generalizing pre with
  | nil => exact .refl _
  | cons c cs ih =>
      have hrest := touches_of_cons hcs
      rw [List.flatMap_cons, normalizeChars_append, ← List.singleton_append, normalizeChars_append,
        setOffChar]
      cases hlookup : glyphs.lookup c with
      | none =>
          have hplain : normalizeChars [c] = [c] := by
            rw [normalizeChars, List.flatMap_singleton, spell_of_not_glyph hlookup]
          rw [if_neg (by simp), hplain, ← List.append_assoc, ← List.append_assoc]
          refine ih _ hrest fun hroot x hx => ?_
          -- The next character is a root sign, which touches no letter.
          rw [List.getLast?_concat] at hx
          cases hx
          cases cs with
          | nil => cases hroot
          | cons d cs =>
              cases hroot
              rw [touches, Bool.or_eq_false_iff] at hcs
              have hbefore := hcs.1
              rw [touching, Bool.or_eq_false_iff, beq_self_eq_true, Bool.and_true] at hbefore
              exact hbefore.2
      | some spelling =>
          have hspell : normalizeChars [c] = spelling := by
            rw [normalizeChars, List.flatMap_singleton, spell, hlookup, Option.getD_some]
          have hblank : ∀ d ∈ [' '], Text.isBlank d = true :=
            List.forall_mem_singleton.2 (by decide)
          have hspaced : normalizeChars [' ', c, ' '] = ' ' :: (spelling ++ [' ']) := by
            rw [← hspell]
            simp [normalizeChars, spell_of_isBlank (hblank ' ' (.head _))]
          rw [if_pos Option.isSome_some, hspell, hspaced]
          -- The blank before the glyph, the one after it, and the text that is left.
          have hbefore := sameTokens_seam (List.forall_mem_nil _) hblank
            (apart_spelling_before hlookup (fun hroot => hpre (congrArg some hroot))
              (normalizeChars cs)) 0 0 none
          have hafter := sameTokens_seam (List.forall_mem_nil _) hblank
            (apart_spelling_after hlookup hcs (pre ++ [' '])) 0 0 none
          have hlater := ih (pre ++ ([' '] ++ (spelling ++ [' ']))) hrest (by
            intro _ x hx
            rw [← List.append_assoc, ← List.append_assoc, List.getLast?_concat] at hx
            cases hx
            decide)
          simp only [List.append_assoc, List.nil_append, List.cons_append]
            at hbefore hafter hlater ⊢
          exact hbefore.trans (hafter.trans hlater)

/-- Where a root sign touches a letter or another root sign, five letters stand in a row
    once it has been spelled out. -/
theorem exists_letters_of_touches (h : touches cs = true) :
    ∃ a w b, normalizeChars cs = a ++ (w ++ b) ∧ (∀ c ∈ w, c.isAlpha = true) ∧ w.length = 5 := by
  have hroot : spell '√' = ['s', 'q', 'r', 't'] := by decide
  have hletters : ∀ c ∈ ['s', 'q', 'r', 't'], c.isAlpha = true := by simp
  fun_induction touches cs with
  | case2 cs => cases h
  | case1 x y rest ih =>
      rw [Bool.or_eq_true] at h
      rcases h with h | h
      · simp only [touching, Bool.or_eq_true, Bool.and_eq_true, beq_iff_eq] at h
        have hsplit :
            normalizeChars (x :: y :: rest) = spell x ++ (spell y ++ normalizeChars rest) := by
          simp only [normalizeChars, List.flatMap_cons]
        rw [hsplit]
        rcases h with ⟨rfl, rfl | hy⟩ | ⟨hx, rfl⟩
        · rw [hroot]
          exact ⟨[], ['s', 'q', 'r', 't', 's'], ['q', 'r', 't'] ++ normalizeChars rest, rfl,
            by simp, rfl⟩
        · rw [hroot, spell_of_isAlpha hy]
          refine ⟨[], ['s', 'q', 'r', 't'] ++ [y], normalizeChars rest, by simp, ?_, rfl⟩
          rw [List.forall_mem_append, List.forall_mem_singleton]
          exact ⟨hletters, hy⟩
        · rw [hroot, spell_of_isAlpha hx]
          refine ⟨[], [x] ++ ['s', 'q', 'r', 't'], normalizeChars rest, by simp, ?_, rfl⟩
          rw [List.forall_mem_append, List.forall_mem_singleton]
          exact ⟨hx, hletters⟩
      · rcases ih h with ⟨a, w, b, hsplit, hw⟩
        refine ⟨spell x ++ a, w, b, ?_, hw⟩
        rw [normalizeChars, List.flatMap_cons, ← normalizeChars, hsplit, List.append_assoc]

end Spelling

/-- Which texts may have their glyphs set off with blanks. If no root sign stands beside a
    letter or another root sign, the text has the same tokens with the blanks, or none in
    both cases. If one does, the text has no tokens without them. -/
theorem glyphs_amongNeighbours (text : String) :
    (touches text.toList = false → SameTokens (Token.scan text) (Token.scan (setOff text))) ∧
    (touches text.toList = true → ∃ e, Token.scan text = .error e) := by
  constructor
  · intro h
    have hsame := sameTokens_setOff [] h (by
      intro _ x hx
      cases hx)
    rw [Token.scan, Token.scan, setOff, String.toList_ofList]
    exact hsame
  · intro h
    rcases exists_letters_of_touches h with ⟨a, w, b, hsplit, hw, hlength⟩
    cases hscan : Token.scan text with
    | error e => exact ⟨e, rfl⟩
    | ok tokens =>
        rw [Token.scan, hsplit] at hscan
        exact absurd hscan (not_scanned_of_letters hw (by omega))

/-- A root sign between a number and a parenthesis touches nothing, and neither does a
    minus beside a name. After a name a root sign does. -/
theorem glyphs_amongNeighbours_roots :
    (touches "2√(4)×−pi".toList = false ∧
      SameTokens (Token.scan "2√(4)×−pi") (Token.scan (setOff "2√(4)×−pi"))) ∧
    touches "pi√(4)".toList = true ∧ ∃ e, Token.scan "pi√(4)" = .error e := by
  have hfree : touches "2√(4)×−pi".toList = false := by decide
  have htouches : touches "pi√(4)".toList = true := by decide
  exact ⟨⟨hfree, (glyphs_amongNeighbours _).1 hfree⟩, htouches,
    (glyphs_amongNeighbours _).2 htouches⟩

/-- The root sign runs on with the name before it. With blanks around it, or after the
    sign that the name stands for, the text is scanned. -/
theorem root_swallowed_by_name :
    Token.scan "pi√(4)" = .error (.unknownName "pisqrt" 0) ∧
      ¬ SameTokens (Token.scan "pi√(4)") (Token.scan (setOff "pi√(4)")) ∧
      (Token.scan "π√(4)").isOk = true := by
  have hname : Token.scan "pi√(4)" = .error (.unknownName "pisqrt" 0) := by decide +kernel
  have hspaced : (Token.scan (setOff "pi√(4)")).isOk = true := by decide +kernel
  refine ⟨hname, ?_, by decide +kernel⟩
  rw [hname]
  cases hscan : Token.scan (setOff "pi√(4)") with
  | error e =>
      rw [hscan] at hspaced
      cases hspaced
  | ok tokens => exact id

end Lexical

end Reckoner
