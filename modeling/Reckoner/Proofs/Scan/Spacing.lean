import Mathlib
import Reckoner.Proofs.Scan.Calculation

/-!
# Gaps between Tokens

A text that is scanned is an alternation of gaps and tokens, with a gap at either
end. The gaps are blank and most of them may be closed. What is in them has no
influence on the tokens but for their positions, as long as there is still
something in a gap that was open: where two numbers or names meet, the blank
between them is all that keeps them apart.

A gap that was closed may be opened, because no lexeme minds a blank behind it
(`IsLexeme.respace`). A minus looks back over any gap to the token before, so it
keeps its kind as well.

## Main definitions

* `gaps`: The gaps of a text that has been scanned.
* `spaced`: The text that gaps and tokens make.
* `Replaces`: A gap may take the place of another.
* `blanksUpTo`: How many blanks there are before a token.

## Theorems

* `scanFrom_cons`, `scanFrom_nil`: The first gap and the first token of a text.
* `spaced_gaps`: A text is made of its gaps and tokens.
* `scanFrom_respaced`: Other gaps give the same tokens at other positions.
* `scan_respaced`: The same for a text.
* `exists_padded`: Blanks at both ends of a text only change its gaps.
-/

namespace Reckoner

namespace Lexical

/-- The gaps of a text that has been scanned: before the first token, between the
    tokens, and after the last. -/
def gaps (cs : List Char) : List Token → List (List Char)
  | [] => [cs]
  | t :: ts =>
    cs.takeWhile Text.isBlank ::
      gaps ((cs.dropWhile Text.isBlank).drop t.text.toList.length) ts

/-- The text that gaps and tokens make. There is one gap more than there are
    tokens. -/
def spaced : List (List Char) → List Token → List Char
  | [], _ => []
  | gap :: _, [] => gap
  | gap :: gaps, t :: ts => gap ++ (t.text.toList ++ spaced gaps ts)

/-- A gap may take the place of another: it is blank, and closed only if the other
    one was. -/
def Replaces (old new : List Char) : Prop :=
  (∀ c ∈ new, Text.isBlank c = true) ∧ (new = [] → old = [])

/-- How many blanks there are in the gaps up to the token of the given number. -/
def blanksUpTo (gaps : List (List Char)) (number : Nat) : Nat :=
  ((gaps.take (number + 1)).map List.length).sum

theorem blanksUpTo_zero (gap : List Char) (gaps : List (List Char)) :
    blanksUpTo (gap :: gaps) 0 = gap.length := by
  simp [blanksUpTo]

theorem blanksUpTo_succ (gap : List Char) (gaps : List (List Char)) (number : Nat) :
    blanksUpTo (gap :: gaps) (number + 1) = gap.length + blanksUpTo gaps number := by
  simp [blanksUpTo]

section Gaps

variable {position : Nat} {previous : Option TokenKind} {cs : List Char} {t : Token}
  {ts : List Token}

/-- A text without tokens is blank. -/
theorem scanFrom_nil (h : Token.scanFrom position previous cs = .ok []) :
    ∀ c ∈ cs, Text.isBlank c = true := by
  fun_induction Token.scanFrom position previous cs with
  | case1 position previous => simp
  | case2 position previous c rest hblank ih => exact List.forall_mem_cons.2 ⟨hblank, ih h⟩
  | case3 position previous c rest hblank e hread => cases h
  | case4 position previous c rest hblank l hread e hrest ih => cases h
  | case5 position previous c rest hblank l hread ts hrest ih => cases h

/-- A text begins with a gap, its first token, and what has the other tokens. -/
theorem scanFrom_cons (h : Token.scanFrom position previous cs = .ok (t :: ts)) :
    ∃ gap rest, cs = gap ++ (t.text.toList ++ rest) ∧ (∀ c ∈ gap, Text.isBlank c = true) ∧
      t.position = (position + gap.length : Nat) ∧
      IsLexeme t.kind t.text.toList t.value rest ∧ MinusFits previous t.kind t.text.toList ∧
      Token.scanFrom (position + gap.length + t.text.toList.length) (some t.kind) rest =
        .ok ts := by
  fun_induction Token.scanFrom position previous cs with
  | case1 position previous => cases h
  | case2 position previous c rest hblank ih =>
      rcases ih h with ⟨gap, after, rfl, hgap, hposition, hlexeme, hminus, hafter⟩
      refine ⟨c :: gap, after, rfl, List.forall_mem_cons.2 ⟨hblank, hgap⟩, ?_, hlexeme, hminus, ?_⟩
      · rw [hposition, List.length_cons]
        omega
      · rw [← hafter, List.length_cons, Nat.add_assoc position 1, Nat.add_comm 1]
  | case3 position previous c rest hblank e hread => cases h
  | case4 position previous c rest hblank l hread e hrest ih => cases h
  | case5 position previous c rest hblank l hread us hrest ih =>
      cases h
      rcases read_sound hread with ⟨hlexeme, hminus⟩
      refine ⟨[], l.rest, ?_, by simp, rfl, ?_, ?_, ?_⟩ <;>
        simp only [Lexeme.token, String.toList_ofList, List.nil_append]
      · exact l.split
      · exact hlexeme
      · exact hminus
      · exact hrest

/-- The first gap reaches to where the first token starts. -/
theorem gaps_append {gap rest : List Char} (ts : List Token)
    (hgap : ∀ c ∈ gap, Text.isBlank c = true) (h : IsLexeme t.kind t.text.toList t.value rest) :
    gaps (gap ++ (t.text.toList ++ rest)) (t :: ts) = gap :: gaps rest ts := by
  rcases first_not_blank h with ⟨c, more, hspelling, hblank⟩
  have hclear : Clear Text.isBlank (t.text.toList ++ rest) := by
    rw [hspelling]
    exact clear_cons _ hblank
  rcases takeWhile_append_of_clear hgap hclear with ⟨htake, hdrop⟩
  rw [gaps, htake, hdrop, List.drop_left]

/-- A text is made of its gaps and tokens. -/
theorem spaced_gaps (h : Token.scanFrom position previous cs = .ok ts) :
    spaced (gaps cs ts) ts = cs := by
  induction ts generalizing position previous cs with
  | nil => rfl
  | cons t ts ih =>
      rcases scanFrom_cons h with ⟨gap, rest, rfl, hgap, -, hlexeme, -, hrest⟩
      rw [gaps_append ts hgap hlexeme, spaced, ih hrest]

/-- Every gap is blank. -/
theorem isBlank_of_mem_gaps (h : Token.scanFrom position previous cs = .ok ts) :
    ∀ gap ∈ gaps cs ts, ∀ c ∈ gap, Text.isBlank c = true := by
  induction ts generalizing position previous cs with
  | nil =>
      intro gap hgap
      rw [List.mem_singleton.1 hgap]
      exact scanFrom_nil h
  | cons t ts ih =>
      rcases scanFrom_cons h with ⟨gap, rest, rfl, hgap, -, hlexeme, -, hrest⟩
      rw [gaps_append ts hgap hlexeme]
      exact List.forall_mem_cons.2 ⟨hgap, ih hrest⟩

end Gaps

/-- A blank ends a row of characters of another kind, just as what was there before. -/
theorem isBlank_clear {test : Char → Bool} (htest : ∀ c, test c = true → Text.isBlank c = false)
    {after after' : List Char} (h : Clear test after)
    (hhead : ∀ c ∈ after'.head?, c ∈ after.head? ∨ Text.isBlank c = true) : Clear test after' := by
  intro c hc
  rcases hhead c hc with hafter | hblank
  · exact h c hafter
  · refine Bool.eq_false_iff.2 fun hpasses => ?_
    rw [htest c hpasses] at hblank
    cases hblank

/-- A lexeme is still one when what follows begins with the same character or with a
    blank. -/
theorem IsLexeme.respace {kind : TokenKind} {spelling after after' : List Char}
    {value : Option Double} (h : IsLexeme kind spelling value after)
    (hhead : ∀ c ∈ after'.head?, c ∈ after.head? ∨ Text.isBlank c = true) :
    IsLexeme kind spelling value after' := by
  have hnumeric : Clear isNumeric after → Clear isNumeric after' :=
    fun hafter => isBlank_clear (fun _ => isBlank_of_isNumeric) hafter hhead
  have halpha : Clear Char.isAlpha after → Clear Char.isAlpha after' :=
    fun hafter => isBlank_clear (fun _ => isBlank_of_isAlpha) hafter hhead
  cases h with
  | integer hne hdigits hrest hfinite => exact .integer hne hdigits (hnumeric hrest) hfinite
  | decimal hne hdigits hfraction hfdigits hrest hfinite =>
      exact .decimal hne hdigits hfraction hfdigits (hnumeric hrest) hfinite
  | operator hc => exact .operator hc
  | negate => exact .negate
  | openParen => exact .openParen
  | closeParen => exact .closeParen
  | constantSign => exact .constantSign
  | constantName hrest => exact .constantName (halpha hrest)
  | function hname hrest => exact .function hname (halpha hrest)

theorem scanFrom_gap {gap : List Char} (position : Nat) (previous : Option TokenKind)
    (rest : List Char) (hgap : ∀ c ∈ gap, Text.isBlank c = true) :
    Token.scanFrom position previous (gap ++ rest) =
      Token.scanFrom (position + gap.length) previous rest := by
  induction gap generalizing position with
  | nil => rfl
  | cons c gap ih =>
      rw [List.cons_append, scanFrom_blank _ _ _ (hgap c (.head _)),
        ih (position + 1) fun d hd => hgap d (.tail _ hd), List.length_cons, Nat.add_assoc,
        Nat.add_comm 1]

/-- What follows a token begins with the same character or with a blank, once its
    gaps have been replaced. -/
theorem head_respaced {olds news : List (List Char)} {ts : List Token}
    (hne : ∀ t ∈ ts.head?, t.text.toList ≠ []) (h : List.Forall₂ Replaces olds news) :
    ∀ c ∈ (spaced news ts).head?, c ∈ (spaced olds ts).head? ∨ Text.isBlank c = true := by
  cases h with
  | nil => simp [spaced]
  | @cons old new olds news hreplaces hrest =>
      intro c hc
      cases new with
      | cons d new =>
          -- An open gap begins with a blank.
          have hd : c = d := by cases ts <;> simpa [spaced, eq_comm] using hc
          subst hd
          exact .inr (hreplaces.1 c (.head _))
      | nil =>
          -- A closed gap was closed before, so the next token is what both begin with.
          rw [hreplaces.2 rfl]
          cases ts with
          | nil => exact .inl hc
          | cons t ts =>
              rw [spaced, List.nil_append, List.head?_append_of_ne_nil _ (hne t rfl)] at hc ⊢
              exact .inl hc

/-- Other gaps give the same tokens. Each is moved by what the gaps up to it have
    grown. -/
theorem scanFrom_respaced {position : Nat} {previous : Option TokenKind} {cs : List Char}
    {ts : List Token} {news : List (List Char)} (h : Token.scanFrom position previous cs = .ok ts)
    (hnews : List.Forall₂ Replaces (gaps cs ts) news) (position' : Nat) (distance : Int)
    (hposition : (position' : Int) = position + distance) :
    Token.scanFrom position' previous (spaced news ts) =
      .ok (ts.mapIdx fun i t =>
        t.moved (distance + (blanksUpTo news i - blanksUpTo (gaps cs ts) i))) := by
  induction ts generalizing position previous cs news position' distance with
  | nil =>
      rcases hnews with _ | ⟨hreplaces, ⟨⟩⟩
      rename_i new
      rw [spaced, ← List.append_nil new, scanFrom_gap _ _ _ hreplaces.1, Token.scanFrom]
      rfl
  | cons t ts ih =>
      rcases scanFrom_cons h with ⟨gap, rest, rfl, hgap, hstart, hlexeme, hminus, hrest⟩
      rw [gaps_append ts hgap hlexeme] at hnews ⊢
      rcases hnews with _ | ⟨hreplaces, hnews⟩
      rename_i new news
      have hne : ∀ u ∈ ts.head?, u.text.toList ≠ [] := by
        intro u hu
        cases ts with
        | nil => cases hu
        | cons v ts =>
            cases hu
            rcases scanFrom_cons hrest with ⟨_, _, -, -, -, hnext, -, -⟩
            rcases first_not_blank hnext with ⟨c, more, hspelling, -⟩
            simp [hspelling]
      have hlexeme' : IsLexeme t.kind t.text.toList t.value (spaced news ts) := by
        refine hlexeme.respace ?_
        rw [← spaced_gaps hrest]
        exact head_respaced hne hnews
      rw [spaced, scanFrom_gap _ _ _ hreplaces.1, scanFrom_lexeme _ hlexeme' hminus,
        ih hrest hnews (position' + new.length + t.text.toList.length)
          (distance + (new.length - gap.length)) (by push_cast; omega)]
      have hhere : ((position' + new.length : Nat) : Int) =
          t.position + (distance + (new.length - gap.length)) := by
        rw [hstart]
        push_cast
        omega
      have hlater : ∀ i : Nat, distance + (new.length - gap.length) +
          (blanksUpTo news i - blanksUpTo (gaps rest ts) i : Int) =
          distance + (blanksUpTo (new :: news) (i + 1) -
            blanksUpTo (gap :: gaps rest ts) (i + 1)) := by
        intro i
        rw [blanksUpTo_succ, blanksUpTo_succ]
        push_cast
        omega
      simp only [Except.map, List.mapIdx_cons, blanksUpTo_zero, String.ofList_toList, Token.moved,
        hhere, hlater]

/-- Other gaps bring no glyph into a text. -/
theorem spell_of_mem_spaced {position : Nat} {previous : Option TokenKind} {cs : List Char}
    {ts : List Token} {news : List (List Char)} (h : Token.scanFrom position previous cs = .ok ts)
    (hnews : List.Forall₂ Replaces (gaps cs ts) news) (hcs : ∀ c ∈ cs, spell c = [c]) :
    ∀ c ∈ spaced news ts, spell c = [c] := by
  induction ts generalizing position previous cs news with
  | nil =>
      rcases hnews with _ | ⟨hreplaces, ⟨⟩⟩
      exact fun c hc => spell_of_isBlank (hreplaces.1 c hc)
  | cons t ts ih =>
      rcases scanFrom_cons h with ⟨gap, rest, rfl, hgap, -, hlexeme, -, hrest⟩
      rw [gaps_append ts hgap hlexeme] at hnews
      rcases hnews with _ | ⟨hreplaces, hnews⟩
      rw [List.forall_mem_append, List.forall_mem_append] at hcs
      rw [spaced, List.forall_mem_append, List.forall_mem_append]
      exact ⟨fun c hc => spell_of_isBlank (hreplaces.1 c hc), hcs.2.1, ih hrest hnews hcs.2.2⟩

/-- A text with other gaps has the same tokens, each of them moved by what the gaps up
    to it have grown. -/
theorem scan_respaced {text : String} {tokens : List Token} {news : List (List Char)}
    (h : Token.scan text = .ok tokens)
    (hnews : List.Forall₂ Replaces (gaps (normalizeChars text.toList) tokens) news) :
    Token.scan (String.ofList (spaced news tokens)) =
      .ok (tokens.mapIdx fun i t =>
        t.moved ((blanksUpTo news i : Int) -
          blanksUpTo (gaps (normalizeChars text.toList) tokens) i)) := by
  have hplain := spell_of_mem_spaced h hnews fun c hc => spell_of_mem_normalizeChars hc
  rw [Token.scan, String.toList_ofList, normalizeChars_of_spell hplain,
    scanFrom_respaced h hnews 0 0 rfl]
  simp only [zero_add]

theorem length_gaps (cs : List Char) (ts : List Token) : (gaps cs ts).length = ts.length + 1 := by
  induction ts generalizing cs with
  | nil => rfl
  | cons t ts ih => rw [gaps, List.length_cons, ih, List.length_cons]

theorem Replaces.refl {gap : List Char} (hgap : ∀ c ∈ gap, Text.isBlank c = true) :
    Replaces gap gap := ⟨hgap, id⟩

section Padding

variable {before after : List Char} (hbefore : ∀ c ∈ before, Text.isBlank c = true)
  (hafter : ∀ c ∈ after, Text.isBlank c = true)

include hafter in
/-- Blanks after a text are part of its last gap, by induction on the tokens before
    that. -/
theorem exists_padded_after {olds : List (List Char)} {ts : List Token}
    (hlength : olds.length = ts.length + 1)
    (hblank : ∀ gap ∈ olds, ∀ c ∈ gap, Text.isBlank c = true) :
    ∃ news, List.Forall₂ Replaces olds news ∧ spaced news ts = spaced olds ts ++ after := by
  induction ts generalizing olds with
  | nil =>
      rcases List.length_eq_one_iff.1 hlength with ⟨gap, rfl⟩
      have hreplaces : Replaces gap (gap ++ after) :=
        ⟨List.forall_mem_append.2 ⟨hblank gap (.head _), hafter⟩,
          fun hnil => (List.append_eq_nil_iff.1 hnil).1⟩
      exact ⟨[gap ++ after], .cons hreplaces .nil, rfl⟩
  | cons t ts ih =>
      rcases List.exists_cons_of_length_eq_add_one hlength with ⟨gap, olds, rfl⟩
      rw [List.forall_mem_cons] at hblank
      rcases ih (by simpa using hlength) hblank.2 with ⟨news, hnews, htext⟩
      refine ⟨gap :: news, .cons (.refl hblank.1) hnews, ?_⟩
      rw [spaced, spaced, htext, List.append_assoc, List.append_assoc]

include hbefore hafter in
/-- Blanks at both ends of a text change nothing but its gaps. -/
theorem exists_padded {olds : List (List Char)} {ts : List Token}
    (hlength : olds.length = ts.length + 1)
    (hblank : ∀ gap ∈ olds, ∀ c ∈ gap, Text.isBlank c = true) :
    ∃ news, List.Forall₂ Replaces olds news ∧
      spaced news ts = before ++ (spaced olds ts ++ after) := by
  rcases exists_padded_after hafter hlength hblank with ⟨news, hnews, htext⟩
  rcases hnews with _ | ⟨hreplaces, hnews⟩
  · simp at hlength
  · rename_i old new olds news
    refine ⟨(before ++ new) :: news, .cons ⟨?_, fun hnil => ?_⟩ hnews, ?_⟩
    · exact List.forall_mem_append.2 ⟨hbefore, hreplaces.1⟩
    · exact hreplaces.2 (List.append_eq_nil_iff.1 hnil).2
    · rw [← htext]
      cases ts <;> simp [spaced]

end Padding

end Lexical

end Reckoner
