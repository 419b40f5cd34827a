import Mathlib
import Reckoner.Proofs.Grammar.Position
import Reckoner.Proofs.Scan.Spacing

/-!
# Characters Set Apart

Between which characters of a text a blank makes no difference. All characters of a
name are letters, all of a number are numeric, and every other lexeme has only one
(`IsLexeme.uniform`). Two neighbours that are neither both letters nor both numeric
are in two lexemes, so blanks between them may come and go.

A gap that was closed is opened in this way, and one that was open is closed. Both
are the same statement with the gaps exchanged (`scanFrom_seam`), which is why the
two texts have the same tokens or have none, both of them (`sameTokens_seam`).

The converse is about letters that stand together. They are in one lexeme, if they
are in any, and the longest name has four letters (`not_scanned_of_letters`).

## Main definitions

* `Together`: Two neighbours can be in one lexeme.
* `Apart`: No lexeme goes on from one text into the next.
* `SameTokens`: Two texts have the same tokens or none.

## Theorems

* `IsLexeme.together`: Neighbours in a lexeme can be in one.
* `IsLexeme.detach`: A lexeme before something else.
* `lexeme_of_seam`: The first lexeme ends before a seam or starts after it.
* `sameTokens_seam`: Blanks at a seam make no difference.
* `not_scanned_of_letters`: No text with five letters in a row is scanned.
-/

namespace Reckoner

namespace Lexical

/-- Two neighbouring characters can be in one lexeme. -/
def Together (x y : Char) : Prop :=
  (x.isAlpha = true ∧ y.isAlpha = true) ∨ (isNumeric x = true ∧ isNumeric y = true)

/-- No lexeme goes on from the end of one text into the next. -/
def Apart (u v : List Char) : Prop := ∀ x ∈ u.getLast?, ∀ y ∈ v.head?, ¬ Together x y

/-- Two texts have the same tokens but for their positions, or both have none. -/
def SameTokens : Except ScanError (List Token) → Except ScanError (List Token) → Prop
  | .ok ts, .ok us => ts.map Token.unplaced = us.map Token.unplaced
  | .error _, .error _ => True
  | _, _ => False

theorem SameTokens.refl (a : Except ScanError (List Token)) : SameTokens a a := by
  cases a with
  | error e => trivial
  | ok ts => rfl

theorem SameTokens.trans {a b c : Except ScanError (List Token)} (hab : SameTokens a b)
    (hbc : SameTokens b c) : SameTokens a c := by
  cases a <;> cases b <;> cases c <;> simp_all [SameTokens]

section Lexemes

variable {kind : TokenKind} {spelling after after' : List Char} {value : Option Double}

/-- A lexeme is a name, a number, or a single character. -/
theorem IsLexeme.uniform (h : IsLexeme kind spelling value after) :
    (∀ c ∈ spelling, c.isAlpha = true) ∨ (∀ c ∈ spelling, isNumeric c = true) ∨
      spelling.length = 1 := by
  have hnumeric : ∀ {c : Char}, c.isDigit = true → isNumeric c = true := by
    intro c hc
    simp [isNumeric, hc]
  cases h with
  | integer _ hdigits _ _ => exact .inr (.inl fun c hc => hnumeric (hdigits c hc))
  | decimal _ hdigits _ hfdigits _ _ =>
      refine .inr (.inl ?_)
      rw [List.forall_mem_append, List.forall_mem_cons]
      exact ⟨fun c hc => hnumeric (hdigits c hc), by decide,
        fun c hc => hnumeric (hfdigits c hc)⟩
  | function hname _ => exact .inl (function_name_isAlpha hname).2
  | constantName _ => exact .inl (by simp)
  | _ => exact .inr (.inr rfl)

theorem IsLexeme.not_blank (h : IsLexeme kind spelling value after) :
    ∀ c ∈ spelling, Text.isBlank c = false := by
  intro c hc
  rcases h.uniform with halpha | hnumeric | hlength
  · exact isBlank_of_isAlpha (halpha c hc)
  · exact isBlank_of_isNumeric (hnumeric c hc)
  · rcases first_not_blank h with ⟨d, rest, rfl, hblank⟩
    rw [List.length_cons, Nat.add_eq_right, List.length_eq_zero_iff] at hlength
    rw [hlength, List.mem_singleton] at hc
    rwa [hc]

/-- Neighbours in a lexeme can be in one. -/
theorem IsLexeme.together {a b : List Char} {x y : Char}
    (h : IsLexeme kind (a ++ x :: y :: b) value after) : Together x y := by
  have hx : x ∈ a ++ x :: y :: b := by simp
  have hy : y ∈ a ++ x :: y :: b := by simp
  rcases h.uniform with halpha | hnumeric | hlength
  · exact .inl ⟨halpha x hx, halpha y hy⟩
  · exact .inr ⟨hnumeric x hx, hnumeric y hy⟩
  · rw [List.length_append, List.length_cons, List.length_cons] at hlength
    omega

/-- A lexeme is still one when what follows begins as before, or with a character that
    cannot be in one lexeme with its last. -/
theorem IsLexeme.detach (h : IsLexeme kind spelling value after)
    (hafter : ∀ x ∈ spelling.getLast?, ∀ y ∈ after'.head?, y ∈ after.head? ∨ ¬ Together x y) :
    IsLexeme kind spelling value after' := by
  -- What may not follow a lexeme is what may follow another of its characters in it.
  have hclear : ∀ {test : Char → Bool}, (∀ x y, test x = true → test y = true → Together x y) →
      spelling ≠ [] → (∀ c ∈ spelling, test c = true) → Clear test after → Clear test after' := by
    intro test htogether hne hall hclear y hy
    rcases hafter _ (List.getLast?_eq_getLast_of_ne_nil hne) y hy with hsame | hapart
    · exact hclear y hsame
    · refine Bool.eq_false_iff.2 fun hpasses => hapart ?_
      exact htogether _ y (hall _ (List.getLast_mem hne)) hpasses
  have halpha : ∀ x y : Char, x.isAlpha = true → y.isAlpha = true → Together x y :=
    fun x y hx hy => .inl ⟨hx, hy⟩
  have hnumeric : ∀ x y : Char, isNumeric x = true → isNumeric y = true → Together x y :=
    fun x y hx hy => .inr ⟨hx, hy⟩
  have hdigit : ∀ {c : Char}, c.isDigit = true → isNumeric c = true := by
    intro c hc
    simp [isNumeric, hc]
  cases h with
  | integer hne hdigits hrest hfinite =>
      exact .integer hne hdigits
        (hclear hnumeric hne (fun c hc => hdigit (hdigits c hc)) hrest) hfinite
  | decimal hne hdigits hfraction hfdigits hrest hfinite =>
      refine .decimal hne hdigits hfraction hfdigits (hclear hnumeric (by simp) ?_ hrest) hfinite
      rw [List.forall_mem_append, List.forall_mem_cons]
      exact ⟨fun c hc => hdigit (hdigits c hc), by decide, fun c hc => hdigit (hfdigits c hc)⟩
  | operator hc => exact .operator hc
  | negate => exact .negate
  | openParen => exact .openParen
  | closeParen => exact .closeParen
  | constantSign => exact .constantSign
  | constantName hrest => exact .constantName (hclear halpha (by simp) (by simp) hrest)
  | function hname hrest =>
      rcases function_name_isAlpha hname with ⟨hne, hall⟩
      exact .function hname (hclear halpha hne hall hrest)

end Lexemes

section Seams

variable {u v g g' : List Char}

theorem not_together_of_isBlank {x y : Char} (h : Text.isBlank y = true) : ¬ Together x y := by
  rintro (⟨-, halpha⟩ | ⟨-, hnumeric⟩)
  · rw [isBlank_of_isAlpha halpha] at h
    cases h
  · rw [isBlank_of_isNumeric hnumeric] at h
    cases h

/-- The first lexeme of a text ends before a seam or starts after it. -/
theorem lexeme_of_seam {kind : TokenKind} {gap spelling rest : List Char} {value : Option Double}
    (hg : ∀ c ∈ g, Text.isBlank c = true) (hapart : Apart u v)
    (hgap : ∀ c ∈ gap, Text.isBlank c = true) (h : IsLexeme kind spelling value rest)
    (hsplit : u ++ (g ++ v) = gap ++ (spelling ++ rest)) :
    (∃ w, u = gap ++ (spelling ++ w) ∧ rest = w ++ (g ++ v)) ∨
      ∃ w, (∀ c ∈ u, Text.isBlank c = true) ∧ (∀ c ∈ w, Text.isBlank c = true) ∧
        v = w ++ (spelling ++ rest) := by
  rcases first_not_blank h with ⟨first, more, hspelling, hfirst⟩
  -- Blanks before a lexeme do not reach into it.
  have hfront : ∀ {b after : List Char}, (∀ c ∈ b, Text.isBlank c = true) →
      spelling ++ rest = b ++ after → b = [] := by
    intro b after hb heq
    cases b with
    | nil => rfl
    | cons c b =>
        rw [hspelling, List.cons_append, List.cons_append, List.cons.injEq] at heq
        rw [heq.1, hb c (.head _)] at hfirst
        cases hfirst
  rcases List.append_eq_append_iff.1 hsplit with ⟨w, rfl, hw⟩ | ⟨w, rfl, hw⟩
  · rw [List.forall_mem_append] at hgap
    rcases List.append_eq_append_iff.1 hw with ⟨b, rfl, hb⟩ | ⟨b, rfl, hb⟩
    · exact .inr ⟨b, hgap.1, (List.forall_mem_append.1 hgap.2).2, hb⟩
    · rw [List.forall_mem_append] at hg
      obtain rfl := hfront hg.2 hb
      exact .inr ⟨[], hgap.1, List.forall_mem_nil _, hb.symm⟩
  · rcases List.append_eq_append_iff.1 hw with ⟨b, rfl, hb⟩ | ⟨b, hb, hrest⟩
    · exact .inl ⟨b, rfl, hb⟩
    · cases b with
      | nil =>
          rw [List.append_nil] at hb
          exact .inl ⟨[], by rw [List.append_nil, hb], hrest.symm⟩
      | cons y b =>
          rcases List.eq_nil_or_concat w with rfl | ⟨a, x, rfl⟩
          · -- The text before the seam is blank, and so is what may be in it.
            rw [List.append_nil]
            rw [List.nil_append] at hw
            obtain rfl := hfront hg hw
            exact .inr ⟨[], hgap, List.forall_mem_nil _, hw.symm⟩
          · -- The lexeme would reach across the seam.
            exfalso
            rw [List.concat_eq_append] at hb hapart
            rw [hb, List.append_assoc, List.singleton_append] at h
            cases g with
            | nil =>
                refine hapart x ?_ y ?_ h.together
                · rw [← List.append_assoc, List.getLast?_concat]
                  rfl
                · rw [List.nil_append] at hrest
                  rw [hrest]
                  rfl
            | cons c g =>
                rw [List.cons_append, List.cons_append, List.cons.injEq] at hrest
                have hblank := h.not_blank y (by simp)
                rw [← hrest.1, hg c (.head _)] at hblank
                cases hblank

theorem Apart.of_append {w : List Char} (h : Apart (u ++ w) v) : Apart w v := by
  intro x hx y hy
  refine h x ?_ y hy
  rw [List.getLast?_append]
  rw [hx]
  rfl

theorem scanFrom_blanks (position : Nat) (previous : Option TokenKind)
    (hg : ∀ c ∈ g, Text.isBlank c = true) : Token.scanFrom position previous g = .ok [] := by
  have hscan := scanFrom_gap position previous [] hg
  rwa [List.append_nil, Token.scanFrom] at hscan

/-- Blanks at a seam may be replaced by other blanks or by none, by induction on the
    tokens that are found. -/
theorem scanFrom_seam {position : Nat} {previous : Option TokenKind} {ts : List Token}
    (hg : ∀ c ∈ g, Text.isBlank c = true) (hg' : ∀ c ∈ g', Text.isBlank c = true)
    (hapart : Apart u v) (h : Token.scanFrom position previous (u ++ (g ++ v)) = .ok ts)
    (position' : Nat) :
    ∃ us, Token.scanFrom position' previous (u ++ (g' ++ v)) = .ok us ∧
      us.map Token.unplaced = ts.map Token.unplaced := by
  induction ts generalizing u v g g' position previous position' with
  | nil =>
      have hblank := scanFrom_nil h
      rw [List.forall_mem_append, List.forall_mem_append] at hblank
      refine ⟨[], scanFrom_blanks _ _ ?_, rfl⟩
      rw [List.forall_mem_append, List.forall_mem_append]
      exact ⟨hblank.1, hg', hblank.2.2⟩
  | cons t ts ih =>
      rcases scanFrom_cons h with ⟨gap, rest, hsplit, hgap, -, hlexeme, hminus, hrest⟩
      -- Whatever has the same first token and the same tokens after it will do.
      have hfound : ∀ {gap' rest' : List Char} {us : List Token},
          (∀ c ∈ gap', Text.isBlank c = true) → IsLexeme t.kind t.text.toList t.value rest' →
          Token.scanFrom (position' + gap'.length + t.text.toList.length) (some t.kind) rest' =
            .ok us → us.map Token.unplaced = ts.map Token.unplaced →
          ∃ us, Token.scanFrom position' previous (gap' ++ (t.text.toList ++ rest')) = .ok us ∧
            us.map Token.unplaced = (t :: ts).map Token.unplaced := by
        intro gap' rest' us hgap' hlexeme' hus hsame
        rw [scanFrom_gap _ _ _ hgap', scanFrom_lexeme _ hlexeme' hminus, hus]
        refine ⟨_, rfl, ?_⟩
        rw [List.map_cons, List.map_cons, hsame, String.ofList_toList]
        rfl
      rcases lexeme_of_seam hg hapart hgap hlexeme hsplit with ⟨w, rfl, rfl⟩ | ⟨w, hu, hw, rfl⟩
      · rw [← List.append_assoc] at hapart
        rcases ih hg hg' hapart.of_append hrest
          (position' + gap.length + t.text.toList.length) with ⟨us, hus, hsame⟩
        rw [List.append_assoc, List.append_assoc]
        refine hfound hgap (hlexeme.detach fun x hx y hy => ?_) hus hsame
        cases w with
        | cons c w => exact .inl hy
        | nil =>
            -- The token ends at the seam.
            refine .inr ?_
            cases g' with
            | nil =>
                refine hapart x ?_ y hy
                rw [List.append_nil, List.getLast?_append, hx]
                rfl
            | cons c g' =>
                cases hy
                exact not_together_of_isBlank (hg' y (.head _))
      · have hnothing : Apart rest [] := by
          intro x _ y hy
          cases hy
        rw [← List.append_nil rest, ← List.nil_append ([] : List Char)] at hrest
        rcases ih (List.forall_mem_nil _) (List.forall_mem_nil _) hnothing hrest
          (position' + (u ++ (g' ++ w)).length + t.text.toList.length) with ⟨us, hus, hsame⟩
        rw [List.nil_append, List.append_nil] at hus
        rw [← List.append_assoc g', ← List.append_assoc u]
        refine hfound ?_ hlexeme hus hsame
        rw [List.forall_mem_append, List.forall_mem_append]
        exact ⟨hu, hg', hw⟩

/-- Blanks at a seam make no difference, so two texts that differ in them alone have the
    same tokens or have none. -/
theorem sameTokens_seam (hg : ∀ c ∈ g, Text.isBlank c = true)
    (hg' : ∀ c ∈ g', Text.isBlank c = true) (hapart : Apart u v) (position position' : Nat)
    (previous : Option TokenKind) :
    SameTokens (Token.scanFrom position previous (u ++ (g ++ v)))
      (Token.scanFrom position' previous (u ++ (g' ++ v))) := by
  cases hold : Token.scanFrom position previous (u ++ (g ++ v)) with
  | ok ts =>
      rcases scanFrom_seam hg hg' hapart hold position' with ⟨us, hus, hsame⟩
      rw [hus]
      exact hsame.symm
  | error e =>
      cases hnew : Token.scanFrom position' previous (u ++ (g' ++ v)) with
      | error e' => trivial
      | ok us =>
          rcases scanFrom_seam hg' hg hapart hnew position with ⟨ts, hts, -⟩
          rw [hold] at hts
          cases hts

end Seams

section Letters

variable {kind : TokenKind} {spelling after : List Char} {value : Option Double} {c : Char}

/-- A lexeme with a letter is a name: it has four letters at most, and none follows. -/
theorem IsLexeme.name_of_letter (h : IsLexeme kind spelling value after) (hc : c ∈ spelling)
    (halpha : c.isAlpha = true) : spelling.length ≤ 4 ∧ Clear Char.isAlpha after := by
  have hdigit : c.isDigit = false := isDigit_of_isAlpha halpha
  cases h with
  | integer _ hdigits _ _ =>
      rw [hdigits c hc] at hdigit
      cases hdigit
  | decimal _ hdigits _ hfdigits _ _ =>
      rw [List.mem_append, List.mem_cons] at hc
      rcases hc with hc | rfl | hc
      · rw [hdigits c hc] at hdigit
        cases hdigit
      · exact absurd halpha (by decide)
      · rw [hfdigits c hc] at hdigit
        cases hdigit
  | operator hd =>
      rw [List.mem_singleton.1 hc] at halpha
      have hplain : ∀ d ∈ ['+', '-', '*', '/', '^'], d.isAlpha = false := by simp
      rw [hplain _ hd] at halpha
      cases halpha
  | constantName hrest => exact ⟨by decide, hrest⟩
  | @function name _ hname hrest =>
      have hlength : ∀ text ∈ ["sqrt", "sin", "cos", "tan", "log", "ln"],
          text.toList.length ≤ 4 := by decide
      have hshort := hlength _ hname
      rw [String.toList_ofList] at hshort
      exact ⟨hshort, hrest⟩
  -- The other lexemes are single characters, and no letters.
  | _ => exact absurd ((List.mem_singleton.1 hc) ▸ halpha) (by decide)

/-- No text with five letters in a row is scanned, by induction on its tokens. -/
theorem not_scanned_of_letters {position : Nat} {previous : Option TokenKind} {ts : List Token}
    {a w b : List Char} (hw : ∀ c ∈ w, c.isAlpha = true) (hlong : 4 < w.length) :
    Token.scanFrom position previous (a ++ (w ++ b)) ≠ .ok ts := by
  intro h
  rcases List.exists_cons_of_length_pos (Nat.zero_lt_of_lt hlong) with ⟨letter, letters, hletters⟩
  have hletter : letter.isAlpha = true := hw letter (hletters ▸ .head _)
  have hnonblank := isBlank_of_isAlpha hletter
  induction ts generalizing a position previous with
  | nil =>
      rw [scanFrom_nil h letter (by simp [hletters])] at hnonblank
      cases hnonblank
  | cons t ts ih =>
      rcases scanFrom_cons h with ⟨gap, rest, hsplit, hgap, -, hlexeme, -, hrest⟩
      -- The letters start after the gap, because they are not blank.
      have hstart : ∃ before, before ++ (w ++ b) = t.text.toList ++ rest := by
        rcases List.append_eq_append_iff.1 hsplit with ⟨more, rfl, hmore⟩ | ⟨more, rfl, hmore⟩
        · cases more with
          | nil => exact ⟨[], hmore⟩
          | cons d more =>
              rw [hletters, List.cons_append, List.cons_append, List.cons.injEq] at hmore
              rw [hmore.1, hgap d (by simp)] at hnonblank
              cases hnonblank
        · exact ⟨more, hmore.symm⟩
      rcases hstart with ⟨before, hstart⟩
      rcases List.append_eq_append_iff.1 hstart with ⟨more, hmore, hinside⟩ | ⟨more, rfl, rfl⟩
      · -- The lexeme has some of the letters in it, or ends just before them.
        rcases List.append_eq_append_iff.1 hinside with ⟨tail, rfl, htail⟩ | ⟨tail, hwhole, rfl⟩
        · have hcontained : letter ∈ t.text.toList := by
            rw [hmore, hletters]
            simp
          have hlength := (hlexeme.name_of_letter hcontained hletter).1
          rw [hmore, List.length_append, List.length_append] at hlength
          omega
        · rcases List.eq_nil_or_concat more with rfl | ⟨front, x, rfl⟩
          · rw [List.nil_append] at hwhole
            rw [← hwhole, ← List.nil_append (w ++ b)] at hrest
            exact ih hrest
          · have hx : x ∈ t.text.toList := by
              rw [hmore, List.concat_eq_append]
              simp
            have hname := hlexeme.name_of_letter hx (hw x (by rw [hwhole]; simp))
            cases tail with
            | nil =>
                have hlength := congrArg List.length hwhole
                have hmore' := congrArg List.length hmore
                rw [List.append_nil] at hlength
                rw [List.length_append] at hmore'
                omega
            | cons y tail =>
                have hy := hname.2 y rfl
                rw [hw y (by rw [hwhole]; simp)] at hy
                cases hy
      · exact ih hrest

end Letters

end Lexical

end Reckoner
