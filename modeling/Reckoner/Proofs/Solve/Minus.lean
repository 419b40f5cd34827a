import Mathlib
import Reckoner.Solve
import Reckoner.Proofs.Grammar.Viable
import Reckoner.Proofs.Solve.Legible

/-!
# One Minus, Two Kinds

A minus sign negates what follows or is an operator between two operands. The
scanner decides by the token before it, the parser by where it is in an
expression, and the two always agree.

The grammar leaves no choice. In a phrase an operand has just ended or is about
to start, and the kind of the last token tells which, so every operator and every
negation stands where a minus would have its kind (`Placed`). A minus that is
relabelled has the wrong kind for its place, and so at most one labelling of the
minus signs in a text is an expression: the one that the scanner has chosen.

It follows that the parser finds nothing wrong with a minus itself. A minus that
lacks its left operand has been read as a negation, and after a complete operand
it has been read as an operator.

## Main definitions

* `minusKind`: The kind of a minus, by the kind of the token before it.
* `Placed`: Tokens have the kind that a minus has in their place.
* `Starts`: An operand may start here.
* `Relabels`: A token with another kind, if it is a minus.

## Theorems

* `placed_of_derivation`: Operators and negations have their places in a phrase.
* `placed_of_scan`: The scanner puts every minus in its place.
* `eq_of_relabels`: There is only one labelling with both properties.
* `minus_not_missing`: No operand is missing before a minus.
* `minus_labelling`: The scanner's labelling is the only one that can be right.
-/

namespace Reckoner

namespace Grammar

/-- The kind that a minus has after a token of the given kind. -/
def minusKind (previous : Option TokenKind) : TokenKind :=
  if previous.all TokenKind.startsOperand then .negate else .operator

/-- The kind of the last of some tokens, or of the one before them. -/
def lastKind (previous : Option TokenKind) (ts : List Token) : Option TokenKind :=
  (ts.getLast?.map Token.kind).or previous

/-- Every token that passes the test has the kind that a minus has in its place. -/
def Placed (test : Token → Prop) (previous : Option TokenKind) : List Token → Prop
  | [] => True
  | t :: ts => (test t → t.kind = minusKind previous) ∧ Placed test (some t.kind) ts

/-- The token is a negation or an operator. -/
def Operates (t : Token) : Prop := t.kind = .negate ∨ t.kind = .operator

/-- The token is written as a minus. -/
def IsMinus (t : Token) : Prop := t.text = "-"

section Places

variable {test : Token → Prop} {previous : Option TokenKind}

theorem lastKind_cons (t : Token) (ts : List Token) :
    lastKind previous (t :: ts) = lastKind (some t.kind) ts :=
  Lexical.last_kind_cons t ts

theorem lastKind_append (ts us : List Token) :
    lastKind previous (ts ++ us) = lastKind (lastKind previous ts) us := by
  induction ts generalizing previous with
  | nil => rfl
  | cons t ts ih => rw [List.cons_append, lastKind_cons, lastKind_cons, ih]

theorem placed_append {ts us : List Token} :
    Placed test previous (ts ++ us) ↔
      Placed test previous ts ∧ Placed test (lastKind previous ts) us := by
  induction ts generalizing previous with
  | nil => simp [Placed, lastKind]
  | cons t ts ih => rw [List.cons_append, Placed, Placed, ih, lastKind_cons, and_assoc]

end Places

/-- An operand may start here: a minus would negate it, or it needs no sign before
    it. -/
def Starts (previous : Option TokenKind) (ts : List Token) : Prop :=
  ∀ t ∈ ts.head?, minusKind previous = .negate ∨ OpensFactor t

theorem starts_of_minusKind {previous : Option TokenKind} (ts : List Token)
    (h : minusKind previous = .negate) : Starts previous ts := fun _ _ => .inl h

/-- In a phrase the negations and operators are in their places, and after it comes
    the place of an operator. -/
def Fits (previous : Option TokenKind) (ts : List Token) : Prop :=
  Placed Operates previous ts ∧ minusKind (lastKind previous ts) = .operator

section Phrases

variable {previous : Option TokenKind} {ls rs ts : List Token} {t : Token}

theorem Starts.of_append (h : Starts previous (ls ++ rs)) (hne : ls ≠ []) : Starts previous ls := by
  cases ls with
  | nil => exact absurd rfl hne
  | cons t ls => exact h

/-- An operator between two operands is in its place. -/
theorem Fits.operator (hleft : Fits previous ls) (hkind : t.kind = .operator)
    (hright : Fits (some .operator) rs) : Fits previous (ls ++ t :: rs) := by
  refine ⟨placed_append.2 ⟨hleft.1, fun _ => ?_, ?_⟩, ?_⟩
  · rw [hkind, hleft.2]
  · rw [hkind]
    exact hright.1
  · rw [lastKind_append, lastKind_cons, hkind]
    exact hright.2

/-- A token that neither negates nor operates may stand anywhere. -/
theorem Fits.cons (hkind : ¬ Operates t) (h : Fits (some t.kind) ts) : Fits previous (t :: ts) := by
  refine ⟨⟨fun hoperates => absurd hoperates hkind, h.1⟩, ?_⟩
  rw [lastKind_cons]
  exact h.2

theorem Fits.append (hleft : Fits previous ls) (hright : Fits (lastKind previous ls) rs) :
    Fits previous (ls ++ rs) := by
  refine ⟨placed_append.2 ⟨hleft.1, hright.1⟩, ?_⟩
  rw [lastKind_append]
  exact hright.2

theorem not_operates {k : TokenKind} (h : t.kind = k) (hnegate : k ≠ .negate)
    (hoperator : k ≠ .operator) : ¬ Operates t := by
  rintro (hk | hk)
  · exact hnegate (h.symm.trans hk)
  · exact hoperator (h.symm.trans hk)

/-- A token that ends an operand. -/
theorem fits_singleton {k : TokenKind} (h : t.kind = k) (hends : k.startsOperand = false) :
    Fits previous [t] := by
  refine Fits.cons (not_operates h ?_ ?_) ⟨trivial, ?_⟩
  · rintro rfl
    cases hends
  · rintro rfl
    cases hends
  · simp [lastKind, minusKind, h, hends]

/-- Operators and negations have their places in a phrase that starts where an
    operand may, by induction on the derivation. -/
theorem placed_of_derivation {s : Stratum} {ts : List Token} {e : Expr} (d : Derivation s ts e) :
    ∀ previous, Starts previous ts → Fits previous ts := by
  induction d with
  | sumOfProduct _ ih => exact ih
  | productOfPower _ ih => exact ih
  | powerOfSigned _ ih => exact ih
  | signedOfPrimary _ ih => exact ih
  | addition left op hop _ ihleft ihright =>
      intro previous hstarts
      exact (ihleft _ (hstarts.of_append left.tokens_ne_nil)).operator hop.1
        (ihright _ (starts_of_minusKind _ rfl))
  | multiplication left op hop _ ihleft ihright =>
      intro previous hstarts
      exact (ihleft _ (hstarts.of_append left.tokens_ne_nil)).operator hop.1
        (ihright _ (starts_of_minusKind _ rfl))
  | exponentiation left op hop _ ihleft ihright =>
      intro previous hstarts
      exact (ihleft _ (hstarts.of_append left.tokens_ne_nil)).operator hop.1
        (ihright _ (starts_of_minusKind _ rfl))
  | juxtaposition left hfirst _ ihleft ihright =>
      -- Here a minus would be an operator, but the right operand does not begin with one.
      intro previous hstarts
      refine (ihleft _ (hstarts.of_append left.tokens_ne_nil)).append (ihright _ ?_)
      rintro _ ⟨⟩
      exact .inr hfirst
  | negation t hkind _ ih =>
      intro previous hstarts
      have hargument := ih (some t.kind) (starts_of_minusKind _ (by rw [hkind]; rfl))
      refine ⟨⟨fun _ => ?_, hargument.1⟩, by rw [lastKind_cons]; exact hargument.2⟩
      -- A negation opens no factor, so it is a place where a minus negates.
      rcases hstarts t rfl with h | h | h | h
      · rw [hkind, h]
      all_goals exact absurd (hkind.symm.trans h) (by decide)
  | number t hkind => exact fun _ _ => fits_singleton hkind rfl
  | constant t hkind => exact fun _ _ => fits_singleton hkind rfl
  | parentheses o c ho hc _ ih =>
      intro previous _
      refine .cons (not_operates ho nofun nofun) (.append (ih _ ?_) (fits_singleton hc rfl))
      exact starts_of_minusKind _ (by rw [ho]; rfl)
  | application f o c hf ho hc _ ih =>
      intro previous _
      refine .cons (not_operates hf nofun nofun) (.cons (not_operates ho nofun nofun)
        (.append (ih _ ?_) (fits_singleton hc rfl)))
      exact starts_of_minusKind _ (by rw [ho]; rfl)

end Phrases

/-- A token with the kind of a minus, if it is one. -/
inductive Relabels : Token → Token → Prop
  | same {t : Token} : Relabels t t
  | minus {t : Token} {k : TokenKind} (htext : IsMinus t) (hk : k = .negate ∨ k = .operator) :
      Relabels t { t with kind := k }

/-- Where every minus is in its place before it is relabelled and after that, none
    has been given another kind. -/
theorem eq_of_relabels {ts us : List Token} (h : List.Forall₂ Relabels ts us) :
    ∀ previous, Placed IsMinus previous ts → Placed Operates previous us → us = ts := by
  induction h with
  | nil => exact fun _ _ _ => rfl
  | @cons t u ts us hhead _ ih =>
      rintro previous ⟨hminus, hts⟩ ⟨hoperates, hus⟩
      have hu : u = t := by
        cases hhead with
        | same => rfl
        | minus htext hk =>
            have hkind := (hoperates hk).trans (hminus htext).symm
            simp only at hkind
            rw [hkind]
      subst hu
      rw [ih _ hts hus]

section Scanned

/-- A lexeme that is written as a minus is one of its two kinds. -/
theorem kind_of_minus {kind : TokenKind} {spelling after : List Char} {value : Option Double}
    (h : Lexical.IsLexeme kind spelling value after) (hminus : spelling = ['-']) :
    kind = .negate ∨ kind = .operator := by
  cases h with
  | operator _ => exact .inr rfl
  | negate => exact .inl rfl
  | integer _ hdigits _ _ =>
      subst hminus
      exact absurd (hdigits '-' (.head _)) (by decide)
  | @decimal digits fraction _ hne _ hfraction _ _ _ =>
      have hlength := congrArg List.length hminus
      simp only [List.length_append, List.length_cons, List.length_nil] at hlength
      exact absurd (List.eq_nil_of_length_eq_zero (l := digits) (by omega)) hne
  | function hname _ =>
      subst hminus
      exact absurd ((Lexical.function_name_isAlpha hname).2 '-' (.head _)) (by decide)
  | openParen => cases hminus
  | closeParen => cases hminus
  | constantSign => cases hminus
  | constantName _ => cases hminus

/-- The scanner puts every minus in its place. -/
theorem placed_of_scan {text : String} {tokens : List Token} (h : Token.scan text = .ok tokens) :
    Placed IsMinus none tokens := by
  have hsegmentation := (Lexical.scanFrom_eq_ok_iff _ rfl).1 h
  have hlexemes := hsegmentation.lexemes
  have hminus := hsegmentation.minus
  clear hsegmentation h
  generalize (none : Option TokenKind) = previous at *
  induction tokens generalizing previous with
  | nil => trivial
  | cons t ts ih =>
      refine ⟨fun htext => ?_, ih (fun u hu => hlexemes u (.tail _ hu)) _ ?_⟩
      · have hspelling : t.text.toList = ['-'] := by rw [show t.text = "-" from htext]; rfl
        rcases hlexemes t (.head _) with ⟨_, _, _, _, hlexeme⟩
        have hfits := hminus [] t ts rfl hspelling
        rw [List.getLast?_nil, Option.map_none, Option.none_or,
          ← Lexical.startsOperand_iff] at hfits
        unfold minusKind
        split
        · rename_i hstarts
          exact hfits.2 hstarts
        · rename_i hstarts
          exact (kind_of_minus hlexeme hspelling).resolve_left (mt hfits.1 hstarts)
      · intro before u after hts
        have hfits := hminus (t :: before) u after (by rw [hts, List.cons_append])
        rwa [Lexical.last_kind_cons] at hfits

end Scanned

section Halting

variable {limit stop : Int} {previous : Option TokenKind}

/-- The right operand of a joint starts where an operand may. -/
theorem placed_of_joint {ts operand : List Token} {symbol : String}
    (hjoint : Parse.joint? ts = some (symbol, operand)) (h : Placed IsMinus previous ts) :
    ∃ previous', Placed IsMinus previous' operand ∧ Starts previous' operand := by
  rcases joint?_eq_some hjoint with ⟨t, tail, rfl, ⟨hkind, -, rfl⟩ | ⟨hfirst, -, rfl⟩⟩
  · exact ⟨some t.kind, h.2, starts_of_minusKind _ (by rw [hkind]; rfl)⟩
  · refine ⟨previous, h, ?_⟩
    rintro _ ⟨⟩
    exact .inr hfirst

/-- What a call needs for no operand to be missing before a minus. The loop has an
    operand and needs nothing. -/
def StartsTask (previous : Option TokenKind) (ts : List Token) : Parse.Task → Prop
  | .expression _ _ => Starts previous ts
  | .operands _ _ _ => True
  | .unary _ => Starts previous ts
  | .primary _ => Starts previous ts ∧ ∀ t ∈ ts.head?, t.kind ≠ .negate

/-- No error is about a minus, by induction on the moves of a call that halts. -/
theorem minus_not_missing {task : Parse.Task} {ts unread : List Token} {e : GrammarError}
    (h : Parse.Halts limit stop task ts e unread) :
    ∀ previous, Placed IsMinus previous ts → StartsTask previous ts task →
      ∀ p, e ≠ .missingOperand "-" p ∧ e ≠ .unexpected "-" p := by
  induction h with
  | firstFails _ _ ih => exact ih
  | expression _ hfirst _ ih =>
      intro previous hplaced _
      rcases spells_of_runs hfirst _ _ rfl with ⟨xs, rfl, -⟩
      exact ih _ (placed_append.1 hplaced).2 trivial
  | rightFails hjoint _ _ _ ih =>
      intro previous hplaced _
      rcases placed_of_joint hjoint hplaced with ⟨previous', hoperand, hstarts⟩
      exact ih _ hoperand hstarts
  | @absorb _ _ _ _ _ _ _ _ _ op _ hjoint _ _ hright _ ih =>
      intro previous hplaced _
      rcases placed_of_joint hjoint hplaced with ⟨previous', hoperand, -⟩
      rcases operand_of_runs hright with ⟨rs, rfl, -, -⟩
      exact ih _ (placed_append.1 hoperand).2 trivial
  | negation hkind _ _ ih =>
      intro previous hplaced _
      exact ih _ hplaced.2 (starts_of_minusKind _ (by rw [hkind]; rfl))
  | unsigned hkind _ ih =>
      intro previous hplaced hstarts
      exact ih _ hplaced ⟨hstarts, hkind⟩
  | groupFails hkind _ ih =>
      intro previous hplaced _
      exact ih _ hplaced.2 (starts_of_minusKind _ (by rw [hkind]; rfl))
  | argumentFails _ hopen _ ih =>
      intro previous hplaced _
      exact ih _ hplaced.2.2 (starts_of_minusKind _ (by rw [hopen]; rfl))
  | @operator _ t ts hkind =>
      -- A minus would be a negation here, and the call is not made for one.
      rintro previous hplaced ⟨hstarts, hhead⟩ p
      refine ⟨fun he => ?_, nofun⟩
      rw [GrammarError.missingOperand.injEq] at he
      have hoperator := hkind.resolve_right (hhead t rfl)
      rcases hstarts t rfl with h | h
      · exact hhead t rfl ((hplaced.1 he.1).trans h)
      · exact h.ne_operator hoperator
  | _ => exact fun _ _ _ _ => ⟨nofun, nofun⟩

/-- Neither is an error about tokens that are left over. -/
theorem minus_not_unexpected {tokens unread : List Token} {e : GrammarError}
    (h : HaltsAt limit tokens e unread) (hplaced : Placed IsMinus none tokens) (p : Int) :
    e ≠ .missingOperand "-" p ∧ e ≠ .unexpected "-" p := by
  cases h with
  | inside _ h => exact minus_not_missing h none hplaced (starts_of_minusKind _ rfl) p
  | closing _ _ _ => exact ⟨nofun, nofun⟩
  | @leftover last t tree rest _ h _ =>
      refine ⟨nofun, fun he => ?_⟩
      rw [GrammarError.unexpected.injEq] at he
      rcases phrase_of_runs h with ⟨xs, rfl, ⟨d⟩, hstop⟩
      -- After a complete operand it is an operator, which the parser would have gone on with.
      have hfits := placed_of_derivation d none (starts_of_minusKind _ rfl)
      have hkind := (placed_append.1 hplaced).2.1 he.1
      rw [hfits.2] at hkind
      simp only [Stops, joint?_operator rest hkind] at hstop
      rcases hstop with ⟨op, -, hloose⟩
      cases op <;> simp [Operator.precedence] at hloose

end Halting

/-- The scanner's labelling of the minus signs in a text is the only one that can
    be an expression, and the parser finds nothing wrong with a minus. -/
theorem minus_labelling {text : String} {tokens : List Token}
    (h : tokenize text = .ok tokens) :
    (∀ us tree, List.Forall₂ Relabels tokens us → Nonempty (Derivation .sum us tree) →
      us = tokens) ∧
    (∀ settings p, parseTokens settings tokens ≠
        .error (.rejection (.malformed (.missingOperand "-" p))) ∧
      parseTokens settings tokens ≠ .error (.rejection (.malformed (.unexpected "-" p)))) := by
  have hplaced := placed_of_scan (mapError_eq_ok_iff.1 h)
  refine ⟨?_, fun settings p => ?_⟩
  · rintro us tree hrelabels ⟨d⟩
    exact eq_of_relabels hrelabels none hplaced
      (placed_of_derivation d none (starts_of_minusKind _ rfl)).1
  · -- Without tokens there is no minus, and the error is about that.
    have hno : ∀ e, Expr.ofTokens settings.maxDepth tokens = .error (.malformed e) →
        e ≠ .missingOperand "-" p ∧ e ≠ .unexpected "-" p := by
      intro e he
      by_cases hne : tokens = []
      · subst hne
        cases he
        exact ⟨nofun, nofun⟩
      · rcases (haltsAt_iff hne).1 he with ⟨unread, hhalts⟩
        exact minus_not_unexpected hhalts hplaced p
    exact ⟨fun he => (hno _ (parseTokens_eq_malformed_iff.1 he)).1 rfl,
      fun he => (hno _ (parseTokens_eq_malformed_iff.1 he)).2 rfl⟩

/-- The first minus in `2--3` is an operator and the second a negation. -/
theorem minus_labelling_twice :
    tokenize "2--3" = .ok [⟨.number, "2", some (Double.ofRat 2), 0⟩, ⟨.operator, "-", none, 1⟩,
      ⟨.negate, "-", none, 2⟩, ⟨.number, "3", some (Double.ofRat 3), 3⟩] ∧
    ∀ us tree, List.Forall₂ Relabels [⟨.number, "2", some (Double.ofRat 2), 0⟩,
        ⟨.operator, "-", none, 1⟩, ⟨.negate, "-", none, 2⟩,
        ⟨.number, "3", some (Double.ofRat 3), 3⟩] us →
      Nonempty (Derivation .sum us tree) →
      us.map Token.kind = [.number, .operator, .negate, .number] := by
  have htokens : tokenize "2--3" = .ok [⟨.number, "2", some (Double.ofRat 2), 0⟩,
      ⟨.operator, "-", none, 1⟩, ⟨.negate, "-", none, 2⟩,
      ⟨.number, "3", some (Double.ofRat 3), 3⟩] := by
    decide +kernel
  refine ⟨htokens, fun us tree hrelabels hderived => ?_⟩
  rw [(minus_labelling htokens).1 us tree hrelabels hderived]
  rfl

end Grammar

end Reckoner
