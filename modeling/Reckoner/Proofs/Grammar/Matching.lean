import Mathlib
import Reckoner.Proofs.Grammar.Viable
import Reckoner.Token.Scan

/-!
# Matching Parentheses

Which parentheses of a list of tokens belong together is a question about the whole
list, and the parser answers it with what it knows where it halts. An expression
that it has read is balanced (`balanced_of_derivation`), so a closing parenthesis
after a whole expression has nothing to close. That diagnosis is always right.

An opening parenthesis is given up when an expression has been read behind it and
the next token is no closing one. At the end of the tokens that is right as well. If
there is a next token it is a number or a negation (`number_or_negate`), everything
else would have continued the expression, and what comes after it is never looked
at. The parenthesis has a partner exactly if something further on closes what is
open where the parser halts (`matching_iff_closes`).

## Main definitions

* `Balanced`: Every parenthesis among some tokens has its partner among them.
* `Closes`: A token closes what is open before another.
* `Matching`: Two tokens are parentheses that belong together.
* `GivenUp`: A parenthesis is left open behind a balanced stretch.

## Theorems

* `balanced_of_derivation`: A phrase is balanced.
* `not_balanced_of_closing`: Nothing closes a parenthesis outside of a balanced stretch.
* `givenUp_of_halts`: The parenthesis that an error names.
* `matching_iff_closes`: A balanced stretch has no part in what closes a parenthesis.
* `parentheses_diagnosed`: When a parenthesis is said to be unmatched and is.
-/

namespace Reckoner

namespace Grammar

/-- Every parenthesis among these tokens has its partner among them. -/
inductive Balanced : List Token → Prop
  | nil : Balanced []
  | other {t : Token} {ts : List Token} (hopen : t.kind ≠ .openParen)
      (hclose : t.kind ≠ .closeParen) (hrest : Balanced ts) : Balanced (t :: ts)
  | pair {o c : Token} {inner rest : List Token} (ho : o.kind = .openParen)
      (hc : c.kind = .closeParen) (hinner : Balanced inner) (hrest : Balanced rest) :
      Balanced (o :: (inner ++ c :: rest))

/-- Token number `j` closes what is open before token number `k`: it is a closing
    parenthesis, and the tokens up to it are balanced. -/
def Closes (tokens : List Token) (k j : Nat) : Prop :=
  ∃ inner c after, tokens.drop k = inner ++ c :: after ∧ c.kind = .closeParen ∧ Balanced inner ∧
    j = k + inner.length

/-- Tokens number `i` and `j` are an opening and a closing parenthesis that belong
    together. -/
def Matching (tokens : List Token) (i j : Nat) : Prop :=
  (∃ o, tokens[i]? = some o ∧ o.kind = .openParen) ∧ Closes tokens (i + 1) j

section Balance

variable {ts us inner rest : List Token} {c : Token}

theorem balanced_singleton {t : Token} {k : TokenKind} (h : t.kind = k) (hopen : k ≠ .openParen)
    (hclose : k ≠ .closeParen) : Balanced [t] := by
  subst h
  exact .other hopen hclose .nil

theorem Balanced.append (hts : Balanced ts) (hus : Balanced us) : Balanced (ts ++ us) := by
  induction hts with
  | nil => exact hus
  | other hopen hclose _ ih => exact .other hopen hclose ih
  | pair ho hc hinner _ _ ih =>
      rw [List.cons_append, List.append_assoc]
      exact .pair ho hc hinner ih

/-- A phrase is balanced. -/
theorem balanced_of_derivation {s : Stratum} {ts : List Token} {e : Expr}
    (d : Derivation s ts e) : Balanced ts := by
  induction d with
  | sumOfProduct _ ih => exact ih
  | productOfPower _ ih => exact ih
  | powerOfSigned _ ih => exact ih
  | signedOfPrimary _ ih => exact ih
  | addition _ op hop _ ihleft ihright =>
      exact ihleft.append ((balanced_singleton hop.1 nofun nofun).append ihright)
  | multiplication _ op hop _ ihleft ihright =>
      exact ihleft.append ((balanced_singleton hop.1 nofun nofun).append ihright)
  | exponentiation _ op hop _ ihleft ihright =>
      exact ihleft.append ((balanced_singleton hop.1 nofun nofun).append ihright)
  | juxtaposition _ _ _ ihleft ihright => exact ihleft.append ihright
  | negation t hkind _ ih => exact (balanced_singleton hkind nofun nofun).append ih
  | number t hkind => exact balanced_singleton hkind nofun nofun
  | constant t hkind => exact balanced_singleton hkind nofun nofun
  | parentheses o c ho hc _ ih => exact .pair ho hc ih .nil
  | application f o c hf ho hc _ ih =>
      exact (balanced_singleton hf nofun nofun).append (.pair ho hc ih .nil)

theorem openedAfter_closed (stack : List Token) (hc : c.kind = .closeParen) :
    openedAfter stack (c :: rest) = openedAfter stack.tail rest := by
  rw [← List.singleton_append, openedAfter_append, openedAfter_closing hc]

/-- A balanced stretch leaves the parentheses open that were open before it. -/
theorem openedAfter_of_balanced (h : Balanced ts) (stack : List Token) :
    openedAfter stack ts = stack := by
  induction h generalizing stack with
  | nil => rfl
  | other hopen hclose _ ih => rw [openedAfter_of_kind _ rfl hopen hclose, ih]
  | @pair o c inner rest ho hc _ _ ihinner ihrest =>
      rw [openedAfter_opening _ ho, openedAfter_append, ihinner, openedAfter_closed _ hc,
        List.tail_cons, ihrest]

/-- A balanced stretch does not go on beyond a parenthesis that would close what was
    open before it. -/
theorem not_balanced_of_closing (hinner : Balanced inner) (hc : c.kind = .closeParen) :
    ¬ Balanced (inner ++ c :: rest) := by
  intro h
  -- The same tokens after the parenthesis would both keep and lose what was open before.
  have hafter : ∀ stack, openedAfter stack.tail rest = stack := by
    intro stack
    have hwhole := openedAfter_of_balanced h stack
    rwa [openedAfter_append, openedAfter_of_balanced hinner, openedAfter_closed _ hc] at hwhole
  have hnone := hafter []
  have hone := hafter [c]
  rw [List.tail_nil] at hnone
  rw [List.tail_cons, hnone] at hone
  cases hone

/-- Where one parenthesis closes what is open, no other does. -/
theorem Balanced.eq_of_closing {inner' rest' : List Token} {c' : Token} (h : Balanced inner)
    (h' : Balanced inner') (hc : c.kind = .closeParen) (hc' : c'.kind = .closeParen)
    (heq : inner ++ c :: rest = inner' ++ c' :: rest') : inner = inner' := by
  rcases List.append_eq_append_iff.1 heq with ⟨more, rfl, hmore⟩ | ⟨more, rfl, hmore⟩
  · cases more with
    | nil => exact (List.append_nil inner).symm
    | cons d more =>
        cases hmore
        exact absurd h' (not_balanced_of_closing h hc)
  · cases more with
    | nil => exact List.append_nil inner'
    | cons d more =>
        cases hmore
        exact absurd h (not_balanced_of_closing h' hc')

/-- How a balanced stretch begins. -/
theorem Balanced.of_cons {t : Token} (h : Balanced (t :: ts)) :
    (t.kind ≠ .openParen ∧ Balanced ts) ∨
      (t.kind = .openParen ∧ ∃ inner c rest, ts = inner ++ c :: rest ∧ c.kind = .closeParen ∧
        Balanced inner ∧ Balanced rest) := by
  cases h with
  | other hopen _ hrest => exact .inl ⟨hopen, hrest⟩
  | pair ho hc hinner hrest => exact .inr ⟨ho, _, _, _, rfl, hc, hinner, hrest⟩

/-- What follows a balanced stretch is balanced if the two are together. -/
theorem Balanced.of_append (h : Balanced (ts ++ us)) (hts : Balanced ts) : Balanced us := by
  induction hts with
  | nil => exact h
  | other hopen _ _ ih =>
      rcases h.of_cons with ⟨-, hrest⟩ | ⟨ho, -⟩
      · exact ih hrest
      · exact absurd ho hopen
  | @pair o c inner rest ho hc hinner _ _ ih =>
      rw [List.cons_append, List.append_assoc, List.cons_append] at h
      rcases h.of_cons with ⟨hopen, -⟩ | ⟨-, inner', c', rest', hsplit, hc', hinner', hrest'⟩
      · exact absurd ho hopen
      · obtain rfl := hinner.eq_of_closing hinner' hc hc' hsplit
        cases List.append_cancel_left hsplit
        exact ih hrest'

end Balance

section Partners

variable {before inner unread rest : List Token} {o c : Token}

/-- After a balanced list of tokens, nothing is there for a parenthesis to close. -/
theorem not_matching_of_balanced {read : List Token} (hread : Balanced read) (i : Nat) :
    ¬ Matching (read ++ rest) i read.length := by
  rintro ⟨⟨o, ho, hkind⟩, inner, c, after, hdrop, -, hinner, hlength⟩
  -- What has been read ends with the parenthesis that would be closed and a balanced stretch.
  have hlt : i < read.length := by omega
  have hsplit : read.drop i = o :: inner := by
    rw [List.getElem?_append_left hlt] at ho
    rw [List.drop_eq_getElem_cons hlt, (List.getElem?_eq_some_iff.1 ho).2, List.cons.injEq]
    rw [List.drop_append_of_le_length (by omega)] at hdrop
    have hequal : (read.drop (i + 1)).length = inner.length := by
      rw [List.length_drop]
      omega
    exact ⟨rfl, (List.append_inj hdrop hequal).1⟩
  have hopened := openedAfter_of_balanced hread []
  rw [← List.take_append_drop i read, hsplit, openedAfter_append, openedAfter_opening _ hkind,
    openedAfter_of_balanced hinner] at hopened
  cases hopened

/-- A balanced stretch after a parenthesis has no part in what closes it. -/
theorem matching_iff_closes (ho : o.kind = .openParen) (hinner : Balanced inner) (j : Nat) :
    Matching (before ++ o :: (inner ++ unread)) before.length j ↔
      Closes (before ++ o :: (inner ++ unread)) (before.length + 1 + inner.length) j := by
  have hopening : (before ++ o :: (inner ++ unread))[before.length]? = some o := by
    rw [List.getElem?_append_right (Nat.le_refl _), Nat.sub_self, List.getElem?_cons_zero]
  have hbehind : (before ++ o :: (inner ++ unread)).drop (before.length + 1) = inner ++ unread := by
    rw [← List.drop_drop, List.drop_left, List.drop_succ_cons, List.drop_zero]
  have hunread : (before ++ o :: (inner ++ unread)).drop (before.length + 1 + inner.length) =
      unread := by
    rw [← List.drop_drop, hbehind, List.drop_left]
  unfold Matching Closes
  rw [hbehind, hunread]
  constructor
  · rintro ⟨-, whole, c, after, hsplit, hc, hwhole, rfl⟩
    rcases List.append_eq_append_iff.1 hsplit with ⟨mid, rfl, hmid⟩ | ⟨mid, rfl, hmid⟩
    · refine ⟨mid, c, after, hmid, hc, hwhole.of_append hinner, ?_⟩
      rw [List.length_append, Nat.add_assoc _ inner.length]
    · cases mid with
      | nil =>
          refine ⟨[], c, after, hmid.symm, hc, .nil, ?_⟩
          rw [List.append_nil]
          rfl
      | cons d mid =>
          -- A parenthesis inside of the stretch closes nothing from outside.
          cases hmid
          exact absurd hinner (not_balanced_of_closing hwhole hc)
  · rintro ⟨mid, c, after, rfl, hc, hmid, rfl⟩
    refine ⟨⟨o, hopening, ho⟩, inner ++ mid, c, after, ?_, hc, hinner.append hmid, ?_⟩
    · rw [List.append_assoc]
    · rw [List.length_append, Nat.add_assoc _ inner.length]

end Partners

section Diagnosis

/-- An opening parenthesis at position `p` is followed by a balanced stretch, and then
    by a token that neither continues an expression nor closes the parenthesis, or by
    none. -/
def GivenUp (p : Int) (ts unread : List Token) : Prop :=
  ∃ before o inner, ts = before ++ o :: (inner ++ unread) ∧ o.kind = .openParen ∧ o.position = p ∧
    Balanced inner ∧ ∀ t ∈ unread.head?, t.kind = .number ∨ t.kind = .negate

variable {limit stop p : Int} {ts unread : List Token}

/-- What neither continues an expression nor closes a parenthesis is a number or a
    negation. -/
theorem number_or_negate (hstops : Stops 1 unread)
    (hclose : ∀ c ∈ unread.head?, c.kind ≠ .closeParen) :
    ∀ t ∈ unread.head?, t.kind = .number ∨ t.kind = .negate := by
  intro t ht
  cases unread with
  | nil => cases ht
  | cons u rest =>
      cases ht
      have hkind := hclose t rfl
      -- An operator binds more tightly than nothing at all, so it does not stop.
      have hloose : ∀ op : Operator, ¬ op.precedence < 1 := by
        intro op
        cases op <;> decide
      cases hjoint : Parse.joint? (t :: rest) with
      | some joint =>
          unfold Stops at hstops
          rw [hjoint] at hstops
          rcases hstops with ⟨op, -, hlt⟩
          exact absurd hlt (hloose op)
      | none => cases htoken : t.kind <;> simp_all [Parse.joint?, TokenKind.multiplies]

theorem GivenUp.of_suffix {ts' : List Token} (h : GivenUp p ts unread) (hsuffix : ts <:+ ts') :
    GivenUp p ts' unread := by
  rcases hsuffix with ⟨front, rfl⟩
  rcases h with ⟨before, o, inner, rfl, hopening⟩
  exact ⟨front ++ before, o, inner, (List.append_assoc ..).symm, hopening⟩

/-- Behind the parenthesis an expression has been read to its end. -/
theorem givenUp_of_runs {o : Token} {inner : Expr} {depth : Nat} (ho : o.kind = .openParen)
    (hinner : Parse.Runs limit stop (.expression 1 depth) ts (.ok (inner, unread)))
    (hclose : ∀ c ∈ unread.head?, c.kind ≠ .closeParen) :
    GivenUp o.position (o :: ts) unread := by
  rcases phrase_of_runs hinner with ⟨xs, rfl, ⟨d⟩, hstops⟩
  exact ⟨[], o, xs, rfl, ho, rfl, balanced_of_derivation d, number_or_negate hstops hclose⟩

/-- The parenthesis that an error names has been given up, by induction on the moves of
    the call that halts. -/
theorem givenUp_of_halts {task : Parse.Task} {e : GrammarError}
    (h : Parse.Halts limit stop task ts e unread) :
    e = .unmatchedOpening p → GivenUp p ts unread := by
  induction h with
  | firstFails _ _ ih => exact ih
  | expression _ hfirst _ ih => exact fun he => (ih he).of_suffix (suffix_of_runs hfirst _ _ rfl)
  | rightFails hjoint _ _ _ ih => exact fun he => (ih he).of_suffix (joint?_suffix hjoint)
  | absorb hjoint _ _ hright _ ih =>
      intro he
      exact ((ih he).of_suffix (suffix_of_runs hright _ _ rfl)).of_suffix (joint?_suffix hjoint)
  | negation _ _ _ ih => exact fun he => (ih he).of_suffix (List.suffix_cons _ _)
  | unsigned _ _ ih => exact ih
  | groupFails _ _ ih => exact fun he => (ih he).of_suffix (List.suffix_cons _ _)
  | groupOpen hkind hinner hclose =>
      rintro ⟨⟩
      exact givenUp_of_runs hkind hinner hclose
  | argumentFails _ _ _ ih =>
      intro he
      exact ((ih he).of_suffix (List.suffix_cons _ _)).of_suffix (List.suffix_cons _ _)
  | argumentOpen _ hopen hargument hclose =>
      rintro ⟨⟩
      exact (givenUp_of_runs hopen hargument hclose).of_suffix (List.suffix_cons _ _)
  -- The other errors are about something else.
  | atEnd => nofun
  | functionAtEnd _ => nofun
  | functionBare _ _ => nofun
  | closing _ => nofun
  | operator _ => nofun

/-- Only the outermost call finds a closing parenthesis that is left over. -/
theorem ne_unmatchedClosing_of_halts {task : Parse.Task} {e : GrammarError}
    (h : Parse.Halts limit stop task ts e unread) : e ≠ .unmatchedClosing p := by
  induction h with
  | firstFails _ _ ih => exact ih
  | expression _ _ _ ih => exact ih
  | rightFails _ _ _ _ ih => exact ih
  | absorb _ _ _ _ _ ih => exact ih
  | negation _ _ _ ih => exact ih
  | unsigned _ _ ih => exact ih
  | groupFails _ _ ih => exact ih
  | argumentFails _ _ _ ih => exact ih
  | _ => nofun

/-- When a parenthesis is said to be unmatched, and when it is. A closing one that is
    said to be has no partner. An opening one that is said to be is followed by a
    balanced stretch, after which parsing halts, at the end or at a number or a
    negation. Whatever closes what is open there is its partner, and nothing else. -/
theorem parentheses_diagnosed (limit : Int) (tokens : List Token) (p : Int) :
    (Expr.ofTokens limit tokens = .error (.malformed (.unmatchedClosing p)) →
      ∃ j c, tokens[j]? = some c ∧ c.kind = .closeParen ∧ c.position = p ∧
        ∀ i, ¬ Matching tokens i j) ∧
    (Expr.ofTokens limit tokens = .error (.malformed (.unmatchedOpening p)) →
      ∃ i o k, tokens[i]? = some o ∧ o.kind = .openParen ∧ o.position = p ∧ i < k ∧
        HaltsAt limit tokens (.unmatchedOpening p) (tokens.drop k) ∧
        (∀ t, tokens[k]? = some t → t.kind = .number ∨ t.kind = .negate) ∧
        ∀ j, Matching tokens i j ↔ Closes tokens k j) := by
  have hhalts : ∀ {e}, Expr.ofTokens limit tokens = .error (.malformed e) → e ≠ .empty →
      ∃ unread, HaltsAt limit tokens e unread := by
    intro e h hne
    refine (haltsAt_iff ?_).1 h
    rintro rfl
    cases h
    exact hne rfl
  constructor
  · intro h
    rcases hhalts h nofun with ⟨unread, hhalts⟩
    cases hhalts with
    | inside _ hinside => exact absurd rfl (ne_unmatchedClosing_of_halts hinside)
    | @closing _ c tree rest hlast hruns hkind =>
        rcases phrase_of_runs hruns with ⟨read, rfl, ⟨d⟩, -⟩
        refine ⟨read.length, c, ?_, hkind, rfl, ?_⟩
        · rw [List.getElem?_append_right (Nat.le_refl _), Nat.sub_self, List.getElem?_cons_zero]
        · exact not_matching_of_balanced (balanced_of_derivation d)
  · intro h
    rcases hhalts h nofun with ⟨unread, hhalts⟩
    have hgiven : GivenUp p tokens unread := by
      cases hhalts with
      | inside _ hinside => exact givenUp_of_halts hinside rfl
    rcases hgiven with ⟨before, o, inner, rfl, ho, rfl, hinner, hnext⟩
    have hunread : (before ++ o :: (inner ++ unread)).drop (before.length + 1 + inner.length) =
        unread := by
      rw [← List.drop_drop, ← List.drop_drop, List.drop_left, List.drop_succ_cons, List.drop_zero,
        List.drop_left]
    refine ⟨before.length, o, before.length + 1 + inner.length, ?_, ho, rfl, by omega, ?_, ?_,
      matching_iff_closes ho hinner⟩
    · rw [List.getElem?_append_right (Nat.le_refl _), Nat.sub_self, List.getElem?_cons_zero]
    · rw [hunread]
      exact hhalts
    · intro t ht
      rw [← List.head?_drop, hunread] at ht
      exact hnext t ht

/-- The tokens of `(1 2)`. -/
def twoNumbers : List Token :=
  [⟨.openParen, "(", none, 0⟩, ⟨.number, "1", some (Double.ofRat 1), 1⟩,
    ⟨.number, "2", some (Double.ofRat 2), 3⟩, ⟨.closeParen, ")", none, 4⟩]

/-- The tokens of `1)`. -/
def strayClosing : List Token :=
  [⟨.number, "1", some (Double.ofRat 1), 0⟩, ⟨.closeParen, ")", none, 1⟩]

/-- The parenthesis of `(1 2)` is said to be unmatched, and parsing halts at the second
    number. The one of `1)` is said to be unmatched, and is. -/
theorem parentheses_diagnosed_twoNumbers :
    Expr.ofTokens 100 twoNumbers = .error (.malformed (.unmatchedOpening 0)) ∧
      (∃ i o k, twoNumbers[i]? = some o ∧ o.kind = .openParen ∧ o.position = 0 ∧ i < k ∧
        HaltsAt 100 twoNumbers (.unmatchedOpening 0) (twoNumbers.drop k) ∧
        (∀ t, twoNumbers[k]? = some t → t.kind = .number ∨ t.kind = .negate) ∧
        ∀ j, Matching twoNumbers i j ↔ Closes twoNumbers k j) ∧
      Expr.ofTokens 100 strayClosing = .error (.malformed (.unmatchedClosing 1)) ∧
      ∃ j c, strayClosing[j]? = some c ∧ c.kind = .closeParen ∧ c.position = 1 ∧
        ∀ i, ¬ Matching strayClosing i j := by
  have hopening : Expr.ofTokens 100 twoNumbers = .error (.malformed (.unmatchedOpening 0)) := by
    decide +kernel
  have hclosing : Expr.ofTokens 100 strayClosing = .error (.malformed (.unmatchedClosing 1)) := by
    decide +kernel
  exact ⟨hopening, (parentheses_diagnosed 100 twoNumbers 0).2 hopening, hclosing,
    (parentheses_diagnosed 100 strayClosing 1).1 hclosing⟩

/-- The text `(1 2)` is refused for an unmatched parenthesis, and the only token at that
    position is a parenthesis that the last token closes. -/
theorem matched_yet_refused :
    Token.scan "(1 2)" = .ok twoNumbers ∧
      Expr.ofTokens 100 twoNumbers = .error (.malformed (.unmatchedOpening 0)) ∧
      twoNumbers.map Token.position = [0, 1, 3, 4] ∧ Matching twoNumbers 0 3 := by
  refine ⟨by decide +kernel, by decide +kernel, rfl, ⟨_, rfl, rfl⟩, ?_⟩
  exact ⟨(twoNumbers.drop 1).take 2, _, [], rfl, rfl,
    .other (by decide) (by decide) (.other (by decide) (by decide) .nil), rfl⟩

end Diagnosis

end Grammar

end Reckoner
