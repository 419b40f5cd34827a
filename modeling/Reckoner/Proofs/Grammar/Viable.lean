import Mathlib
import Reckoner.Proofs.Grammar.Replay

/-!
# Errors Point at the First Wrong Token

Where the parser halts, everything it has read could still become an expression,
and with the token it halts at, nothing could. No earlier token is to blame and no
later one matters, so the place of an error is a property of the tokens and of the
grammar, not of the parser.

That what has been read is *viable* is shown along the moves of the halting call.
Each move completes what the call inside it leaves incomplete: a loop has its left
operand in hand, an open parenthesis gets closed, a missing operand is supplied.
That nothing goes on with the wrong token is shown by parsing. A list that begins
with what was read and that token halts there as well, while a derived list never
halts.

An error names the position where the parser halts, except for one: an open
parenthesis that is not closed there is named instead. `opened` keeps track of the
parentheses, and the one that is named is the innermost.

## Main definitions

* `Completable`: More tokens would make a phrase of a stratum.
* `Viable`: More tokens would make an expression.
* `Completes`: What a halting call has read can be completed.
* `opened`: The parentheses that are open after some tokens.
* `PointsAt`: Which position an error names.

## Theorems

* `completes_of_halts`: What has been read when a call halts can be completed.
* `not_viable_of_haltsAt`: It cannot be with the next token.
* `opened_of_derivation`: A phrase leaves no parenthesis open.
* `points_of_halts`: An error names the place where a call halts.
* `ofTokens_viablePrefix`: Errors point at the first token that is wrong.
-/

namespace Reckoner

namespace Grammar

/-- More tokens after these would make a phrase of the given stratum. -/
def Completable (s : Stratum) (ts : List Token) : Prop :=
  ∃ more tree, Nonempty (Derivation s (ts ++ more) tree)

/-- More tokens after these would make an expression. -/
def Viable (ts : List Token) : Prop := Completable .sum ts

section Completion

/-- Tokens to complete an expression with. -/
def zeroToken : Token := ⟨.number, "0", some Double.zero, 0⟩

def openingToken : Token := ⟨.openParen, "(", none, 0⟩

def closingToken : Token := ⟨.closeParen, ")", none, 0⟩

theorem Completable.raise {s s' : Stratum} {ts : List Token} (h : Completable s ts)
    (hs : s ≠ .primary) (hs' : s' ≠ .primary) (hle : s'.least ≤ s.least) : Completable s' ts := by
  rcases h with ⟨more, tree, ⟨d⟩⟩
  exact ⟨more, tree, Grammar.raise s' d hs hs' hle⟩

/-- A phrase needs nothing to be completed. -/
theorem completable_of_derivation {s : Stratum} {ts : List Token} {e : Expr}
    (d : Derivation s ts e) : Completable s ts := by
  refine ⟨[], e, ?_⟩
  rw [List.append_nil]
  exact ⟨d⟩

/-- Where an operand is missing, one can be supplied. -/
theorem completable_nil : Completable .primary [] :=
  ⟨[zeroToken], _, ⟨.number zeroToken rfl⟩⟩

theorem completable_negation {t : Token} {ts : List Token} (hkind : t.kind = .negate)
    (h : Completable .signed ts) : Completable .signed (t :: ts) := by
  rcases h with ⟨more, tree, ⟨d⟩⟩
  exact ⟨more, _, ⟨.negation t hkind d⟩⟩

theorem completable_signed {ts : List Token} (h : Completable .primary ts) :
    Completable .signed ts := by
  rcases h with ⟨more, tree, ⟨d⟩⟩
  exact ⟨more, tree, ⟨.signedOfPrimary d⟩⟩

/-- What can be completed inside parentheses can be completed with them. -/
theorem completable_group {t : Token} {ts : List Token} (hkind : t.kind = .openParen)
    (h : Viable ts) : Completable .primary (t :: ts) := by
  rcases h with ⟨more, tree, ⟨d⟩⟩
  refine ⟨more ++ [closingToken], tree.grouped, ?_⟩
  rw [List.cons_append, ← List.append_assoc]
  exact ⟨.parentheses t closingToken hkind rfl d⟩

theorem completable_application {t u : Token} {ts : List Token} (hkind : t.kind = .function)
    (hopen : u.kind = .openParen) (h : Viable ts) : Completable .primary (t :: u :: ts) := by
  rcases h with ⟨more, tree, ⟨d⟩⟩
  refine ⟨more ++ [closingToken], .apply t.text tree, ?_⟩
  rw [List.cons_append, List.cons_append, ← List.append_assoc]
  exact ⟨.application t u closingToken hkind hopen rfl d⟩

theorem viable_of_primary {ts : List Token} (h : Completable .primary ts) : Viable ts :=
  (completable_signed h).raise (by decide) (by decide) (by decide)

/-- A function needs an argument in parentheses. -/
theorem completable_function {t : Token} (hkind : t.kind = .function) :
    Completable .primary [t] := by
  rcases completable_application (u := openingToken) hkind rfl (viable_of_primary completable_nil)
    with ⟨more, tree, d⟩
  exact ⟨openingToken :: more, tree, d⟩

/-- An operation whose right operand can be completed can be completed itself. -/
theorem completable_right {s s' : Stratum} {ls ts operand rs unread : List Token} {l : Expr}
    {symbol : String} {op : Operator} (left : Derivation s' ls l) (hs : s ≠ .primary)
    (hs' : s' ≠ .primary) (hleast : s.least ≤ s'.least) (htight : s.least ≤ op.precedence)
    (hleft : op.precedence < s'.bar) (hjoint : Parse.joint? ts = some (symbol, operand))
    (hop : Operator.ofSymbol? symbol = some op) (hoperand : operand = rs ++ unread)
    (hright : Completable (rightStratumOf op) rs) :
    ∃ xs, ts = xs ++ unread ∧ Completable s (ls ++ xs) := by
  rcases hright with ⟨more, r, ⟨right⟩⟩
  -- Whatever joins the completed operand to the left one makes an operation of them.
  have hcomplete : ∀ ts', Parse.joint? ts' = some (symbol, rs ++ more) →
      ∃ tree, Nonempty (Derivation s (ls ++ ts') tree) := by
    intro ts' hjoint'
    rcases extend left hs' hleft hjoint' hop (List.append_nil _).symm right with
      ⟨xs, rfl, ⟨d⟩⟩
    rw [List.append_nil]
    exact ⟨_, raise s d (stratumOf_ne_primary op) hs (by rw [least_stratumOf]; exact htight)⟩
  rcases joint?_eq_some hjoint with ⟨t, tail, rfl, ⟨hkind, rfl, rfl⟩ | ⟨hfirst, rfl, rfl⟩⟩
  · refine ⟨t :: rs, by rw [hoperand, List.cons_append], more, ?_⟩
    rw [List.append_assoc]
    exact hcomplete _ (joint?_operator _ hkind)
  · cases rs with
    | nil =>
        -- Nothing has been read of the right operand, and without a sign none is called for.
        rcases raise s left hs' hs hleast with ⟨d⟩
        exact ⟨[], hoperand, by rw [List.append_nil]; exact completable_of_derivation d⟩
    | cons u rs =>
        rw [List.cons_append, List.cons.injEq] at hoperand
        rcases hoperand with ⟨rfl, rfl⟩
        refine ⟨t :: rs, rfl, more, ?_⟩
        rw [List.append_assoc]
        exact hcomplete _ (joint?_opensFactor _ hfirst)

/-- What a call that halts has read can be completed to what it was to read. -/
def Completes (unread ts : List Token) : Parse.Task → Prop
  | .expression least _ => ∀ s, s ≠ .primary → s.least = least →
      ∃ xs, ts = xs ++ unread ∧ Completable s xs
  | .operands least _ left => ∀ s s' ls, s ≠ .primary → s' ≠ .primary → s.least = least →
      least ≤ s'.least → Nonempty (Derivation s' ls left) → s' = .signed ∨ Stops s'.bar ts →
      ∃ xs, ts = xs ++ unread ∧ Completable s (ls ++ xs)
  | .unary _ => ∃ xs, ts = xs ++ unread ∧ Completable .signed xs
  | .primary _ => ∃ xs, ts = xs ++ unread ∧ Completable .primary xs

/-- The operator may follow the operand in hand, by the invariant of the loop. -/
theorem precedence_lt_bar {s : Stratum} {ts operand : List Token} {symbol : String} {op : Operator}
    (h : s = .signed ∨ Stops s.bar ts) (hjoint : Parse.joint? ts = some (symbol, operand))
    (hop : Operator.ofSymbol? symbol = some op) : op.precedence < s.bar := by
  rcases h with rfl | h
  · cases op <;> decide
  · exact (stops_of_joint hjoint hop).1 h

/-- What has been read when a call halts can be completed, by induction on its
    moves. -/
theorem completes_of_halts {limit stop : Int} {task : Parse.Task} {ts unread : List Token}
    {e : GrammarError} (h : Parse.Halts limit stop task ts e unread) :
    Completes unread ts task := by
  induction h with
  | firstFails _ _ ih =>
      intro s hs hleast
      rcases ih with ⟨xs, rfl, hfirst⟩
      exact ⟨xs, rfl, hfirst.raise (by decide) hs (by cases s <;> decide)⟩
  | expression _ hfirst _ ih =>
      intro s hs hleast
      rcases spells_of_runs hfirst _ _ rfl with ⟨xs, rfl, hleft⟩
      rcases ih s .signed xs hs (by simp) hleast (by subst hleast; cases s <;> decide) hleft
        (.inl rfl) with ⟨ys, rfl, hcompletable⟩
      exact ⟨xs ++ ys, by rw [List.append_assoc], hcompletable⟩
  | @rightFails _ _ _ _ _ _ _ op _ hjoint hop htight _ ih =>
      rintro s s' ls hs hs' rfl hle ⟨left⟩ hbar
      rcases ih _ (rightStratumOf_ne_primary op) (least_rightStratumOf op) with
        ⟨rs, hoperand, hright⟩
      exact completable_right left hs hs' hle (by omega) (precedence_lt_bar hbar hjoint hop) hjoint
        hop hoperand hright
  | @absorb _ _ _ _ _ _ _ _ symbol op _ hjoint hop htight hright _ ih =>
      rintro s s' ls hs hs' hleast hle ⟨left⟩ hbar
      rcases operand_of_runs hright with ⟨rs, hoperand, ⟨r⟩, hstop⟩
      -- The operation is complete, and the loop goes on with it in its hand.
      rcases extend left hs' (precedence_lt_bar hbar hjoint hop) hjoint hop hoperand r with
        ⟨js, rfl, hextended⟩
      rcases ih s (stratumOf op) (ls ++ js) hs (stratumOf_ne_primary op) hleast
        (by rw [least_stratumOf]; omega) hextended (.inr (by rw [bar_stratumOf]; exact hstop)) with
        ⟨ys, rfl, hcompletable⟩
      exact ⟨js ++ ys, by rw [List.append_assoc], by rw [← List.append_assoc]; exact hcompletable⟩
  | @negation _ t _ _ _ hkind _ _ ih =>
      rcases ih with ⟨xs, rfl, hargument⟩
      exact ⟨t :: xs, rfl, completable_negation hkind hargument⟩
  | unsigned _ _ ih =>
      rcases ih with ⟨xs, rfl, hprimary⟩
      exact ⟨xs, rfl, completable_signed hprimary⟩
  | @groupFails _ t _ _ _ hkind _ ih =>
      rcases ih .sum (by simp) rfl with ⟨xs, rfl, hinner⟩
      exact ⟨t :: xs, rfl, completable_group hkind hinner⟩
  | @groupOpen _ t _ _ _ hkind hinner _ =>
      rcases phrase_of_runs hinner with ⟨xs, rfl, ⟨d⟩, -⟩
      exact ⟨t :: xs, rfl, completable_group hkind (completable_of_derivation d)⟩
  | @functionAtEnd _ t hkind => exact ⟨[t], rfl, completable_function hkind⟩
  | @functionBare _ t u ts hkind _ => exact ⟨[t], rfl, completable_function hkind⟩
  | @argumentFails _ t u _ _ _ hkind hopen _ ih =>
      rcases ih .sum (by simp) rfl with ⟨xs, rfl, hargument⟩
      exact ⟨t :: u :: xs, rfl, completable_application hkind hopen hargument⟩
  | @argumentOpen _ t u _ _ _ hkind hopen hargument _ =>
      rcases phrase_of_runs hargument with ⟨xs, rfl, ⟨d⟩, -⟩
      exact ⟨t :: u :: xs, rfl, completable_application hkind hopen (completable_of_derivation d)⟩
  | atEnd => exact ⟨[], rfl, completable_nil⟩
  | closing _ => exact ⟨[], rfl, completable_nil⟩
  | operator _ => exact ⟨[], rfl, completable_nil⟩

end Completion

section Opened

/-- The parentheses that are open after some tokens, the innermost first, if those
    in `stack` have been open before. -/
def openedAfter (stack : List Token) : List Token → List Token
  | [] => stack
  | t :: ts =>
    if t.kind = .openParen then openedAfter (t :: stack) ts
    else if t.kind = .closeParen then openedAfter stack.tail ts
    else openedAfter stack ts

/-- The parentheses that are open after some tokens, the innermost first. -/
def opened (ts : List Token) : List Token := openedAfter [] ts

variable {stack : List Token} {t : Token}

theorem openedAfter_append (stack ts us : List Token) :
    openedAfter stack (ts ++ us) = openedAfter (openedAfter stack ts) us := by
  induction ts generalizing stack with
  | nil => rfl
  | cons t ts ih =>
      simp only [List.cons_append, openedAfter]
      split
      · exact ih _
      · split
        · exact ih _
        · exact ih _

theorem openedAfter_opening (ts : List Token) (h : t.kind = .openParen) :
    openedAfter stack (t :: ts) = openedAfter (t :: stack) ts := by
  rw [openedAfter, if_pos h]

theorem openedAfter_closing (h : t.kind = .closeParen) :
    openedAfter stack [t] = stack.tail := by
  rw [openedAfter, if_neg (by rw [h]; decide), if_pos h, openedAfter]

theorem openedAfter_of_kind {k : TokenKind} (ts : List Token) (h : t.kind = k)
    (hopen : k ≠ .openParen) (hclose : k ≠ .closeParen) :
    openedAfter stack (t :: ts) = openedAfter stack ts := by
  subst h
  rw [openedAfter, if_neg hopen, if_neg hclose]

/-- A phrase leaves no parenthesis open. -/
theorem opened_of_derivation {s : Stratum} {ts : List Token} {e : Expr} (d : Derivation s ts e)
    (stack : List Token) : openedAfter stack ts = stack := by
  induction d generalizing stack with
  | sumOfProduct _ ih => exact ih stack
  | productOfPower _ ih => exact ih stack
  | powerOfSigned _ ih => exact ih stack
  | signedOfPrimary _ ih => exact ih stack
  | addition _ op hop _ ihleft ihright =>
      rw [openedAfter_append, ihleft, openedAfter_of_kind _ hop.1 nofun nofun, ihright]
  | multiplication _ op hop _ ihleft ihright =>
      rw [openedAfter_append, ihleft, openedAfter_of_kind _ hop.1 nofun nofun, ihright]
  | exponentiation _ op hop _ ihleft ihright =>
      rw [openedAfter_append, ihleft, openedAfter_of_kind _ hop.1 nofun nofun, ihright]
  | juxtaposition _ _ _ ihleft ihright => rw [openedAfter_append, ihleft, ihright]
  | negation t hkind _ ih => rw [openedAfter_of_kind _ hkind nofun nofun, ih]
  | number t hkind => exact openedAfter_of_kind [] hkind nofun nofun
  | constant t hkind => exact openedAfter_of_kind [] hkind nofun nofun
  | parentheses o c ho hc _ ih =>
      rw [openedAfter_opening _ ho, openedAfter_append, ih, openedAfter_closing hc, List.tail_cons]
  | application f o c hf ho hc _ ih =>
      rw [openedAfter_of_kind _ hf nofun nofun, openedAfter_opening _ ho, openedAfter_append, ih,
        openedAfter_closing hc, List.tail_cons]

/-- What joins an operand to the next opens and closes nothing. -/
theorem opened_of_joint {ts operand xs unread : List Token} {symbol : String}
    (hjoint : Parse.joint? ts = some (symbol, operand)) (hoperand : operand = xs ++ unread) :
    ∃ read, ts = read ++ unread ∧ ∀ stack, openedAfter stack read = openedAfter stack xs := by
  rcases joint?_eq_some hjoint with ⟨t, tail, rfl, ⟨hkind, -, rfl⟩ | ⟨-, -, rfl⟩⟩
  · refine ⟨t :: xs, by rw [hoperand, List.cons_append], fun stack => ?_⟩
    exact openedAfter_of_kind xs hkind nofun nofun
  · exact ⟨xs, hoperand, fun stack => rfl⟩

/-- An error names the next token, or the end if there is none. One that is about
    an open parenthesis names the innermost. -/
def PointsAt (stop : Int) (stack unread : List Token) : GrammarError → Prop
  | .unmatchedOpening p => ∃ o, stack.head? = some o ∧ p = o.position
  | e => e.position = (unread.head?.map Token.position).getD stop

/-- An error names the place where a call halts, by induction on its moves. -/
theorem points_of_halts {limit stop : Int} {task : Parse.Task} {ts unread : List Token}
    {e : GrammarError} (h : Parse.Halts limit stop task ts e unread) :
    ∀ stack, ∃ read, ts = read ++ unread ∧ PointsAt stop (openedAfter stack read) unread e := by
  induction h with
  | firstFails _ _ ih => exact ih
  | expression _ hfirst _ ih =>
      intro stack
      rcases spells_of_runs hfirst _ _ rfl with ⟨xs, rfl, ⟨d⟩⟩
      rcases ih stack with ⟨read, rfl, hpoints⟩
      refine ⟨xs ++ read, (List.append_assoc ..).symm, ?_⟩
      rwa [openedAfter_append, opened_of_derivation d]
  | rightFails hjoint _ _ _ ih =>
      intro stack
      rcases ih stack with ⟨read, rfl, hpoints⟩
      rcases opened_of_joint hjoint rfl with ⟨read', rfl, hopened⟩
      exact ⟨read', rfl, by rwa [hopened]⟩
  | @absorb _ _ _ _ _ _ _ _ _ op _ hjoint _ _ hright _ ih =>
      intro stack
      rcases operand_of_runs hright with ⟨rs, rfl, ⟨d⟩, -⟩
      rcases ih stack with ⟨read, rfl, hpoints⟩
      -- The right operand is a phrase, so the parentheses are as they were before it.
      rcases opened_of_joint hjoint (List.append_assoc ..).symm with ⟨read', rfl, hopened⟩
      refine ⟨read', rfl, ?_⟩
      rwa [hopened, openedAfter_append, opened_of_derivation d]
  | @negation _ t _ _ _ hkind _ _ ih =>
      intro stack
      rcases ih stack with ⟨read, rfl, hpoints⟩
      exact ⟨t :: read, rfl, by rwa [openedAfter_of_kind _ hkind nofun nofun]⟩
  | unsigned _ _ ih => exact ih
  | @groupFails _ t _ _ _ hkind _ ih =>
      intro stack
      rcases ih (t :: stack) with ⟨read, rfl, hpoints⟩
      exact ⟨t :: read, rfl, by rwa [openedAfter_opening _ hkind]⟩
  | @groupOpen _ t _ _ _ hkind hinner _ =>
      intro stack
      rcases phrase_of_runs hinner with ⟨xs, rfl, ⟨d⟩, -⟩
      refine ⟨t :: xs, rfl, t, ?_, rfl⟩
      rw [openedAfter_opening _ hkind, opened_of_derivation d, List.head?_cons]
  | @argumentFails _ t u _ _ _ hkind hopen _ ih =>
      intro stack
      rcases ih (u :: stack) with ⟨read, rfl, hpoints⟩
      refine ⟨t :: u :: read, rfl, ?_⟩
      rwa [openedAfter_of_kind _ hkind nofun nofun, openedAfter_opening _ hopen]
  | @argumentOpen _ t u _ _ _ hkind hopen hargument _ =>
      intro stack
      rcases phrase_of_runs hargument with ⟨xs, rfl, ⟨d⟩, -⟩
      refine ⟨t :: u :: xs, rfl, u, ?_, rfl⟩
      rw [openedAfter_of_kind _ hkind nofun nofun, openedAfter_opening _ hopen,
        opened_of_derivation d, List.head?_cons]
  | atEnd => exact fun _ => ⟨[], rfl, rfl⟩
  | @functionAtEnd _ t _ => exact fun _ => ⟨[t], rfl, rfl⟩
  | @functionBare _ t _ _ _ _ => exact fun _ => ⟨[t], rfl, rfl⟩
  | closing _ => exact fun _ => ⟨[], rfl, rfl⟩
  | operator _ => exact fun _ => ⟨[], rfl, rfl⟩

end Opened

/-- What comes before a viable list is viable. -/
theorem Viable.of_append {ts us : List Token} (h : Viable (ts ++ us)) : Viable ts := by
  rcases h with ⟨more, tree, d⟩
  exact ⟨us ++ more, tree, by rwa [← List.append_assoc]⟩

section Halting

variable {limit : Int} {tokens read unread rest : List Token} {t : Token} {e : GrammarError}

theorem ne_nil_of_haltsAt (h : HaltsAt limit tokens e unread) : tokens ≠ [] := by
  rintro rfl
  cases h with
  | inside hlast _ => cases hlast
  | closing hlast _ _ => cases hlast
  | leftover hlast _ _ => cases hlast

/-- What has been read when parsing halts is viable, and what is left over comes
    after it. -/
theorem viable_of_haltsAt (h : HaltsAt limit tokens e unread) :
    ∃ read, tokens = read ++ unread ∧ Viable read := by
  have hcomplete : ∀ {last : Token} {tree : Expr},
      Parse.Runs limit last.stop (.expression 1 0) tokens (.ok (tree, unread)) →
        ∃ read, tokens = read ++ unread ∧ Viable read := by
    intro last tree hruns
    rcases phrase_of_runs hruns with ⟨read, htokens, ⟨d⟩, -⟩
    exact ⟨read, htokens, completable_of_derivation d⟩
  cases h with
  | inside _ h => exact completes_of_halts h .sum (by simp) rfl
  | closing _ h _ => exact hcomplete h
  | leftover _ h _ => exact hcomplete h

/-- Nothing that begins with what was read and the next token is derived, because
    parsing would halt there. -/
theorem not_viable_of_haltsAt (h : HaltsAt limit (read ++ t :: rest) e (t :: rest)) :
    ¬ Viable (read ++ [t]) := by
  rintro ⟨more, tree, ⟨d⟩⟩
  -- A derived list is parsed or too deep, but never malformed.
  have hhalts := replay_haltsAt h more
  have hmalformed : Expr.ofTokens limit (read ++ [t] ++ more) = .error (.malformed e) := by
    rw [List.append_assoc, List.singleton_append]
    exact (haltsAt_iff (ne_nil_of_haltsAt hhalts)).2 ⟨_, hhalts⟩
  rw [ofTokens_of_derivation limit d] at hmalformed
  split at hmalformed <;> cases hmalformed

/-- Parsing halts in one place only. -/
theorem haltsAt_unique {e' : GrammarError} {unread' : List Token}
    (h : HaltsAt limit tokens e unread) (h' : HaltsAt limit tokens e' unread') :
    unread = unread' := by
  -- The shorter of the two would be viable with one more token, as a part of the longer one.
  have hshorter : ∀ {e e' unread unread'}, HaltsAt limit tokens e unread →
      HaltsAt limit tokens e' unread' → unread'.length ≤ unread.length → unread = unread' := by
    intro e e' unread unread' h h' hlength
    rcases viable_of_haltsAt h with ⟨read, htokens, -⟩
    rcases viable_of_haltsAt h' with ⟨read', htokens', hviable'⟩
    have hsplit := htokens.symm.trans htokens'
    rcases List.append_eq_append_iff.1 hsplit with ⟨more, rfl, rfl⟩ | ⟨more, rfl, rfl⟩
    · cases more with
      | nil => rfl
      | cons t more =>
          rw [htokens] at h
          refine absurd ?_ (not_viable_of_haltsAt h)
          rw [List.append_cons] at hviable'
          exact hviable'.of_append
    · rw [List.length_append] at hlength
      rw [List.eq_nil_of_length_eq_zero (l := more) (by omega), List.nil_append]
  rcases Nat.le_total unread'.length unread.length with hle | hle
  · exact hshorter h h' hle
  · exact (hshorter h' h hle).symm

/-- An error names the place where parsing halts. -/
theorem points_of_haltsAt {last : Token} (hlast : tokens.getLast? = some last)
    (h : HaltsAt limit (read ++ unread) e unread) (htokens : tokens = read ++ unread) :
    PointsAt last.stop (opened read) unread e := by
  subst htokens
  generalize htokens : read ++ unread = tokens at h hlast
  cases h with
  | inside hlast' h =>
      cases hlast.symm.trans hlast'
      rcases points_of_halts h [] with ⟨read', htokens', hpoints⟩
      rw [List.append_cancel_right (htokens.trans htokens')]
      exact hpoints
  | closing _ _ _ => rfl
  | leftover _ _ _ => rfl

/-- Errors point at the first token that is wrong. If a list of tokens is malformed,
    its parsing halts in exactly one place, after `k` tokens. They are viable and
    with the next one they are not, if there is a next one. The error names the
    position of that token or the end of the last, except that an unmatched
    parenthesis is named itself, and it is the innermost that is open. -/
theorem ofTokens_viablePrefix (limit : Int) {tokens : List Token} {e : GrammarError}
    {last : Token} (hlast : tokens.getLast? = some last)
    (h : Expr.ofTokens limit tokens = .error (.malformed e)) :
    ∃ k, k ≤ tokens.length ∧
      (∀ unread, HaltsAt limit tokens e unread ↔ unread = tokens.drop k) ∧
      Viable (tokens.take k) ∧
      (k < tokens.length → ¬ Viable (tokens.take (k + 1))) ∧
      PointsAt last.stop (opened (tokens.take k)) (tokens.drop k) e := by
  have hne : tokens ≠ [] := by
    rintro rfl
    cases hlast
  rcases (haltsAt_iff hne).1 h with ⟨unread, hhalts⟩
  rcases viable_of_haltsAt hhalts with ⟨read, htokens, hviable⟩
  have htake : tokens.take read.length = read := by rw [htokens, List.take_left]
  have hdrop : tokens.drop read.length = unread := by rw [htokens, List.drop_left]
  refine ⟨read.length, ?_, fun unread' => ?_, ?_, fun hlt => ?_, ?_⟩
  · rw [htokens, List.length_append]
    omega
  · rw [hdrop]
    refine ⟨fun h' => haltsAt_unique h' hhalts, ?_⟩
    rintro rfl
    exact hhalts
  · rwa [htake]
  · rcases unread with _ | ⟨t, rest⟩
    · rw [List.append_nil] at htokens
      rw [htokens] at hlt
      exact absurd hlt (Nat.lt_irrefl _)
    · subst htokens
      rw [List.take_append, List.take_of_length_le (by omega), Nat.add_sub_cancel_left]
      exact not_viable_of_haltsAt hhalts
  · rw [htake, hdrop]
    exact points_of_haltsAt hlast (htokens ▸ hhalts) htokens

/-- The tokens of `2*sin(1 5`. -/
def openSine : List Token :=
  [⟨.number, "2", some (Double.ofRat 2), 0⟩, ⟨.operator, "*", none, 1⟩,
    ⟨.function, "sin", none, 2⟩, ⟨.openParen, "(", none, 5⟩,
    ⟨.number, "1", some (Double.ofRat 1), 6⟩, ⟨.number, "5", some (Double.ofRat 5), 8⟩]

/-- Parsing halts at the second number, before which the parenthesis could still
    have been closed, and the error names the parenthesis. -/
theorem openSine_viablePrefix :
    Expr.ofTokens 100 openSine = .error (.malformed (.unmatchedOpening 5)) ∧
      Viable (openSine.take 5) ∧ ¬ Viable (openSine.take 6) := by
  have hargument : ∀ stop, Parse.Runs 100 stop (.expression 1 2) (openSine.drop 4)
      (.ok (.literal (some (Double.ofRat 1)), openSine.drop 5)) := fun stop =>
    .expression (by decide) (.unsigned (by simp [openSine]) (.literal (.inl rfl))) (.noJoint rfl)
  have hsine : ∀ stop, Parse.Halts 100 stop (.expression 3 1) (openSine.drop 2)
      (.unmatchedOpening 5) (openSine.drop 5) := fun stop =>
    .firstFails (by decide) (.unsigned (by simp [openSine])
      (.argumentOpen rfl rfl (hargument stop) (by simp [openSine])))
  have hhalts : HaltsAt 100 openSine (.unmatchedOpening 5) (openSine.drop 5) :=
    .inside rfl (.expression (by decide) (.unsigned (by simp [openSine]) (.literal (.inl rfl)))
      (.rightFails rfl (Operator.ofSymbol?_symbol .multiply) (by decide) (hsine _)))
  have hmalformed := (haltsAt_iff (ne_nil_of_haltsAt hhalts)).2 ⟨_, hhalts⟩
  refine ⟨hmalformed, ?_⟩
  rcases ofTokens_viablePrefix 100 rfl hmalformed with ⟨k, hk, hunique, hviable, hnot, -⟩
  have hlength := congrArg List.length ((hunique _).1 hhalts)
  simp only [List.length_drop, openSine, List.length_cons, List.length_nil] at hlength hk
  obtain rfl : k = 5 := by omega
  exact ⟨hviable, hnot (by decide)⟩

end Halting

end Grammar

end Reckoner
