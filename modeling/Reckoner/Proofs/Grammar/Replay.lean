import Mathlib
import Reckoner.Proofs.Grammar.Acceptance
import Reckoner.Proofs.Grammar.Halt

/-!
# What the Parser Has Not Looked At

The parser never looks further than one token ahead, so whatever comes after the
token that it looks at could be replaced. A call that succeeds does so with any
other tokens there, and a call that halts at a token halts at it with the same
error.

Both are shown from the end of a call to its beginning. What is left over is given
with another tail, and the tokens that the call began with are put together from
it, move by move.

## Main definitions

* `Shares`: Two lists that are the same up to a token.

## Theorems

* `replay_runs`: A call that succeeds does so with another tail.
* `replay_halts`: A call that halts does so with another tail.
* `replay_haltsAt`: A list of tokens is malformed with another tail.
-/

namespace Reckoner

namespace Grammar

/-- Two lists of tokens are the same up to `t`, and then one goes on with `rest` and
    the other with `rest'`. -/
def Shares (t : Token) (rest rest' ts ts' : List Token) : Prop :=
  ∃ xs, ts = xs ++ t :: rest ∧ ts' = xs ++ t :: rest'

namespace Shares

variable {t : Token} {rest rest' ts ts' operand operand' : List Token} {symbol : String}

theorem head (t : Token) (rest rest' : List Token) : Shares t rest rest' (t :: rest) (t :: rest') :=
  ⟨[], rfl, rfl⟩

theorem cons (u : Token) (h : Shares t rest rest' ts ts') :
    Shares t rest rest' (u :: ts) (u :: ts') := by
  rcases h with ⟨xs, rfl, rfl⟩
  exact ⟨u :: xs, rfl, rfl⟩

/-- Both lists begin with the same token. -/
theorem exists_head (h : Shares t rest rest' ts ts') :
    ∃ u us us', ts = u :: us ∧ ts' = u :: us' := by
  rcases h with ⟨_ | ⟨u, xs⟩, rfl, rfl⟩
  · exact ⟨t, rest, rest', rfl, rfl⟩
  · exact ⟨u, _, _, rfl, rfl⟩

theorem head?_eq (h : Shares t rest rest' ts ts') : ts'.head? = ts.head? := by
  rcases h.exists_head with ⟨u, us, us', rfl, rfl⟩
  rfl

theorem not_nil (h : Shares t rest rest' [] ts') : False := by
  rcases h.exists_head with ⟨_, _, _, hnil, _⟩
  cases hnil

/-- What joins the next operand depends on the first token only. -/
theorem joint_none (h : Shares t rest rest' ts ts') (hjoint : Parse.joint? ts = none) :
    Parse.joint? ts' = none := by
  rcases h.exists_head with ⟨u, us, us', rfl, rfl⟩
  simp only [Parse.joint?] at hjoint ⊢
  split at hjoint
  · cases hjoint
  · split at hjoint
    · cases hjoint
    · rename_i hoperator hmultiplies
      rw [if_neg hoperator, if_neg hmultiplies]

theorem joint_some (h : Shares t rest rest' ts ts')
    (hjoint : Parse.joint? ts = some (symbol, operand)) :
    ∃ operand', Parse.joint? ts' = some (symbol, operand') := by
  rcases h.exists_head with ⟨u, us, us', rfl, rfl⟩
  rcases joint?_eq_some hjoint with ⟨v, vs, hv, ⟨hkind, rfl, -⟩ | ⟨hfirst, rfl, -⟩⟩ <;> cases hv
  · exact ⟨_, joint?_operator us' hkind⟩
  · exact ⟨_, joint?_opensFactor us' hfirst⟩

/-- An operand with another tail comes after the same joint. -/
theorem joint_operand (h : Shares t rest rest' operand operand')
    (hjoint : Parse.joint? ts = some (symbol, operand)) :
    ∃ ts', Shares t rest rest' ts ts' ∧ Parse.joint? ts' = some (symbol, operand') := by
  rcases joint?_eq_some hjoint with ⟨u, us, rfl, ⟨hkind, rfl, rfl⟩ | ⟨hfirst, rfl, rfl⟩⟩
  · exact ⟨u :: operand', h.cons u, joint?_operator operand' hkind⟩
  · rcases h.exists_head with ⟨v, vs, vs', hv, rfl⟩
    cases hv
    exact ⟨u :: vs', h, joint?_opensFactor vs' hfirst⟩

end Shares

section Replay

variable {limit stop : Int} {t : Token} {rest rest' : List Token}

/-- A call that succeeds does so with another tail, by induction on its moves. -/
theorem replay_runs (stop' : Int) {task : Parse.Task} {ts : List Token} {o : Parse.Outcome}
    (h : Parse.Runs limit stop task ts o) :
    ∀ tree left left', o = .ok (tree, left) → Shares t rest rest' left left' →
      ∃ ts', Shares t rest rest' ts ts' ∧ Parse.Runs limit stop' task ts' (.ok (tree, left')) := by
  induction h with
  | expression hdeep _ _ ihfirst ihloop =>
      -- The loop is replayed first: what it starts with is what the operand must leave.
      rintro tree left left' rfl hleft
      rcases ihloop _ _ _ rfl hleft with ⟨us', hus, hloop⟩
      rcases ihfirst _ _ _ rfl hus with ⟨ts', hts, hfirst⟩
      exact ⟨ts', hts, .expression hdeep hfirst hloop⟩
  | noJoint hjoint =>
      rintro tree left left' ⟨⟩ hleft
      exact ⟨left', hleft, .noJoint (hleft.joint_none hjoint)⟩
  | looser hjoint hop hloose =>
      -- What follows the token that joins may differ, but its operator does not.
      rintro tree left left' ⟨⟩ hleft
      rcases hleft.joint_some hjoint with ⟨_, hjoint⟩
      exact ⟨left', hleft, .looser hjoint hop hloose⟩
  | absorb hjoint hop htight _ _ ihright ihloop =>
      rintro tree left left' rfl hleft
      rcases ihloop _ _ _ rfl hleft with ⟨us', hus, hloop⟩
      rcases ihright _ _ _ rfl hus with ⟨operand', hoperand, hright⟩
      rcases hoperand.joint_operand hjoint with ⟨ts', hts, hjoint⟩
      exact ⟨ts', hts, .absorb hjoint hop htight hright hloop⟩
  | @negation _ u _ _ _ hkind hdeep _ ih =>
      rintro tree left left' ⟨⟩ hleft
      rcases ih _ _ _ rfl hleft with ⟨ts', hts, hargument⟩
      exact ⟨u :: ts', hts.cons u, .negation hkind hdeep hargument⟩
  | unsigned hkind _ ih =>
      rintro tree left left' rfl hleft
      rcases ih _ _ _ rfl hleft with ⟨ts', hts, hprimary⟩
      exact ⟨ts', hts, .unsigned (by rwa [hts.head?_eq]) hprimary⟩
  | @literal _ u _ hkind =>
      rintro tree left left' ⟨⟩ hleft
      exact ⟨u :: left', hleft.cons u, .literal hkind⟩
  | @group _ u c _ _ _ hkind _ hclose ih =>
      rintro tree left left' ⟨⟩ hleft
      rcases ih _ _ _ rfl (hleft.cons c) with ⟨ts', hts, hinner⟩
      exact ⟨u :: ts', hts.cons u, .group hkind hinner hclose⟩
  | @application _ u v c _ _ _ hkind hopen _ hclose ih =>
      rintro tree left left' ⟨⟩ hleft
      rcases ih _ _ _ rfl (hleft.cons c) with ⟨ts', hts, hargument⟩
      exact ⟨u :: v :: ts', (hts.cons v).cons u, .application hkind hopen hargument hclose⟩
  | _ => rintro tree left left' ⟨⟩

/-- A call that halts does so with another tail and the same error, unless it has
    run out of tokens. -/
theorem replay_halts (stop' : Int) {task : Parse.Task} {ts unread : List Token} {e : GrammarError}
    (h : Parse.Halts limit stop task ts e unread) :
    ∀ unread', Shares t rest rest' unread unread' →
      ∃ ts', Shares t rest rest' ts ts' ∧ Parse.Halts limit stop' task ts' e unread' := by
  induction h with
  | firstFails hdeep _ ih =>
      intro unread' hunread
      rcases ih _ hunread with ⟨ts', hts, hfirst⟩
      exact ⟨ts', hts, .firstFails hdeep hfirst⟩
  | expression hdeep hfirst _ ih =>
      intro unread' hunread
      rcases ih _ hunread with ⟨us', hus, hloop⟩
      rcases replay_runs stop' hfirst _ _ _ rfl hus with ⟨ts', hts, hfirst⟩
      exact ⟨ts', hts, .expression hdeep hfirst hloop⟩
  | rightFails hjoint hop htight _ ih =>
      intro unread' hunread
      rcases ih _ hunread with ⟨operand', hoperand, hright⟩
      rcases hoperand.joint_operand hjoint with ⟨ts', hts, hjoint⟩
      exact ⟨ts', hts, .rightFails hjoint hop htight hright⟩
  | absorb hjoint hop htight hright _ ih =>
      intro unread' hunread
      rcases ih _ hunread with ⟨us', hus, hloop⟩
      rcases replay_runs stop' hright _ _ _ rfl hus with ⟨operand', hoperand, hright⟩
      rcases hoperand.joint_operand hjoint with ⟨ts', hts, hjoint⟩
      exact ⟨ts', hts, .absorb hjoint hop htight hright hloop⟩
  | @negation _ u _ _ _ hkind hdeep _ ih =>
      intro unread' hunread
      rcases ih _ hunread with ⟨ts', hts, hargument⟩
      exact ⟨u :: ts', hts.cons u, .negation hkind hdeep hargument⟩
  | unsigned hkind _ ih =>
      intro unread' hunread
      rcases ih _ hunread with ⟨ts', hts, hprimary⟩
      exact ⟨ts', hts, .unsigned (by rwa [hts.head?_eq]) hprimary⟩
  | @groupFails _ u _ _ _ hkind _ ih =>
      intro unread' hunread
      rcases ih _ hunread with ⟨ts', hts, hinner⟩
      exact ⟨u :: ts', hts.cons u, .groupFails hkind hinner⟩
  | @groupOpen _ u _ _ _ hkind hinner hclose =>
      intro unread' hunread
      rcases replay_runs stop' hinner _ _ _ rfl hunread with ⟨ts', hts, hinner⟩
      exact ⟨u :: ts', hts.cons u, .groupOpen hkind hinner (by rwa [hunread.head?_eq])⟩
  | @argumentFails _ u v _ _ _ hkind hopen _ ih =>
      intro unread' hunread
      rcases ih _ hunread with ⟨ts', hts, hargument⟩
      exact ⟨u :: v :: ts', (hts.cons v).cons u, .argumentFails hkind hopen hargument⟩
  | @argumentOpen _ u v _ _ _ hkind hopen hargument hclose =>
      intro unread' hunread
      rcases replay_runs stop' hargument _ _ _ rfl hunread with ⟨ts', hts, hargument⟩
      exact ⟨u :: v :: ts', (hts.cons v).cons u,
        .argumentOpen hkind hopen hargument (by rwa [hunread.head?_eq])⟩
  | @functionBare _ u v _ hkind hopen =>
      intro unread' hunread
      rcases hunread.exists_head with ⟨w, ws, ws', hw, rfl⟩
      cases hw
      exact ⟨u :: v :: ws', hunread.cons u, .functionBare hkind hopen⟩
  | closing hkind =>
      intro unread' hunread
      rcases hunread.exists_head with ⟨w, ws, ws', hw, rfl⟩
      cases hw
      exact ⟨_, hunread, .closing hkind⟩
  | operator hkind =>
      intro unread' hunread
      rcases hunread.exists_head with ⟨w, ws, ws', hw, rfl⟩
      cases hw
      exact ⟨_, hunread, .operator hkind⟩
  -- There is no other tail where nothing is left.
  | atEnd => exact fun _ hunread => hunread.not_nil.elim
  | functionAtEnd _ => exact fun _ hunread => hunread.not_nil.elim

/-- Where the parsing of a list of tokens halts at a token, it halts there with the
    same error whatever comes after that token. -/
theorem replay_haltsAt {read : List Token} {e : GrammarError}
    (h : HaltsAt limit (read ++ t :: rest) e (t :: rest)) (rest' : List Token) :
    HaltsAt limit (read ++ t :: rest') e (t :: rest') := by
  have hlast : ∃ last, (read ++ t :: rest').getLast? = some last :=
    Option.ne_none_iff_exists'.1 (mt List.getLast?_eq_none_iff.1 (by simp))
  rcases hlast with ⟨last, hlast⟩
  -- The list that is put together from its end is the given one.
  have hts : ∀ {ts'}, Shares t rest rest' (read ++ t :: rest) ts' → ts' = read ++ t :: rest' := by
    rintro ts' ⟨xs, hxs, rfl⟩
    rw [List.append_cancel_right hxs]
  generalize htokens : read ++ t :: rest = tokens at h
  generalize hunread : t :: rest = unread at h
  cases h with
  | inside _ h =>
      subst htokens hunread
      rcases replay_halts last.stop h _ (.head t rest rest') with ⟨ts', hshares, hhalts⟩
      cases hts hshares
      exact .inside hlast hhalts
  | closing _ h hkind =>
      subst htokens
      cases hunread
      rcases replay_runs last.stop h _ _ _ rfl (.head t rest rest') with
        ⟨ts', hshares, hruns⟩
      cases hts hshares
      exact .closing hlast hruns hkind
  | leftover _ h hkind =>
      subst htokens
      cases hunread
      rcases replay_runs last.stop h _ _ _ rfl (.head t rest rest') with
        ⟨ts', hshares, hruns⟩
      cases hts hshares
      exact .leftover hlast hruns hkind

end Replay

end Grammar

end Reckoner
