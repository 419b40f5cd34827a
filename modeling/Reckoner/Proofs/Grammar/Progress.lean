import Mathlib
import Reckoner.Proofs.Grammar.Run

/-!
# The Parser Makes Progress

The parser takes tokens off a list and carries proofs that the list gets shorter, and these
proofs are what its recursion rests on. Here it walks instead: the list stays what it is, a
position moves along it, and nothing in the definition says that it moves at all. A walk may
ask for a token past the end of the list, and it may go on for ever, except that it is given
an allowance of calls. What it does is written down as it goes along: the calls it enters and
leaves, the tokens it consumes, and the turns of the loop over operators.

That the walk is the parser is `agrees_run`, and it holds call by call. From any position a call
of the walk ends like the call of the parser on the tokens from there on, unless its allowance
is used up. Four calls for each token and a few more are enough, and so the walk comes to an
end. Whatever the allowance is, what has been written down is sound (`steady_walk`): every call
that is left has consumed a token, a turn of the loop moves the position even where the
multiplication is not written, and tokens are only consumed where there are some. It has also
taken place in the parser (`Event.Sound.occurs`). The depth limit has no part in it.

The calls for an operand can be counted because each of them consumes a token that no other
one does, its first one. Only the last of them may fail to.

## Main definitions

* `Event`: What is written down.
* `Course`: What was written down on the way, and how it ended.
* `Walk`: A course from every position.
* `walk`: The parser as a walk along a list of tokens.
* `walkAll`: The walk that finds the tree of the whole list.
* `Steady`: A course on which only sound events are written down.
* `Agrees`: A course that ends like the parser, if it has the allowance.
* `Event.Occurs`: What is written down has taken place in the parser.

## Theorems

* `Steady.bind`, `steady_enter`, `steady_turn`: What is done one after the other, inside a
  call or in a turn of the loop.
* `steady_walk`: Every walk is steady.
* `agrees_run`: Every call of the walk ends like that of the parser.
* `Event.Sound.occurs`: The events of the walk are those of the parser.
* `parser_progresses`: All of this for the whole list.
-/

namespace Reckoner

namespace Parse

/-- The functions of the parser that are called. The loop is a part of the first. -/
inductive Routine
  | expression
  | unary
  | primary
deriving DecidableEq

/-- What is written down of a walk: calls that are entered and left, tokens that are
    consumed and turns of the loop, with the positions where they begin and end. -/
inductive Event
  | entered (routine : Routine) (start : Nat)
  | left (routine : Routine) (start stop : Nat)
  | consumed (position : Nat)
  | turned (start stop : Nat)
deriving DecidableEq

/-- Why a walk ends before it has a tree: the parser fails, there is no token where one is
    consumed, or the allowance is used up. -/
inductive Stop
  | failed (error : ParseError)
  | outOfRange
  | exhausted
deriving DecidableEq

/-- What was written down on the way, and what it came to in which position. -/
structure Course (α : Type) where
  events : List Event
  result : Except Stop (α × Nat)

/-- A course from every position in which it may start. -/
structure Walk (α : Type) where
  start : Nat → Course α

namespace Walk

variable {α β : Type}

/-- Two walks one after the other. -/
protected def bind (m : Walk α) (f : α → Walk β) : Walk β := .mk fun p =>
  match (m.start p).result with
  | .error s => ⟨(m.start p).events, .error s⟩
  | .ok (a, q) =>
    ⟨(m.start p).events ++ ((f a).start q).events, ((f a).start q).result⟩

instance : Monad Walk where
  pure a := .mk fun p => ⟨[], .ok (a, p)⟩
  bind := Walk.bind

/-- The end of a walk. -/
def stop (s : Stop) : Walk α := .mk fun _ => ⟨[], .error s⟩

/-- The parser fails. -/
def fail (e : ParseError) : Walk α := stop (.failed e)

/-- The token in the present position, if there is one. -/
def peek (tokens : List Token) : Walk (Option Token) := .mk fun p => ⟨[], .ok (tokens[p]?, p)⟩

/-- Consume the token in the present position. -/
def advance (tokens : List Token) : Walk Unit := .mk fun p =>
  ⟨[.consumed p], if p < tokens.length then .ok ((), p + 1) else .error .outOfRange⟩

/-- A walk inside a call. -/
def enter (routine : Routine) (m : Walk α) : Walk α := .mk fun p =>
  match (m.start p).result with
  | .error s => ⟨.entered routine p :: (m.start p).events, .error s⟩
  | .ok (a, q) => ⟨.entered routine p :: (m.start p).events ++ [.left routine p q], .ok (a, q)⟩

/-- A walk that is a turn of the loop. -/
def turn (m : Walk α) : Walk α := .mk fun p =>
  match (m.start p).result with
  | .error s => ⟨(m.start p).events, .error s⟩
  | .ok (a, q) => ⟨(m.start p).events ++ [.turned p q], .ok (a, q)⟩

end Walk

open Walk

section Parser

variable (limit stop : Int) (tokens : List Token)

/-- Nesting that is too deep is a failure. -/
def checkDepth (depth : Nat) : Walk Unit :=
  if limit < (depth : Int) then fail (.tooDeep limit) else pure ()

/-- Consume the parenthesis that closes `opening`. -/
def expectClosing (opening : Token) : Walk Unit := do
  match ← peek tokens with
  | none => fail (.malformed (.unmatchedOpening opening.position))
  | some t =>
    if t.kind = .closeParen then advance tokens
    else fail (.malformed (.unmatchedOpening opening.position))

/-- The operator that a token is or stands before, and whether it is written. -/
def operatorAt? (t : Token) : Option (String × Bool) :=
  if t.kind = .operator then some (t.text, true)
  else if t.kind.multiplies then some ("*", false)
  else none

/-- The parser as a walk along a list of tokens, with an allowance of nested calls. -/
def walk : Nat → Task → Walk Expr
  | 0, _ => Walk.stop .exhausted
  | fuel + 1, .expression least depth => enter .expression do
    checkDepth limit depth
    let left ← walk fuel (.unary depth)
    walk fuel (.operands least depth left)
  | fuel + 1, .operands least depth left => do
    match ← peek tokens with
    | none => pure left
    | some t =>
      match operatorAt? t with
      | none => pure left
      | some (symbol, written) =>
        match Operator.ofSymbol? symbol with
        | none => fail (.unknownOperator symbol)
        | some op =>
          if op.precedence < least then pure left
          else do
            let right ← turn do
              if written then advance tokens
              walk fuel (.expression op.rightLeast (depth + 1))
            walk fuel (.operands least depth (.binary symbol left right false))
  | fuel + 1, .unary depth => enter .unary do
    match ← peek tokens with
    | none => walk fuel (.primary depth)
    | some t =>
      if t.kind = .negate then do
        advance tokens
        checkDepth limit (depth + 1)
        let argument ← walk fuel (.unary (depth + 1))
        pure (.apply Unary.negate.name argument)
      else walk fuel (.primary depth)
  | fuel + 1, .primary depth => enter .primary do
    match ← peek tokens with
    | none => fail (.malformed (.missingOperandAtEnd stop))
    | some t =>
      match t.kind with
      | .number | .constant => do
        advance tokens
        pure (.literal t.value)
      | .openParen => do
        advance tokens
        let inner ← walk fuel (.expression 1 (depth + 1))
        expectClosing tokens t
        pure inner.grouped
      | .function => do
        advance tokens
        match ← peek tokens with
        | none => fail (.malformed (.missingParenthesis t.text stop))
        | some opening =>
          if opening.kind = .openParen then do
            advance tokens
            let argument ← walk fuel (.expression 1 (depth + 1))
            expectClosing tokens opening
            pure (.apply t.text argument)
          else fail (.malformed (.missingParenthesis t.text opening.position))
      | .closeParen => fail (.malformed (.nothingBeforeClosing t.position))
      | .operator | .negate => fail (.malformed (.missingOperand t.text t.position))

end Parser

section Results

variable {α β : Type} {tokens : List Token} {p : Nat}

/-- Looking at a token leaves no trace. -/
theorem peek_bind (f : Option Token → Walk α) (p : Nat) :
    (peek tokens >>= f).start p = (f tokens[p]?).start p := rfl

theorem bind_of_ok {m : Walk α} {a : α} {q : Nat} (h : (m.start p).result = .ok (a, q))
    (f : α → Walk β) : ((m >>= f).start p).result = ((f a).start q).result := by
  change ((Walk.bind m f).start p).result = _
  simp only [Walk.bind, h]

theorem bind_of_error {m : Walk α} {s : Stop} (h : (m.start p).result = .error s)
    (f : α → Walk β) : ((m >>= f).start p).result = .error s := by
  change ((Walk.bind m f).start p).result = _
  simp only [Walk.bind, h]

theorem enter_result (routine : Routine) (m : Walk α) (p : Nat) :
    ((enter routine m).start p).result = (m.start p).result := by
  simp only [enter]
  cases hresult : (m.start p).result <;> rfl

theorem turn_result (m : Walk α) (p : Nat) :
    ((turn m).start p).result = (m.start p).result := by
  simp only [turn]
  cases hresult : (m.start p).result <;> rfl

theorem advance_result (hp : p < tokens.length) :
    ((advance tokens).start p).result = .ok ((), p + 1) := by
  simp only [advance, if_pos hp]

/-- The right operand of an operator begins behind it, if it is written. -/
theorem written_result (hp : p < tokens.length) (written : Bool) (m : Walk α) :
    ((do
      if written then advance tokens
      m : Walk α).start p).result = (m.start (p + written.toNat)).result := by
  cases written with
  | false => rfl
  | true => exact bind_of_ok (advance_result hp) _

end Results

/-- The function that a call is a call of. The loop is a part of one. -/
def Task.routine? : Task → Option Routine
  | .expression .. => some .expression
  | .operands .. => none
  | .unary _ => some .unary
  | .primary _ => some .primary

/-- A call leads from one position to another if it is given enough allowance. -/
def Task.Leads (limit stop : Int) (tokens : List Token) (task : Task) (p q : Nat) : Prop :=
  ∃ fuel tree, ((walk limit stop tokens fuel task).start p).result = .ok (tree, q)

/-- What is written down is sound: tokens are consumed where there are some, calls and turns of
    the loop do not end where they began, and it is a call that leads there. -/
def Event.Sound (limit stop : Int) (tokens : List Token) : Event → Prop
  | .entered _ p => p ≤ tokens.length
  | .left routine p q => p < q ∧ q ≤ tokens.length ∧
      ∃ task : Task, task.routine? = some routine ∧ task.Leads limit stop tokens p q
  | .consumed p => p < tokens.length
  | .turned p q => p < q ∧ q ≤ tokens.length ∧
      ∃ t symbol written op depth, tokens[p]? = some t ∧ operatorAt? t = some (symbol, written) ∧
        Operator.ofSymbol? symbol = some op ∧
        (Task.expression op.rightLeast depth).Leads limit stop tokens (p + written.toNat) q

/-- Whether an operand is asked for. -/
def Event.asksOperand : Event → Bool
  | .entered routine _ => routine == .primary
  | .left .. => false
  | .consumed _ => false
  | .turned .. => false

/-- How often a function asks for an operand by being called. -/
def Routine.asks : Routine → Nat
  | .primary => 1
  | _ => 0

/-- How many tokens a call consumes at least. The loop may have nothing to do. -/
def Task.least : Task → Nat
  | .operands .. => 0
  | _ => 1

/-- A course from position `p` that only has sound events. It moves by at least `least` tokens.
    If each call for an operand has a token of its own, there are `spare` tokens left, and one
    call more than that if the course ends early. -/
structure Steady {α : Type} (limit stop : Int) (tokens : List Token) (spare least p : Nat)
    (c : Course α) : Prop where
  sound : ∀ e ∈ c.events, e.Sound limit stop tokens
  of_ok : ∀ a q, c.result = .ok (a, q) → p + least ≤ q ∧ q ≤ tokens.length ∧
    p + c.events.countP Event.asksOperand + spare ≤ q
  of_error : ∀ s, c.result = .error s → s ≠ .outOfRange ∧
    p + c.events.countP Event.asksOperand + spare ≤ tokens.length + 1

section Progress

variable {α β : Type} {limit stop : Int} {tokens : List Token} {spare least p : Nat}
  {c : Course α} {m : Walk α} {f : α → Walk β}

theorem Steady.mono {spare' least' : Nat} (h : Steady limit stop tokens spare least p c)
    (hspare : spare' ≤ spare) (hleast : least' ≤ least) :
    Steady limit stop tokens spare' least' p c := by
  refine ⟨h.sound, fun a q hok => ?_, fun s herror => ?_⟩
  · have := h.of_ok a q hok
    omega
  · have hend := h.of_error s herror
    exact ⟨hend.1, by omega⟩

theorem steady_pure (hp : p ≤ tokens.length) (a : α) :
    Steady limit stop tokens 0 0 p ((pure a : Walk α).start p) := by
  refine ⟨by rintro e ⟨⟩, ?_, by rintro s ⟨⟩⟩
  rintro a q ⟨⟩
  exact ⟨le_rfl, hp, le_rfl⟩

/-- Where nothing more is done, one more token may be missing. -/
theorem steady_stop (hp : p ≤ tokens.length) {s : Stop} (hs : s ≠ .outOfRange) (least : Nat) :
    Steady limit stop tokens 1 least p ((Walk.stop s : Walk α).start p) := by
  refine ⟨by rintro e ⟨⟩, by rintro a q ⟨⟩, ?_⟩
  rintro s' ⟨⟩
  exact ⟨hs, Nat.succ_le_succ hp⟩

theorem steady_fail (hp : p ≤ tokens.length) (e : ParseError) (least : Nat) :
    Steady limit stop tokens 1 least p ((fail e : Walk α).start p) :=
  steady_stop hp (by rintro ⟨⟩) least

/-- Of two walks one after the other, the second has to move as far as the first has not. -/
theorem Steady.bind {first : Nat} (h : Steady limit stop tokens spare first p (m.start p))
    (hnext : ∀ a q, q ≤ tokens.length →
      Steady limit stop tokens 0 (least - first) q ((f a).start q)) :
    Steady limit stop tokens spare least p ((m >>= f).start p) := by
  change Steady limit stop tokens spare least p ((Walk.bind m f).start p)
  cases hresult : (m.start p).result with
  | error s =>
      simp only [Walk.bind, hresult]
      refine ⟨h.sound, by rintro a q ⟨⟩, ?_⟩
      rintro s' ⟨⟩
      exact h.of_error s hresult
  | ok r =>
      rcases r with ⟨a, q⟩
      have hfirst := h.of_ok a q hresult
      have hsecond := hnext a q hfirst.2.1
      simp only [Walk.bind, hresult]
      refine ⟨fun e he => ?_, fun b q' hok => ?_, fun s hs => ?_⟩
      · exact (List.mem_append.1 he).elim (h.sound e) (hsecond.sound e)
      · have := hsecond.of_ok b q' hok
        rw [List.countP_append]
        omega
      · have hend := hsecond.of_error s hs
        rw [List.countP_append]
        exact ⟨hend.1, by omega⟩

theorem countP_entered (routine : Routine) (p : Nat) (events : List Event) :
    (Event.entered routine p :: events).countP Event.asksOperand =
      events.countP Event.asksOperand + routine.asks := by
  rw [List.countP_cons]
  cases routine <;> rfl

/-- A call asks for an operand or not, and what it consumes it consumes inside. -/
theorem steady_enter {routine : Routine} (hp : p ≤ tokens.length) (hleast : 0 < least)
    (hcall : ∀ a q, (m.start p).result = .ok (a, q) →
      ∃ task : Task, task.routine? = some routine ∧ task.Leads limit stop tokens p q)
    (h : Steady limit stop tokens (routine.asks + spare) least p (m.start p)) :
    Steady limit stop tokens spare least p ((enter routine m).start p) := by
  have hsound : ∀ e ∈ .entered routine p :: (m.start p).events, e.Sound limit stop tokens :=
    List.forall_mem_cons.2 ⟨hp, h.sound⟩
  cases hresult : (m.start p).result with
  | error s =>
      simp only [enter, hresult]
      refine ⟨hsound, by rintro a q ⟨⟩, ?_⟩
      rintro s' ⟨⟩
      have hend := h.of_error s hresult
      rw [countP_entered]
      exact ⟨hend.1, by omega⟩
  | ok r =>
      rcases r with ⟨a, q⟩
      have hinside := h.of_ok a q hresult
      simp only [enter, hresult]
      refine ⟨?_, ?_, by rintro s ⟨⟩⟩
      · intro e he
        rcases List.mem_append.1 he with he | he
        · exact hsound e he
        · rw [List.mem_singleton.1 he]
          exact ⟨by omega, hinside.2.1, hcall a q hresult⟩
      · rintro a' q' ⟨⟩
        rw [List.countP_append, countP_entered, List.countP_singleton, Event.asksOperand,
          if_neg Bool.false_ne_true]
        omega

/-- A turn of the loop that moves the position is written down as one. -/
theorem steady_turn {t : Token} {symbol : String} {written : Bool} {op : Operator} {depth : Nat}
    (hleast : 0 < least) (ht : tokens[p]? = some t)
    (hsymbol : operatorAt? t = some (symbol, written)) (hop : Operator.ofSymbol? symbol = some op)
    (hright : ∀ a q, (m.start p).result = .ok (a, q) →
      (Task.expression op.rightLeast depth).Leads limit stop tokens (p + written.toNat) q)
    (h : Steady limit stop tokens spare least p (m.start p)) :
    Steady limit stop tokens spare least p ((turn m).start p) := by
  cases hresult : (m.start p).result with
  | error s =>
      simp only [turn, hresult]
      refine ⟨h.sound, by rintro a q ⟨⟩, ?_⟩
      rintro s' ⟨⟩
      exact h.of_error s hresult
  | ok r =>
      rcases r with ⟨a, q⟩
      have hinside := h.of_ok a q hresult
      simp only [turn, hresult]
      refine ⟨?_, ?_, by rintro s ⟨⟩⟩
      · intro e he
        rcases List.mem_append.1 he with he | he
        · exact h.sound e he
        · rw [List.mem_singleton.1 he]
          exact ⟨by omega, hinside.2.1, t, symbol, written, op, depth, ht, hsymbol, hop,
            hright a q hresult⟩
      · rintro a' q' ⟨⟩
        rw [List.countP_append, List.countP_singleton, Event.asksOperand, if_neg Bool.false_ne_true]
        exact hinside

/-- A token that is there can be consumed. -/
theorem steady_advance (hp : p < tokens.length) :
    Steady limit stop tokens 1 1 p ((advance tokens).start p) := by
  simp only [advance, if_pos hp]
  refine ⟨?_, ?_, by rintro s ⟨⟩⟩
  · intro e he
    rw [List.mem_singleton.1 he]
    exact hp
  · rintro a q ⟨⟩
    exact ⟨le_rfl, hp, le_rfl⟩

theorem steady_checkDepth (hp : p ≤ tokens.length) (depth : Nat) :
    Steady limit stop tokens 0 0 p ((checkDepth limit depth).start p) := by
  rw [checkDepth]
  split
  · exact (steady_fail hp _ 0).mono (Nat.zero_le _) le_rfl
  · exact steady_pure hp ()

theorem steady_expectClosing (hp : p ≤ tokens.length) (opening : Token) :
    Steady limit stop tokens 0 0 p ((expectClosing tokens opening).start p) := by
  rw [expectClosing, peek_bind]
  cases ht : tokens[p]? with
  | none => exact (steady_fail hp _ 0).mono (Nat.zero_le _) le_rfl
  | some t =>
      simp only
      split
      · exact (steady_advance (List.getElem?_eq_some_iff.1 ht).1).mono (Nat.zero_le _)
          (Nat.zero_le _)
      · exact (steady_fail hp _ 0).mono (Nat.zero_le _) le_rfl

/-- What is inside parentheses moves on its own, and they are closed after it. -/
theorem steady_enclosed {m : Walk Expr} (h : Steady limit stop tokens 0 1 p (m.start p))
    (opening : Token) (build : Expr → Expr) :
    Steady limit stop tokens 0 0 p ((do
      let inner ← m
      expectClosing tokens opening
      pure (build inner) : Walk Expr).start p) :=
  (h.mono le_rfl (Nat.zero_le _)).bind fun _ _ hq =>
    (steady_expectClosing hq opening).bind fun _ _ hr => steady_pure hr _

section Calls

variable {fuel : Nat} (ih : ∀ {p : Nat} (task : Task), p ≤ tokens.length →
  Steady limit stop tokens 0 task.least p ((walk limit stop tokens fuel task).start p))
include ih

theorem steady_expression (hp : p ≤ tokens.length) (least depth : Nat) :
    Steady limit stop tokens 0 1 p
      ((walk limit stop tokens (fuel + 1) (.expression least depth)).start p) := by
  rw [walk]
  refine steady_enter hp Nat.one_pos (fun left q hresult => ⟨.expression least depth, rfl,
    fuel + 1, left, by rw [walk, enter_result]; exact hresult⟩) ?_
  refine (steady_checkDepth hp depth).bind fun _ q hq => ?_
  exact (ih (.unary depth) hq).bind fun left r hr => ih (.operands least depth left) hr

/-- The loop goes on from where its right operand has ended, and that is further than where the
    turn began. -/
theorem steady_operands (hp : p ≤ tokens.length) (least depth : Nat) (left : Expr) :
    Steady limit stop tokens 0 0 p
      ((walk limit stop tokens (fuel + 1) (.operands least depth left)).start p) := by
  rw [walk, peek_bind]
  cases ht : tokens[p]? with
  | none => exact steady_pure hp left
  | some t =>
      have hlt := (List.getElem?_eq_some_iff.1 ht).1
      simp only
      split
      · exact steady_pure hp left
      · rename_i symbol written hsymbol
        split
        · exact (steady_fail hp _ 0).mono (Nat.zero_le _) le_rfl
        · rename_i op hop
          split
          · exact steady_pure hp left
          · -- Without a sign the right operand begins where the turn does.
            have hturn : Steady limit stop tokens 0 1 p ((turn do
                if written then advance tokens
                walk limit stop tokens fuel
                  (.expression op.rightLeast (depth + 1))).start p) := by
              refine steady_turn Nat.one_pos ht hsymbol hop (fun right q hresult =>
                ⟨fuel, right, by rw [← hresult, written_result hlt]⟩) ?_
              cases written with
              | false => exact ih (.expression op.rightLeast (depth + 1)) hp
              | true =>
                  refine (((steady_advance hlt).mono (Nat.zero_le _) (Nat.zero_le _)).bind
                    fun _ q hq => ?_)
                  exact ih (.expression op.rightLeast (depth + 1)) hq
            exact hturn.bind fun right q hq =>
              ih (.operands least depth (.binary symbol left right false)) hq

theorem steady_unary (hp : p ≤ tokens.length) (depth : Nat) :
    Steady limit stop tokens 0 1 p
      ((walk limit stop tokens (fuel + 1) (.unary depth)).start p) := by
  rw [walk]
  refine steady_enter hp Nat.one_pos (fun tree q hresult => ⟨.unary depth, rfl,
    fuel + 1, tree, by rw [walk, enter_result]; exact hresult⟩) ?_
  rw [peek_bind]
  cases ht : tokens[p]? with
  | none => exact ih (.primary depth) hp
  | some t =>
      have hlt := (List.getElem?_eq_some_iff.1 ht).1
      simp only
      split
      · refine ((steady_advance hlt).mono (Nat.zero_le _) le_rfl).bind fun _ q hq => ?_
        refine (steady_checkDepth hq (depth + 1)).bind fun _ r hr => ?_
        exact (ih (.unary (depth + 1)) hr).bind fun argument u hu => steady_pure hu _
      · exact ih (.primary depth) hp

/-- A call for an operand has its first token for itself. -/
theorem steady_primary (hp : p ≤ tokens.length) (depth : Nat) :
    Steady limit stop tokens 0 1 p
      ((walk limit stop tokens (fuel + 1) (.primary depth)).start p) := by
  rw [walk]
  refine steady_enter hp Nat.one_pos (fun tree q hresult => ⟨.primary depth, rfl,
    fuel + 1, tree, by rw [walk, enter_result]; exact hresult⟩) ?_
  rw [peek_bind]
  cases ht : tokens[p]? with
  | none => exact steady_fail hp _ 1
  | some t =>
      have hlt := (List.getElem?_eq_some_iff.1 ht).1
      simp only
      split
      · exact (steady_advance hlt).bind fun _ q hq => steady_pure hq _
      · exact (steady_advance hlt).bind fun _ q hq => steady_pure hq _
      · exact (steady_advance hlt).bind fun _ q hq =>
          steady_enclosed (ih (.expression 1 (depth + 1)) hq) t Expr.grouped
      · refine (steady_advance hlt).bind fun _ q hq => ?_
        rw [peek_bind]
        cases hu : tokens[q]? with
        | none => exact (steady_fail hq _ 0).mono (Nat.zero_le _) le_rfl
        | some opening =>
            have hlt' := (List.getElem?_eq_some_iff.1 hu).1
            simp only
            split
            · refine ((steady_advance hlt').mono (Nat.zero_le _) (Nat.zero_le _)).bind
                fun _ r hr => ?_
              exact steady_enclosed (ih (.expression 1 (depth + 1)) hr) opening
                (Expr.apply t.text)
            · exact (steady_fail hq _ 0).mono (Nat.zero_le _) le_rfl
      all_goals exact steady_fail hp _ 1

end Calls

/-- Every walk is steady, by induction on the allowance. What carries the induction is that
    every call except for the loop moves the position. -/
theorem steady_walk (limit stop : Int) (tokens : List Token) (fuel : Nat) (task : Task)
    (hp : p ≤ tokens.length) :
    Steady limit stop tokens 0 task.least p ((walk limit stop tokens fuel task).start p) := by
  induction fuel generalizing task p with
  | zero => exact (steady_stop hp (by rintro ⟨⟩) _).mono (Nat.zero_le _) le_rfl
  | succ fuel ih =>
      cases task with
      | expression least depth => exact steady_expression ih hp least depth
      | operands least depth left => exact steady_operands ih hp least depth left
      | unary depth => exact steady_unary ih hp depth
      | primary depth => exact steady_primary ih hp depth

end Progress

section Agreement

variable {α β : Type} {limit stop : Int} {tokens ts : List Token} {t : Token} {p fuel : Nat}

theorem checkDepth_result_ok {depth : Nat} (h : ¬ limit < (depth : Int)) :
    ((checkDepth limit depth).start p).result = .ok ((), p) := by
  rw [checkDepth, if_neg h]
  rfl

theorem checkDepth_result_error {depth : Nat} (h : limit < (depth : Int)) :
    ((checkDepth limit depth).start p).result = .error (.failed (.tooDeep limit)) := by
  rw [checkDepth, if_pos h]
  rfl

/-- The tokens from a position on begin with the one in that position. -/
theorem of_drop_eq_cons (h : tokens.drop p = t :: ts) :
    p < tokens.length ∧ tokens[p]? = some t ∧ tokens.drop (p + 1) = ts := by
  have hlt : p < tokens.length := by
    by_contra hle
    rw [List.drop_eq_nil_of_le (not_lt.1 hle)] at h
    cases h
  refine ⟨hlt, ?_, ?_⟩
  · rw [← List.head?_drop, h, List.head?_cons]
  · rw [← List.tail_drop, h, List.tail_cons]

/-- The parenthesis that closes is consumed, and anything else is refused. -/
theorem expectClosing_result_ok {c : Token} (opening : Token) (h : tokens.drop p = c :: ts)
    (hc : c.kind = .closeParen) :
    ((expectClosing tokens opening).start p).result = .ok ((), p + 1) := by
  rcases of_drop_eq_cons h with ⟨hlt, htoken, -⟩
  simp only [expectClosing, peek_bind, htoken, if_pos hc, advance_result hlt]

theorem expectClosing_result_error (opening : Token) (h : tokens.drop p = ts)
    (hc : ∀ c ∈ ts.head?, c.kind ≠ .closeParen) :
    ((expectClosing tokens opening).start p).result =
      .error (.failed (.malformed (.unmatchedOpening opening.position))) := by
  rw [← h, List.head?_drop] at hc
  rw [expectClosing, peek_bind]
  cases htoken : tokens[p]? with
  | none => rfl
  | some c => simp only [if_neg (hc c htoken)]; rfl

/-- The walk sees the same operator as the parser, and goes on behind it if it is written. -/
theorem joint?_drop (tokens : List Token) (p : Nat) :
    joint? (tokens.drop p) = (tokens[p]?.bind operatorAt?).map fun o =>
      (o.1, tokens.drop (p + o.2.toNat)) := by
  cases hdrop : tokens.drop p with
  | nil =>
      rw [← List.head?_drop, hdrop]
      rfl
  | cons t rest =>
      rcases of_drop_eq_cons hdrop with ⟨-, htoken, hrest⟩
      rw [htoken, Option.bind_some, joint?, operatorAt?]
      split
      · rw [← hrest]
        rfl
      · split
        · rw [← hdrop]
          rfl
        · rfl

theorem joint?_of_operatorAt {symbol : String} {written : Bool} (ht : tokens[p]? = some t)
    (h : operatorAt? t = some (symbol, written)) :
    joint? (tokens.drop p) = some (symbol, tokens.drop (p + written.toNat)) := by
  rw [joint?_drop, ht, Option.bind_some, h, Option.map_some]

theorem joint?_of_operatorAt_none (h : tokens[p]?.bind operatorAt? = none) :
    joint? (tokens.drop p) = none := by
  rw [joint?_drop, h, Option.map_none]

/-- How many nested calls a walk may need with so many tokens ahead of it. -/
def Task.allowance (ahead : Nat) : Task → Nat
  | .expression .. => 4 * ahead + 3
  | .operands .. => 4 * ahead + 4
  | .unary _ => 4 * ahead + 2
  | .primary _ => 4 * ahead + 1

/-- A walk that comes to an end has moved on. -/
theorem least_of_ok {task : Task} {tree : Expr} {q : Nat} (hp : p ≤ tokens.length)
    (h : ((walk limit stop tokens fuel task).start p).result = .ok (tree, q)) :
    p + task.least ≤ q := ((steady_walk limit stop tokens fuel task hp).of_ok tree q h).1

/-- A course ends like the parser, with the same tokens ahead of it. Only where its allowance is
    `spent` may it end before that. -/
def Agrees (spent : Prop) (tokens : List Token) (o : Outcome) (c : Course Expr) : Prop :=
  match c.result with
  | .ok (tree, q) => q ≤ tokens.length ∧ o = .ok (tree, tokens.drop q)
  | .error (.failed e) => o = .error e
  | .error .outOfRange => False
  | .error .exhausted => spent

section Agrees

variable {spent spent' : Prop} {o : Outcome} {c c' : Course Expr}

theorem Agrees.of_result (h : Agrees spent tokens o c) (hresult : c'.result = c.result) :
    Agrees spent tokens o c' := by
  simpa only [Agrees, hresult] using h

theorem Agrees.mono (h : Agrees spent tokens o c) (hspent : spent → spent') :
    Agrees spent' tokens o c := by
  simp only [Agrees] at h ⊢
  split at h
  · exact h
  · exact h
  · exact h
  · exact hspent h

/-- An outcome that is an error is one for what goes on from it. -/
theorem Agrees.bind_of_error {m : Walk Expr} {s : Stop} (h : Agrees spent tokens o (m.start p))
    (hresult : (m.start p).result = .error s) (f : Expr → Walk Expr)
    (next : Outcome → Outcome) (hnext : ∀ e, next (.error e) = .error e) :
    Agrees spent tokens (next o) ((m >>= f).start p) := by
  simp only [Agrees, hresult] at h
  simp only [Agrees, Parse.bind_of_error hresult]
  cases s with
  | failed e =>
      cases h
      exact hnext e
  | outOfRange => exact h
  | exhausted => exact h

/-- A walk ends like the parser if it begins like it, and goes on like it from there. -/
theorem Agrees.bind {m : Walk Expr} {f : Expr → Walk Expr}
    {next : Expr → List Token → Outcome} :
    Agrees spent tokens o (m.start p) →
    (∀ tree q, q ≤ tokens.length → (m.start p).result = .ok (tree, q) →
      Agrees spent tokens (next tree (tokens.drop q)) ((f tree).start q)) →
    Agrees spent tokens
      (match o with
        | .error e => .error e
        | .ok (tree, rest) => next tree rest)
      ((m >>= f).start p) := by
  intro h hnext
  cases hresult : (m.start p).result with
  | error s =>
      exact h.bind_of_error hresult f
        (fun o => match o with
          | .error e => .error e
          | .ok (tree, rest) => next tree rest) fun _ => rfl
  | ok r =>
      rcases r with ⟨tree, q⟩
      simp only [Agrees, hresult] at h
      rcases h with ⟨hq, rfl⟩
      exact (hnext tree q hq hresult).of_result (bind_of_ok hresult _)

theorem Agrees.enter {m : Walk Expr} (h : Agrees spent tokens o (m.start p)) (routine : Routine) :
    Agrees spent tokens o ((Walk.enter routine m).start p) :=
  h.of_result (enter_result routine m p)

/-- A token that is there is consumed on the way. -/
theorem Agrees.advance {f : Unit → Walk Expr} (hp : p < tokens.length)
    (h : Agrees spent tokens o ((f ()).start (p + 1))) :
    Agrees spent tokens o ((Walk.advance tokens >>= f).start p) :=
  h.of_result (bind_of_ok (advance_result hp) _)

/-- What is not nested too deeply goes on, and what is fails. -/
theorem Agrees.checkDepth {f : Unit → Walk Expr} {depth : Nat}
    (h : ¬ limit < (depth : Int) → Agrees spent tokens o ((f ()).start p)) :
    Agrees spent tokens (if limit < (depth : Int) then .error (.tooDeep limit) else o)
      ((Parse.checkDepth limit depth >>= f).start p) := by
  split
  · rename_i hdeep
    simp only [Agrees, Parse.bind_of_error (checkDepth_result_error hdeep)]
  · rename_i hdeep
    exact (h hdeep).of_result (bind_of_ok (checkDepth_result_ok hdeep) _)

/-- What is inside parentheses is closed like the parser closes it. -/
theorem Agrees.enclosed {m : Walk Expr} (h : Agrees spent tokens o (m.start p))
    (opening : Token) (build : Expr → Expr) :
    Agrees spent tokens (close opening build o) ((do
      let inner ← m
      expectClosing tokens opening
      pure (build inner) : Walk Expr).start p) := by
  cases hresult : (m.start p).result with
  | error s => exact h.bind_of_error hresult _ (close opening build) fun _ => rfl
  | ok r =>
      rcases r with ⟨inner, q⟩
      simp only [Agrees, hresult] at h
      rcases h with ⟨hq, rfl⟩
      refine Agrees.of_result ?_ (bind_of_ok hresult _)
      by_cases hclose : ∀ c ∈ (tokens.drop q).head?, c.kind ≠ .closeParen
      · rw [close_of_ne hclose]
        simp only [Agrees, Parse.bind_of_error (expectClosing_result_error opening rfl hclose)]
      · simp only [not_forall, not_not] at hclose
        rcases hclose with ⟨c, hc, hkind⟩
        rcases List.head?_eq_some_iff.1 hc with ⟨last, hdrop⟩
        rcases of_drop_eq_cons hdrop with ⟨hlt, -, rfl⟩
        simp only [hdrop, close, if_pos hkind]
        refine Agrees.of_result ?_ (bind_of_ok (expectClosing_result_ok opening hdrop hkind) _)
        exact ⟨hlt, rfl⟩

end Agrees

section Calls

variable (ih : ∀ {p : Nat} (task : Task), p ≤ tokens.length →
  Agrees (fuel < task.allowance (tokens.length - p)) tokens
    (run limit stop (tokens.drop p) task) ((walk limit stop tokens fuel task).start p))
include ih

theorem agrees_expression (hp : p ≤ tokens.length) (least depth : Nat) :
    Agrees (fuel + 1 < 4 * (tokens.length - p) + 3) tokens
      (run limit stop (tokens.drop p) (.expression least depth))
      ((walk limit stop tokens (fuel + 1) (.expression least depth)).start p) := by
  simp only [Task.allowance] at ih
  rw [walk, run_expression]
  refine Agrees.enter (Agrees.checkDepth fun _ => ?_) _
  have hfirst : Agrees (fuel + 1 < 4 * (tokens.length - p) + 3) tokens _ _ :=
    (ih (.unary depth) hp).mono (by simp only; omega)
  refine hfirst.bind fun left q hq hresult => ?_
  have hmoved := least_of_ok hp hresult
  simp only [Task.least] at hmoved
  exact (ih (.operands least depth left) hq).mono (by simp only; omega)

theorem agrees_operands (hp : p ≤ tokens.length) (least depth : Nat) (left : Expr) :
    Agrees (fuel + 1 < 4 * (tokens.length - p) + 4) tokens
      (run limit stop (tokens.drop p) (.operands least depth left))
      ((walk limit stop tokens (fuel + 1) (.operands least depth left)).start p) := by
  simp only [Task.allowance] at ih
  rw [walk, peek_bind]
  cases ht : tokens[p]? with
  | none =>
      rw [run_operands_none _ _ _ _ _ (joint?_of_operatorAt_none (by rw [ht]; rfl))]
      exact ⟨hp, rfl⟩
  | some t =>
      have hlt := (List.getElem?_eq_some_iff.1 ht).1
      simp only
      split
      · rename_i hsymbol
        have hjoint := joint?_of_operatorAt_none (by rw [ht]; exact hsymbol)
        rw [run_operands_none _ _ _ _ _ hjoint]
        exact ⟨hp, rfl⟩
      · rename_i symbol written hsymbol
        rw [run_operands_some _ _ _ _ _ (joint?_of_operatorAt ht hsymbol)]
        -- A turn that is not written begins where the last one ended, so the allowance
        -- of the loop is larger than that of the operand it calls for.
        have hwritten := written.toNat_le
        cases hop : Operator.ofSymbol? symbol with
        | none => rfl
        | some op =>
            simp only
            split
            · exact ⟨hp, rfl⟩
            · have hright : Agrees (fuel + 1 < 4 * (tokens.length - p) + 4) tokens _ _ :=
                (ih (.expression op.rightLeast (depth + 1))
                  (by omega : p + written.toNat ≤ tokens.length)).mono (by simp only; omega)
              have hturn := hright.of_result
                ((turn_result _ _).trans (written_result hlt written _))
              refine hturn.bind fun right q hq hresult => ?_
              rw [turn_result, written_result hlt] at hresult
              have hmoved := least_of_ok (by omega) hresult
              simp only [Task.least] at hmoved
              exact (ih (.operands least depth (.binary symbol left right false)) hq).mono
                (by simp only; omega)

theorem agrees_unary (hp : p ≤ tokens.length) (depth : Nat) :
    Agrees (fuel + 1 < 4 * (tokens.length - p) + 2) tokens
      (run limit stop (tokens.drop p) (.unary depth))
      ((walk limit stop tokens (fuel + 1) (.unary depth)).start p) := by
  simp only [Task.allowance] at ih
  rw [walk]
  refine Agrees.enter ?_ _
  rw [peek_bind]
  have hprimary : Agrees (fuel + 1 < 4 * (tokens.length - p) + 2) tokens _ _ :=
    (ih (.primary depth) hp).mono (by simp only; omega)
  cases hdrop : tokens.drop p with
  | nil =>
      have htoken : tokens[p]? = none := by rw [← List.head?_drop, hdrop, List.head?_nil]
      rw [run_unary_primary _ _ _ (by simp), ← hdrop, htoken]
      exact hprimary
  | cons t rest =>
      rcases of_drop_eq_cons hdrop with ⟨hlt, htoken, rfl⟩
      simp only [htoken]
      split
      · rename_i hkind
        rw [run_unary_negate _ _ _ _ hkind]
        refine Agrees.advance hlt (Agrees.checkDepth fun _ => ?_)
        exact ((ih (.unary (depth + 1)) hlt).mono (by simp only; omega)).bind
          fun argument q hq _ => ⟨hq, rfl⟩
      · rename_i hkind
        rw [run_unary_primary _ _ _ (by simpa using hkind), ← hdrop]
        exact hprimary

theorem agrees_primary (hp : p ≤ tokens.length) (depth : Nat) :
    Agrees (fuel + 1 < 4 * (tokens.length - p) + 1) tokens
      (run limit stop (tokens.drop p) (.primary depth))
      ((walk limit stop tokens (fuel + 1) (.primary depth)).start p) := by
  simp only [Task.allowance] at ih
  rw [walk]
  refine Agrees.enter ?_ _
  rw [peek_bind]
  -- Parentheses open behind the first token, so there is allowance for what is in them.
  have hinside : ∀ q, p < q → q ≤ tokens.length →
      Agrees (fuel + 1 < 4 * (tokens.length - p) + 1) tokens
        (run limit stop (tokens.drop q) (.expression 1 (depth + 1)))
        ((walk limit stop tokens fuel (.expression 1 (depth + 1))).start q) :=
    fun q hpq hq => (ih (.expression 1 (depth + 1)) hq).mono (by simp only; omega)
  cases hdrop : tokens.drop p with
  | nil =>
      rw [← List.head?_drop, hdrop, runs_iff.1 .atEnd]
      rfl
  | cons t rest =>
      rcases of_drop_eq_cons hdrop with ⟨hlt, htoken, rfl⟩
      simp only [htoken]
      split
      · rename_i hkind
        rw [runs_iff.1 (.literal (.inl hkind))]
        exact Agrees.advance hlt ⟨hlt, rfl⟩
      · rename_i hkind
        rw [runs_iff.1 (.literal (.inr hkind))]
        exact Agrees.advance hlt ⟨hlt, rfl⟩
      · rename_i hkind
        rw [run_primary_group _ _ _ _ hkind]
        exact Agrees.advance hlt ((hinside (p + 1) (by omega) hlt).enclosed t Expr.grouped)
      · rename_i hkind
        refine Agrees.advance hlt ?_
        rw [peek_bind]
        cases hmore : tokens.drop (p + 1) with
        | nil =>
            rw [← List.head?_drop, hmore, runs_iff.1 (.functionAtEnd hkind)]
            rfl
        | cons u after =>
            rcases of_drop_eq_cons hmore with ⟨hlt', hnext, rfl⟩
            simp only [hnext]
            split
            · rename_i hopen
              rw [run_primary_application _ _ _ _ hkind hopen]
              exact Agrees.advance hlt'
                ((hinside (p + 1 + 1) (by omega) hlt').enclosed u (Expr.apply t.text))
            · rename_i hopen
              rw [runs_iff.1 (.functionBare hkind hopen)]
              rfl
      · rename_i hkind
        rw [runs_iff.1 (.closing hkind)]
        rfl
      · rename_i hkind
        rw [runs_iff.1 (.operator (.inl hkind))]
        rfl
      · rename_i hkind
        rw [runs_iff.1 (.operator (.inr hkind))]
        rfl

end Calls

/-- A walk ends like the parser unless its allowance is too small, by induction on the
    allowance. It lasts because the walk is steady: what comes after a call has fewer tokens
    ahead of it than the call had. -/
theorem agrees_run (limit stop : Int) (tokens : List Token) (fuel : Nat) (task : Task)
    (hp : p ≤ tokens.length) :
    Agrees (fuel < task.allowance (tokens.length - p)) tokens
      (run limit stop (tokens.drop p) task) ((walk limit stop tokens fuel task).start p) := by
  induction fuel generalizing task p with
  | zero =>
      change 0 < task.allowance (tokens.length - p)
      cases task <;> exact Nat.succ_pos _
  | succ fuel ih =>
      cases task with
      | expression least depth => exact agrees_expression ih hp least depth
      | operands least depth left => exact agrees_operands ih hp least depth left
      | unary depth => exact agrees_unary ih hp depth
      | primary depth => exact agrees_primary ih hp depth

end Agreement

/-- What is written down has taken place in the parser: the call that was left came to a tree,
    with the tokens ahead that it left over, and so did the right operand of a turn. -/
def Event.Occurs (limit stop : Int) (tokens : List Token) : Event → Prop
  | .entered .. => True
  | .left routine p q => ∃ (task : Task) (tree : Expr), task.routine? = some routine ∧
      run limit stop (tokens.drop p) task = .ok (tree, tokens.drop q)
  | .consumed _ => True
  | .turned p q => ∃ symbol operand op depth right,
      joint? (tokens.drop p) = some (symbol, operand) ∧ Operator.ofSymbol? symbol = some op ∧
        run limit stop operand (.expression op.rightLeast depth) = .ok (right, tokens.drop q)

/-- A call that leads somewhere comes to a tree in the parser. -/
theorem Task.Leads.run_eq {limit stop : Int} {tokens : List Token} {task : Task} {p q : Nat}
    (h : task.Leads limit stop tokens p q) (hp : p ≤ tokens.length) :
    ∃ tree, run limit stop (tokens.drop p) task = .ok (tree, tokens.drop q) := by
  rcases h with ⟨fuel, tree, hresult⟩
  have hrun := agrees_run limit stop tokens fuel task hp
  simp only [Agrees, hresult] at hrun
  exact ⟨tree, hrun.2⟩

/-- Sound events have taken place in the parser. -/
theorem Event.Sound.occurs {limit stop : Int} {tokens : List Token} {e : Event}
    (h : e.Sound limit stop tokens) : e.Occurs limit stop tokens := by
  cases e with
  | entered routine p => trivial
  | left routine p q =>
      rcases h with ⟨hmoved, hq, task, hroutine, hleads⟩
      rcases hleads.run_eq (hmoved.le.trans hq) with ⟨tree, hrun⟩
      exact ⟨task, tree, hroutine, hrun⟩
  | consumed p => trivial
  | turned p q =>
      rcases h with ⟨-, -, t, symbol, written, op, depth, ht, hsymbol, hop, hleads⟩
      have hlt := (List.getElem?_eq_some_iff.1 ht).1
      have hwritten := written.toNat_le
      rcases hleads.run_eq (by omega) with ⟨right, hrun⟩
      exact ⟨symbol, _, op, depth, right, joint?_of_operatorAt ht hsymbol, hop, hrun⟩

/-- The walk that finds the tree of the whole list. -/
def walkAll (limit : Int) (tokens : List Token) (fuel : Nat) : Course Expr :=
  match tokens.getLast? with
  | none => ⟨[], .error (.failed (.malformed .empty))⟩
  | some last => Walk.start (do
      let tree ← walk limit last.stop tokens fuel (.expression 1 0)
      match ← peek tokens with
      | none => pure tree
      | some t =>
        if t.kind = .closeParen then fail (.malformed (.unmatchedClosing t.position))
        else fail (.malformed (.unexpected t.text t.position))) 0

theorem steady_walkAll (limit : Int) {stop : Int} {tokens : List Token} (fuel : Nat)
    (hstop : ∀ last ∈ tokens.getLast?, last.stop = stop) :
    Steady limit stop tokens 0 0 0 (walkAll limit tokens fuel) := by
  rw [walkAll]
  cases hlast : tokens.getLast? with
  | none => exact (steady_fail (Nat.zero_le _) _ 0).mono (Nat.zero_le _) le_rfl
  | some last =>
      cases hstop last hlast
      refine ((steady_walk limit last.stop tokens fuel (.expression 1 0) (Nat.zero_le _)).mono
        le_rfl (Nat.zero_le _)).bind fun tree q hq => ?_
      rw [peek_bind]
      split
      · exact steady_pure hq tree
      · split <;> exact (steady_fail hq _ 0).mono (Nat.zero_le _) le_rfl

/-- The walk along the whole list ends like the parser. -/
theorem walkAll_result (limit : Int) {tokens : List Token} {fuel : Nat}
    (h : 4 * tokens.length + 3 ≤ fuel) :
    (walkAll limit tokens fuel).result.map Prod.fst =
      (Expr.ofTokens limit tokens).mapError .failed := by
  rw [walkAll]
  cases hlast : tokens.getLast? with
  | none => simp only [Expr.ofTokens, hlast]; rfl
  | some last =>
      have hrun := agrees_run limit last.stop tokens fuel (.expression 1 0) (Nat.zero_le _)
      rw [ofTokens_eq_finish limit hlast]
      rw [List.drop_zero] at hrun
      simp only
      cases hresult : ((walk limit last.stop tokens fuel (.expression 1 0)).start 0).result with
      | error s =>
          simp only [Agrees, hresult] at hrun
          rw [bind_of_error hresult]
          cases s with
          | failed e => rw [hrun]; rfl
          | outOfRange => exact hrun.elim
          | exhausted => exact absurd h (not_le.2 hrun)
      | ok r =>
          rcases r with ⟨tree, q⟩
          simp only [Agrees, hresult] at hrun
          rw [hrun.2, bind_of_ok hresult, peek_bind]
          cases hrest : tokens.drop q with
          | nil =>
              rw [← List.head?_drop, hrest]
              rfl
          | cons t rest =>
              rw [(of_drop_eq_cons hrest).2.1, finish]
              simp only
              split <;> rfl

/-- The parser makes progress whatever the depth limit is. However long it has been going on,
    every call that was left has moved the position, every token that was consumed is in the
    list, every turn of the loop over operators has moved the position, and operands were asked
    for no more often than there are tokens, and once more. So the parser comes to an end, with
    the tree or the error of the whole list. What was written down of its calls and turns on the
    way is what the functions of the parser come to there. -/
theorem parser_progresses (limit : Int) (tokens : List Token) (fuel : Nat) :
    (∀ routine p q, .left routine p q ∈ (walkAll limit tokens fuel).events → p < q) ∧
      (∀ p, .consumed p ∈ (walkAll limit tokens fuel).events → p < tokens.length) ∧
      (∀ p q, .turned p q ∈ (walkAll limit tokens fuel).events → p < q) ∧
      (walkAll limit tokens fuel).events.countP Event.asksOperand ≤ tokens.length + 1 ∧
      (walkAll limit tokens fuel).result ≠ .error .outOfRange ∧
      (4 * tokens.length + 3 ≤ fuel →
        (walkAll limit tokens fuel).result.map Prod.fst =
          (Expr.ofTokens limit tokens).mapError .failed) ∧
      ∀ last ∈ tokens.getLast?, ∀ e ∈ (walkAll limit tokens fuel).events,
        e.Occurs limit last.stop tokens := by
  have hsteady : Steady limit (tokens.getLast?.elim 0 Token.stop) tokens 0 0 0
      (walkAll limit tokens fuel) :=
    steady_walkAll limit fuel fun last hlast => by rw [Option.mem_def.1 hlast, Option.elim_some]
  refine ⟨fun _ _ _ he => (hsteady.sound _ he).1, fun _ he => hsteady.sound _ he,
    fun _ _ he => (hsteady.sound _ he).1, ?_, ?_, walkAll_result limit, fun last hlast e he => ?_⟩
  · cases hresult : (walkAll limit tokens fuel).result with
    | error s =>
        have := (hsteady.of_error s hresult).2
        omega
    | ok r =>
        have := hsteady.of_ok r.1 r.2 hresult
        omega
  · exact fun hresult => (hsteady.of_error _ hresult).1 rfl
  · have hsound := hsteady.sound e he
    rw [Option.mem_def.1 hlast, Option.elim_some] at hsound
    exact hsound.occurs

/-- The bound on the operands is reached: two parentheses that are opened and nothing else ask
    for an operand three times. -/
example :
    (walkAll 100 [⟨.openParen, "(", none, 0⟩, ⟨.openParen, "(", none, 1⟩] 11).events.countP
      Event.asksOperand = 3 := by
  decide +kernel

/-- The tokens of `2(3)`. -/
def juxtaposed : List Token :=
  [⟨.number, "2", some (Double.ofRat 2), 0⟩, ⟨.openParen, "(", none, 1⟩,
    ⟨.number, "3", some (Double.ofRat 3), 2⟩, ⟨.closeParen, ")", none, 3⟩]

/-- The loop turns once along `2(3)`. The turn begins in the parenthesis, where the call for the
    right operand begins too, and both are over at the end. -/
theorem parser_progresses_juxtaposed :
    .turned 1 4 ∈ (walkAll 100 juxtaposed 19).events ∧
      .left .expression 1 4 ∈ (walkAll 100 juxtaposed 19).events ∧
      (Event.turned 1 4).Occurs 100 4 juxtaposed ∧
      (Event.left .expression 1 4).Occurs 100 4 juxtaposed ∧
      (walkAll 100 juxtaposed 19).events.countP Event.asksOperand = 3 ∧
      (walkAll 100 juxtaposed 19).result.map Prod.fst =
        .ok (.binary "*" (.literal (some (Double.ofRat 2))) (.literal (some (Double.ofRat 3)))
          false) := by
  have hturned : .turned 1 4 ∈ (walkAll 100 juxtaposed 19).events := by decide +kernel
  have hleft : .left .expression 1 4 ∈ (walkAll 100 juxtaposed 19).events := by decide +kernel
  rcases parser_progresses 100 juxtaposed 19 with ⟨-, -, -, -, -, hresult, hoccurs⟩
  refine ⟨hturned, hleft, hoccurs _ rfl _ hturned, hoccurs _ rfl _ hleft, by decide +kernel, ?_⟩
  rw [hresult (by decide), show Expr.ofTokens 100 juxtaposed =
    .ok (.binary "*" (.literal (some (Double.ofRat 2))) (.literal (some (Double.ofRat 3))) false)
    by decide +kernel]
  rfl

end Parse

end Reckoner
