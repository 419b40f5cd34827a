import Reckoner.Log.Record
import Reckoner.Solve

/-!
# The Journal

Solving and checking expressions, with a record of what happened. A `Logged`
computation is an outcome together with the records that led to it. When a
computation fails, the records up to that point remain, so what was noted before
a failure is never lost.

The journal follows the same stages as `solve` and `verdict` and decides nothing
by itself. That is what the theorems say: forget the records, and what is left
is the plain result.

Each stage notes its success in detail. A rejection is noted once, by whoever
asked for the solution, with its code. Blank input is noted without a code, and
input that is too long is not noted at all.

## Main definitions

* `Logged`: An outcome with the records that led to it.
* `Journal.solve`: Solving, with records.
* `Journal.answer`: Answering, with records.
* `Journal.verdict`: Checking, with records.

## Theorems

* `outcome_bind`: Outcomes compose as if there were no records.
* `outcome_solve`, `outcome_answer`: The records change no result.
-/

namespace Reckoner

/-- An outcome with the records that led to it. -/
structure Logged (ε α : Type) where
  records : List Record
  outcome : Except ε α

namespace Logged

/-- An outcome that leaves no record. -/
def ofExcept {ε α : Type} (outcome : Except ε α) : Logged ε α := ⟨[], outcome⟩

/-- A single record. -/
def note {ε : Type} (r : Record) : Logged ε Unit := ⟨[r], .ok ()⟩

/-- One computation after another. Nothing follows a failure. -/
protected def bind {ε α β : Type} (x : Logged ε α) (f : α → Logged ε β) : Logged ε β :=
  match x.outcome with
  | .error e => ⟨x.records, .error e⟩
  | .ok a =>
    let y := f a
    ⟨x.records ++ y.records, y.outcome⟩

instance {ε : Type} : Monad (Logged ε) where
  pure a := ofExcept (.ok a)
  bind := Logged.bind

/-- The same records with another outcome. -/
def mapOutcome {ε δ α β : Type} (f : Except ε α → Except δ β) (x : Logged ε α) : Logged δ β :=
  ⟨x.records, f x.outcome⟩

theorem outcome_bind {ε α β : Type} (x : Logged ε α) (f : α → Logged ε β) :
    (x >>= f).outcome = x.outcome >>= fun a => (f a).outcome := by
  show (Logged.bind x f).outcome = _
  simp only [Logged.bind]
  cases x.outcome <;> rfl

theorem outcome_pure {ε α : Type} (a : α) : (pure a : Logged ε α).outcome = .ok a := rfl

theorem outcome_ofExcept {ε α : Type} (outcome : Except ε α) :
    (ofExcept outcome).outcome = outcome := rfl

theorem outcome_note {ε : Type} (r : Record) : (note (ε := ε) r).outcome = .ok () := rfl

end Logged

namespace Journal

/-- The tokens of a text. -/
def tokenize (text : String) : Logged Failure (List Token) := do
  let tokens ← .ofExcept (Reckoner.tokenize text)
  .note (.debug "tokenizer"
    s!"Tokenized {Text.quoted (normalize text)} into {tokens.length} tokens")
  return tokens

/-- The tree of a text. -/
def parseText (settings : Settings) (text : String) : Logged Failure Expr := do
  let tokens ← tokenize text
  let tree ← .ofExcept (parseTokens settings tokens)
  .note (.debug "parser" s!"Parsed {tokens.length} tokens into {tree.label}")
  return tree

/-- The value of a tree. -/
def evaluateTree [Numerics] (settings : Settings) (places : Option Int) (tree : Expr) :
    Logged Failure Evaluation := do
  let result ← .ofExcept (Reckoner.evaluateTree settings places tree)
  .note (.debug "evaluator"
    s!"Evaluated expression in {result.steps.length} steps: {result.value.text}")
  return result

/-- The value of a text that need not be blank or too long, not yet closed. -/
def attempt [Numerics] (settings : Settings) (places : Option Int) (text : String) :
    Logged Failure Evaluation := do
  let tree ← parseText settings text
  evaluateTree settings places tree

/-- What is noted about an attempt as a whole. -/
def afterword (text : String) (outcome : Except Failure Evaluation) : List Record :=
  match outcome with
  | .ok e => [.debug "solver" s!"Solved {Text.quoted text} = {e.value.text}"]
  | .error (.rejection r) =>
    [.info "solver" s!"Failed to solve {Text.quoted text}: {r.report.message}"
      (some r.report.code)]
  | .error (.fault _) => []

/-- What is noted about a text that is not even attempted. -/
def refusal (e : Failure) : List Record :=
  if e = .rejection .blank then [.info "solver" "Rejected blank input" none] else []

/-- The value of a text with all steps. -/
def solve [Numerics] (settings : Settings) (places : Option Int) (text : String) :
    Logged Failure Evaluation :=
  match precheck settings text with
  | .error e => ⟨refusal e, .error e⟩
  | .ok () =>
    let tried := attempt settings places text
    ⟨tried.records ++ afterword text tried.outcome, tried.outcome.map fun e => e.close text⟩

/-- The answer to a text. -/
def answer [Numerics] (settings : Settings) (places : Option Int) (text : String) :
    Logged Fault Answer :=
  (solve settings places text).mapOutcome (Answer.ofOutcome text)

/-- What is noted about a text that is no expression. -/
def objection (text : String) (outcome : Except Failure Expr) : List Record :=
  match outcome with
  | .error (.rejection r) =>
    [.debug "api" s!"Validation failed for {Text.quoted text}: {r.report.message}"]
  | _ => []

/-- What is wrong with a text, if it is no expression. -/
def verdict (settings : Settings) (text : String) : Logged Fault (Option String) :=
  if Text.isBlankText text then .ofExcept (Reckoner.verdict settings text)
  else
    let tried := parseText settings text
    ⟨tried.records ++ objection text tried.outcome, verdictOf tried.outcome⟩

theorem outcome_tokenize (text : String) :
    (tokenize text).outcome = Reckoner.tokenize text := by
  simp only [tokenize, Logged.outcome_bind, Logged.outcome_ofExcept, Logged.outcome_note,
    Logged.outcome_pure]
  cases Reckoner.tokenize text <;> rfl

theorem outcome_parseText (settings : Settings) (text : String) :
    (parseText settings text).outcome = Reckoner.parseText settings text := by
  simp only [parseText, Reckoner.parseText, Logged.outcome_bind, outcome_tokenize,
    Logged.outcome_ofExcept, Logged.outcome_note, Logged.outcome_pure]
  cases Reckoner.tokenize text with
  | error e => rfl
  | ok tokens =>
      show (parseTokens settings tokens >>= _) = parseTokens settings tokens
      cases parseTokens settings tokens <;> rfl

theorem outcome_evaluateTree [Numerics] (settings : Settings) (places : Option Int) (tree : Expr) :
    (evaluateTree settings places tree).outcome =
      Reckoner.evaluateTree settings places tree := by
  simp only [evaluateTree, Logged.outcome_bind, Logged.outcome_ofExcept, Logged.outcome_note,
    Logged.outcome_pure]
  cases Reckoner.evaluateTree settings places tree <;> rfl

theorem outcome_attempt [Numerics] (settings : Settings) (places : Option Int) (text : String) :
    (attempt settings places text).outcome =
      Reckoner.parseText settings text >>= Reckoner.evaluateTree settings places := by
  simp only [attempt, Logged.outcome_bind, outcome_parseText, outcome_evaluateTree]

theorem outcome_solve [Numerics] (settings : Settings) (places : Option Int) (text : String) :
    (solve settings places text).outcome = Reckoner.solve settings places text := by
  simp only [solve, Reckoner.solve]
  cases precheck settings text with
  | error e => rfl
  | ok u =>
      simp only [outcome_attempt]
      show _ = Reckoner.parseText settings text >>= _
      cases Reckoner.parseText settings text with
      | error e => rfl
      | ok tree =>
          show (Reckoner.evaluateTree settings places tree).map _ =
            Reckoner.evaluateTree settings places tree >>= _
          cases Reckoner.evaluateTree settings places tree <;> rfl

theorem outcome_answer [Numerics] (settings : Settings) (places : Option Int) (text : String) :
    (answer settings places text).outcome = Reckoner.answer settings places text := by
  simp only [answer, Logged.mapOutcome, outcome_solve, Reckoner.answer]

end Journal

end Reckoner
