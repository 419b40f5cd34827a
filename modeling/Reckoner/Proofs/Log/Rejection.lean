import Mathlib
import Reckoner.Log.Journal
import Reckoner.Proofs.Solve.Limits

/-!
# Notices About Rejected Texts

A rejection is meant to be found in the log by its code, so the solver leaves a notice
about it, a record at the level of information. The stages of solving leave details
only. What they note does not matter here, and the notices of a whole run are those
of its beginning and its end.

`Logged.Leaves` is what a computation leaves behind, told record by record. It is kept
when one computation follows another, so that only single notes have to be looked at.
`Detail` lists the notes of the stages.

One rejection has no notice. A text that is too long is turned away between the notice
about blank texts and the attempt that all other notices are about.

## Main definitions

* `Logged.Leaves`: Every record of a computation has some property.
* `Journal.Detail`: The records that the stages of solving make.
* `Record.isNotice`: A record of the solver at the level of information.
* `Logged.notices`: The notices of a computation.
* `Journal.rejectionNotices`: The notices about a rejection.

## Theorems

* `Logged.Leaves.bind`: What is left is left by one computation or the other.
* `Journal.details_attempt`: The stages leave details.
* `Journal.notices_of_solve`: What the outcome of solving says about the notices.
* `Journal.rejections_noticed`: All rejections are noticed but those of long texts.
-/

namespace Reckoner

namespace Logged

variable {ε α β : Type} {p : Record → Prop}

/-- Every record that a computation leaves has a property. -/
def Leaves (p : Record → Prop) (x : Logged ε α) : Prop := ∀ r ∈ x.records, p r

theorem Leaves.ofExcept (outcome : Except ε α) : Leaves p (ofExcept outcome) :=
  List.forall_mem_nil p

theorem Leaves.note {r : Record} (h : p r) : Leaves p (note (ε := ε) r) :=
  List.forall_mem_singleton.2 h

/-- The second computation is asked only about the outcome that the first one has. -/
theorem Leaves.bind {x : Logged ε α} {f : α → Logged ε β} (hx : Leaves p x)
    (hf : ∀ a, x.outcome = .ok a → Leaves p (f a)) : Leaves p (x >>= f) := by
  show Leaves p (Logged.bind x f)
  simp only [Logged.bind]
  cases houtcome : x.outcome with
  | error e => exact hx
  | ok a => exact List.forall_mem_append.2 ⟨hx, hf a houtcome⟩

end Logged

/-- A record of the solver about something that a user may want to know. -/
def Record.isNotice (r : Record) : Bool := r.logger == loggerName "solver" && r.level == .info

/-- The notices of a computation, in order. -/
def Logged.notices {ε α : Type} (x : Logged ε α) : List Record :=
  x.records.filter Record.isNotice

/-- Whether a text is rejected without being read. -/
def Rejection.isUnread : Rejection → Bool
  | .blank => true
  | .tooLong _ => true
  | _ => false

namespace Journal

/-- The records that the stages of solving make. -/
inductive Detail : Record → Prop
  | tokenized (text : String) (tokens : List Token) :
    Detail (.debug "tokenizer"
      s!"Tokenized {Text.quoted (normalize text)} into {tokens.length} tokens")
  | parsed (tokens : List Token) (tree : Expr) :
    Detail (.debug "parser" s!"Parsed {tokens.length} tokens into {tree.label}")
  | evaluated (e : Evaluation) :
    Detail (.debug "evaluator"
      s!"Evaluated expression in {e.steps.length} steps: {e.value.text}")

section Stages

variable {settings : Settings} {places : Option Int} {text : String}

theorem details_tokenize (text : String) : (tokenize text).Leaves Detail :=
  .bind (.ofExcept _) fun tokens _ =>
    .bind (.note (.tokenized text tokens)) fun _ _ => .ofExcept _

theorem details_parseText (settings : Settings) (text : String) :
    (parseText settings text).Leaves Detail :=
  .bind (details_tokenize text) fun tokens _ => .bind (.ofExcept _) fun tree _ =>
    .bind (.note (.parsed tokens tree)) fun _ _ => .ofExcept _

theorem details_evaluateTree [Numerics] (settings : Settings) (places : Option Int) (tree : Expr) :
    (evaluateTree settings places tree).Leaves Detail :=
  .bind (.ofExcept _) fun e _ => .bind (.note (.evaluated e)) fun _ _ => .ofExcept _

/-- Whatever comes of an attempt, its stages leave details. -/
theorem details_attempt [Numerics] (settings : Settings) (places : Option Int) (text : String) :
    (attempt settings places text).Leaves Detail :=
  .bind (details_parseText settings text) fun tree _ => details_evaluateTree settings places tree

/-- Details are for following the calculator, so they are no notices. -/
theorem Detail.isNotice {r : Record} (h : Detail r) : r.isNotice = false := by
  cases h with
  | tokenized text tokens => rfl
  | parsed tokens tree => rfl
  | evaluated e => rfl

theorem notices_attempt [Numerics] (settings : Settings) (places : Option Int) (text : String) :
    (attempt settings places text).notices = [] :=
  List.filter_eq_nil_iff.2 fun r hr => by
    simp [(details_attempt settings places text r hr).isNotice]

/-- A text is turned away unread for being blank or for being too long. -/
theorem cause_of_precheck {e : Failure} (h : precheck settings text = .error e) :
    e = .rejection .blank ∨ e = .rejection (.tooLong settings.maxLength) := by
  unfold precheck at h
  by_cases hblank : Text.isBlankText text = true
  · rw [if_pos hblank] at h
    exact .inl (Except.error.inj h).symm
  · rw [if_neg hblank] at h
    by_cases hlong : settings.maxLength < (text.length : Int)
    · rw [if_pos hlong] at h
      exact .inr (Except.error.inj h).symm
    · rw [if_neg hlong] at h
      cases h

/-- No stage of an attempt rejects a text for a reason that it was not turned away for. -/
theorem isUnread_of_attempt [Numerics] {r : Rejection} (hcheck : precheck settings text = .ok ())
    (h : Reckoner.solve settings places text = .error (.rejection r)) : r.isUnread = false := by
  rw [solve_eq, hcheck] at h
  simp only [Reckoner.tokenize, parseTokens, Reckoner.evaluateTree] at h
  cases hscan : Token.scan text with
  | error e =>
      rw [hscan] at h
      cases h
      rfl
  | ok tokens =>
      rw [hscan] at h
      simp only [Except.mapError] at h
      cases hparse : Expr.ofTokens settings.maxDepth tokens with
      | error e =>
          rw [hparse] at h
          cases e with
          | malformed e =>
              cases h
              rfl
          | tooDeep limit =>
              cases h
              rfl
          | unknownOperator symbol => cases h
      | ok tree =>
          rw [hparse] at h
          simp only at h
          cases hvalue : tree.evaluate (settings.places places) with
          | error e =>
              rw [hvalue] at h
              cases e <;> cases h
              rfl
          | ok e =>
              rw [hvalue] at h
              cases h

/-- The notice about a text that was attempted and rejected. -/
def failureNotice (text : String) (r : Rejection) : Record :=
  .info "solver" s!"Failed to solve {Text.quoted text}: {r.report.message}" (some r.report.code)

/-- The notice about a blank text. -/
def blankNotice : Record := .info "solver" "Rejected blank input" none

/-- The notices about a rejection. -/
def rejectionNotices (text : String) : Rejection → List Record
  | .blank => [blankNotice]
  | .tooLong _ => []
  | r => [failureNotice text r]

theorem rejectionNotices_of_read (text : String) {r : Rejection} (h : r.isUnread = false) :
    rejectionNotices text r = [failureNotice text r] := by
  cases r with
  | blank => cases h
  | tooLong limit => cases h
  | _ => rfl

/-- The notices of solving a text that is not even attempted. -/
theorem notices_of_precheck [Numerics] {e : Failure} (h : precheck settings text = .error e) :
    (solve settings places text).notices = if e = .rejection .blank then [blankNotice] else [] := by
  simp only [Logged.notices, solve, h, refusal]
  split <;> rfl

/-- The notices of solving a text that is attempted are those about the attempt. -/
theorem notices_of_attempt [Numerics] (h : precheck settings text = .ok ()) :
    (solve settings places text).notices =
      match Reckoner.solve settings places text with
      | .error (.rejection r) => [failureNotice text r]
      | _ => [] := by
  rw [← outcome_solve]
  have hnotices := notices_attempt settings places text
  simp only [Logged.notices, solve, h, List.filter_append] at hnotices ⊢
  rw [hnotices, List.nil_append]
  -- The word about a good end is a detail, and there is none about a fault.
  rcases (attempt settings places text).outcome with (r | f) | e
  · rfl
  · rfl
  · rfl

/-- What the outcome of solving says about the notices. -/
theorem notices_of_solve [Numerics] (settings : Settings) (places : Option Int) (text : String) :
    (solve settings places text).notices =
      match Reckoner.solve settings places text with
      | .error (.rejection r) => rejectionNotices text r
      | _ => [] := by
  cases hcheck : precheck settings text with
  | error e =>
      rw [notices_of_precheck hcheck, solve_eq, hcheck]
      rcases cause_of_precheck hcheck with rfl | rfl
      · rfl
      · rfl
  | ok _ =>
      rw [notices_of_attempt hcheck]
      cases hsolve : Reckoner.solve settings places text with
      | ok e => rfl
      | error f =>
          cases f with
          | fault f => rfl
          | rejection r =>
              exact (rejectionNotices_of_read text (isUnread_of_attempt hcheck hsolve)).symm

end Stages

/-- Every rejection has a code. -/
theorem code_report_isEmpty (r : Rejection) : r.report.code.isEmpty = false := by
  cases r <;> rfl

/-- The line of a notice about an attempt ends in the code of the rejection. -/
theorem line_failureNotice (text : String) (r : Rejection) (time : String) :
    (failureNotice text r).line time =
      s!"{time} [INFO] stepcalc.solver: {(failureNotice text r).message}" ++
        s!" [code={r.report.code}]" := by
  have hlevel : (failureNotice text r).level.name = "INFO" := rfl
  have hlogger : (failureNotice text r).logger = "stepcalc.solver" := rfl
  have hcode : (failureNotice text r).code = some r.report.code := rfl
  have hheading : " [INFO] stepcalc.solver: " =
      " [" ++ "INFO" ++ "] " ++ "stepcalc.solver" ++ ": " := by decide
  simp only [Record.line, hlevel, hlogger, hcode, code_report_isEmpty, hheading, toString,
    String.append_assoc]
  rfl

/-- The log tells which texts were rejected. A text that is solved has no notice, and
    neither has one that ends in a fault. A text that is rejected when it is read has
    one, and the line of it ends in the code of the rejection. A blank text has one
    without a code. A text that is too long has none, though it is rejected too. -/
theorem rejections_noticed [Numerics] (settings : Settings) (places : Option Int) (text : String) :
    (∀ e, Reckoner.solve settings places text = .ok e →
      (solve settings places text).notices = []) ∧
    (∀ f, Reckoner.solve settings places text = .error (.fault f) →
      (solve settings places text).notices = []) ∧
    (∀ r, r.isUnread = false → Reckoner.solve settings places text = .error (.rejection r) →
      ∃ notice, (solve settings places text).notices = [notice] ∧
        notice.code = some r.report.code ∧
        ∀ time, notice.line time =
          s!"{time} [INFO] stepcalc.solver: {notice.message}" ++ s!" [code={r.report.code}]") ∧
    (Reckoner.solve settings places text = .error (.rejection .blank) →
      (solve settings places text).notices =
        [⟨"stepcalc.solver", .info, "Rejected blank input", none⟩]) ∧
    (∀ limit, Reckoner.solve settings places text = .error (.rejection (.tooLong limit)) →
      (solve settings places text).notices = []) := by
  rw [notices_of_solve]
  refine ⟨fun e h => ?_, fun f h => ?_, fun r hread h => ?_, fun h => ?_, fun limit h => ?_⟩
  · rw [h]
  · rw [h]
  · refine ⟨failureNotice text r, ?_, rfl, line_failureNotice text r⟩
    rw [h]
    exact rejectionNotices_of_read text hread
  · rw [h]
    rfl
  · rw [h]
    rfl

/-- A text for each of the five. -/
theorem rejections_noticed_texts :
    (solve Settings.defaults none "1+1").notices = [] ∧
      (solve Settings.defaults (some (-1)) "sin(30)").notices = [] ∧
      (∃ notice, (solve Settings.defaults none "1/0").notices = [notice] ∧
        notice.code = some "MATH_ERROR") ∧
      (solve Settings.defaults none " ").notices =
        [⟨"stepcalc.solver", .info, "Rejected blank input", none⟩] ∧
      (solve (Settings.defaults.withLimits 3 100) none "1+1+1").notices = [] := by
  refine ⟨?_, ?_, ?_, ?_, ?_⟩
  · have hsolved : (Reckoner.solve Settings.defaults none "1+1").toBool = true := by
      decide +kernel
    cases hsolve : Reckoner.solve Settings.defaults none "1+1" with
    | ok e => exact (rejections_noticed _ _ _).1 e hsolve
    | error f =>
        rw [hsolve] at hsolved
        cases hsolved
  · have hfault : Reckoner.solve Settings.defaults (some (-1)) "sin(30)" =
        .error (.fault (.places .negative)) := by decide +kernel
    exact (rejections_noticed _ _ _).2.1 _ hfault
  · have hmath : Reckoner.solve Settings.defaults none "1/0" =
        .error (.rejection (.math (.divisionByZero "1 / 0"))) := by
      decide +kernel
    rcases (rejections_noticed _ _ _).2.2.1 _ rfl hmath with ⟨notice, hnotice, hcode, -⟩
    exact ⟨notice, hnotice, hcode⟩
  · exact (rejections_noticed _ _ _).2.2.2.1 (by decide +kernel)
  · exact (rejections_noticed _ _ _).2.2.2.2 3 (by decide +kernel)

/-- The notice about a text that is too long is missing. -/
theorem longText_unnoticed :
    Reckoner.solve (Settings.defaults.withLimits 3 100) none "1+1+1" =
        .error (.rejection (.tooLong 3)) ∧
      (solve (Settings.defaults.withLimits 3 100) none "1+1+1").notices.length ≠ 1 := by
  have hsolve : Reckoner.solve (Settings.defaults.withLimits 3 100) none "1+1+1" =
      .error (.rejection (.tooLong 3)) := by decide +kernel
  refine ⟨hsolve, ?_⟩
  rw [notices_of_solve, hsolve]
  decide

end Journal

end Reckoner
