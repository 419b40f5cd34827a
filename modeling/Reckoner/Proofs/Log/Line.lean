import Mathlib
import Reckoner.Console.Run
import Reckoner.Proofs.Log.Message
import Reckoner.Proofs.Log.Rejection
import Reckoner.Proofs.Log.Setup

/-!
# One Record, One Line

Nobody can forge a line of the log by the choice of an expression. Every record that
comes of an expression is one line when it is written, since it is made of words, of
numerals and of quoted texts, and of a message that is on one line (`oneLine_of_parts`).
What is written about several records is therefore cut at its line breaks into the
lines of just these records, however severe a record has to be and whenever each of
them is written.

## Main definitions

* `Record.OneLine`: The line of a record is one line at any time.
* `Intact`: Records that are written line by line.

## Theorems

* `oneLine_of_mem_solve`, `oneLine_of_mem_verdict`: Solving and checking leave records
  of one line.
* `oneLine_of_perform`: So does whatever the program is asked to do.
* `lines_written`: Records of one line are written line by line.
* `log_intact`: Every record of the calculator is a line of its own.
-/

namespace Reckoner

open Text (oneLine_literal oneLine_nat oneLine_quoted)

/-- Whenever the record is written, it is written on one line. -/
def Record.OneLine (r : Record) : Prop := ∀ t : Timestamp, Text.OneLine (r.line t.iso)

theorem Level.oneLine_name (l : Level) : Text.OneLine l.name := by
  rw [name]
  split_ifs with hdebug hinfo hwarning herror hcritical hunset
  · exact oneLine_literal rfl
  · exact oneLine_literal rfl
  · exact oneLine_literal rfl
  · exact oneLine_literal rfl
  · exact oneLine_literal rfl
  · exact oneLine_literal rfl
  · exact .append (oneLine_literal rfl) (oneLine_nat l.severity)

theorem oneLine_loggerName {part : String} (h : Text.OneLine part) :
    Text.OneLine (loggerName part) :=
  .append (.append (oneLine_literal rfl) (oneLine_literal rfl)) h

namespace Record

/-- A record is on one line if all of its parts are. -/
theorem oneLine_of_parts {r : Record} (hlogger : Text.OneLine r.logger)
    (hmessage : Text.OneLine r.message) (hcode : ∀ c ∈ r.code, Text.OneLine c) : r.OneLine := by
  intro t
  refine .append ?_ ?_
  · exact .append (.append (.append (.append (.append (.append (Text.oneLine_iso t)
      (oneLine_literal rfl)) r.level.oneLine_name) (oneLine_literal rfl)) hlogger)
      (oneLine_literal rfl)) hmessage
  · cases hr : r.code with
    | none => exact oneLine_literal rfl
    | some c =>
        simp only
        split
        · exact oneLine_literal rfl
        · exact .append (.append (oneLine_literal rfl) (hcode c hr)) (oneLine_literal rfl)

theorem oneLine_debug {part message : String} (hpart : Text.OneLine part)
    (hmessage : Text.OneLine message) : (debug part message).OneLine :=
  oneLine_of_parts (oneLine_loggerName hpart) hmessage (by rintro c ⟨⟩)

end Record

theorem Expr.oneLine_label (tree : Expr) : Text.OneLine tree.label := by
  cases tree <;> exact oneLine_literal rfl

theorem Rejection.oneLine_code (r : Rejection) : Text.OneLine r.report.code := by
  cases r <;> exact oneLine_literal rfl

namespace Journal

/-- A stage quotes what it has read. -/
theorem Detail.oneLine {r : Record} (h : Detail r) : r.OneLine := by
  cases h with
  | tokenized text tokens =>
      exact Record.oneLine_debug (oneLine_literal rfl)
        (.append (.append (.append (.append (oneLine_literal rfl) (oneLine_quoted _))
          (oneLine_literal rfl)) (oneLine_nat _)) (oneLine_literal rfl))
  | parsed tokens tree =>
      exact Record.oneLine_debug (oneLine_literal rfl)
        (.append (.append (.append (oneLine_literal rfl) (oneLine_nat _)) (oneLine_literal rfl))
          tree.oneLine_label)
  | evaluated e =>
      exact Record.oneLine_debug (oneLine_literal rfl)
        (.append (.append (.append (oneLine_literal rfl) (oneLine_nat _)) (oneLine_literal rfl))
          (Text.oneLine_text _))

theorem oneLine_failureNotice {text : String} {r : Rejection}
    (h : Text.OneLine r.report.message) : (failureNotice text r).OneLine := by
  refine Record.oneLine_of_parts (oneLine_loggerName (oneLine_literal rfl))
    (.append (.append (.append (oneLine_literal rfl) (oneLine_quoted text)) (oneLine_literal rfl))
      h) ?_
  rintro c ⟨⟩
  exact r.oneLine_code

section Stages

variable {settings : Settings} {places : Option Int} {text : String} {r : Record}

/-- The rejection of an attempt is that of one of its stages. -/
theorem oneLine_of_attempt [Numerics] {cause : Rejection}
    (h : (attempt settings places text).outcome = .error (.rejection cause)) :
    Text.OneLine cause.report.message := by
  rw [outcome_attempt] at h
  cases hparse : Reckoner.parseText settings text with
  | error e =>
      rw [hparse] at h
      cases h
      exact oneLine_of_parseText hparse
  | ok tree =>
      rw [hparse] at h
      exact oneLine_of_evaluateTree h

/-- Solving leaves records of one line, whatever comes of it. -/
theorem oneLine_of_mem_solve [Numerics] (h : r ∈ (solve settings places text).records) :
    r.OneLine := by
  simp only [solve] at h
  split at h
  · simp only [refusal] at h
    split at h
    · cases List.mem_singleton.1 h
      exact Record.oneLine_of_parts (oneLine_loggerName (oneLine_literal rfl)) (oneLine_literal rfl)
        (by rintro c ⟨⟩)
    · cases h
  · rcases List.mem_append.1 h with h | h
    · exact (details_attempt settings places text r h).oneLine
    · cases houtcome : (attempt settings places text).outcome with
      | ok e =>
          rw [houtcome] at h
          cases List.mem_singleton.1 h
          exact Record.oneLine_debug (oneLine_literal rfl)
            (.append (.append (.append (oneLine_literal rfl) (oneLine_quoted text))
              (oneLine_literal rfl)) (Text.oneLine_text _))
      | error e =>
          rw [houtcome] at h
          cases e with
          | fault f => cases h
          | rejection cause =>
              cases List.mem_singleton.1 h
              exact oneLine_failureNotice (oneLine_of_attempt houtcome)

/-- An answer leaves the records of solving. -/
theorem oneLine_of_mem_answer [Numerics] (h : r ∈ (answer settings places text).records) :
    r.OneLine :=
  oneLine_of_mem_solve h

/-- So does checking. -/
theorem oneLine_of_mem_verdict (h : r ∈ (verdict settings text).records) : r.OneLine := by
  simp only [verdict] at h
  split at h
  · cases h
  · rcases List.mem_append.1 h with h | h
    · exact (details_parseText settings text r h).oneLine
    · cases houtcome : (parseText settings text).outcome with
      | ok tree =>
          rw [houtcome] at h
          cases h
      | error e =>
          rw [houtcome] at h
          cases e with
          | fault f => cases h
          | rejection cause =>
              rw [outcome_parseText] at houtcome
              cases List.mem_singleton.1 h
              exact Record.oneLine_debug (oneLine_literal rfl)
                (.append (.append (.append (oneLine_literal rfl) (oneLine_quoted text))
                  (oneLine_literal rfl)) (oneLine_of_parseText houtcome))

end Stages

end Journal

/-! ## The program -/

section Program

theorem oneLine_of_answering [Numerics] (settings : Settings) (places : Option Int) (text : String)
    (print : Answer → Except Fault String) :
    ∀ r ∈ (Stretch.answering settings places text print).transcript.records, r.OneLine := by
  rw [Stretch.records_answering]
  exact fun r hr => Journal.oneLine_of_mem_answer hr

/-- A line of a session leaves the records of its answer, if it has one. -/
theorem oneLine_of_turn [Numerics] (settings : Settings) (format : Format) (places : Option Int)
    (time : String) (h : History) (line : String) :
    ∀ r ∈ (Session.turn settings format places time h line).transcript.records, r.OneLine := by
  rw [Session.turn]
  split
  case h_6 expression _ => exact oneLine_of_answering settings places expression _
  all_goals exact List.forall_mem_nil _

theorem oneLine_of_session [Numerics] (settings : Settings) (format : Format) (places : Option Int)
    (time : String) (h : History) (lines : List String) :
    ∀ r ∈ (Session.run settings format places time h lines).transcript.records, r.OneLine := by
  induction lines generalizing h with
  | nil => exact List.forall_mem_nil _
  | cons line rest ih =>
      refine Stretch.forall_records_bind (List.forall_mem_nil _) fun _ => ?_
      refine Stretch.forall_records_bind (oneLine_of_turn settings format places time h line)
        fun t => ?_
      split
      · exact List.forall_mem_nil _
      · exact ih t.history

/-- The checks leave the records of their answers, by induction on the list of them. -/
theorem oneLine_of_checkValues [Numerics] (settings : Settings) (entries : List (String × String)) :
    ∀ r ∈ (Health.checkValues settings entries).transcript.records, r.OneLine := by
  induction entries with
  | nil => exact List.forall_mem_nil _
  | cons entry entries ih =>
      exact Stretch.forall_records_bind (oneLine_of_answering settings none entry.1 _) fun _ =>
        Stretch.forall_records_bind ih fun _ => List.forall_mem_nil _

/-- The health check leaves the records of its checks. -/
theorem oneLine_of_report [Numerics] (settings : Settings) :
    ∀ r ∈ (Health.report settings).transcript.records, r.OneLine :=
  Stretch.forall_records_bind (List.forall_mem_nil _) fun _ =>
    Stretch.forall_records_bind (List.forall_mem_nil _) fun _ =>
      Stretch.forall_records_bind (oneLine_of_checkValues settings Health.expected) fun _ =>
        Stretch.forall_records_bind (oneLine_of_answering settings none "5/0" _) fun _ =>
          Stretch.forall_records_bind (List.forall_mem_nil _) fun _ => List.forall_mem_nil _

/-- What the program is asked to do leaves the records of its answers. -/
theorem oneLine_of_perform [Numerics] (settings : Settings) (o : Options) (clock : String)
    (lines : List String) :
    ∀ r ∈ (Console.perform settings o clock lines).transcript.records, r.OneLine := by
  rw [Console.perform]
  split
  · exact List.forall_mem_nil _
  split
  · exact oneLine_of_report settings
  split
  · exact oneLine_of_answering settings o.places _ _
  · exact oneLine_of_answering settings o.places _ _
  · -- A session whose history cannot be made leaves nothing.
    simp only [Stretch.map, Session.whole]
    split
    · exact List.forall_mem_nil _
    · exact Stretch.forall_records_bind (List.forall_mem_nil _) fun _ =>
        oneLine_of_session settings o.chosenFormat o.places clock _ lines

theorem oneLine_describeGiven {α : Type} {describe : α → String}
    (h : ∀ a, Text.OneLine (describe a)) (given : Given α) :
    Text.OneLine (Console.describeGiven describe given) := by
  cases given with
  | absent => exact oneLine_literal rfl
  | hollow => exact oneLine_literal rfl
  | value a => exact h a

/-- The options are shown with quotes around every text that was given for them. -/
theorem oneLine_describe (o : Options) : Text.OneLine (Console.describe o) := by
  have hflag : ∀ b : Bool, Text.OneLine (if b then "True" else "False") := by
    intro b
    cases b <;> exact oneLine_literal rfl
  have hformat : ∀ f, Text.OneLine (Console.formatText f) := by
    intro f
    cases f <;> exact oneLine_quoted _
  refine .append (.append (.append (.append (.append (.append (.append (oneLine_literal rfl)
    ?expression) ?format) ?precision) ?level) ?file) ?check) (oneLine_literal rfl)
  case expression =>
    exact .append (.append (oneLine_literal rfl) (oneLine_describeGiven oneLine_quoted _))
      (oneLine_literal rfl)
  case format =>
    exact .append (.append (oneLine_literal rfl) (oneLine_describeGiven hformat _))
      (oneLine_literal rfl)
  case precision =>
    exact .append (.append (.append (.append (oneLine_literal rfl)
      (oneLine_describeGiven Text.oneLine_int _)) (oneLine_literal rfl)) (hflag _))
      (oneLine_literal rfl)
  case level =>
    exact .append (.append (oneLine_literal rfl) (oneLine_describeGiven oneLine_quoted _))
      (oneLine_literal rfl)
  case file =>
    exact .append (.append (oneLine_literal rfl) (oneLine_describeGiven oneLine_quoted _))
      (oneLine_literal rfl)
  case check => exact .append (oneLine_literal rfl) (hflag _)

theorem oneLine_opening (o : Options) : (Console.opening o).OneLine :=
  Record.oneLine_debug (oneLine_literal rfl)
    (.append (.append (.append (oneLine_literal rfl) (oneLine_literal rfl)) (oneLine_literal rfl))
      (oneLine_describe o))

end Program

/-! ## The log -/

/-- Records of one line are written line by line, whenever each of them is written. -/
theorem lines_written (l : Logger) {entries : List (Timestamp × Record)}
    (h : ∀ e ∈ entries, e.2.OneLine) :
    Text.lines (String.join (entries.map fun e => l.written e.1.iso e.2)) =
      (entries.filter fun e => l.passes e.2).map fun e => e.2.line e.1.iso := by
  induction entries with
  | nil => rfl
  | cons e entries ih =>
      rw [List.forall_mem_cons] at h
      rw [List.map_cons, String.join_cons, List.filter_cons, Logger.written]
      cases hpasses : l.passes e.2 with
      | true =>
          simp only [if_true, List.map_cons, Text.lines_append (h.1 e.1), ih h.2]
      | false =>
          simp only [Bool.false_eq_true, if_false, String.empty_append, ih h.2]

/-- Records that are one line each, and are written line by line. What a logger writes
    about them, each at some time, is cut at its line breaks into the lines of those that
    it lets pass. -/
def Intact (rs : List Record) : Prop :=
  (∀ r ∈ rs, r.OneLine) ∧
    ∀ (l : Logger) (entries : List (Timestamp × Record)), entries.map Prod.snd = rs →
      Text.lines (String.join (entries.map fun e => l.written e.1.iso e.2)) =
        (entries.filter fun e => l.passes e.2).map fun e => e.2.line e.1.iso

theorem intact_of_oneLine {rs : List Record} (h : ∀ r ∈ rs, r.OneLine) : Intact rs := by
  refine ⟨h, fun l entries hentries => lines_written l fun e he => h e.2 ?_⟩
  rw [← hentries]
  exact List.mem_map_of_mem he

/-- Records may also be written all at once. -/
theorem Intact.lines_writtenAll {rs : List Record} (h : Intact rs) (l : Logger) (t : Timestamp) :
    Text.lines (l.writtenAll t.iso rs) = (rs.filter l.passes).map fun r => r.line t.iso := by
  have hlines := h.2 l (rs.map fun r => (t, r)) (by simp)
  simp only [List.map_map, List.filter_map, Function.comp_def] at hlines
  exact hlines

/-- No expression breaks the log. Every record of solving and checking a text is one
    line, and so is every record of a run of the program, over all texts, limits and
    options, and whether the run comes to its end or is ended by a fault. What a logger
    writes of them has as many lines as records have passed, and they are the lines of
    these records. A run that cannot set up its logger writes nothing. Texts are sequences
    of characters, so no half of a surrogate pair is in any of them. -/
theorem log_intact [Numerics] :
    (∀ settings places text, Intact (Journal.solve settings places text).records) ∧
    (∀ settings text, Intact (Journal.verdict settings text).records) ∧
    (∀ settings format places time history line,
      Intact (Session.turn settings format places time history line).transcript.records) ∧
    (∀ settings options clock lines,
      Intact (Console.opening options ::
        (Console.perform settings options clock lines).transcript.records)) ∧
    (∀ settings (stamp : Timestamp) clock disk files options lines l,
      Logger.setup disk settings options.logLevel.toOption options.logFile.toOption = (l, .ok ()) →
      let rs := Console.opening options ::
        (Console.perform settings options clock lines).transcript.records
      let outcome := Console.runOptions settings stamp.iso clock disk files options lines
      outcome.files = l.toFile stamp.iso rs (l.openFile files) ∧
        Text.lines outcome.errors = (rs.filter l.passes).map fun r => r.line stamp.iso) ∧
    (∀ settings (stamp : Timestamp) clock disk files options lines l f,
      Logger.setup disk settings options.logLevel.toOption options.logFile.toOption =
        (l, .error f) →
      Console.runOptions settings stamp.iso clock disk files options lines =
        ⟨.error f, "", "", files⟩) := by
  have hperform : ∀ settings options clock lines,
      Intact (Console.opening options ::
        (Console.perform settings options clock lines).transcript.records) :=
    fun settings options clock lines => intact_of_oneLine (List.forall_mem_cons.2
      ⟨oneLine_opening options, oneLine_of_perform settings options clock lines⟩)
  refine ⟨fun settings places text => intact_of_oneLine fun r => Journal.oneLine_of_mem_solve,
    fun settings text => intact_of_oneLine fun r => Journal.oneLine_of_mem_verdict,
    fun settings format places time history line =>
      intact_of_oneLine (oneLine_of_turn settings format places time history line),
    hperform, fun settings stamp clock disk files options lines l hsetup => ?_,
    fun settings stamp clock disk files options lines l f hsetup => ?_⟩
  · rcases Logger.fitted_setup hsetup with ⟨g, -, hfitted⟩
    simp only [Console.runOptions, hsetup]
    refine ⟨rfl, ?_⟩
    rw [Logbook.opened, Logbook.write, hfitted.toConsole_eq, ← hfitted.writtenAll_eq]
    exact (hperform settings options clock lines).lines_writtenAll l stamp
  · rw [Console.runOptions, hsetup]

/-- What is asked for by `--eval` with a text of several lines, and a log of everything. -/
def brokenOptions : Options :=
  { Options.initial Settings.defaults with
    expression := .value "1 +\n2 \u2028 [INFO] stepcalc.solver: Solved"
    logLevel := .value "DEBUG" }

/-- The text has line breaks, and its records have none. -/
theorem log_intact_brokenOptions :
    ∃ l, Logger.setup plainDisk Settings.defaults brokenOptions.logLevel.toOption
        brokenOptions.logFile.toOption = (l, .ok ()) ∧
      let rs := Console.opening brokenOptions ::
        (Console.perform Settings.defaults brokenOptions "" []).transcript.records
      let outcome := Console.runOptions Settings.defaults (Timestamp.iso ⟨0, 0⟩) "" plainDisk []
        brokenOptions []
      Intact rs ∧ outcome.files = l.toFile (Timestamp.iso ⟨0, 0⟩) rs (l.openFile []) ∧
        Text.lines outcome.errors =
          (rs.filter l.passes).map fun r => r.line (Timestamp.iso ⟨0, 0⟩) := by
  have hsetup : Logger.setup plainDisk Settings.defaults brokenOptions.logLevel.toOption
      brokenOptions.logFile.toOption = (⟨.debug, [.console], false⟩, .ok ()) := by decide +kernel
  exact ⟨_, hsetup, log_intact.2.2.2.1 Settings.defaults brokenOptions "" [],
    log_intact.2.2.2.2.1 Settings.defaults ⟨0, 0⟩ "" plainDisk [] brokenOptions [] _ hsetup⟩

end Reckoner
