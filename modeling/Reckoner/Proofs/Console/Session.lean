import Mathlib
import Reckoner.Console.Run
import Reckoner.Proofs.History
import Reckoner.Proofs.Scan.Calculation
import Reckoner.Proofs.Solve.Shape

/-!
# What a Session Says

A session is a list of replies, one for each line that it hears. It stops hearing at
the first line that asks it to quit. A reply depends on its own line, and on the lines
before it through nothing but the history, which is what has been solved since it was
last cleared (`remembered`). Here the history is read off those lines all at once, and
the session keeps it up to date a line at a time. The two agree after every line
(`turn_after`), and so the replies do, over the whole session (`run_replies`).

There are two ways for a session not to come about. Its history has a size that fits
into no machine word, or an expression has an answer that cannot be put into as many
decimal places as were asked for. `session_hugeNumbers` has one of each.

## Main definitions

* `heard`: The lines that a session hears.
* `remembered`: The history after given lines, newest first.
* `reply`: What a session says to a line.
* `exchange`: What it says to each of its lines.
* `closing`: What it says when there are no more lines.

## Theorems

* `exists_answer`: Every text is answered, with a usable number of decimal places.
* `exists_printed`: Every answer to a text can be printed.
* `linesOf_append`, `heard_append`: What comes after a line, and after the last one heard.
* `turn_after`: A line is replied to, and the history kept up to date.
* `run_replies`: A session says what it replies to its lines.
* `session_replies`: So does a run of the program that starts one.
-/

namespace Reckoner

theorem Text.stripBy_stripBy (test : Char → Bool) (cs : List Char) :
    stripBy test (stripBy test cs) = stripBy test cs := by
  have hfails : ∀ (ds : List Char), ∀ c ∈ (ds.dropWhile test).head?, test c = false := by
    intro ds c hc
    have hhead := List.head?_dropWhile_not test ds
    rw [Option.mem_def.1 hc] at hhead
    exact hhead
  refine Lexical.stripBy_eq_self (fun c hc => ?_) (fun c hc => ?_)
  · -- What the second cut leaves is at the front of what the first one has left.
    rcases List.dropWhile_suffix test (l := (cs.dropWhile test).reverse) with ⟨front, hfront⟩
    have hprefix := congrArg List.reverse hfront
    rw [List.reverse_append, List.reverse_reverse] at hprefix
    refine hfails cs c ?_
    rw [← hprefix, List.head?_append, Option.mem_def]
    rw [stripBy, Option.mem_def] at hc
    rw [hc]
    rfl
  · rw [stripBy, List.getLast?_reverse] at hc
    exact hfails _ c hc

/-- There is nothing left to cut off. -/
theorem Text.strip_strip (s : String) : strip (strip s) = strip s := by
  rw [strip, strip, String.toList_ofList, stripBy_stripBy]

section Answers

variable {settings : Settings} {places : Option Int} {text : String}

/-- A text is answered if the formatter takes as many decimal places as are asked for. -/
theorem exists_answer {library : Numerics} (hlibrary : library.Reliable) (settings : Settings)
    (places : Option Int) (text : String) (hlow : 0 ≤ settings.places places)
    (hhigh : settings.places places ≤ maxHalfWord) :
    ∃ a, answer settings places text = .ok a := by
  rw [answer]
  rcases solve_cases hlibrary settings places text with
    ⟨-, -, e, -, -, -, hsolve⟩ | ⟨r, -, hsolve⟩ | ⟨-, -, fault, -, -, -, hblames, -⟩
  · rw [hsolve]
    exact ⟨_, rfl⟩
  · rw [hsolve]
    exact ⟨_, rfl⟩
  · have hword : maxHalfWord < maxWord := by decide
    cases fault <;> simp only [PlacesFault.Blames] at hblames <;> omega

/-- An answer to a text is that of a solution or that of a rejection. -/
theorem answer_cases [Numerics] {a : Answer} (h : answer settings places text = .ok a) :
    (∃ e, solve settings places text = .ok e ∧ a = .solved text e) ∨
      ∃ r, solve settings places text = .error (.rejection r) ∧ a = .rejected text r.report := by
  rw [answer] at h
  rcases hsolve : solve settings places text with (r | f) | e <;> rw [hsolve] at h <;> cases h
  · exact .inr ⟨r, rfl, rfl⟩
  · exact .inl ⟨e, rfl, rfl⟩

/-- An answer to a text can be printed. A good one has a value to print. -/
theorem exists_printed [Numerics] {a : Answer} (h : answer settings places text = .ok a)
    (shown : Json) (format : Format) : ∃ output, a.printedFor shown format = .ok output := by
  cases format with
  | json => exact ⟨_, rfl⟩
  | human =>
      rcases answer_cases h with ⟨e, -, rfl⟩ | ⟨r, -, rfl⟩
      · exact ⟨_, rfl⟩
      · exact ⟨_, rfl⟩

end Answers

/-- A line feed ends a line, whatever comes after it. -/
theorem Console.linesFrom_append (begun cs ds : List Char) :
    linesFrom begun (cs ++ '\n' :: ds) = linesFrom begun (cs ++ ['\n']) ++ linesFrom [] ds := by
  induction cs generalizing begun with
  | nil => simp [linesFrom]
  | cons c cs ih =>
      rw [List.cons_append, List.cons_append, linesFrom, linesFrom]
      by_cases hfeed : c = '\n'
      · rw [if_pos hfeed, if_pos hfeed, ih, List.cons_append]
      · rw [if_neg hfeed, if_neg hfeed, ih]

theorem Console.linesOf_append (before after : String) :
    linesOf (before ++ "\n" ++ after) = linesOf (before ++ "\n") ++ linesOf after := by
  have hfeed : "\n".toList = ['\n'] := rfl
  simp only [linesOf, String.toList_append, hfeed, List.append_assoc, List.singleton_append]
  exact linesFrom_append [] before.toList after.toList

namespace Session

/-- The word that a line has if it is a command. -/
def word (line : String) : String := Command.lower (Text.strip line)

/-- Whether a line asks the session to quit. -/
def quits (line : String) : Bool := word line == "quit" || word line == "exit"

/-- The lines that a session hears: all of them up to the first that asks it to quit. -/
def heard : List String → List String
  | [] => []
  | line :: rest => if quits line then [line] else line :: heard rest

/-- What is said when there are no more lines and nobody has asked to quit. -/
def closing (lines : List String) : String :=
  if lines.any quits then "" else prompt ++ "\n" ++ farewell

/-- The commands. -/
def commands : List String := ["quit", "exit", "help", "history", "clear"]

section Replies

variable (settings : Settings) (format : Format) (places : Option Int) (time : String)

/-- What there is to remember of a line: its expression and how it was solved, if it
    was. -/
def memory? [Numerics] (line : String) : Option HistoryEntry :=
  if word line ∈ commands then none
  else
    match solve settings places (Text.strip line) with
    | .ok e => some ⟨Text.strip line, e.value, e.steps.length, time⟩
    | .error _ => none

/-- What is remembered after some lines, newest first: the last ones that were solved
    since the history was cleared, as many as it has room for. -/
def remembered [Numerics] (earlier : List String) : List HistoryEntry :=
  ((earlier.reverse.takeWhile fun line => word line ≠ "clear").filterMap
    (memory? settings places time)).take settings.historySize.toNat

/-- What a session says to a line after some others. -/
def reply [Numerics] (earlier : List String) (line : String) : Except Fault String :=
  if Text.strip line = "" then .ok ""
  else if quits line then .ok farewell
  else if word line = "help" then .ok (helpText settings)
  else if word line = "history" then
    .ok (if remembered settings places time earlier = [] then "No calculations yet.\n"
      else String.join ((remembered settings places time earlier).map History.entryLine))
  else if word line = "clear" then .ok "History cleared.\n"
  else
    match answer settings places (Text.strip line) with
    | .error f => .error f
    | .ok a => a.printed format

/-- What a session says to each of its lines. -/
def exchange [Numerics] (earlier lines : List String) : List (Except Fault String) :=
  lines.mapIdx fun number line =>
    reply settings format places time (earlier ++ lines.take number) line

/-- The history after some lines. -/
def after [Numerics] (earlier : List String) : History :=
  ⟨some settings.historySize.toNat, remembered settings places time earlier⟩

end Replies

/-- Nothing is heard after somebody has asked to quit. -/
theorem heard_append {lines : List String} (more : List String) (h : lines.any quits = true) :
    heard (lines ++ more) = heard lines := by
  induction lines with
  | nil => cases h
  | cons line rest ih =>
      rw [List.cons_append, heard, heard]
      by_cases hquits : quits line = true
      · rw [if_pos hquits, if_pos hquits]
      · rw [List.any_cons, Bool.eq_false_iff.2 hquits, Bool.false_or] at h
        rw [if_neg hquits, if_neg hquits, ih h]

section Turns

variable {settings : Settings} {format : Format} {places : Option Int} {time : String}
  {earlier : List String} {line : String}

theorem exchange_cons [Numerics] (earlier : List String) (line : String) (rest : List String) :
    exchange settings format places time earlier (line :: rest) =
      reply settings format places time earlier line ::
        exchange settings format places time (earlier ++ [line]) rest := by
  simp only [exchange, List.mapIdx_cons, List.take_zero, List.append_nil, List.take_succ_cons,
    List.append_assoc, List.singleton_append]

/-- A line that is no command and is not solved changes nothing. -/
theorem remembered_of_none [Numerics] (earlier : List String) (hclear : word line ≠ "clear")
    (h : memory? settings places time line = none) :
    remembered settings places time (earlier ++ [line]) =
      remembered settings places time earlier := by
  simp only [remembered, List.reverse_append, List.reverse_singleton, List.singleton_append]
  rw [List.takeWhile_cons_of_pos (by simpa using hclear), List.filterMap_cons_none h]

/-- A line that is solved is remembered in front of the others. -/
theorem remembered_of_some [Numerics] {entry : HistoryEntry} (earlier : List String)
    (hclear : word line ≠ "clear") (h : memory? settings places time line = some entry) :
    remembered settings places time (earlier ++ [line]) =
      (entry :: remembered settings places time earlier).take settings.historySize.toNat := by
  simp only [remembered, List.reverse_append, List.reverse_singleton, List.singleton_append]
  rw [List.takeWhile_cons_of_pos (by simpa using hclear), List.filterMap_cons_some h]
  exact (History.room_cons_room (some settings.historySize.toNat) _ _).symm

theorem remembered_of_clear [Numerics] (earlier : List String) (h : word line = "clear") :
    remembered settings places time (earlier ++ [line]) = [] := by
  simp only [remembered, List.reverse_append, List.reverse_singleton, List.singleton_append]
  rw [List.takeWhile_cons_of_neg (by simpa using h), List.filterMap_nil, List.take_nil]

theorem quits_iff (line : String) :
    quits line = true ↔ word line = "quit" ∨ word line = "exit" := by
  rw [quits, Bool.or_eq_true, beq_iff_eq, beq_iff_eq]

/-- What a line asks for, by its word. -/
theorem ofLine_eq (line : String) :
    Command.ofLine line =
      if Text.strip line = "" then .nothing
      else if quits line then .quit
      else if word line = "help" then .help
      else if word line = "history" then .history
      else if word line = "clear" then .clear
      else .solve (Text.strip line) := by
  have hword := quits_iff line
  rw [word] at hword
  simp only [Command.ofLine, word]
  by_cases hempty : Text.strip line = ""
  · rw [if_pos hempty, if_pos (String.isEmpty_iff.2 hempty)]
  rw [if_neg hempty, if_neg (mt String.isEmpty_iff.1 hempty)]
  by_cases hquits : quits line = true
  · rw [if_pos hquits, if_pos (hword.1 hquits)]
  · rw [if_neg hquits, if_neg (mt hword.2 hquits)]
    rfl

/-- The answer to a line is recorded as it is remembered. -/
theorem record_after [Numerics] {a : Answer} (hword : word line ∉ commands)
    (h : answer settings places (Text.strip line) = .ok a) :
    (after settings places time earlier).record a time =
      after settings places time (earlier ++ [line]) := by
  have hclear : word line ≠ "clear" := by
    intro hclear
    rw [hclear] at hword
    exact hword (by decide)
  rcases answer_cases h with ⟨e, hsolve, rfl⟩ | ⟨r, hsolve, rfl⟩
  · have hsome : memory? settings places time line =
        some ⟨Text.strip line, e.value, e.steps.length, time⟩ := by
      rw [memory?, if_neg hword, hsolve]
    rw [after, after, remembered_of_some earlier hclear hsome]
    simp only [History.record, Answer.entry?, Answer.solved, Text.strip_strip, History.room]
  · have hnone : memory? settings places time line = none := by
      rw [memory?, if_neg hword, hsolve]
    rw [after, after, remembered_of_none earlier hclear hnone]
    rfl

/-- A command leaves nothing to remember, and neither does an empty line. -/
theorem memory?_eq_none [Numerics] (h : word line ∈ commands ∨ Text.strip line = "") :
    memory? settings places time line = none := by
  rw [memory?]
  by_cases hword : word line ∈ commands
  · rw [if_pos hword]
  · rw [if_neg hword, h.resolve_left hword, solve_eq]
    rfl

/-- A line is replied to, and the history is afterwards what there is to remember. A line
    without a reply ends in a fault, and nothing is said to it. -/
theorem turn_after [Numerics] (settings : Settings) (format : Format) (places : Option Int)
    (time : String) (earlier : List String) (line : String) :
    let done := turn settings format places time (after settings places time earlier) line
    (done.transcript.output, done.ending) =
      match reply settings format places time earlier line with
      | .error f => ("", .error f)
      | .ok said => (said, .ok ⟨after settings places time (earlier ++ [line]), quits line⟩) := by
  have hkeep : word line ∈ commands ∨ Text.strip line = "" → word line ≠ "clear" →
      after settings places time (earlier ++ [line]) = after settings places time earlier :=
    fun h hclear => by rw [after, after, remembered_of_none earlier hclear (memory?_eq_none h)]
  have hword : ∀ {w : String}, word line = w → w ∈ commands → word line ∈ commands :=
    fun h hmem => h ▸ hmem
  simp only [turn, ofLine_eq, reply]
  by_cases hempty : Text.strip line = ""
  · have hblank : word line = "" := by rw [word, hempty]; rfl
    rw [if_pos hempty, if_pos hempty, hkeep (.inr hempty) (by rw [hblank]; decide), quits, hblank]
    rfl
  rw [if_neg hempty, if_neg hempty]
  by_cases hquits : quits line = true
  · rw [if_pos hquits, if_pos hquits, hquits]
    rcases (quits_iff line).1 hquits with h | h
    · rw [hkeep (.inl (hword h (by decide))) (by rw [h]; decide)]
      rfl
    · rw [hkeep (.inl (hword h (by decide))) (by rw [h]; decide)]
      rfl
  rw [if_neg hquits, if_neg hquits, Bool.eq_false_iff.2 hquits]
  by_cases hhelp : word line = "help"
  · rw [if_pos hhelp, if_pos hhelp, hkeep (.inl (hword hhelp (by decide))) (by rw [hhelp]; decide)]
    rfl
  rw [if_neg hhelp, if_neg hhelp]
  by_cases hhistory : word line = "history"
  · rw [if_pos hhistory, if_pos hhistory,
      hkeep (.inl (hword hhistory (by decide))) (by rw [hhistory]; decide)]
    simp only [Stretch.map, Except.map, Stretch.say, Transcript.say, History.printed, after,
      List.isEmpty_iff]
  rw [if_neg hhistory, if_neg hhistory]
  by_cases hclear : word line = "clear"
  · rw [if_pos hclear, if_pos hclear, after, after, remembered_of_clear earlier hclear]
    rfl
  rw [if_neg hclear, if_neg hclear]
  -- What is left is an expression, and it is answered whatever is remembered.
  have hnot : word line ∉ commands := by
    rw [quits_iff, not_or] at hquits
    simp [commands, hquits, hhelp, hhistory, hclear]
  simp only [Stretch.answering, Journal.outcome_answer]
  cases hanswer : answer settings places (Text.strip line) with
  | error f => rfl
  | ok a =>
      simp only []
      cases a.printed format with
      | error f => rfl
      | ok output => simp only [Stretch.map, Except.map, record_after hnot hanswer]

end Turns

section Runs

/-- What a session shows of its replies, and how it ends. Each reply comes after a prompt, and
    what closes the session comes after them. A line without a reply has a prompt and nothing
    after it. -/
def spoken (closing : String) : List (Except Fault String) → String × Except Fault Unit
  | [] => (closing, .ok ())
  | .error f :: _ => (prompt, .error f)
  | .ok said :: rest => (prompt ++ said ++ (spoken closing rest).1, (spoken closing rest).2)

theorem spoken_replies (closing : String) (said : List String) :
    spoken closing (said.map .ok) = (String.join (said.map (prompt ++ ·)) ++ closing, .ok ()) := by
  induction said with
  | nil => exact congrArg (·, Except.ok ()) String.empty_append.symm
  | cons first said ih =>
      rw [List.map_cons, spoken, ih, List.map_cons, String.join_cons]
      simp only [String.append_assoc]

theorem spoken_fault (closing : String) (said : List String) (f : Fault)
    (more : List (Except Fault String)) :
    spoken closing (said.map .ok ++ .error f :: more) =
      (String.join (said.map (prompt ++ ·)) ++ prompt, .error f) := by
  induction said with
  | nil => exact congrArg (·, Except.error f) String.empty_append.symm
  | cons first said ih =>
      rw [List.map_cons, List.cons_append, spoken, ih, List.map_cons, String.join_cons]
      simp only [String.append_assoc]

variable {settings : Settings} {format : Format} {places : Option Int} {time : String}

/-- A session says what it replies to the lines that it hears, by induction on the lines
    that there are. -/
theorem run_replies [Numerics] (settings : Settings) (format : Format) (places : Option Int)
    (time : String) (earlier lines : List String) :
    let done := run settings format places time (after settings places time earlier) lines
    (done.transcript.output, done.ending) =
      spoken (closing (heard lines))
        (exchange settings format places time earlier (heard lines)) := by
  induction lines generalizing earlier with
  | nil => rfl
  | cons line rest ih =>
      have hturn := turn_after settings format places time earlier line
      -- Whether or not it is the last one, the line is heard.
      have hheard : ∃ more, heard (line :: rest) = line :: more := by
        rw [heard]
        split <;> exact ⟨_, rfl⟩
      rcases hheard with ⟨more, hheard⟩
      have hprompt : (Stretch.say prompt).ending = .ok () := rfl
      simp only [run, Stretch.bind_of_ok hprompt]
      cases hreply : reply settings format places time earlier line with
      | error f =>
          rw [hreply] at hturn
          rcases Prod.mk.inj hturn with ⟨hsaid, hending⟩
          rw [Stretch.bind_of_error hending, hheard, exchange_cons, hreply, spoken]
          simp only [Transcript.output_append, hsaid, String.append_empty]
          rfl
      | ok said =>
          rw [hreply] at hturn
          rcases Prod.mk.inj hturn with ⟨hsaid, hending⟩
          rw [Stretch.bind_of_ok hending]
          by_cases hquits : quits line = true
          · simp only [hquits, if_true, heard, exchange_cons, hreply, spoken,
              Transcript.output_append, hsaid]
            simp [hquits, exchange, spoken, closing, pure, Stretch.say, Transcript.say]
          · have hclosing : closing (line :: heard rest) = closing (heard rest) := by
              rw [closing, closing, List.any_cons, Bool.eq_false_iff.2 hquits, Bool.false_or]
            rcases Prod.mk.inj (ih (earlier ++ [line])) with ⟨hmore, hend⟩
            simp only [hquits, Bool.false_eq_true, if_false, heard, exchange_cons, hreply, spoken,
              hclosing, Transcript.output_append, hsaid, ← hmore, ← hend]
            simp only [Stretch.say, Transcript.say, String.append_assoc]

/-- A session starts with nothing to remember. -/
theorem whole_eq [Numerics] (format : Format) (places : Option Int) (time : String)
    (lines : List String) (hlow : 0 ≤ settings.historySize)
    (hhigh : settings.historySize ≤ maxWord) :
    whole settings format places time lines =
      ⟨.say greeting ++ (run settings format places time (after settings places time [])
        lines).transcript,
        (run settings format places time (after settings places time []) lines).ending⟩ := by
  have hword : -maxWord - 1 ≤ 0 := by decide
  have hsize : History.ofSize (some settings.historySize) =
      .ok (after settings places time []) := by
    rw [History.ofSize, if_neg (by omega), if_neg (by omega), after, remembered, List.reverse_nil,
      List.takeWhile_nil, List.filterMap_nil, List.take_nil]
  rw [whole, hsize]
  rfl

/-- A line has a reply if the formatter takes as many decimal places as are in force. -/
theorem exists_reply {library : Numerics} (hlibrary : library.Reliable) (format : Format)
    (time : String) (earlier : List String) (line : String)
    (hlow : 0 ≤ settings.places places) (hhigh : settings.places places ≤ maxHalfWord) :
    ∃ said, reply settings format places time earlier line = .ok said := by
  rcases exists_answer hlibrary settings places (Text.strip line) hlow hhigh with ⟨a, ha⟩
  rcases exists_printed ha (.text a.expression) format with ⟨output, houtput⟩
  have hprinted : a.printed format = .ok output := houtput
  simp only [reply, ha, hprinted]
  split_ifs <;> exact ⟨_, rfl⟩

end Runs

end Session

section Program

/-- What is visible of a run on its output, and how it ends. -/
def Outcome.visible (r : Outcome) : String × Except Fault Nat := (r.output, r.exit)

variable {settings : Settings} {arguments : List String} {o : Options} {logger : Logger}

/-- A run shows what its options ask for and ends as that does, and the log takes nothing away
    from it. -/
theorem Console.visible_run [Numerics] (stamp clock : String) {disk : Disk} (files : Files)
    (input : String) (harguments : Options.ofArguments settings arguments = .ok (.run o))
    (hlogger : Logger.setup disk settings o.logLevel.toOption o.logFile.toOption =
      (logger, .ok ())) :
    (Console.run settings stamp clock disk files arguments input).visible =
      ((Console.perform settings o clock (Console.linesOf input)).transcript.output,
        (Console.perform settings o clock (Console.linesOf input)).ending) := by
  simp only [Console.run, harguments, Console.runOptions, hlogger, Outcome.visible]

/-- A run that asks for nothing in particular is a session. It greets, prompts for each
    line that it hears and replies to it, and in the end it exits with success. The first
    line without a reply ends the run with a fault, after its prompt. Every line has a
    reply if the formatter takes as many decimal places as are in force. Whatever follows a
    line that asks to quit is not heard. What is remembered is not changed by asking for
    help or by an expression that is not solved. -/
theorem session_replies [library : Numerics] (stamp clock : String) {disk : Disk} (files : Files)
    (input : String) (harguments : Options.ofArguments settings arguments = .ok (.run o))
    (hsession : o.version = false ∧ o.healthCheck = false ∧ o.expression = .absent)
    (hlogger : Logger.setup disk settings o.logLevel.toOption o.logFile.toOption =
      (logger, .ok ()))
    (hlow : 0 ≤ settings.historySize) (hhigh : settings.historySize ≤ maxWord) :
    let replies := Session.exchange settings o.chosenFormat o.places clock []
      (Session.heard (Console.linesOf input))
    (∀ said : List String, replies = said.map .ok →
      (Console.run settings stamp clock disk files arguments input).visible =
        (Session.greeting ++ (String.join (said.map (Session.prompt ++ ·)) ++
          Session.closing (Session.heard (Console.linesOf input))), .ok 0)) ∧
    (∀ (said : List String) f more, replies = said.map .ok ++ .error f :: more →
      (Console.run settings stamp clock disk files arguments input).visible =
        (Session.greeting ++ (String.join (said.map (Session.prompt ++ ·)) ++ Session.prompt),
          .error f)) ∧
    (library.Reliable → 0 ≤ settings.places o.places → settings.places o.places ≤ maxHalfWord →
      ∃ said : List String, replies = said.map .ok) ∧
    (∀ before after : String, input = before ++ "\n" ++ after →
      (Console.linesOf (before ++ "\n")).any Session.quits = true →
      Session.heard (Console.linesOf input) =
        Session.heard (Console.linesOf (before ++ "\n"))) ∧
    ∀ (earlier : List String) (line : String),
      (Session.word line = "help" ∨ Session.word line ≠ "clear" ∧
        ∃ f, solve settings o.places (Text.strip line) = .error f) →
      Session.remembered settings o.places clock (earlier ++ [line]) =
        Session.remembered settings o.places clock earlier := by
  intro replies
  have hvisible : (Console.run settings stamp clock disk files arguments input).visible =
      (Session.greeting ++ (Session.spoken (Session.closing (Session.heard
        (Console.linesOf input))) replies).1,
        (Session.spoken (Session.closing (Session.heard (Console.linesOf input)))
          replies).2.map fun _ => 0) := by
    rw [Console.visible_run stamp clock files input harguments hlogger, Console.perform,
      hsession.1, hsession.2.1, hsession.2.2, Session.whole_eq _ _ _ _ hlow hhigh,
      ← Session.run_replies settings o.chosenFormat o.places clock [] (Console.linesOf input)]
    rfl
  refine ⟨fun said hsaid => ?_, fun said f more hsaid => ?_, fun hlibrary hplaces hplaces' => ?_,
    ?_, fun earlier line h => ?_⟩
  · rw [hvisible, hsaid, Session.spoken_replies]
    rfl
  · rw [hvisible, hsaid, Session.spoken_fault]
    rfl
  · have hall : ∀ r ∈ replies, r ∈ Set.range (Except.ok : String → Except Fault String) := by
      intro r hr
      rcases List.mem_mapIdx.1 hr with ⟨i, hi, rfl⟩
      rcases Session.exists_reply hlibrary o.chosenFormat clock
        ([] ++ (Session.heard (Console.linesOf input)).take i) _ hplaces hplaces' with
        ⟨said, hsaid⟩
      exact ⟨said, hsaid.symm⟩
    rcases (Set.ext_iff.1 (Set.range_list_map _) _).2 hall with ⟨said, hsaid⟩
    exact ⟨said, hsaid.symm⟩
  · rintro before after rfl hquits
    rw [Console.linesOf_append, Session.heard_append _ hquits]
  · rcases h with hhelp | ⟨hclear, f, hsolve⟩
    · refine Session.remembered_of_none earlier (by rw [hhelp]; decide)
        (Session.memory?_eq_none (.inl ?_))
      rw [hhelp]
      decide
    · refine Session.remembered_of_none earlier hclear ?_
      rw [Session.memory?, hsolve, ite_self]

/-- Settings under which a single entry is remembered. -/
def shortMemory : Settings := { Settings.defaults with historySize := 1 }

/-- A session that remembers the second of two solved lines, and neither the line after it
    nor the one that it no longer hears. -/
theorem session_replies_history :
    (Console.run shortMemory "" "12:34:56" .ok [] ["-p", "3"]
        "6-5\n2+2\n1/0\nhistory\nQUIT \n1+1\n").visible =
      ("Stepcalc: type 'help' for commands, 'quit' to exit.\n" ++
        ">>> Step-by-step solution:\n" ++
        "  Step 1: Subtraction: 6 - 5\n    6 - 5 = 1\n    (6 minus 5)\n" ++
        "  Step 2: Final Result\n    6-5 = 1\n    (Calculation completed successfully)\n" ++
        "Result: 1\n" ++
        ">>> Step-by-step solution:\n" ++
        "  Step 1: Addition: 2 + 2\n    2 + 2 = 4\n    (2 plus 2)\n" ++
        "  Step 2: Final Result\n    2+2 = 4\n    (Calculation completed successfully)\n" ++
        "Result: 4\n" ++
        ">>> Error: Math error: Division by zero: 1 / 0\n" ++
        ">>> [12:34:56] 2+2 = 4  (2 steps)\n" ++
        ">>> Goodbye.\n", .ok 0) := by
  have harguments : Options.ofArguments shortMemory ["-p", "3"] =
      .ok (.run { Options.initial shortMemory with precision := .value 3 }) := by decide +kernel
  have hlogger : Logger.setup .ok shortMemory (some "WARNING") none =
      (⟨.warning, [.console], false⟩, .ok ()) := by decide +kernel
  have hlines : Console.linesOf "6-5\n2+2\n1/0\nhistory\nQUIT \n1+1\n" =
      ["6-5", "2+2", "1/0", "history", "QUIT ", "1+1"] := by decide +kernel
  have hreplies := (session_replies "" "12:34:56" [] "6-5\n2+2\n1/0\nhistory\nQUIT \n1+1\n"
    harguments (by decide) hlogger (by decide) (by decide)).1
  simp only [hlines] at hreplies
  -- All five lines that are heard have a reply.
  rw [hreplies _ (by decide +kernel : _ = List.map Except.ok (List.reduceOption
    ((Session.exchange shortMemory .human (some 3) "12:34:56" [] (Session.heard
      ["6-5", "2+2", "1/0", "history", "QUIT ", "1+1"])).map Except.toOption)))]
  decide +kernel

/-- A history that has more room than fits into a word cannot be made, and a step cannot
    be written with more decimal places than fit into half of one. Neither ends in success,
    although nothing but quitting or a division by zero was asked for. -/
theorem session_hugeNumbers :
    (0 ≤ maxWord + 1 ∧
      (Console.run { Settings.defaults with historySize := maxWord + 1 } "" "12:34:56" .ok [] []
        "quit\n").visible = ("", .error .hugeHistory)) ∧
    0 ≤ maxHalfWord + 1 ∧
      (Console.run Settings.defaults "" "12:34:56" .ok [] ["-p", "2147483648"]
        "sin(30)/0\n").visible =
        (Session.greeting ++ Session.prompt, .error (.places .tooMany)) := by
  have hlines : Console.linesOf "sin(30)/0\n" = ["sin(30)/0"] := by decide +kernel
  have harguments : Options.ofArguments Settings.defaults ["-p", "2147483648"] =
      .ok (.run { Options.initial Settings.defaults with precision := .value 2147483648 }) := by
    decide +kernel
  refine ⟨⟨by decide, by decide +kernel⟩, by decide, ?_⟩
  rw [Console.run, harguments]
  simp only [hlines]
  decide +kernel

end Program

end Reckoner
