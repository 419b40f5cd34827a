import Mathlib
import Reckoner.Proofs.Console.Session
import Reckoner.Proofs.Log.Setup

/-!
# Answers without Logs

Whatever is logged, and wherever, the answers are the same. Two options are about the
log, and they may stand anywhere on a command line, be abbreviated, and have their
values joined to them or in the next word. If they are taken out, what is left is
understood as before but for the log (`consume_unlogged`), and nothing that is done
looks at what has been taken out (`perform_unlogged`).

So two command lines that differ in these options alone lead to the same output and
to the same end, over any input and any settings, as long as both lead to a level
and to a file that opens, if they lead to a file. No option can name anything else
than a level, and the settings can only by the two names that are known and are no
levels (`hasLevel_of_settings`). What is written differs only in the file that each
of the two logs to.

## Main definitions

* `Switch.isAboutLog`: The options about the log.
* `unlogged`: A command line without them.
* `Options.unlogged`: What it asks for without them.
* `CommandLine.HasLevel`, `CommandLine.Opens`: The command lines whose log can be set up.

## Theorems

* `ofWords_unlogged`: The words that are left are read as before.
* `applyAll_unlogged`: Other options do not look at those about the log.
* `consume_unlogged`: The words that are left ask for the same.
* `hasLevel_of_settings`: Only the settings can name what is no level.
* `answers_unlogged`: Logging never changes an answer.
-/

namespace Reckoner

/-- Whether an option is about the log. -/
def Switch.isAboutLog : Switch → Bool
  | .logLevel => true
  | .logFile => true
  | _ => false

/-- Whether a word is taken out because it is an option about the log, or the value that
    such an option expects. If it is, then with whether a value is expected after it. -/
def Reading.takenOut (expected : Bool) : Reading → Option Bool
  | .option switch _ joined => if switch.isAboutLog then some joined.isNone else none
  | .plain => if expected then some false else none
  | _ => none

/-- A command line without the options about the log and their values. The flag says that
    the next word is such a value. Nothing after a double dash is an option. -/
def unlogged (expected : Bool) : List String → List String
  | [] => []
  | word :: rest =>
    if word = "--" then word :: rest
    else
      match Reading.ofWord word with
      | .error _ => word :: unlogged false rest
      | .ok reading =>
        match reading.takenOut expected with
        | some next => unlogged next rest
        | none => word :: unlogged false rest

/-- The same for words that have been read. -/
def Reading.unlogged (expected : Bool) : List (String × Reading) → List (String × Reading)
  | [] => []
  | (word, reading) :: rest =>
    match reading.takenOut expected with
    | some next => unlogged next rest
    | none => (word, reading) :: unlogged false rest

/-- What the options of a word are given, with a value for the one that waits for it. -/
def Bundle.given (b : Bundle) (value : List Char) : List (Switch × List Char) :=
  match b.waiting with
  | none => b.complete
  | some waiting => b.complete ++ [(waiting, value)]

/-- What is asked for but for the log. -/
def Options.unlogged (o : Options) : Options := { o with logLevel := .absent, logFile := .absent }

/-- What a command line leads to but for the log. -/
def CommandLine.unlogged : CommandLine → CommandLine
  | .run o => .run o.unlogged
  | .help => .help

theorem Switch.isAboutLog_iff {switch : Switch} :
    switch.isAboutLog = true ↔ switch = .logLevel ∨ switch = .logFile := by
  cases switch <;> decide

/-! ## Reading the command line -/

namespace Reading

/-- Where there are no options, none is taken out. -/
theorem unlogged_plain (words : List String) :
    unlogged false (words.map fun w => (w, .plain)) = words.map fun w => (w, .plain) := by
  induction words with
  | nil => rfl
  | cons word words ih => exact congrArg ((word, Reading.plain) :: ·) ih

/-- The words that are left are read as they were among the others. -/
theorem ofWords_unlogged {arguments : List String} {readings : List (String × Reading)}
    (h : ofWords arguments = .ok readings) (expected : Bool) :
    ofWords (Reckoner.unlogged expected arguments) = .ok (unlogged expected readings) := by
  induction arguments generalizing readings expected with
  | nil =>
      cases h
      rfl
  | cons word rest ih =>
      rw [ofWords] at h
      rw [Reckoner.unlogged]
      by_cases hdashes : word = "--"
      · rw [if_pos hdashes] at h ⊢
        cases h
        rw [ofWords, if_pos hdashes]
        rw [unlogged]
        simp only [takenOut, unlogged_plain]
      · rw [if_neg hdashes] at h ⊢
        cases hword : ofWord word with
        | error e =>
            rw [hword] at h
            cases h
        | ok reading =>
            cases hrest : ofWords rest with
            | error e =>
                rw [hword, hrest] at h
                cases h
            | ok readings =>
                rw [hword, hrest] at h
                cases h
                simp only [unlogged]
                cases reading.takenOut expected with
                | some next => exact ih hrest next
                | none =>
                    -- The word is kept, and read once more.
                    simp only [ofWords, if_neg hdashes, hword, ih hrest]
                    rfl

end Reading

/-! ## Acting upon it -/

namespace Options

variable {o next : Options} {switch : Switch} {value : List Char}

/-- An option that is not about the log does not look at those that are. -/
theorem apply_unlogged (o : Options) (h : switch.isAboutLog = false) (value : List Char) :
    o.unlogged.apply switch value = (o.apply switch value).map (Option.map unlogged) := by
  rw [apply, apply]
  by_cases hhollow : value = ['-', '-']
  · simp only [if_pos hhollow]
    cases switch with
    | logLevel => cases h
    | logFile => cases h
    | _ => rfl
  · simp only [if_neg hhollow]
    cases switch with
    | logLevel => cases h
    | logFile => cases h
    | format =>
        simp only [applyValue]
        cases formats.lookup (String.ofList value) <;> rfl
    | precision =>
        simp only [applyValue]
        cases decimalPlaces (String.ofList value) <;> rfl
    | _ => rfl

/-- An option about the log changes nothing else. -/
theorem apply_aboutLog {found : Option Options} (h : switch.isAboutLog = true)
    (happly : o.apply switch value = .ok found) :
    ∃ next, found = some next ∧ next.unlogged = o.unlogged := by
  have htakes : switch.takesValue = true := by
    rcases Switch.isAboutLog_iff.1 h with rfl | rfl <;> rfl
  rw [apply, if_pos htakes] at happly
  by_cases hhollow : value = ['-', '-']
  · rw [if_pos hhollow] at happly
    cases happly
    rcases Switch.isAboutLog_iff.1 h with rfl | rfl <;> exact ⟨_, rfl, rfl⟩
  · rw [if_neg hhollow] at happly
    rcases Switch.isAboutLog_iff.1 h with rfl | rfl
    · rw [applyValue] at happly
      by_cases hlevel : levels.contains (String.ofList value) = true
      · rw [if_pos hlevel] at happly
        cases happly
        exact ⟨_, rfl, rfl⟩
      · rw [if_neg hlevel] at happly
        cases happly
    · cases happly
      exact ⟨_, rfl, rfl⟩

theorem applyAll_aboutLog {found : Option Options} (h : switch.isAboutLog = true)
    (happly : o.applyAll [(switch, value)] = .ok found) :
    ∃ next, found = some next ∧ next.unlogged = o.unlogged := by
  rw [applyAll] at happly
  cases hone : o.apply switch value with
  | error e =>
      rw [hone] at happly
      cases happly
  | ok one =>
      rcases apply_aboutLog h hone with ⟨next, rfl, hnext⟩
      rw [hone] at happly
      cases happly
      exact ⟨next, rfl, hnext⟩

theorem applyAll_unlogged (o : Options) {given : List (Switch × List Char)}
    (h : ∀ g ∈ given, g.1.isAboutLog = false) :
    o.unlogged.applyAll given = (o.applyAll given).map (Option.map unlogged) := by
  induction given generalizing o with
  | nil => rfl
  | cons g given ih =>
      obtain ⟨switch, value⟩ := g
      rw [List.forall_mem_cons] at h
      rw [applyAll, applyAll, apply_unlogged o h.1]
      cases o.apply switch value with
      | error e => rfl
      | ok found =>
          cases found with
          | none => rfl
          | some next => exact ih next h.2

end Options

/-- An option about the log has a word for itself, with its value or without. -/
theorem unbundle_aboutLog {switch : Switch} (h : switch.isAboutLog = true) (short : Bool)
    (joined : Option (List Char)) :
    unbundle switch short joined [] =
      .ok (match joined with
        | none => ⟨[], some switch⟩
        | some value => ⟨[(switch, value)], none⟩) := by
  rw [unbundle.eq_def]
  rcases Switch.isAboutLog_iff.1 h with rfl | rfl <;> cases joined <;> rfl

/-- No option about the log has a spelling of a single letter. -/
theorem isAboutLog_of_letter {c : Char} {switch : Switch}
    (h : Switch.ofSpelling? ['-', c] = some switch) : switch.isAboutLog = false := by
  have hlong : ∀ entry ∈ Switch.table, entry.2.isAboutLog = true → entry.1.length ≠ 2 := by decide
  exact Bool.eq_false_iff.2 fun hlog => hlong _ (mem_of_lookup h) hlog String.length_ofList

/-- An option that is not about the log is bundled with others that are not. -/
theorem unbundle_notAboutLog {switch : Switch} {short : Bool} {joined : Option (List Char)}
    {before : List (Switch × List Char)} {bundle : Bundle} (hswitch : switch.isAboutLog = false)
    (hbefore : ∀ g ∈ before, g.1.isAboutLog = false)
    (h : unbundle switch short joined before = .ok bundle) (value : List Char) :
    ∀ g ∈ bundle.given value, g.1.isAboutLog = false := by
  have hmore : ∀ {before : List (Switch × List Char)} {switch : Switch} (value : List Char),
      (∀ g ∈ before, g.1.isAboutLog = false) → switch.isAboutLog = false →
      ∀ g ∈ before ++ [(switch, value)], g.1.isAboutLog = false := by
    intro before switch value hbefore hswitch
    rw [List.forall_mem_append, List.forall_mem_singleton]
    exact ⟨hbefore, hswitch⟩
  -- In the fifth case a letter without a value is followed by another option.
  fun_induction unbundle switch short joined before with
  | case1 =>
      cases h
      exact hmore value hbefore hswitch
  | case2 =>
      cases h
      exact hmore [] hbefore hswitch
  | case3 =>
      cases h
      exact hmore _ hbefore hswitch
  | case4 => cases h
  | case5 switch before _ c rest following hspelling ih =>
      exact ih (isAboutLog_of_letter hspelling) (hmore [] hbefore hswitch) h
  | case6 => cases h

namespace Options

variable {o next : Options} {leftover : List String} {readings : List (String × Reading)}
  {c : CommandLine}

/-- The options of a word are about the log and change nothing else, or they are not and do
    the same without the others. -/
theorem applyAll_word {switch : Switch} {short : Bool} {joined : Option (List Char)}
    {bundle : Bundle} {found : Option Options} (value : List Char)
    (hbundle : unbundle switch short joined [] = .ok bundle)
    (happly : o.applyAll (bundle.given value) = .ok found) :
    (switch.isAboutLog = true ∧ joined.isNone = bundle.waiting.isSome ∧
        ∃ next, found = some next ∧ next.unlogged = o.unlogged) ∨
      switch.isAboutLog = false ∧
        o.unlogged.applyAll (bundle.given value) = .ok (found.map unlogged) := by
  cases hlog : switch.isAboutLog with
  | true =>
      rw [unbundle_aboutLog hlog] at hbundle
      cases joined <;> cases hbundle <;> exact .inl ⟨rfl, rfl, applyAll_aboutLog hlog happly⟩
  | false =>
      have hgiven := unbundle_notAboutLog hlog (List.forall_mem_nil _) hbundle value
      refine .inr ⟨rfl, ?_⟩
      rw [applyAll_unlogged o hgiven, happly]
      rfl

/-- Without the options about the log a command line asks for the same but for the log. The
    induction is on the words as they are acted upon. -/
theorem consume_unlogged (h : o.consume leftover readings = .ok c) :
    o.unlogged.consume leftover (Reading.unlogged false readings) = .ok c.unlogged := by
  fun_induction Options.consume o leftover readings with
  | case1 o leftover hempty =>
      cases h
      rw [Reading.unlogged, consume, if_pos hempty]
      rfl
  | case2 => cases h
  | case3 => cases h
  | case4 => cases h
  | case5 o leftover word rest switch short joined complete hbundle happly =>
      -- Help is asked for, which no option about the log does.
      cases h
      rcases applyAll_word [] hbundle happly with ⟨-, -, next, hnext, -⟩ | ⟨hlog, hfound⟩
      · cases hnext
      · simp only [Reading.unlogged, Reading.takenOut, hlog, Bool.false_eq_true, if_false]
        simp only [Bundle.given] at hfound
        rw [consume]
        simp only [hbundle, hfound]
        rfl
  | case6 o leftover word rest switch short joined complete hbundle next happly ih =>
      -- A word with all that its options need.
      rcases applyAll_word [] hbundle happly with ⟨hlog, hjoined, _, ⟨⟩, hnext⟩ | ⟨hlog, hfound⟩
      · simp only [Reading.unlogged, Reading.takenOut, hlog, if_true, hjoined]
        rw [← hnext]
        exact ih h
      · simp only [Reading.unlogged, Reading.takenOut, hlog, Bool.false_eq_true, if_false]
        simp only [Bundle.given] at hfound
        rw [consume]
        simp only [hbundle, hfound]
        exact ih h
  | case7 => cases h
  | case8 o leftover word switch short joined complete waiting hbundle value rest happly =>
      -- The same two with the value of the last option in the next word.
      cases h
      rcases applyAll_word value.toList hbundle happly with ⟨-, -, next, hnext, -⟩ | ⟨hlog, hfound⟩
      · cases hnext
      · simp only [Reading.unlogged, Reading.takenOut, hlog, Bool.false_eq_true, if_false]
        simp only [Bundle.given] at hfound
        rw [consume]
        simp only [hbundle, hfound]
        rfl
  | case9 o leftover word switch short joined complete waiting hbundle value rest next happly ih =>
      rcases applyAll_word value.toList hbundle happly with
        ⟨hlog, hjoined, _, ⟨⟩, hnext⟩ | ⟨hlog, hfound⟩
      · -- The value goes with its option.
        simp only [Reading.unlogged, Reading.takenOut, hlog, if_true, hjoined, Option.isSome_some]
        rw [← hnext]
        exact ih h
      · simp only [Reading.unlogged, Reading.takenOut, hlog, Bool.false_eq_true, if_false]
        simp only [Bundle.given] at hfound
        rw [consume]
        simp only [hbundle, hfound]
        exact ih h
  | case10 => cases h
  | case11 o leftover word reading rest hoption ih =>
      -- Any other word is left over, and is kept.
      have hkept : reading.takenOut false = none := by
        cases reading with
        | option switch short joined => exact absurd rfl (hoption switch short joined)
        | _ => rfl
      simp only [Reading.unlogged, hkept]
      rw [consume.eq_def]
      cases reading with
      | option switch short joined => exact absurd rfl (hoption switch short joined)
      | _ => exact ih h

/-- A command line that can be read asks for the same, but for the log, without the options
    about it. -/
theorem ofArguments_unlogged {settings : Settings} {arguments : List String}
    (h : ofArguments settings arguments = .ok c) :
    ∃ readings, Reading.ofWords (Reckoner.unlogged false arguments) = .ok readings ∧
      (initial settings).unlogged.consume [] readings = .ok c.unlogged := by
  rw [ofArguments] at h
  cases hread : Reading.ofWords arguments with
  | error e =>
      rw [hread] at h
      cases h
  | ok readings =>
      rw [hread] at h
      exact ⟨_, Reading.ofWords_unlogged hread false, consume_unlogged h⟩

end Options

/-! ## Doing it -/

/-- The level that a command line leads to is one, be it named by an option or by the
    settings. -/
def CommandLine.HasLevel (settings : Settings) : CommandLine → Prop
  | .run o => ∃ level, Logger.chosenLevel settings o.logLevel.toOption = .ok level
  | .help => True

/-- The name of the file that a command line leads to, be it given by an option or by the
    settings. -/
def CommandLine.logFile (settings : Settings) : CommandLine → Option String
  | .run o => Logger.chosenFile settings o.logFile.toOption
  | .help => none

/-- The file that a command line leads to opens, if there is one. -/
def CommandLine.Opens (settings : Settings) (disk : Disk) (c : CommandLine) : Prop :=
  ∀ name, c.logFile settings = some name → ∃ file, disk name = .ok file

namespace Options

variable {settings : Settings} {o next : Options} {switch : Switch} {value : List Char}
  {leftover : List String} {readings : List (String × Reading)} {c : CommandLine}

/-- Other options leave the level alone. -/
theorem logLevel_of_apply (hswitch : switch ≠ .logLevel)
    (h : o.apply switch value = .ok (some next)) : next.logLevel = o.logLevel := by
  rw [apply] at h
  by_cases hhollow : value = ['-', '-']
  · simp only [if_pos hhollow] at h
    cases switch with
    | logLevel => exact absurd rfl hswitch
    | _ => cases h <;> rfl
  · simp only [if_neg hhollow] at h
    cases switch with
    | logLevel => exact absurd rfl hswitch
    | format =>
        simp only [applyValue] at h
        cases hformat : formats.lookup (String.ofList value) <;> rw [hformat] at h <;> cases h
        rfl
    | precision =>
        simp only [applyValue] at h
        cases hplaces : decimalPlaces (String.ofList value) <;> rw [hplaces] at h <;> cases h
        rfl
    | _ => cases h <;> rfl

theorem chosenLevel_of_mem_levels {name : String} (h : name ∈ levels) :
    ∃ level, Logger.chosenLevel settings (some name) = .ok level := by
  have hnamed : ∀ name ∈ levels, name.isEmpty = false ∧
      (Level.called (Text.upper name)).toOption.isSome = true := by decide +kernel
  rcases hnamed name h with ⟨hempty, hsome⟩
  have hchosen : Logger.nonempty (some name) = some name := by
    rw [Logger.nonempty, Option.filter_some, hempty]
    rfl
  rw [Logger.chosenLevel, hchosen, Option.getD_some]
  cases hcalled : Level.called (Text.upper name) with
  | ok level => exact ⟨level, rfl⟩
  | error f =>
      rw [hcalled] at hsome
      cases hsome

/-- The levels that may be chosen are levels, so only the settings can name another. -/
theorem hasLevel_apply (hsettings : ∃ level, Logger.chosenLevel settings none = .ok level)
    (ho : (CommandLine.run o).HasLevel settings) (h : o.apply switch value = .ok (some next)) :
    (CommandLine.run next).HasLevel settings := by
  by_cases hswitch : switch = .logLevel
  · subst hswitch
    rw [apply, if_pos (by decide)] at h
    by_cases hhollow : value = ['-', '-']
    · rw [if_pos hhollow] at h
      cases h
      exact hsettings
    · rw [if_neg hhollow, applyValue] at h
      by_cases hchoice : levels.contains (String.ofList value) = true
      · rw [if_pos hchoice] at h
        cases h
        exact chosenLevel_of_mem_levels (List.contains_iff_mem.1 hchoice)
      · rw [if_neg hchoice] at h
        cases h
  · rw [CommandLine.HasLevel, logLevel_of_apply hswitch h]
    exact ho

theorem hasLevel_applyAll {given : List (Switch × List Char)}
    (hsettings : ∃ level, Logger.chosenLevel settings none = .ok level)
    (ho : (CommandLine.run o).HasLevel settings) (h : o.applyAll given = .ok (some next)) :
    (CommandLine.run next).HasLevel settings := by
  induction given generalizing o with
  | nil =>
      cases h
      exact ho
  | cons g given ih =>
      obtain ⟨switch, value⟩ := g
      rw [applyAll] at h
      cases hone : o.apply switch value with
      | error e =>
          rw [hone] at h
          cases h
      | ok found =>
          rw [hone] at h
          cases found with
          | none => cases h
          | some one => exact ih (hasLevel_apply hsettings ho hone) h

theorem hasLevel_consume (hsettings : ∃ level, Logger.chosenLevel settings none = .ok level)
    (ho : (CommandLine.run o).HasLevel settings) (h : o.consume leftover readings = .ok c) :
    c.HasLevel settings := by
  fun_induction consume o leftover readings with
  | case1 =>
      cases h
      exact ho
  | case2 => cases h
  | case3 => cases h
  | case4 => cases h
  | case5 =>
      cases h
      trivial
  | case6 _ _ _ _ _ _ _ _ _ _ happly ih => exact ih (hasLevel_applyAll hsettings ho happly) h
  | case7 => cases h
  | case8 =>
      cases h
      trivial
  | case9 _ _ _ _ _ _ _ _ _ _ _ _ happly ih =>
      exact ih (hasLevel_applyAll hsettings ho happly) h
  | case10 => cases h
  | case11 _ _ _ _ _ _ ih => exact ih ho h

/-- If the level of the settings is one, every command line leads to a level. -/
theorem hasLevel_of_settings {arguments : List String}
    (hsettings : ∃ level, Logger.chosenLevel settings none = .ok level)
    (h : ofArguments settings arguments = .ok c) : c.HasLevel settings := by
  have hinitial : (CommandLine.run (initial settings)).HasLevel settings := by
    rcases hsettings with ⟨level, hlevel⟩
    refine ⟨level, ?_⟩
    -- The level of the settings is the default value of the option.
    have hdefault : (Logger.nonempty (some settings.logLevel)).getD settings.logLevel =
        settings.logLevel := by
      rw [Logger.nonempty, Option.filter_some]
      split <;> rfl
    show Logger.chosenLevel settings (some settings.logLevel) = .ok level
    rw [Logger.chosenLevel, hdefault]
    exact hlevel
  rw [ofArguments] at h
  split at h
  · cases h
  · exact hasLevel_consume hsettings hinitial h

end Options

namespace Console

variable {settings : Settings} {arguments : List String} {c : CommandLine}

/-- Nothing that is done looks at the options about the log. -/
theorem perform_unlogged [Numerics] (settings : Settings) (o : Options) (clock : String)
    (lines : List String) :
    perform settings o.unlogged clock lines = perform settings o clock lines := rfl

/-- What is visible of a run, when its options are known but for the log. -/
def visibleOf [Numerics] (settings : Settings) (clock input : String) :
    CommandLine → String × Except Fault Nat
  | .run o =>
    let done := perform settings o clock (linesOf input)
    (done.transcript.output, done.ending)
  | .help => (helpText, .ok 0)

/-- A log that has a level, and whose file opens if it has one, can be set up. -/
theorem exists_setup {disk : Disk} {o : Options} (hlevel : (CommandLine.run o).HasLevel settings)
    (hopens : (CommandLine.run o).Opens settings disk) :
    ∃ l, Logger.setup disk settings o.logLevel.toOption o.logFile.toOption = (l, .ok ()) :=
  ⟨_, Prod.ext rfl ((Logger.setupFrom_outcome .fresh disk settings _ _).2 ⟨hlevel, hopens⟩)⟩

theorem visible_eq [Numerics] (stamp clock : String) {disk : Disk} (files : Files) (input : String)
    (h : Options.ofArguments settings arguments = .ok c) (hlevel : c.HasLevel settings)
    (hopens : c.Opens settings disk) :
    (run settings stamp clock disk files arguments input).visible =
      visibleOf settings clock input c.unlogged := by
  cases c with
  | help =>
      rw [run, h]
      rfl
  | run o =>
      rcases exists_setup hlevel hopens with ⟨l, hsetup⟩
      rw [visible_run stamp clock files input h hsetup, CommandLine.unlogged, visibleOf]
      simp only [perform_unlogged]

/-- A run writes to no file but the one that its log leads to, however it ends. -/
theorem content?_run [Numerics] (stamp clock : String) {disk : Disk} (files : Files)
    (input : String) {file : String} (h : Options.ofArguments settings arguments = .ok c)
    (hfile : ∀ name, c.logFile settings = some name → disk name ≠ .ok file) :
    (run settings stamp clock disk files arguments input).files.content? file =
      files.content? file := by
  rw [run, h]
  cases c with
  | help => rfl
  | run o =>
      simp only [runOptions]
      rcases hsetup : Logger.setup disk settings o.logLevel.toOption o.logFile.toOption with
        ⟨l, f | ⟨⟩⟩
      · rfl
      · rcases Logger.fitted_setup hsetup with ⟨g, hasked, hfitted⟩
        have hhandlers : .file file ∉ l.handlers := by
          rw [hfitted.handlers, Regime.file_mem_places, Regime.file_of_asked hasked,
            Option.bind_eq_some_iff]
          rintro ⟨name, hname, hopened⟩
          refine hfile name hname ?_
          cases hdisk : disk name <;> rw [hdisk] at hopened <;> cases hopened
          rfl
        exact (Logger.content?_toFile hhandlers _ _ _).trans
          (Logger.content?_openFile hhandlers files)

end Console

/-- Logging never changes an answer. Two command lines without mistakes that differ only in the
    options about the log, both with a level and with a file that opens if they have one, lead
    to the same output and to the same exit code or fault, over all settings and every input.
    What is written differs only in the files that they log to, and no other file is touched. -/
theorem answers_unlogged [Numerics] (settings : Settings) (stamp stamp' clock : String)
    (disk disk' : Disk) (files files' : Files) (input : String) (arguments arguments' : List String)
    (c c' : CommandLine) (hsame : unlogged false arguments = unlogged false arguments')
    (h : Options.ofArguments settings arguments = .ok c)
    (h' : Options.ofArguments settings arguments' = .ok c')
    (hlevel : c.HasLevel settings) (hlevel' : c'.HasLevel settings)
    (hopens : c.Opens settings disk) (hopens' : c'.Opens settings disk') :
    (Console.run settings stamp clock disk files arguments input).visible =
        (Console.run settings stamp' clock disk' files' arguments' input).visible ∧
      ∀ file, (∀ name, c.logFile settings = some name → disk name ≠ .ok file) →
        (Console.run settings stamp clock disk files arguments input).files.content? file =
          files.content? file := by
  refine ⟨?_, fun file hfile => Console.content?_run stamp clock files input h hfile⟩
  rcases Options.ofArguments_unlogged h with ⟨readings, hread, hconsume⟩
  rcases Options.ofArguments_unlogged h' with ⟨readings', hread', hconsume'⟩
  -- What is left of both is read the same, so both ask for the same.
  have hunlogged : c.unlogged = c'.unlogged := by
    rw [hsame, hread'] at hread
    cases hread
    rw [hconsume'] at hconsume
    exact (Except.ok.inj hconsume).symm
  rw [Console.visible_eq stamp clock files input h hlevel hopens,
    Console.visible_eq stamp' clock files' input h' hlevel' hopens', hunlogged]

/-- The same session with two logs. One option is abbreviated and has its value joined to it,
    another stands between others. -/
def loggedSession : List String :=
  ["--log-l=DEBUG", "-p", "3", "--log-file", "calc.log", "--format", "human"]

theorem answers_unlogged_session :
    unlogged false loggedSession = ["-p", "3", "--format", "human"] ∧
    (Console.run Settings.defaults "08:00" "12:34:56" plainDisk [] loggedSession
        "sqrt(2)\n1/0\n").visible =
      (Console.run Settings.defaults "09:00" "12:34:56" plainDisk []
        ["-p", "3", "--format", "human", "--log-level", "ERROR"] "sqrt(2)\n1/0\n").visible := by
  have hleft : unlogged false loggedSession = ["-p", "3", "--format", "human"] := by decide +kernel
  have hother : unlogged false ["-p", "3", "--format", "human", "--log-level", "ERROR"] =
      ["-p", "3", "--format", "human"] := by decide +kernel
  have hread : Options.ofArguments Settings.defaults loggedSession =
      .ok (.run { Options.initial Settings.defaults with
        precision := .value 3, logLevel := .value "DEBUG", logFile := .value "calc.log" }) := by
    decide +kernel
  have hread' : Options.ofArguments Settings.defaults
      ["-p", "3", "--format", "human", "--log-level", "ERROR"] =
      .ok (.run { Options.initial Settings.defaults with
        precision := .value 3, logLevel := .value "ERROR" }) := by decide +kernel
  have hsettings : ∃ level, Logger.chosenLevel Settings.defaults none = .ok level :=
    ⟨.warning, by decide +kernel⟩
  refine ⟨hleft, (answers_unlogged Settings.defaults "08:00" "09:00" "12:34:56" plainDisk plainDisk
    [] [] "sqrt(2)\n1/0\n" loggedSession _ _ _ (hleft.trans hother.symm) hread hread'
    (Options.hasLevel_of_settings hsettings hread)
    (Options.hasLevel_of_settings hsettings hread') ?_ ?_).1⟩
  · intro name hname
    cases hname
    exact ⟨"calc.log", by decide⟩
  · intro name hname
    cases hname

end Reckoner
