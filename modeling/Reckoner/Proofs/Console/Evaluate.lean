import Mathlib
import Reckoner.Proofs.Console.Session

/-!
# Expressions on the Command Line

An expression can be given on the command line, and it is answered there as it is
anywhere else, with an exit code that says whether it was solved. That is so for every
expression that gets through the reading of the command line. One that starts with a
minus may not get through. The words of a command line are classified before anybody
asks which of them is the value of an option, and a word that starts with a dash is
taken for an option, unless it is a plain negative number or has a space in it
(`ofWord_minus_iff`).

So a negated parenthesis is refused as a value, although it is an expression, and it is
answered when it is joined to the option by an equals sign (`evaluate_answers`).
`evaluate_refuses_negation` is the shortest such run.

## Main definitions

* `Format.word`: A format as it is chosen on the command line.
* `told`: What is printed about a text, and the exit code.
* `separate`, `joined`: The two ways to ask for the answer to a text.

## Theorems

* `readInteger_toString`: A numeral is read as its number.
* `ofWord_minus_iff`: Which words are no options although they start with a dash.
* `ofArguments_separate`, `ofArguments_joined`: How the two ways are understood.
* `evaluate_answers`: A text that gets through is answered.
-/

namespace Reckoner

namespace Text

/-- A plain digit is worth what it is in a plain numeral. -/
theorem digitValue?_of_isDigit {c : Char} (h : c.isDigit = true) :
    digitValue? c = some (c.toNat - '0'.toNat) := by
  have hrange : 0x30 ≤ c.toNat ∧ c.toNat ≤ 0x30 + 9 := by
    simp only [Char.isDigit, Bool.and_eq_true, decide_eq_true_eq, ge_iff_le,
      UInt32.le_iff_toNat_le] at h
    exact h
  have hfind : (decimalZeros.find? fun start => start ≤ c.toNat && c.toNat ≤ start + 9) =
      some 0x30 := List.find?_cons_of_pos (by simpa using hrange)
  rw [digitValue?, hfind]
  rfl

theorem digitRow?_of_isDigit {cs : List Char} (hne : cs ≠ [])
    (h : ∀ c ∈ cs, c.isDigit = true) :
    digitRow? cs = some (cs.map fun c => c.toNat - '0'.toNat) := by
  induction cs with
  | nil => exact absurd rfl hne
  | cons c rest ih =>
      have hc := digitValue?_of_isDigit (h c (.head _))
      cases rest with
      | nil => rw [digitRow?, hc]; rfl
      | cons d rest =>
          have hd : d ≠ '_' := by
            rintro rfl
            exact absurd (h '_' (.tail _ (.head _))) (by decide)
          rw [digitRow?.eq_4 _ _ (by simp) (by rintro _ ⟨⟩; exact hd rfl), hc,
            ih (by simp) fun e he => h e (.tail _ he)]
          rfl

/-- A numeral is read as the number that it is of, if it is not too long. -/
theorem readInteger_toString {n : Nat} (h : (toString n).length ≤ digitLimit) :
    readInteger (toString n) = .ok n := by
  have hchars : (toString n).toList = Nat.toDigits 10 n := Nat.toList_repr
  have hdigits : ∀ c ∈ Nat.toDigits 10 n, c.isDigit = true := fun c hc =>
    Nat.isDigit_of_mem_toDigits (by decide) (by decide) hc
  have hne : Nat.toDigits 10 n ≠ [] := Nat.toDigits_ne_nil
  have hblank : ∀ c, c.isDigit = true → isIntegerBlank c = false := fun c hc => by
    rw [isIntegerBlank, Lexical.isBlank_of_isDigit hc, Bool.false_and]
  have hstrip : stripBy isIntegerBlank (Nat.toDigits 10 n) = Nat.toDigits 10 n :=
    Lexical.stripBy_eq_self (fun c hc => hblank c (hdigits c (List.mem_of_mem_head? hc)))
      fun c hc => hblank c (hdigits c (List.mem_of_mem_getLast? hc))
  have hrow : ∀ c ∈ Nat.toDigits 10 n, inRow c = true := fun c hc => by
    rw [inRow, digitValue?_of_isDigit (hdigits c hc)]
    rfl
  have htake : (Nat.toDigits 10 n).takeWhile inRow = Nat.toDigits 10 n :=
    List.takeWhile_eq_self_iff.2 hrow
  have hdrop : (Nat.toDigits 10 n).dropWhile inRow = [] := dropWhile_eq_nil_iff.2 hrow
  have hvalue : ((Nat.toDigits 10 n).map fun c => c.toNat - '0'.toNat).foldl
      (fun value d => 10 * value + d) 0 = n := by
    rw [List.foldl_map]
    exact Nat.ofDigitChars_ten_toDigits
  have hsign : ∀ c rest, Nat.toDigits 10 n = c :: rest → c ≠ '-' ∧ c ≠ '+' := by
    intro c rest hcons
    have hc := hdigits c (by rw [hcons]; exact .head _)
    constructor <;> (rintro rfl; exact absurd hc (by decide))
  rw [← String.length_toList, hchars] at h
  rw [readInteger, hchars, hstrip]
  split
  rename_i sign rest hparts
  -- A numeral starts with a digit, so no sign is cut off.
  have hunsigned : sign = 1 ∧ rest = Nat.toDigits 10 n := by
    split at hparts
    · exact absurd rfl (hsign _ _ ‹_›).1
    · exact absurd rfl (hsign _ _ ‹_›).2
    · exact ⟨congrArg Prod.fst hparts.symm, congrArg Prod.snd hparts.symm⟩
  rcases hunsigned with ⟨rfl, rfl⟩
  rw [htake, hdrop, digitRow?_of_isDigit hne hdigits]
  simp only [List.length_map, Nat.not_lt.2 h, if_false, List.isEmpty_nil, if_true, hvalue, one_mul]

end Text

theorem decimalPlaces_toString {n : Nat} (h : (toString n).length ≤ Text.digitLimit) :
    decimalPlaces (toString n) = .ok n := by
  rw [decimalPlaces, Text.readInteger_toString h]
  simp only [Int.not_lt.2 (Int.natCast_nonneg n), if_false]

namespace Reading

variable {word : String} {stem : List Char} {c : Char} {rest : List Char}

/-- A word that does not start with a dash is no option. -/
theorem ofWord_of_head (h : word.toList.head? ≠ some '-') : ofWord word = .ok .plain := by
  rw [ofWord]
  split
  · rename_i hword
    rw [hword] at h
    exact absurd rfl h
  · rfl

/-- The letters of options and the dash of the long ones. -/
def seconds : List Char := ['-', 'h', 'e', 'p', 'v']

/-- Every spelling of an option goes on with one of them. -/
theorem second_of_mem_table {entry : String × Switch} (h : entry ∈ Switch.table) :
    ∃ d ∈ seconds, entry.1.toList[1]? = some d := by
  have hall : ∀ entry ∈ Switch.table, (entry.1.toList[1]?.any seconds.contains) = true := by decide
  rcases (Option.any_eq_true_iff_get _ _).1 (hall entry h) with ⟨hsome, hmem⟩
  exact ⟨_, List.contains_iff_mem.1 hmem, (Option.some_get hsome).symm⟩

/-- What goes on like no option is none. -/
theorem ofSpelling?_eq_none (h : ∀ d ∈ seconds, stem[1]? ≠ some d) :
    Switch.ofSpelling? stem = none := by
  refine List.lookup_eq_none_iff.2 fun entry hentry => ?_
  rcases second_of_mem_table hentry with ⟨d, hd, hsecond⟩
  rw [bne_iff_ne]
  rintro hspelling
  rw [← hspelling, String.toList_ofList] at hsecond
  exact h d hd hsecond

theorem candidates_eq_nil (hc : c ∉ seconds) : candidates ('-' :: c :: rest) = [] := by
  have hshort : isShort ('-' :: c :: rest) = true := by
    rw [isShort]
    rintro _ _ ⟨⟩
    exact hc (.head _)
  rw [candidates, if_pos hshort, List.map_eq_nil_iff, List.filter_eq_nil_iff]
  intro entry hentry hspelling
  rcases second_of_mem_table hentry with ⟨d, hd, hsecond⟩
  rw [beq_iff_eq.1 hspelling] at hsecond
  cases hsecond
  exact hc hd

theorem splitAssignment_second (hc : c ∉ seconds) :
    ∀ d ∈ seconds, (splitAssignment ('-' :: c :: rest)).1[1]? ≠ some d := by
  intro d hd hsecond
  rw [splitAssignment] at hsecond
  split at hsecond
  · cases hsecond
    exact hc hd
  · by_cases hassign : c = '='
    · subst hassign
      cases hsecond
    · simp [hassign] at hsecond
      subst hsecond
      exact hc hd

/-- A word that starts with a dash and goes on like no option is plain if it is a negative
    number or has a space in it. -/
theorem ofWord_minus (hword : word.toList = '-' :: c :: rest) (hc : c ∉ seconds) :
    ofWord word = .ok
      (if isNegativeNumber word.toList || word.toList.contains ' ' then .plain else .unknown) := by
  have hsecond : ∀ d ∈ seconds, ('-' :: c :: rest)[1]? ≠ some d := by
    rintro d hd ⟨⟩
    exact hc hd
  rw [ofWord, hword]
  simp only [ofDashed, ofSpelling?_eq_none hsecond,
    ofSpelling?_eq_none (splitAssignment_second hc), candidates_eq_nil hc]
  split
  · contradiction
  · rfl

theorem ofWord_minus_iff (hword : word.toList = '-' :: c :: rest) (hc : c ∉ seconds) :
    ofWord word = .ok .plain ↔
      isNegativeNumber word.toList = true ∨ ' ' ∈ word.toList := by
  rw [ofWord_minus hword hc]
  cases hplain : isNegativeNumber word.toList || word.toList.contains ' ' with
  | true =>
      rw [Bool.or_eq_true, List.contains_iff_mem] at hplain
      simp [hplain]
  | false =>
      rw [Bool.or_eq_false_iff] at hplain
      simpa [hplain.1] using hplain.2

/-- A value that is joined to its option by an equals sign gets through whatever it is. -/
theorem ofWord_joined (text : String) :
    ofWord ("--eval=" ++ text) = .ok (.option .expression false (some text.toList)) := by
  have hword : ("--eval=" ++ text).toList =
      '-' :: '-' :: 'e' :: 'v' :: 'a' :: 'l' :: '=' :: text.toList := by
    rw [String.toList_append]
    rfl
  have hnone : Switch.ofSpelling? ('-' :: '-' :: 'e' :: 'v' :: 'a' :: 'l' :: '=' :: text.toList) =
      none := by
    refine List.lookup_eq_none_iff.2 fun entry hentry => ?_
    -- No option is spelled with an equals sign.
    have hall : ∀ entry ∈ Switch.table, '=' ∉ entry.1.toList := by decide
    rw [bne_iff_ne]
    intro hspelling
    refine hall entry hentry ?_
    rw [← hspelling, String.toList_ofList]
    simp
  have hsplit : splitAssignment ('-' :: '-' :: 'e' :: 'v' :: 'a' :: 'l' :: '=' :: text.toList) =
      ("--eval".toList, some text.toList) := rfl
  have hstem : Switch.ofSpelling? "--eval".toList = some .expression := by decide
  rw [ofWord, hword]
  simp only [ofDashed, hnone, hsplit, hstem]
  rfl

end Reading

/-- A format as it is chosen on the command line. -/
def Format.word : Format → String
  | .human => "human"
  | .json => "json"

/-- The two ways to ask for the answer to a text: as the word after the option, or joined
    to it. The format and the number of decimal places follow. -/
def separate (text : String) (format : Format) (places : Nat) : List String :=
  ["-e", text, "--format", format.word, "-p", toString places]

def joined (text : String) (format : Format) (places : Nat) : List String :=
  ["--eval=" ++ text, "--format", format.word, "-p", toString places]

/-- What a command line with the answer to a text asks for. -/
def Options.asking (settings : Settings) (text : String) (format : Format) (places : Nat) :
    Options :=
  { Options.initial settings with
    expression := .value text, format := .value format, precision := .value places }

section Arguments

variable {settings : Settings} {text : String} {format : Format} {places : Nat} {o next : Options}
  {switch : Switch} {value : String}

/-- An option with a value that it accepts. -/
theorem applyAll_value (hswitch : switch.takesValue = true) (hvalue : value ≠ "--")
    (h : o.applyValue switch value = .ok next) :
    o.applyAll [(switch, value.toList)] = .ok (some next) := by
  have hdashes : value.toList ≠ ['-', '-'] := fun hdashes =>
    hvalue (by rw [← String.ofList_toList (s := value), hdashes])
  simp only [Options.applyAll, Options.apply, hswitch, if_true, if_neg hdashes,
    String.ofList_toList, h, Except.map]

/-- An option and the word after it that is its value. -/
theorem consume_value (leftover : List String) (word : String) (short : Bool)
    (rest : List (String × Reading)) (hswitch : switch.takesValue = true) (hvalue : value ≠ "--")
    (h : o.applyValue switch value = .ok next) :
    o.consume leftover ((word, .option switch short none) :: (value, .plain) :: rest) =
      next.consume leftover rest := by
  rw [Options.consume, unbundle]
  simp only [hswitch, if_true, List.nil_append, applyAll_value hswitch hvalue h]

/-- An option and its value in one word. -/
theorem consume_joined (leftover : List String) (word : String)
    (rest : List (String × Reading)) (hswitch : switch.takesValue = true) (hvalue : value ≠ "--")
    (h : o.applyValue switch value = .ok next) :
    o.consume leftover ((word, .option switch false (some value.toList)) :: rest) =
      next.consume leftover rest := by
  rw [Options.consume, unbundle.eq_def]
  simp only [hswitch, if_true, List.nil_append, applyAll_value hswitch hvalue h]

/-- A numeral is a plain word. -/
theorem ofWord_toString (places : Nat) :
    Reading.ofWord (toString places) = .ok .plain ∧ toString places ≠ "--" := by
  have hdash : '-' ∉ (toString places).toList := by
    intro hmem
    rw [show (toString places).toList = Nat.toDigits 10 places from Nat.toList_repr] at hmem
    exact absurd (Nat.isDigit_of_mem_toDigits (by decide) (by decide) hmem) (by decide)
  refine ⟨Reading.ofWord_of_head fun hhead => hdash (List.mem_of_mem_head? hhead),
    fun hdashes => ?_⟩
  rw [hdashes] at hdash
  exact hdash (by decide)

/-- The readings of the words after the expression. -/
def restReadings (format : Format) (places : Nat) : List (String × Reading) :=
  [("--format", .option .format false none), (format.word, .plain),
    ("-p", .option .precision true none), (toString places, .plain)]

theorem ofWords_cons {word : String} {words : List String} {reading : Reading}
    {readings : List (String × Reading)} (hword : word ≠ "--")
    (h : Reading.ofWord word = .ok reading) (hwords : Reading.ofWords words = .ok readings) :
    Reading.ofWords (word :: words) = .ok ((word, reading) :: readings) := by
  rw [Reading.ofWords, if_neg hword, h, hwords]
  rfl

theorem ofWords_rest (format : Format) (places : Nat) :
    Reading.ofWords ["--format", format.word, "-p", toString places] =
      .ok (restReadings format places) := by
  have hformat : Reading.ofWord format.word = .ok .plain ∧ format.word ≠ "--" := by
    cases format <;> decide
  have hplaces := ofWord_toString places
  exact ofWords_cons (by decide) (by decide) <| ofWords_cons hformat.2 hformat.1 <|
    ofWords_cons (by decide) (by decide) <| ofWords_cons hplaces.2 hplaces.1 rfl

/-- The format and the number of decimal places are read as they are. -/
theorem consume_rest (o : Options) (format : Format)
    (hdigits : (toString places).length ≤ Text.digitLimit) :
    o.consume [] (restReadings format places) =
      .ok (.run { o with format := .value format, precision := .value places }) := by
  have hformat : o.applyValue .format format.word = .ok { o with format := .value format } := by
    cases format <;> rfl
  have hplaces : ∀ o : Options, o.applyValue .precision (toString places) =
      .ok { o with precision := .value places } := by
    intro o
    simp only [Options.applyValue, decimalPlaces_toString hdigits]
  rw [restReadings, consume_value _ _ _ _ rfl (by cases format <;> decide) hformat,
    consume_value _ _ _ _ rfl (ofWord_toString places).2 (hplaces _)]
  rfl

/-- An expression that is a plain word is understood as one. -/
theorem ofArguments_separate (settings : Settings) (format : Format)
    (hdigits : (toString places).length ≤ Text.digitLimit)
    (hplain : Reading.ofWord text = .ok .plain) (htext : text ≠ "--") :
    Options.ofArguments settings (separate text format places) =
      .ok (.run (Options.asking settings text format places)) := by
  have hwords : Reading.ofWords (separate text format places) =
      .ok (("-e", .option .expression true none) :: (text, .plain) :: restReadings format places) :=
    ofWords_cons (by decide) (by decide) <| ofWords_cons htext hplain <| ofWords_rest format places
  rw [Options.ofArguments, hwords]
  simp only []
  rw [consume_value _ _ _ _ rfl htext rfl, consume_rest _ _ hdigits]
  rfl

/-- An expression that is joined to the option is understood as one. -/
theorem ofArguments_joined (settings : Settings) (format : Format)
    (hdigits : (toString places).length ≤ Text.digitLimit) (htext : text ≠ "--") :
    Options.ofArguments settings (joined text format places) =
      .ok (.run (Options.asking settings text format places)) := by
  have hne : "--eval=" ++ text ≠ "--" := by
    intro h
    have hlength := congrArg String.length h
    have hlong : ("--eval=".length, "--".length) = (7, 2) := by decide
    rw [String.length_append, (Prod.mk.inj hlong).1, (Prod.mk.inj hlong).2] at hlength
    omega
  have hwords : Reading.ofWords (joined text format places) =
      .ok (("--eval=" ++ text, .option .expression false (some text.toList)) ::
        restReadings format places) :=
    ofWords_cons hne (Reading.ofWord_joined text) <| ofWords_rest format places
  rw [Options.ofArguments, hwords]
  simp only []
  rw [consume_joined _ _ _ rfl htext rfl, consume_rest _ _ hdigits]
  rfl

/-- What is no plain word is not the value of the option before it. -/
theorem ofArguments_refused (settings : Settings) (format : Format) (places : Nat)
    (h : ¬ (Reading.ofWord text = .ok .plain ∧ text ≠ "--")) :
    ∃ e, Options.ofArguments settings (separate text format places) = .error e := by
  have hdash : Reading.ofWord "-e" = .ok (.option .expression true none) := by decide
  -- Whatever else it is read as, the option before it is left waiting.
  have hwaiting : ∀ {reading : Reading} {readings : List (String × Reading)}, reading ≠ .plain →
      Reading.ofWords (text :: ["--format", format.word, "-p", toString places]) =
        .ok ((text, reading) :: readings) →
      Options.ofArguments settings (separate text format places) =
        .error (.expectedValue .expression) := by
    intro reading readings hreading hwords
    rw [Options.ofArguments, separate, ofWords_cons (by decide) hdash hwords]
    simp only []
    rw [Options.consume, unbundle]
    cases reading with
    | plain => exact absurd rfl hreading
    | _ => rfl
  by_cases htext : text = "--"
  · exact ⟨_, @hwaiting .terminator _ (by rintro ⟨⟩) (by rw [Reading.ofWords, if_pos htext])⟩
  cases hread : Reading.ofWord text with
  | ok reading =>
      have hreading : reading ≠ .plain := by
        rintro rfl
        exact h ⟨hread, htext⟩
      exact ⟨_, hwaiting hreading (ofWords_cons htext hread (ofWords_rest format places))⟩
  | error e =>
      refine ⟨e, ?_⟩
      rw [Options.ofArguments, separate, Reading.ofWords, if_neg (by decide), hdash,
        Reading.ofWords, if_neg htext, hread]
      rfl

end Arguments

/-- What is printed about a text, with the exit code that goes with it or the fault that there
    is in place of an answer. -/
def told [Numerics] (settings : Settings) (places : Option Int) (format : Format) (text : String) :
    String × Except Fault Nat :=
  match answer settings places text with
  | .error f => ("", .error f)
  | .ok a =>
    match a.printed format with
    | .error f => ("", .error f)
    | .ok shown => (shown, .ok (if a.ok then 0 else 1))

/-- An answer repeats the text that it is to. -/
theorem expression_of_answer [Numerics] {settings : Settings} {places : Option Int} {text : String}
    {a : Answer} (h : answer settings places text = .ok a) : a.expression = text := by
  rcases answer_cases h with ⟨e, -, rfl⟩ | ⟨r, -, rfl⟩
  · rfl
  · rfl

/-- A command line that asks for the answer to a text is told it. -/
theorem perform_asking [Numerics] (settings : Settings) (text : String) (format : Format)
    (places : Nat) (clock : String) (lines : List String) :
    let done := Console.perform settings (Options.asking settings text format places) clock lines
    (done.transcript.output, done.ending) = told settings (some (places : Int)) format text := by
  have hperform : Console.perform settings (Options.asking settings text format places) clock
      lines = (Stretch.answering settings (some (places : Int)) text
        fun a => a.printedFor (.text text) format).map fun a => if a.ok then 0 else 1 := rfl
  rw [hperform, told, Stretch.answering]
  simp only [Journal.outcome_answer]
  cases hanswer : answer settings (some (places : Int)) text with
  | error f => rfl
  | ok a =>
      simp only [Answer.printed, expression_of_answer hanswer]
      cases a.printedFor (.text text) format <;> rfl

/-- A text that is joined to its option is answered whatever it is, and one that is a word
    of its own is answered if it is a plain word. Otherwise the run ends with a complaint,
    and nothing is solved. Every text that does not start with a minus is plain. One that
    starts with a minus and goes on like no option is plain if it is a negative number or
    has a space in it, and not otherwise. There is an answer if the formatter takes as many
    decimal places as are asked for. -/
theorem evaluate_answers [library : Numerics] {settings : Settings} {logger : Logger} {places : Nat}
    (stamp clock : String) {disk : Disk} (files : Files) (input text : String) (format : Format)
    (hdigits : (toString places).length ≤ Text.digitLimit)
    (hlogger : Logger.setup disk settings (some settings.logLevel) none = (logger, .ok ())) :
    (text ≠ "--" →
      (Console.run settings stamp clock disk files (joined text format places) input).visible =
        told settings (some (places : Int)) format text) ∧
    (Reading.ofWord text = .ok .plain ∧ text ≠ "--" →
      (Console.run settings stamp clock disk files (separate text format places) input).visible =
        told settings (some (places : Int)) format text) ∧
    (¬ (Reading.ofWord text = .ok .plain ∧ text ≠ "--") →
      ∃ e, Console.run settings stamp clock disk files (separate text format places) input =
        ⟨.ok 2, "", Console.complaint e, files⟩) ∧
    (text.toList.head? ≠ some '-' → Reading.ofWord text = .ok .plain ∧ text ≠ "--") ∧
    (∀ c rest, text.toList = '-' :: c :: rest → c ∉ Reading.seconds →
      (Reading.ofWord text = .ok .plain ↔
        Reading.isNegativeNumber text.toList = true ∨ ' ' ∈ text.toList)) ∧
    (library.Reliable → (places : Int) ≤ maxHalfWord →
      ∃ shown exit, told settings (some (places : Int)) format text = (shown, .ok exit)) := by
  refine ⟨fun htext => ?_, fun ⟨hplain, htext⟩ => ?_, fun hrefused => ?_, fun hhead => ?_,
    fun c rest hword hc => Reading.ofWord_minus_iff hword hc, fun hlibrary hhigh => ?_⟩
  · rw [Console.visible_run stamp clock files input
      (ofArguments_joined settings format hdigits htext) hlogger]
    exact perform_asking settings text format places clock _
  · rw [Console.visible_run stamp clock files input
      (ofArguments_separate settings format hdigits hplain htext) hlogger]
    exact perform_asking settings text format places clock _
  · rcases ofArguments_refused settings format places hrefused with ⟨e, he⟩
    exact ⟨e, by simp only [Console.run, he]⟩
  · refine ⟨Reading.ofWord_of_head hhead, ?_⟩
    rintro rfl
    exact hhead (by decide)
  · rcases exists_answer hlibrary settings (some (places : Int)) text (Int.natCast_nonneg places)
      hhigh with ⟨a, ha⟩
    rcases exists_printed ha (.text a.expression) format with ⟨shown, hshown⟩
    have hprinted : a.printed format = .ok shown := hshown
    exact ⟨shown, if a.ok then 0 else 1, by simp only [told, ha, hprinted]⟩

/-- A sum that starts with a negative number is answered when there are spaces in it. -/
theorem evaluate_answers_spaced :
    (Console.run Settings.defaults "" "" .ok [] (separate "-5 + 3" .human 6) "").visible =
      ("Step-by-step solution:\n" ++
        "  Step 1: Negation: neg(5)\n    neg(5) = -5\n    (The opposite of 5)\n" ++
        "  Step 2: Addition: -5 + 3\n    -5 + 3 = -2\n    (-5 plus 3)\n" ++
        "  Step 3: Final Result\n    -5 + 3 = -2\n    (Calculation completed successfully)\n" ++
        "Result: -2\n", .ok 0) := by
  have hlogger : Logger.setup .ok Settings.defaults (some Settings.defaults.logLevel) none =
      (⟨.warning, [.console], false⟩, .ok ()) := by decide +kernel
  rw [(evaluate_answers "" "" [] "" "-5 + 3" .human (by decide +kernel) hlogger).2.1
    (by decide +kernel)]
  decide +kernel

/-- A negated parenthesis is refused, although it is an expression and has an answer. -/
theorem evaluate_refuses_negation :
    told Settings.defaults (some 6) .human "-(2+3)" =
      ("Step-by-step solution:\n" ++
        "  Step 1: Addition: 2 + 3\n    2 + 3 = 5\n" ++
        "    (2 plus 3; parentheses have highest priority in order of operations)\n" ++
        "  Step 2: Negation: neg(5)\n    neg(5) = -5\n    (The opposite of 5)\n" ++
        "  Step 3: Final Result\n    -(2+3) = -5\n    (Calculation completed successfully)\n" ++
        "Result: -5\n", .ok 0) ∧
    Console.run Settings.defaults "" "" .ok [] (separate "-(2+3)" .human 6) "" =
      ⟨.ok 2, "", Console.complaint (.expectedValue .expression), []⟩ := by
  have harguments : Options.ofArguments Settings.defaults (separate "-(2+3)" .human 6) =
      .error (.expectedValue .expression) := by decide +kernel
  refine ⟨by decide +kernel, ?_⟩
  rw [Console.run, harguments]

end Reckoner
