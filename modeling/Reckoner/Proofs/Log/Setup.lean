import Mathlib
import Reckoner.Log.Logbook

/-!
# Setting Up

What a logbook does depends on the requests before only through the last one that set
it up. That request asked for a level and perhaps for a file, its regime. Whatever
handlers there were, afterwards there are those of the regime, each of them once
(`fitted_refit`), and no other request touches them (`InForce.serve`).

A request to set up may fail in two ways. A level that is none is refused, and leaves the
regime before in force. A file that does not open is noticed when everything else has been
done, so such a request does bring a new regime, which is without a file although one was
asked for (`setup_unopened`). Which files open is up to the disk, at every moment anew.

As long as a regime lasts, a record on its way up meets the handlers of the regime and
nothing else, so it is written to each of them once or, if it is not severe enough, to
none (`Fitted.places_eq`). What the console shows and what the file gets are the same
lines in the same order (`Fitted.toConsole_eq`, `Fitted.holds_toFile`).

Files need no regime at all. Everything is appended, so what they hold only grows,
through any requests and any change of regimes (`grows_after`).

## Main definitions

* `Regime`: A level and perhaps a file.
* `Regime.asked`: The regime that a request brings.
* `Regime.latest`: The regime that the last of several requests has brought.
* `Regime.share`: How often a place is one of a regime's.
* `Regime.text`: The lines of the records that a regime admits.
* `Files.holds`: What a file holds.
* `Files.Grows`: Files that hold what others do, and perhaps more.
* `Logger.Fitted`: A logger with the handlers and the level of a regime.
* `Logbook.InForce`: A logbook whose logger is fitted for a regime.

## Theorems

* `foldl_removeHandler`: Removing handlers one by one leaves none.
* `fitted_refit`: A logger that is set up has what it was asked for and no more.
* `Fitted.places_eq`: Where a record is written.
* `serve_cases`: What a request may do to a logbook.
* `inForce_after`: The regime in force after any requests.
* `grows_after`: Files only grow.
* `records_written_once`: Nothing is logged twice, and nothing is lost.
-/

namespace Reckoner

/-- What setting up brings: the least severe level that is written, and the log file. -/
structure Regime where
  level : Level
  file : Option String
deriving DecidableEq

namespace Regime

/-- What a request brings, if it sets up the logger. Without a level there are warnings, and
    a file that does not open is no file. -/
def asked (settings : Settings) (disk : Disk) : LogRequest → Option Regime
  | .setup level file =>
    match Logger.chosenLevel settings level with
    | .error _ => none
    | .ok chosen =>
      some ⟨if chosen = .unset then .warning else chosen,
        (Logger.chosenFile settings file).bind fun name => (disk name).toOption⟩
  | _ => none

/-- What the last of several requests that set up the logger brought. -/
def latest (settings : Settings) (requests : List (Moment × LogRequest)) : Option Regime :=
  (requests.filterMap fun request => asked settings request.1.disk request.2).getLast?

/-- Whether a record is severe enough to be written. -/
def admits (g : Regime) (r : Record) : Bool := g.level.severity ≤ r.level.severity

/-- The places of a regime: the console, and the file if there is one. -/
def places (g : Regime) : List Handler := .console :: (g.file.map .file).toList

/-- How often a place is one of a regime's. -/
def share (g : Regime) : Handler → Nat
  | .console => 1
  | .file name => if g.file = some name then 1 else 0

/-- The lines of the records that are severe enough, each once and in their order. -/
def text (g : Regime) (time : String) (rs : List Record) : String :=
  String.join ((rs.filter g.admits).map fun r => r.line time ++ "\n")

theorem count_places (g : Regime) (h : Handler) : g.places.count h = g.share h := by
  rw [places, List.count_cons]
  cases hfile : g.file with
  | none =>
      cases h with
      | console => rfl
      | file name => simp [share, hfile]
  | some other =>
      cases h with
      | console => rfl
      | file name => simp [share, hfile, List.count_cons]

theorem file_mem_places {g : Regime} {name : String} :
    .file name ∈ g.places ↔ g.file = some name := by
  simp [places]

theorem file_of_asked {settings : Settings} {disk : Disk} {level file : Option String} {g : Regime}
    (h : asked settings disk (.setup level file) = some g) :
    g.file = (Logger.chosenFile settings file).bind fun name => (disk name).toOption := by
  rw [asked] at h
  split at h <;> cases h
  rfl

/-- Nothing is written to a place more than once. -/
theorem share_cases (g : Regime) (h : Handler) : g.share h = 0 ∨ g.share h = 1 := by
  cases h with
  | console => exact .inr rfl
  | file name =>
      rw [share]
      split
      · exact .inr rfl
      · exact .inl rfl

theorem text_cons (g : Regime) (time : String) (r : Record) (rs : List Record) :
    g.text time (r :: rs) = (if g.admits r then r.line time ++ "\n" else "") ++ g.text time rs := by
  rw [text, text, List.filter_cons]
  cases g.admits r with
  | true => rw [if_pos rfl, if_pos rfl, List.map_cons, String.join_cons]
  | false => rw [if_neg Bool.false_ne_true, if_neg Bool.false_ne_true, String.empty_append]

/-- The last request that sets up is the last of the others, or else the first one. -/
theorem latest_cons (settings : Settings) (request : Moment × LogRequest)
    (requests : List (Moment × LogRequest)) :
    latest settings (request :: requests) =
      (latest settings requests).or (asked settings request.1.disk request.2) := by
  rw [latest, latest, List.filterMap_cons]
  cases asked settings request.1.disk request.2 with
  | none => rw [Option.or_none]
  | some g => rw [List.getLast?_cons, Option.or_some]

end Regime

/-! ## Files -/

namespace Files

/-- What a file holds. A file that does not exist holds nothing. -/
def holds (files : Files) (name : String) : String := (files.content? name).getD ""

/-- Every file is still there and holds what it has held, and perhaps more. -/
def Grows (files later : Files) : Prop :=
  ∀ name content, files.content? name = some content →
    ∃ added, later.content? name = some (content ++ added)

theorem content?_cons (key content name : String) (files : Files) :
    content? ((key, content) :: files) name =
      if key = name then some content else files.content? name := by
  rw [content?, List.lookup_cons]
  by_cases h : key = name
  · rw [if_pos h, h, beq_self_eq_true]
  · rw [if_neg h, beq_false_of_ne (Ne.symm h)]
    rfl

theorem content?_append (files : Files) (name text other : String) :
    (files.append name text).content? other =
      if name = other then some (files.holds name ++ text) else files.content? other := by
  induction files with
  | nil =>
      rw [append, content?_cons]
      exact if_congr Iff.rfl (congrArg some String.empty_append.symm) rfl
  | cons entry files ih =>
      obtain ⟨key, content⟩ := entry
      rw [append, holds, content?_cons, content?_cons]
      by_cases hkey : key = name
      · subst hkey
        rw [if_pos rfl, if_pos rfl, content?_cons]
        split <;> rfl
      · rw [if_neg hkey, if_neg hkey, content?_cons, ih]
        by_cases h : key = other
        · rw [if_pos h, if_pos h, if_neg fun hname => hkey (h.trans hname.symm)]
        · rw [if_neg h, if_neg h, holds]

theorem holds_append (files : Files) (name text other : String) :
    (files.append name text).holds other =
      files.holds other ++ if name = other then text else "" := by
  rw [holds, content?_append]
  by_cases h : name = other
  · rw [if_pos h, if_pos h, h]
    rfl
  · rw [if_neg h, if_neg h, String.append_empty]
    rfl

/-- What a place gets of the texts that are written. -/
def portion (h : Handler) (deliveries : List (Handler × String)) : String :=
  String.join ((deliveries.filter fun d => d.1 = h).map Prod.snd)

theorem portion_append (h : Handler) (ds es : List (Handler × String)) :
    portion h (ds ++ es) = portion h ds ++ portion h es := by
  rw [portion, List.filter_append, List.map_append, String.join_append]
  rfl

/-- A place gets a text as often as it is among the places that the text is written to. -/
theorem portion_map (h : Handler) (places : List Handler) (text : String) :
    portion h (places.map fun place => (place, text)) =
      String.join (List.replicate (places.count h) text) := by
  induction places with
  | nil => rfl
  | cons place places ih =>
      rw [List.map_cons, ← List.singleton_append, portion_append, ih, List.count_cons]
      by_cases hsame : place = h
      · subst hsame
        rw [beq_self_eq_true, if_pos rfl, List.replicate_succ, String.join_cons]
        simp [portion]
      · rw [beq_false_of_ne hsame, if_neg Bool.false_ne_true, Nat.add_zero]
        simp [portion, hsame]

/-- A file holds what it has held and what was written to it. -/
theorem holds_deliver (files : Files) (deliveries : List (Handler × String)) (name : String) :
    (deliveries.foldl deliver files).holds name =
      files.holds name ++ portion (.file name) deliveries := by
  induction deliveries generalizing files with
  | nil => exact String.append_empty.symm
  | cons d deliveries ih =>
      obtain ⟨h, text⟩ := d
      rw [List.foldl_cons, ih, portion, portion, List.filter_cons]
      cases h with
      | console => rfl
      | file other =>
          rw [deliver, holds_append]
          by_cases h : other = name
          · rw [if_pos h, if_pos (by simpa using h), List.map_cons, String.join_cons,
              String.append_assoc]
          · rw [if_neg h, if_neg (by simpa using h), String.append_empty]

/-- What is written elsewhere changes nothing here. -/
theorem content?_deliver {deliveries : List (Handler × String)} {name : String}
    (h : ∀ d ∈ deliveries, d.1 ≠ .file name) (files : Files) :
    (deliveries.foldl deliver files).content? name = files.content? name := by
  induction deliveries generalizing files with
  | nil => rfl
  | cons d deliveries ih =>
      rw [List.forall_mem_cons] at h
      rw [List.foldl_cons, ih h.2]
      obtain ⟨_ | other, text⟩ := d
      · rfl
      · rw [deliver, content?_append, if_neg fun hname => h.1 (congrArg Handler.file hname)]

namespace Grows

variable {a b c : Files}

protected theorem refl (files : Files) : files.Grows files := by
  intro name content h
  exact ⟨"", by rw [h, String.append_empty]⟩

protected theorem trans (hab : a.Grows b) (hbc : b.Grows c) : a.Grows c := by
  intro name content h
  rcases hab name content h with ⟨added, hadded⟩
  rcases hbc name _ hadded with ⟨more, hmore⟩
  exact ⟨added ++ more, by rw [hmore, String.append_assoc]⟩

end Grows

theorem grows_append (files : Files) (name text : String) :
    files.Grows (files.append name text) := by
  intro other content h
  rw [content?_append]
  by_cases hname : name = other
  · rw [if_pos hname, hname, holds, h]
    exact ⟨text, rfl⟩
  · rw [if_neg hname, h]
    exact ⟨"", by rw [String.append_empty]⟩

theorem grows_deliver (files : Files) (deliveries : List (Handler × String)) :
    files.Grows (deliveries.foldl deliver files) := by
  induction deliveries generalizing files with
  | nil => exact .refl files
  | cons d deliveries ih =>
      refine Grows.trans ?_ (ih (deliver files d))
      obtain ⟨h | name, text⟩ := d
      · exact .refl files
      · exact grows_append files name text

end Files

/-! ## The logger -/

namespace Logger

/-- A logger with the handlers and the level of a regime. -/
structure Fitted (l : Logger) (g : Regime) : Prop where
  handlers : l.handlers = g.places
  propagates : l.propagates = false
  level : (if l.level = .unset then .warning else l.level) = g.level

/-- Removing every handler of a list leaves none, because the next to be removed is always
    the first that is left. -/
theorem foldl_removeHandler (l : Logger) :
    l.handlers.foldl removeHandler l = { l with handlers := [] } := by
  generalize hhandlers : l.handlers = hs
  induction hs generalizing l with
  | nil =>
      obtain ⟨level, handlers, propagates⟩ := l
      cases hhandlers
      rfl
  | cons h hs ih =>
      rw [List.foldl_cons, ih (l.removeHandler h), removeHandler]
      rw [removeHandler, hhandlers, List.erase_cons_head]

/-- A logger that is set up has what it was asked for and no more, whatever it had. What it
    was asked for includes a file if there is one and it opens. -/
theorem fitted_refit (l : Logger) (disk : Disk) (level : Level) (file : Option String) :
    (l.refit disk level file).1.Fitted
      ⟨if level = .unset then .warning else level, file.bind fun name => (disk name).toOption⟩ := by
  have hbare := foldl_removeHandler { l with level := level, propagates := false }
  cases file with
  | none =>
      rw [refit, hbare]
      exact ⟨rfl, rfl, rfl⟩
  | some name =>
      rw [refit, hbare]
      simp only [Option.map_some, Option.bind_some]
      cases disk name <;> exact ⟨rfl, rfl, rfl⟩

theorem refit_outcome (l : Logger) (disk : Disk) (level : Level) (file : Option String) :
    (l.refit disk level file).2 = .ok () ↔
      ∀ name, file = some name → ∃ opened, disk name = .ok opened := by
  cases file with
  | none =>
      rw [refit]
      simp
  | some name =>
      rw [refit]
      cases hdisk : disk name <;> simp [hdisk]

/-- Where setting up fails there is no file. -/
theorem file_of_refit_error {l : Logger} {disk : Disk} {level : Level} {file : Option String}
    {f : Fault} (h : (l.refit disk level file).2 = .error f) :
    (file.bind fun name => (disk name).toOption) = none := by
  cases file with
  | none => rfl
  | some name =>
      rw [refit] at h
      cases hdisk : disk name with
      | error fault => rw [Option.bind_some, hdisk]; rfl
      | ok opened =>
          simp only [Option.map_some, hdisk] at h
          cases h

/-- Setting up brings what a request asks for, or changes nothing because the request asks for
    no level. -/
theorem setupFrom_cases (l : Logger) (disk : Disk) (settings : Settings)
    (level file : Option String) :
    (∃ g, Regime.asked settings disk (.setup level file) = some g ∧
        (l.setupFrom disk settings level file).1.Fitted g ∧
        ∀ f, (l.setupFrom disk settings level file).2 = .error f → g.file = none) ∨
      Regime.asked settings disk (.setup level file) = none ∧
        ∃ f, l.setupFrom disk settings level file = (l, .error f) := by
  rw [setupFrom, Regime.asked]
  cases chosenLevel settings level with
  | error f => exact .inr ⟨rfl, _, rfl⟩
  | ok chosen => exact .inl ⟨_, rfl, fitted_refit l disk chosen _, fun f => file_of_refit_error⟩

theorem setupFrom_outcome (l : Logger) (disk : Disk) (settings : Settings)
    (level file : Option String) :
    (l.setupFrom disk settings level file).2 = .ok () ↔
      (∃ chosen, chosenLevel settings level = .ok chosen) ∧
        ∀ name, chosenFile settings file = some name → ∃ opened, disk name = .ok opened := by
  rw [setupFrom]
  cases chosenLevel settings level with
  | error f => simp
  | ok chosen => simp [refit_outcome]

theorem fitted_setup {disk : Disk} {settings : Settings} {level file : Option String} {l : Logger}
    (h : setup disk settings level file = (l, .ok ())) :
    ∃ g, Regime.asked settings disk (.setup level file) = some g ∧ l.Fitted g := by
  rcases fresh.setupFrom_cases disk settings level file with ⟨g, hasked, hfitted, -⟩ | ⟨-, f, hf⟩
  · rw [← setup, h] at hfitted
    exact ⟨g, hasked, hfitted⟩
  · rw [setup, hf] at h
    cases h

namespace Fitted

variable {l : Logger} {g : Regime}

theorem passes_eq (h : l.Fitted g) (r : Record) : l.passes r = g.admits r := by
  rw [passes, effectiveLevel_chain, h.level, Regime.admits]

/-- A record is written to the places of the regime, or nowhere. -/
theorem places_eq (h : l.Fitted g) (r : Record) :
    l.places r = if g.admits r then g.places else [] := by
  rw [places, h.passes_eq, reached_chain, h.handlers]

theorem writtenAll_eq (h : l.Fitted g) (time : String) (rs : List Record) :
    l.writtenAll time rs = g.text time rs := by
  rw [writtenAll]
  induction rs with
  | nil => rfl
  | cons r rs ih =>
      rw [List.map_cons, String.join_cons, ih, written, h.passes_eq, Regime.text_cons]

/-- A place gets the lines of the records as often as it is a place of the regime. -/
theorem portion_deliveries (h : l.Fitted g) (time : String) (rs : List Record) (place : Handler) :
    Files.portion place (l.deliveries time rs) =
      String.join (List.replicate (g.share place) (g.text time rs)) := by
  induction rs with
  | nil => rcases g.share_cases place with hshare | hshare <;> rw [hshare] <;> rfl
  | cons r rs ih =>
      have hfirst : Files.portion place ((l.places r).map fun h => (h, r.line time ++ "\n")) =
          String.join (List.replicate (g.share place)
            (if g.admits r then r.line time ++ "\n" else "")) := by
        rw [h.places_eq]
        cases g.admits r with
        | true => rw [if_pos rfl, if_pos rfl, Files.portion_map, Regime.count_places]
        | false => rcases g.share_cases place with hshare | hshare <;> rw [hshare] <;> rfl
      rw [deliveries] at ih
      rw [deliveries, List.flatMap_cons, Files.portion_append, hfirst, ih, Regime.text_cons]
      rcases g.share_cases place with hshare | hshare <;> rw [hshare]
      · rfl
      · simp

/-- The console shows the lines of the records. -/
theorem toConsole_eq (h : l.Fitted g) (time : String) (rs : List Record) :
    l.toConsole time rs = g.text time rs := by
  have hconsole := h.portion_deliveries time rs .console
  rw [Regime.share, List.replicate_one, String.join_cons, String.join_nil, String.append_empty]
    at hconsole
  exact hconsole

/-- The file of the regime gets the lines of the records, and other files get nothing. -/
theorem holds_toFile (h : l.Fitted g) (time : String) (rs : List Record) (files : Files)
    (name : String) :
    (l.toFile time rs files).holds name =
      files.holds name ++ if g.file = some name then g.text time rs else "" := by
  rw [toFile, Files.holds_deliver, h.portion_deliveries, Regime.share]
  split <;> simp

/-- Without a file there is none to create. -/
theorem openFile_eq (h : l.Fitted g) (hfile : g.file = none) (files : Files) :
    l.openFile files = files := by
  rw [openFile, h.handlers, Regime.places, hfile]
  rfl

end Fitted

/-- A file is left alone by a logger that has no handler for it. -/
theorem content?_openFile {l : Logger} {name : String} (h : .file name ∉ l.handlers)
    (files : Files) : (l.openFile files).content? name = files.content? name := by
  refine Files.content?_deliver (List.forall_mem_map.2 fun place hplace hname => h ?_) files
  rwa [← hname]

theorem content?_toFile {l : Logger} {name : String} (h : .file name ∉ l.handlers)
    (time : String) (rs : List Record) (files : Files) :
    (l.toFile time rs files).content? name = files.content? name := by
  refine Files.content?_deliver (fun d hd hname => h ?_) files
  rw [deliveries, List.mem_flatMap] at hd
  rcases hd with ⟨r, -, hd⟩
  rcases List.mem_map.1 hd with ⟨place, hplace, rfl⟩
  rw [places, reached_chain] at hplace
  split at hplace
  · rwa [← hname]
  · cases hplace

/-- Creating files adds nothing to them. -/
theorem holds_openFile (l : Logger) (files : Files) (name : String) :
    (l.openFile files).holds name = files.holds name := by
  have hnothing : ∀ n, String.join (List.replicate n "") = "" := by
    intro n
    induction n with
    | zero => rfl
    | succ n ih => rw [List.replicate_succ, String.join_cons, ih, String.append_empty]
  rw [openFile, Files.holds_deliver, Files.portion_map, hnothing, String.append_empty]

/-- A logger that is open has its files. -/
theorem exists_content_openFile {l : Logger} {name : String} (h : .file name ∈ l.handlers)
    (files : Files) : ∃ content, (l.openFile files).content? name = some content := by
  rw [openFile]
  generalize l.handlers = hs at h
  induction hs generalizing files with
  | nil => cases h
  | cons place hs ih =>
      rw [List.map_cons, List.foldl_cons]
      rcases List.mem_cons.1 h with rfl | h
      · -- The file is created first, and what is created stays.
        rcases Files.grows_deliver (files.append name "") (hs.map fun h => (h, "")) name _
          (by rw [Files.content?_append, if_pos rfl]) with ⟨added, hadded⟩
        exact ⟨_, hadded⟩
      · exact ih _ h

end Logger

/-! ## The logbook -/

namespace Logbook

/-- A logbook in which a regime is in force: its logger has the handlers of the regime, and
    the file is there. -/
structure InForce (b : Logbook) (g : Regime) : Prop where
  fitted : b.logger.Fitted g
  created : ∀ name, g.file = some name → ∃ content, b.files.content? name = some content

/-- A new logger is in force with its files created. -/
theorem inForce_opened {l : Logger} {g : Regime} (h : l.Fitted g) (files : Files) :
    (opened l files).InForce g := by
  refine ⟨h, fun name hname => Logger.exists_content_openFile ?_ files⟩
  rw [h.handlers]
  exact Regime.file_mem_places.2 hname

variable [Numerics] {settings : Settings} {now : Moment} {b : Logbook} {r : LogRequest}
  {g : Regime}

/-- A request brings a new regime and writes nothing, or it writes its records and leaves the
    logger as it is. A setup that asks for no level is of the second kind, without records. -/
theorem serve_cases (settings : Settings) (now : Moment) (b : Logbook) (r : LogRequest) :
    (∃ next g outcome, Regime.asked settings now.disk r = some g ∧ next.Fitted g ∧
        (r.journal settings).records = [] ∧
        b.serve settings now r = ⟨opened next b.files, "", outcome⟩) ∨
      ∃ outcome, Regime.asked settings now.disk r = none ∧
        b.serve settings now r = b.record now.time ⟨(r.journal settings).records, outcome⟩ := by
  cases r with
  | setup level file =>
      -- Only here can the logger change, and it does if the level is one.
      rw [serve, reopen]
      rcases b.logger.setupFrom_cases now.disk settings level file with
        ⟨g, hasked, hfitted, hunopened⟩ | ⟨hasked, f, hsetup⟩
      · rcases hsetup : b.logger.setupFrom now.disk settings level file with ⟨next, f | ⟨⟩⟩
        · -- The file has not opened, so there is none to create.
          rw [hsetup] at hfitted hunopened
          refine .inl ⟨next, g, .error f, hasked, hfitted, rfl, ?_⟩
          rw [opened, hfitted.openFile_eq (hunopened f rfl)]
        · rw [hsetup] at hfitted
          exact .inl ⟨next, g, .ok (), hasked, hfitted, rfl, rfl⟩
      · rw [hsetup]
        exact .inr ⟨.error f, hasked, rfl⟩
  | solve text => exact .inr ⟨_, rfl, rfl⟩
  | check text => exact .inr ⟨_, rfl, rfl⟩
  | note part level message code => exact .inr ⟨_, rfl, rfl⟩

/-- No request lets a file shrink. -/
theorem grows_serve (settings : Settings) (now : Moment) (b : Logbook) (r : LogRequest) :
    b.files.Grows (b.serve settings now r).book.files := by
  rcases serve_cases settings now b r with ⟨next, g, _, -, -, -, hserve⟩ | ⟨outcome, -, hserve⟩ <;>
    rw [hserve] <;> exact Files.grows_deliver _ _

theorem grows_after (settings : Settings) (b : Logbook) (requests : List (Moment × LogRequest)) :
    b.files.Grows (b.after settings requests).files := by
  induction requests generalizing b with
  | nil => exact .refl _
  | cons request requests ih => exact (grows_serve _ _ b _).trans (ih _)

/-- A request that asks for a regime brings it into force. -/
theorem inForce_of_asked (b : Logbook) (h : Regime.asked settings now.disk r = some g) :
    (b.serve settings now r).book.InForce g := by
  rcases serve_cases settings now b r with
    ⟨next, g', _, hasked, hfitted, -, hserve⟩ | ⟨_, hasked, -⟩
  · rw [h] at hasked
    cases hasked
    rw [hserve]
    exact inForce_opened hfitted _
  · rw [h] at hasked
    cases hasked

/-- A request that asks for no regime leaves the one in force. -/
theorem InForce.serve (h : b.InForce g) (hasked : Regime.asked settings now.disk r = none) :
    (b.serve settings now r).book.InForce g := by
  rcases serve_cases settings now b r with ⟨_, _, _, hsome, -⟩ | ⟨outcome, -, hserve⟩
  · rw [hasked] at hsome
    cases hsome
  · refine ⟨?_, fun name hname => ?_⟩
    · rw [hserve, record, write_logger]
      exact h.fitted
    rcases h.created name hname with ⟨content, hcontent⟩
    rcases grows_serve settings now b r name content hcontent with ⟨added, hadded⟩
    exact ⟨_, hadded⟩

/-- After any requests the regime in force is the last one that was asked for, by induction
    on the requests. -/
theorem inForce_after {requests : List (Moment × LogRequest)} (before : Option Regime)
    (hbefore : ∀ g, before = some g → b.InForce g)
    (h : (Regime.latest settings requests).or before = some g) :
    (b.after settings requests).InForce g := by
  induction requests generalizing b before with
  | nil => exact hbefore g h
  | cons request requests ih =>
      rw [Regime.latest_cons, Option.or_assoc] at h
      refine ih _ (fun g' hg' => ?_) h
      cases hasked : Regime.asked settings request.1.disk request.2 with
      | some g =>
          rw [hasked] at hg'
          cases hg'
          exact inForce_of_asked b hasked
      | none =>
          rw [hasked] at hg'
          exact (hbefore g' hg').serve hasked

/-- While a regime is in force, a request shows the lines of its records and adds them to
    the file of the regime, and to no other. -/
theorem InForce.serve_writes (h : b.InForce g) (now : Moment) (r : LogRequest) :
    (b.serve settings now r).shown = g.text now.time (r.journal settings).records ∧
      ∀ file, (b.serve settings now r).book.files.holds file =
        b.files.holds file ++
          if g.file = some file then g.text now.time (r.journal settings).records else "" := by
  rcases serve_cases settings now b r with
    ⟨next, _, _, -, -, hnone, hserve⟩ | ⟨outcome, -, hserve⟩
  · rw [hserve, hnone]
    refine ⟨rfl, fun file => ?_⟩
    show ((next.openFile b.files).holds file) = _
    rw [Logger.holds_openFile, Regime.text, List.filter_nil, List.map_nil, String.join_nil,
      ite_self, String.append_empty]
  · rw [hserve]
    exact ⟨h.fitted.toConsole_eq now.time _, h.fitted.holds_toFile now.time _ b.files⟩

/-- The outcome of setting up again: there has to be a level, and the file has to open. -/
theorem serve_setup_outcome (settings : Settings) (now : Moment) (b : Logbook)
    (level file : Option String) :
    (b.serve settings now (.setup level file)).outcome = .ok () ↔
      (∃ chosen, Logger.chosenLevel settings level = .ok chosen) ∧
        ∀ name, Logger.chosenFile settings file = some name →
          ∃ opened, now.disk name = .ok opened := by
  rw [← Logger.setupFrom_outcome b.logger, serve, reopen]
  split <;> simp [*]

end Logbook

/-- Nothing is logged twice and nothing is lost, whatever was asked for before, however often
    the logger was set up again, and whichever files have opened. After any requests the
    handlers are those of the last regime, each of them once, and nothing is passed on. A record
    is written once to each of them if it is severe enough, and nowhere if not. So every request
    shows just the lines of its records that are severe enough, and adds the same lines to the
    file of the regime and nothing to any other. What a file holds is the beginning of what it
    will ever hold. Setting up fails if there is no level or the file does not open. Texts are
    sequences of characters here, so a text with half of a surrogate pair in it, which no file
    could take, is none. -/
theorem records_written_once [Numerics] (settings : Settings)
    (requests : List (Moment × LogRequest)) (g : Regime)
    (h : Regime.latest settings requests = some g) :
    let b := Logbook.fresh.after settings requests
    ((∀ place, b.logger.handlers.count place = g.share place) ∧ b.logger.propagates = false) ∧
    (∀ r, (g.level.severity ≤ r.level.severity →
        ∀ place, (b.logger.places r).count place = g.share place) ∧
      (r.level.severity < g.level.severity → b.logger.places r = [])) ∧
    (∀ now request,
      let text := g.text now.time (request.journal settings).records
      (b.serve settings now request).shown = text ∧
      ∀ file, (b.serve settings now request).book.files.holds file =
        b.files.holds file ++ if g.file = some file then text else "") ∧
    (∀ file, g.file = some file → ∃ content, b.files.content? file = some content) ∧
    (∀ more, b.files.Grows (b.after settings more).files) ∧
    ∀ now level file, (b.serve settings now (.setup level file)).outcome = .ok () ↔
      (∃ chosen, Logger.chosenLevel settings level = .ok chosen) ∧
        ∀ name, Logger.chosenFile settings file = some name →
          ∃ opened, now.disk name = .ok opened := by
  intro b
  have hforce : b.InForce g := by
    refine Logbook.inForce_after none (fun g' hg' => nomatch hg') ?_
    rw [Option.or_none]
    exact h
  refine ⟨⟨fun place => ?_, hforce.fitted.propagates⟩, fun r => ⟨fun hr place => ?_, fun hr => ?_⟩,
    fun now request => hforce.serve_writes now request, hforce.created,
    Logbook.grows_after settings b, fun now => Logbook.serve_setup_outcome settings now b⟩
  · rw [hforce.fitted.handlers, Regime.count_places]
  · rw [hforce.fitted.places_eq, Regime.admits, if_pos (decide_eq_true hr), Regime.count_places]
  · rw [hforce.fitted.places_eq, Regime.admits, if_neg (by simpa using hr)]

/-- A disk on which names are those of files, but for the name of the uppermost directory. -/
def plainDisk : Disk := fun name =>
  if name = "/" then .error (.refused 21 "Is a directory" name) else .ok name

/-- A logger set up three times, with a file and for everything, then with a directory for a
    file, and then for warnings alone, and asked in between for a level that is none. -/
def reopened : List (Moment × LogRequest) :=
  [(⟨"08:00", plainDisk⟩, .setup (some "debug") (some "calc.log")),
    (⟨"08:01", plainDisk⟩, .solve "5/0"),
    (⟨"08:02", plainDisk⟩, .setup (some "basic_format") (some "other.log")),
    (⟨"08:03", plainDisk⟩, .setup (some "error") (some "/")),
    (⟨"08:04", plainDisk⟩, .setup (some "notset") (some "calc.log"))]

/-- The last level is not set, so it is that of warnings. -/
theorem records_written_once_reopened :
    let g : Regime := ⟨.warning, some "calc.log"⟩
    let b := Logbook.fresh.after Settings.defaults reopened
    let note : LogRequest := .note "api" .error "Out of reach" (some "MATH_ERROR")
    Regime.latest Settings.defaults reopened = some g ∧
    b.logger.handlers.count .console = 1 ∧ b.logger.handlers.count (.file "calc.log") = 1 ∧
    b.logger.handlers.count (.file "other.log") = 0 ∧
    (b.serve Settings.defaults ⟨"08:05", plainDisk⟩ note).shown =
      "08:05 [ERROR] stepcalc.api: Out of reach [code=MATH_ERROR]\n" ∧
    (b.serve Settings.defaults ⟨"08:06", plainDisk⟩ (.solve "5/0")).shown = "" ∧
    ∀ more, b.files.Grows (b.after Settings.defaults more).files := by
  intro g b note
  have hlatest : Regime.latest Settings.defaults reopened = some g := by decide +kernel
  have hcontract := records_written_once Settings.defaults reopened g hlatest
  refine ⟨hlatest, hcontract.1.1 .console, hcontract.1.1 (.file "calc.log"),
    hcontract.1.1 (.file "other.log"), ?_, ?_, hcontract.2.2.2.2.1⟩
  · rw [(hcontract.2.2.1 ⟨"08:05", plainDisk⟩ note).1]
    decide +kernel
  · rw [(hcontract.2.2.1 ⟨"08:06", plainDisk⟩ (.solve "5/0")).1]
    decide +kernel

/-- Settings with a log file that is a directory. -/
def directoryForFile : Settings := { Settings.defaults with logFile := some "/" }

/-- A log file that does not open is reported when the level has been set and the console is
    the only handler. There is no handler for the file, although the latest setup had one. -/
theorem setup_unopened :
    let served := Logbook.fresh.serve directoryForFile ⟨"08:00", plainDisk⟩
      (.setup (some "ERROR") none)
    Logger.chosenFile directoryForFile none = some "/" ∧
    served.outcome = .error (.disk (.refused 21 "Is a directory" "/")) ∧
    served.book.logger = ⟨.error, [.console], false⟩ := by
  decide +kernel

end Reckoner
