import Reckoner.Answer
import Reckoner.Failure
import Reckoner.Number.Machine

/-!
# The History

What was solved lately, newest first. Only answers with a value are kept, and
only as many as the history has room for; an older entry makes way for a newer
one. A history may also have no bound at all.

The bound is part of the history, so it cannot be overrun by recording, and
`entries_record` is all there is to know about recording.

## Main definitions

* `HistoryEntry`: One solved expression.
* `History`: Entries, newest first, and the room for them.
* `History.ofSize`: An empty history of a given size.
* `History.record`, `History.clear`: The two changes.
* `History.printed`: The history for people.

## Theorems

* `entries_record`: Recording puts a new entry in front and cuts off the end.
-/

namespace Reckoner

/-- One solved expression. -/
structure HistoryEntry where
  expression : String
  value : Double
  steps : Nat
  time : String
deriving DecidableEq

/-- The entry that an answer leaves behind, if it has a value. -/
def Answer.entry? (a : Answer) (time : String) : Option HistoryEntry :=
  match a.ok, a.value with
  | true, some value => some ⟨Text.strip a.expression, value, a.steps.length, time⟩
  | _, _ => none

/-- Entries, newest first, and the room for them; none means any number. -/
structure History where
  size : Option Nat
  entries : List HistoryEntry
deriving DecidableEq

namespace History

/-- As many entries as there is room for. -/
def room (size : Option Nat) (entries : List HistoryEntry) : List HistoryEntry :=
  match size with
  | none => entries
  | some n => entries.take n

/-- An empty history of a given size. Sizes have to fit into a machine word,
    and a word below zero is no size either. -/
def ofSize (size : Option Int) : Except Fault History :=
  match size with
  | none => .ok ⟨none, []⟩
  | some n =>
    if n < -maxWord - 1 ∨ maxWord < n then .error .hugeHistory
    else if n < 0 then .error .negativeHistory
    else .ok ⟨some n.toNat, []⟩

/-- The history after an answer. -/
def record (h : History) (a : Answer) (time : String) : History :=
  match a.entry? time with
  | none => h
  | some entry => ⟨h.size, room h.size (entry :: h.entries)⟩

/-- The history without its entries. -/
def clear (h : History) : History := ⟨h.size, []⟩

/-- One line for an entry. -/
def entryLine (e : HistoryEntry) : String :=
  s!"[{e.time}] {e.expression} = {e.value.compact}  ({e.steps} steps)\n"

/-- The history for people. -/
def printed (h : History) : String :=
  if h.entries.isEmpty then "No calculations yet.\n"
  else String.join (h.entries.map entryLine)

theorem entries_record (h : History) (a : Answer) (time : String) :
    (h.record a time).entries =
      match a.entry? time with
      | none => h.entries
      | some entry => room h.size (entry :: h.entries) := by
  simp only [record]
  split <;> rfl

end History

end Reckoner
