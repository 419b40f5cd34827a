import Mathlib
import Reckoner.History

/-!
# What a History Holds

A history is changed in two ways only, so what it holds is a matter of the changes made
to it. It can be said without following them one by one: of the answers recorded since
it was last cleared, those with a value, newest first, and of these as many as it has
room for (`kept`, `limited`).

The history itself never looks back that far. Each new entry pushes out the oldest one
when there is no room left, and what has been pushed out is gone. That this comes to the
same is because entries are pushed out at one end only, while they come in at the other:
cutting off twice is cutting off once (`room_cons_room`).

## Main definitions

* `Change`: Something that is done to a history.
* `Change.leaves?`: The entry that a change leaves behind.
* `after`: The history after some changes.
* `kept`: The entries worth keeping after some changes, newest first.
* `limited`: As many of them as there is room for.

## Theorems

* `change_of_limited`: One change keeps up what is held.
* `after_of_limited`: So do any changes, one after the other.
* `newest_kept`: A history holds the newest of the entries that are worth keeping.
-/

namespace Reckoner

namespace History

/-- Something that is done to a history. -/
inductive Change
  | record (answer : Answer) (time : String)
  | clear

/-- Whether everything from before is gone after the change. -/
def Change.clears : Change → Bool
  | .record _ _ => false
  | .clear => true

/-- The entry that a change leaves behind: a good answer that has a value, under its
    expression without blanks around it. -/
def Change.leaves? : Change → Option HistoryEntry
  | .record answer time =>
    if answer.ok then
      answer.value.map fun value =>
        { expression := Text.strip answer.expression, value := value,
          steps := answer.steps.length, time := time }
    else none
  | .clear => none

/-- The history after a change. -/
def change (h : History) : Change → History
  | .record answer time => h.record answer time
  | .clear => h.clear

/-- The history after some changes, the first of them first. -/
def after (h : History) (changes : List Change) : History := changes.foldl change h

/-- The entries left behind since the history was last cleared, newest first. -/
def kept (changes : List Change) : List HistoryEntry :=
  (changes.reverse.takeWhile fun c => !c.clears).filterMap Change.leaves?

/-- The first entries, as many as there is room for; without a size all of them. -/
def limited (size : Option Int) (entries : List HistoryEntry) : List HistoryEntry :=
  match size with
  | none => entries
  | some n => entries.take n.toNat

section Changes

variable {size : Option Int} {h : History} {changes : List Change}

theorem entry_eq_leaves (answer : Answer) (time : String) :
    answer.entry? time = (Change.record answer time).leaves? := by
  simp only [Change.leaves?, Answer.entry?]
  cases answer.ok <;> cases answer.value <;> rfl

theorem kept_clear (changes : List Change) : kept (changes ++ [.clear]) = [] := by
  simp only [kept, List.reverse_append, List.reverse_singleton, List.singleton_append]
  rw [List.takeWhile_cons_of_neg (by decide), List.filterMap_nil]

/-- An entry that a change leaves behind comes in front of the others. -/
theorem kept_record (changes : List Change) (answer : Answer) (time : String) :
    kept (changes ++ [.record answer time]) =
      (Change.record answer time).leaves?.toList ++ kept changes := by
  simp only [kept, List.reverse_append, List.reverse_singleton, List.singleton_append]
  rw [List.takeWhile_cons_of_pos rfl]
  cases hentry : (Change.record answer time).leaves? with
  | none => exact List.filterMap_cons_none hentry
  | some entry => exact List.filterMap_cons_some hentry

/-- What has been cut off before a new entry came would be cut off after it. -/
theorem room_cons_room (size : Option Nat) (entry : HistoryEntry) (entries : List HistoryEntry) :
    room size (entry :: room size entries) = room size (entry :: entries) := by
  cases size with
  | none => rfl
  | some n =>
      cases n with
      | zero => rfl
      | succ k =>
          simp only [room, List.take_succ_cons, List.take_take]
          rw [min_eq_left k.le_succ]

theorem room_eq_limited (size : Option Int) (entries : List HistoryEntry) :
    room (size.map Int.toNat) entries = limited size entries := by cases size <;> rfl

/-- One change keeps the history at what is held of the entries worth keeping. -/
theorem change_of_limited (c : Change) (hsize : h.size = size.map Int.toNat)
    (hheld : h.entries = limited size (kept changes)) :
    (h.change c).size = size.map Int.toNat ∧
      (h.change c).entries = limited size (kept (changes ++ [c])) := by
  cases c with
  | clear =>
      refine ⟨hsize, ?_⟩
      rw [kept_clear]
      cases size with
      | none => rfl
      | some n => exact (List.take_nil).symm
  | record answer time =>
      have hsame : (h.record answer time).size = h.size := by
        simp only [record]
        split <;> rfl
      refine ⟨hsame.trans hsize, ?_⟩
      rw [kept_record, change, entries_record, entry_eq_leaves]
      cases (Change.record answer time).leaves? with
      | none => exact hheld
      | some entry =>
          simp only [Option.toList_some, List.singleton_append]
          rw [hsize, hheld, ← room_eq_limited, room_cons_room, room_eq_limited]

/-- Any changes keep it there, by induction on the changes from the last one backwards. -/
theorem after_of_limited (hsize : h.size = size.map Int.toNat) (hempty : h.entries = [])
    (changes : List Change) :
    (h.after changes).size = size.map Int.toNat ∧
      (h.after changes).entries = limited size (kept changes) := by
  induction changes using List.reverseRecOn with
  | nil =>
      refine ⟨hsize, hempty.trans ?_⟩
      cases size with
      | none => rfl
      | some n => exact (List.take_nil).symm
  | append_singleton changes c ih =>
      rw [after, List.foldl_append, List.foldl_cons, List.foldl_nil]
      exact change_of_limited c ih.1 ih.2

end Changes

/-- A history of any size that fits into a word, or of none, comes about. After any changes
    it holds the newest of the entries that are worth keeping, as many as it has room for,
    and so never more than that. A larger size makes no history at all. -/
theorem newest_kept {size : Option Int} (hsize : ∀ n ∈ size, 0 ≤ n) :
    ((∀ n ∈ size, n ≤ maxWord) → ∃ h, ofSize size = .ok h ∧ ∀ changes : List Change,
      (h.after changes).entries = limited size (kept changes) ∧
        ∀ n ∈ size, ((h.after changes).entries.length : Int) ≤ n) ∧
    ∀ n ∈ size, maxWord < n → ofSize size = .error .hugeHistory := by
  constructor
  · intro hword
    have hofSize : ofSize size = .ok ⟨size.map Int.toNat, []⟩ := by
      cases size with
      | none => rfl
      | some n =>
          have hlow := hsize n rfl
          have hhigh := hword n rfl
          have hleast : -maxWord - 1 ≤ 0 := by decide
          rw [ofSize, if_neg (by omega), if_neg (by omega), Option.map_some]
    refine ⟨_, hofSize, fun changes => ?_⟩
    have hheld : ((⟨size.map Int.toNat, []⟩ : History).after changes).entries =
        limited size (kept changes) := (after_of_limited rfl rfl changes).2
    refine ⟨hheld, fun n hn => ?_⟩
    have hlow := hsize n hn
    rw [hheld, Option.mem_def.1 hn, limited, List.length_take]
    omega
  · rintro n hn hlarge
    rw [Option.mem_def.1 hn, ofSize, if_pos (.inr hlarge)]

/-- An answer with the given value, solved without steps. -/
def plainAnswer (expression : String) (value : Option Double) : Answer :=
  { ok := value.isSome, expression := expression, value := value, steps := [], error := none,
    code := none }

/-- Three answers have been recorded since the history was cleared, one of them without a
    value, and there is room for one. -/
theorem newest_kept_single :
    ∃ h, ofSize (some 1) = .ok h ∧
      (h.after [.record (plainAnswer "1" (some .zero)) "08:00", .clear,
        .record (plainAnswer "2" (some .zero)) "08:01",
        .record (plainAnswer " 3 " (some .zero)) "08:02",
        .record (plainAnswer "4" none) "08:03"]).entries = [⟨"3", .zero, 0, "08:02"⟩] := by
  have hone : ∀ n ∈ some (1 : Int), 0 ≤ n ∧ n ≤ maxWord := by
    rintro n ⟨⟩
    decide
  rcases (newest_kept fun n hn => (hone n hn).1).1 fun n hn => (hone n hn).2 with ⟨h, hh, hheld⟩
  refine ⟨h, hh, (hheld _).1.trans ?_⟩
  decide +kernel

/-- A size that is no negative number, and still no history has it. -/
theorem ofSize_pastWord : 0 ≤ maxWord + 1 ∧ ofSize (some (maxWord + 1)) = .error .hugeHistory := by
  decide

end History

end Reckoner
