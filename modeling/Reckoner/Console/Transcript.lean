import Reckoner.Log.Journal

/-!
# Transcripts

What a stretch of a run shows: the text it prints, and the records it leaves for
the log. The two never mix. Which records are written, and where, is decided
later and cannot change what is printed.

A stretch comes to an end with a result or with a fault. A fault is the end of the run,
but it takes nothing back: what was printed and noted before it stays.

## Main definitions

* `Transcript`: Printed text and records.
* `Transcript.say`: Text without records.
* `Stretch`: A transcript and how it ends.
* `Stretch.answering`: The answer to an expression, printed.

## Theorems

* `bind_of_ok`, `bind_of_error`: One stretch after another.
* `forall_records_bind`: What is true of the records of both is true of all.
-/

namespace Reckoner

/-- Printed text, and the records left for the log. -/
structure Transcript where
  output : String
  records : List Record
deriving DecidableEq

namespace Transcript

/-- Printing without any record. -/
def say (text : String) : Transcript := ⟨text, []⟩

/-- One transcript after another. -/
protected def append (a b : Transcript) : Transcript :=
  ⟨a.output ++ b.output, a.records ++ b.records⟩

instance : Append Transcript := ⟨Transcript.append⟩

theorem output_append (a b : Transcript) : (a ++ b).output = a.output ++ b.output := rfl

end Transcript

/-- A stretch of a run: its transcript, and its result if it is not ended by a fault. -/
structure Stretch (α : Type) where
  transcript : Transcript
  ending : Except Fault α

namespace Stretch

variable {α β : Type}

/-- A fault before anything is shown. -/
def fault (f : Fault) : Stretch α := ⟨.say "", .error f⟩

/-- Printing without any record. -/
def say (text : String) : Stretch Unit := ⟨.say text, .ok ()⟩

/-- One stretch after another. Nothing follows a fault. -/
protected def bind (x : Stretch α) (f : α → Stretch β) : Stretch β :=
  match x.ending with
  | .error e => ⟨x.transcript, .error e⟩
  | .ok a => ⟨x.transcript ++ (f a).transcript, (f a).ending⟩

instance : Monad Stretch where
  pure a := ⟨.say "", .ok a⟩
  bind := Stretch.bind

/-- The same stretch with another result. -/
protected def map (f : α → β) (x : Stretch α) : Stretch β := ⟨x.transcript, x.ending.map f⟩

/-- The answer to an expression, with the records of finding it and whatever is
    printed about it. -/
def answering [Numerics] (settings : Settings) (places : Option Int) (text : String)
    (print : Answer → Except Fault String) : Stretch Answer :=
  let found := Journal.answer settings places text
  match found.outcome with
  | .error f => ⟨⟨"", found.records⟩, .error f⟩
  | .ok a =>
    match print a with
    | .error f => ⟨⟨"", found.records⟩, .error f⟩
    | .ok output => ⟨⟨output, found.records⟩, .ok a⟩

theorem bind_of_ok {x : Stretch α} {a : α} (h : x.ending = .ok a) (f : α → Stretch β) :
    x >>= f = ⟨x.transcript ++ (f a).transcript, (f a).ending⟩ := by
  show x.bind f = _
  rw [Stretch.bind, h]

theorem bind_of_error {x : Stretch α} {e : Fault} (h : x.ending = .error e) (f : α → Stretch β) :
    x >>= f = ⟨x.transcript, .error e⟩ := by
  show x.bind f = _
  rw [Stretch.bind, h]

theorem records_answering [Numerics] (settings : Settings) (places : Option Int) (text : String)
    (print : Answer → Except Fault String) :
    (answering settings places text print).transcript.records =
      (Journal.answer settings places text).records := by
  rw [answering]
  cases (Journal.answer settings places text).outcome with
  | error f => rfl
  | ok a =>
      simp only []
      cases print a <;> rfl

/-- What is true of the records of both stretches is true of all their records. -/
theorem forall_records_bind {p : Record → Prop} {x : Stretch α} {f : α → Stretch β}
    (hx : ∀ r ∈ x.transcript.records, p r) (hf : ∀ a, ∀ r ∈ (f a).transcript.records, p r) :
    ∀ r ∈ (x >>= f).transcript.records, p r := by
  cases hending : x.ending with
  | error e =>
      rw [bind_of_error hending]
      exact hx
  | ok a =>
      rw [bind_of_ok hending]
      exact fun r hr => (List.mem_append.1 hr).elim (hx r) (hf a r)

end Stretch

end Reckoner
