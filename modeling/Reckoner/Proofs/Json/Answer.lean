import Mathlib
import Reckoner.Answer
import Reckoner.Proofs.Json.Print

/-!
# Answers for Programs

An answer that is printed for programs can be recovered from the text. The text spells one
document, and the document has every part of the answer in a field of its own. A part that
is missing has no field, which no part that is there could be mistaken for, and the same
holds of the list of steps if it is empty.

## Main definitions

* `Json.field?`: The field of an object that has a name.
* `Json.entry`: A field that may be missing.
* `Answer.stepsJson`: The list of steps as a field.

## Theorems

* `Json.lookup_entry`: A field that may be missing is found under its name only.
* `Answer.field?_toJson`: The parts of an answer are its fields.
* `Answer.toJson_injective`: Answers are told apart by their objects.
* `Answer.sound_toJson`: The object of an answer has a place in the format.
* `Answer.printed_determines`: The printed text determines the answer.
-/

namespace Reckoner

namespace Json

/-- The field of an object that has a name. -/
def field? (name : String) : Json → Option Json
  | .object fields => fields.lookup name
  | _ => none

/-- A field that may be missing. -/
def entry (name : String) (o : Option Json) : List (String × Json) :=
  (o.map fun j => (name, j)).toList

/-- A field that may be missing is found under its name only. -/
theorem lookup_entry (name key : String) (o : Option Json) :
    (entry name o).lookup key = if key = name then o else none := by
  cases o with
  | none => exact (ite_self none).symm
  | some j =>
      by_cases h : key = name
      · rw [if_pos h, h]
        simp [entry]
      · have hne : (key == name) = false := beq_eq_false_iff_ne.2 h
        rw [if_neg h]
        simp [entry, List.lookup, hne]

theorem names_entry (name : String) (o : Option Json) :
    ((entry name o).map Prod.fst).Sublist [name] := by
  cases o with
  | none => exact List.nil_sublist _
  | some j => exact .refl _

theorem mem_entry {name : String} {o : Option Json} {field : String × Json}
    (h : field ∈ entry name o) : field.2 ∈ o := by
  cases o with
  | none => cases h
  | some j =>
      rw [List.mem_singleton.1 h]
      rfl

end Json

open Json (Sound field? entry lookup_entry names_entry mem_entry)

theorem Step.toJson_injective {s t : Step} (h : s.toJson = t.toJson) : s = t := by
  cases s
  cases t
  simpa [Step.toJson] using h

theorem Step.sound_toJson (s : Step) : Sound s.toJson := by
  refine .object (by simp) ?_
  simp [Sound.text]

namespace Answer

/-- The list of steps as a field. -/
def stepsJson (steps : List Step) : Option Json :=
  if steps.isEmpty then none else some (.array (steps.map Step.toJson))

/-- The object of an answer, with its optional fields written alike. -/
theorem toJson_eq (a : Answer) :
    a.toJson = .object ([("ok", .bool a.ok), ("expression", .text a.expression)] ++
      (entry "value" (a.value.map Json.number) ++ (entry "steps" (stepsJson a.steps) ++
        (entry "error" (a.error.map Json.text) ++
          entry "error_code" (a.code.map Json.text))))) := by
  have hsteps :
      (if a.steps.isEmpty then [] else [("steps", Json.array (a.steps.map Step.toJson))]) =
        entry "steps" (stepsJson a.steps) := by
    rw [stepsJson]
    split_ifs <;> rfl
  rw [toJson, toJsonFor, hsteps]
  simp only [entry, Option.map_map, Function.comp_def, List.append_assoc]

/-- The parts of an answer are its fields. -/
theorem field?_toJson (a : Answer) :
    field? "ok" a.toJson = some (.bool a.ok) ∧
      field? "expression" a.toJson = some (.text a.expression) ∧
      field? "value" a.toJson = a.value.map Json.number ∧
      field? "steps" a.toJson = stepsJson a.steps ∧
      field? "error" a.toJson = a.error.map Json.text ∧
      field? "error_code" a.toJson = a.code.map Json.text := by
  rw [toJson_eq]
  simp [field?, List.lookup_append, lookup_entry, List.lookup]

/-- An empty list of steps is told from all others by having no field. -/
theorem stepsJson_injective {steps steps' : List Step} (h : stepsJson steps = stepsJson steps') :
    steps = steps' := by
  cases steps with
  | nil =>
      cases steps' with
      | nil => rfl
      | cons => cases h
  | cons s rest =>
      cases steps' with
      | nil => cases h
      | cons s' rest' =>
          have hmap := Json.array.inj (Option.some.inj h)
          exact List.map_injective_iff.2 (fun _ _ => Step.toJson_injective) hmap

/-- Answers are told apart by their objects. -/
theorem toJson_injective {a b : Answer} (h : a.toJson = b.toJson) : a = b := by
  rcases field?_toJson a with ⟨hok, hexpression, hvalue, hsteps, herror, hcode⟩
  rcases field?_toJson b with ⟨hok', hexpression', hvalue', hsteps', herror', hcode'⟩
  rw [h] at hok hexpression hvalue hsteps herror hcode
  have htext : Function.Injective Json.text := fun _ _ => Json.text.inj
  have hnumber : Function.Injective Json.number := fun _ _ => Json.number.inj
  cases a
  cases b
  congr
  · exact Json.bool.inj (Option.some.inj (hok.symm.trans hok'))
  · exact Json.text.inj (Option.some.inj (hexpression.symm.trans hexpression'))
  · exact Option.map_injective hnumber (hvalue.symm.trans hvalue')
  · exact stepsJson_injective (hsteps.symm.trans hsteps')
  · exact Option.map_injective htext (herror.symm.trans herror')
  · exact Option.map_injective htext (hcode.symm.trans hcode')

/-- The object of an answer has a place in the format, unless its value has none. -/
theorem sound_toJson {a : Answer} (h : ∀ v ∈ a.value, v.isFinite = true) : Sound a.toJson := by
  rw [toJson_eq]
  refine .object ?_ fun field hfield => ?_
  · -- Which fields there are depends on the answer, but they are always among these six.
    have hnames : ["ok", "expression", "value", "steps", "error", "error_code"].Nodup := by simp
    refine hnames.sublist ?_
    simp only [List.map_append]
    exact (List.Sublist.refl ["ok", "expression"]).append <| (names_entry _ _).append <|
      (names_entry _ _).append <| (names_entry _ _).append (names_entry _ _)
  · simp only [List.mem_append] at hfield
    rcases hfield with hfirst | hvalue | hsteps | herror | hcode
    · rcases List.mem_pair.1 hfirst with rfl | rfl
      · exact .bool a.ok
      · exact .text a.expression
    · rcases Option.map_eq_some_iff.1 (mem_entry hvalue) with ⟨v, hv, hj⟩
      rw [← hj]
      exact .number (h v hv)
    · have hj := mem_entry hsteps
      rw [stepsJson] at hj
      split_ifs at hj
      · cases hj
      · rw [← Option.some.inj hj]
        exact .array (List.forall_mem_map.2 fun s _ => s.sound_toJson)
    · rcases Option.map_eq_some_iff.1 (mem_entry herror) with ⟨e, -, hj⟩
      rw [← hj]
      exact .text e
    · rcases Option.map_eq_some_iff.1 (mem_entry hcode) with ⟨c, -, hj⟩
      rw [← hj]
      exact .text c

/-- The printed text determines the answer. It spells the answer's object and no other
    document, and no other answer is printed as the same text. -/
theorem printed_determines {a : Answer} (h : ∀ v ∈ a.value, v.isFinite = true) :
    ∃ text, a.printed .json = .ok text ∧ Sound a.toJson ∧
      (∀ j, Json.IsText text.toList j ↔ j = a.toJson) ∧
      ∀ b : Answer, (∀ v ∈ b.value, v.isFinite = true) →
        (b.printed .json = .ok text ↔ b = a) := by
  have hspells := Json.isText_pretty (sound_toJson h)
  refine ⟨_, printed_json a, sound_toJson h, hspells, fun b hb => ?_⟩
  constructor
  · intro hprinted
    rw [printed_json] at hprinted
    have hsame := (Json.isText_pretty (sound_toJson hb) b.toJson).2 rfl
    rw [Except.ok.inj hprinted] at hsame
    exact toJson_injective ((hspells _).1 hsame)
  · rintro rfl
    exact printed_json b

/-- Not even the sign of a zero is lost. -/
theorem printed_determines_negativeZero :
    Double.negativeZero.isFinite = true ∧ ∃ text,
      printed ⟨true, "-0", some .negativeZero, [⟨"Negation: -0", "-0 = -0", "\"-\""⟩], none, none⟩
        .json = .ok text ∧
      Json.IsText text.toList (.object [("ok", .bool true), ("expression", .text "-0"),
        ("value", .number .negativeZero), ("steps", .array [.object [
          ("description", .text "Negation: -0"), ("calculation", .text "-0 = -0"),
          ("explanation", .text "\"-\"")]])]) ∧
      printed ⟨true, "-0", some .zero, [⟨"Negation: -0", "-0 = -0", "\"-\""⟩], none, none⟩
        .json ≠ .ok text := by
  have hfinite : ∀ x : Double, x.isFinite = true → ∀ v ∈ some x, v.isFinite = true := by
    rintro x hx v ⟨⟩
    exact hx
  rcases printed_determines (a := ⟨true, "-0", some .negativeZero,
      [⟨"Negation: -0", "-0 = -0", "\"-\""⟩], none, none⟩) (hfinite _ rfl) with
    ⟨text, hprinted, -, hspells, hother⟩
  refine ⟨rfl, text, hprinted, (hspells _).2 rfl, fun hzero => ?_⟩
  cases (hother _ (hfinite .zero rfl)).1 hzero

end Answer

end Reckoner
