import Mathlib
import Reckoner.Proofs.Json.Grammar

/-!
# Printed Documents

A printed document is a text of the grammar, and what it spells is the document that was
printed. This holds of the documents that the format has room for: the infinities and the
indefinite value are printed as words that are no numerals.

Each piece is placed in front of what follows it. A line starts with a gap, which belongs
to the element on that line, and the gap after the last element of an array or of an object
belongs to that element.

## Main definitions

* `Sound`: The documents that the format has room for.

## Theorems

* `isBody_flatMap`: An escaped string has the string as its content.
* `spells_chars`: A document is printed as a text that spells it.
* `isText_pretty`: A printed line spells the document and no other.
-/

namespace Reckoner

namespace Json

/-! ## Strings -/

/-- A code below sixteen is read back from its digit. -/
theorem hexValue?_digitChar {n : Nat} (h : n < 16) : hexValue? (Nat.digitChar n) = some n := by
  have hall : ∀ n < 16, hexValue? (Nat.digitChar n) = some n := by decide
  exact hall n h

/-- The code of a control character is read back from its two digits. -/
theorem isUnit_control {c : Char} (h : c.toNat < 0x20) :
    IsUnit ['0', '0', Nat.digitChar (c.toNat / 16), Nat.digitChar (c.toNat % 16)] c.toNat := by
  have hunit := IsUnit.mk (a := '0') (b := '0') (i := 0) (j := 0) rfl rfl
    (hexValue?_digitChar (n := c.toNat / 16) (by omega))
    (hexValue?_digitChar (n := c.toNat % 16) (by omega))
  have hcode : ((0 * 16 + 0) * 16 + c.toNat / 16) * 16 + c.toNat % 16 = c.toNat := by omega
  rw [hcode] at hunit
  exact hunit

/-- A character is read back from what stands for it. -/
theorem isBody_escape (c : Char) {ts cs : List Char} (h : IsBody ts cs) :
    IsBody (escape c ++ ts) (c :: cs) := by
  rw [escape]
  split_ifs with hquote hslash hline hreturn htab hback hfeed hlow
  · subst hquote
    exact .short (by decide) h
  · subst hslash
    exact .short (by decide) h
  · subst hline
    exact .short (by decide) h
  · subst hreturn
    exact .short (by decide) h
  · subst htab
    exact .short (by decide) h
  · subst hback
    exact .short (by decide) h
  · subst hfeed
    exact .short (by decide) h
  · exact .unit (isUnit_control hlow) h
  · exact .plain (Nat.not_lt.1 hlow) hquote hslash h

/-- An escaped string has the string as its content. -/
theorem isBody_flatMap (cs : List Char) : IsBody (cs.flatMap escape) cs := by
  induction cs with
  | nil => exact .nil
  | cons c cs ih => exact isBody_escape c ih

/-! ## Documents -/

/-- The documents that the format has room for. All numbers are finite, and no object has
    two fields of one name. -/
inductive Sound : Json → Prop
  | bool (value : Bool) : Sound (.bool value)
  | number {x : Double} (h : x.isFinite = true) : Sound (.number x)
  | text (s : String) : Sound (.text s)
  | array {items : List Json} (h : ∀ j ∈ items, Sound j) : Sound (.array items)
  | object {fields : List (String × Json)} (hnames : (fields.map Prod.fst).Nodup)
      (h : ∀ field ∈ fields, Sound field.2) : Sound (.object fields)

theorem isGap_newline (level : Nat) : IsGap (newline level) := by
  intro c hc
  rcases List.mem_cons.1 hc with rfl | hblank
  · rfl
  · rw [List.eq_of_mem_replicate hblank]
    rfl

theorem isGap_nil : IsGap [] := List.forall_mem_nil _

section Parts

variable {gap : List Char} (level : Nat)

/-- The items of an array, with the gap after them. -/
theorem spells_items (hgap : IsGap gap) {item : Json} {rest : List Json}
    (h : ∀ j ∈ item :: rest, Spells (.value j) (chars level j)) :
    Spells (.elements (item :: rest))
      (newline level ++ (chars level item ++ (itemChars level rest ++ gap))) := by
  induction rest generalizing item with
  | nil => exact .lastElement (.element (isGap_newline level) (h item (.head _)) hgap)
  | cons next rest ih =>
      have hitem : Spells (.element item) (newline level ++ (chars level item ++ [])) :=
        .element (isGap_newline level) (h item (.head _)) isGap_nil
      have hspells := Spells.nextElement hitem (ih fun j hj => h j (.tail _ hj))
      simp only [List.append_assoc, List.nil_append] at hspells
      simp only [itemChars, List.cons_append, List.append_assoc]
      exact hspells

/-- One field of an object, with the gap before it and the one after it. -/
theorem spells_field (hgap : IsGap gap) {name : String} {j : Json} {cs : List Char}
    (h : Spells (.value j) cs) :
    Spells (.member (name, j))
      (newline level ++ (stringChars name.toList ++ ':' :: ' ' :: (cs ++ gap))) := by
  have hblank : IsGap [' '] := List.forall_mem_singleton.2 rfl
  have hspells := Spells.member (isGap_newline level) (isBody_flatMap name.toList) isGap_nil
    (.element hblank h hgap)
  simp only [stringChars, List.cons_append, List.append_assoc, List.nil_append]
  exact hspells

/-- The fields of an object, with the gap after them. -/
theorem spells_fields (hgap : IsGap gap) {name : String} {j : Json} {rest : List (String × Json)}
    (h : ∀ field ∈ (name, j) :: rest, Spells (.value field.2) (chars level field.2)) :
    Spells (.members ((name, j) :: rest))
      (newline level ++ (stringChars name.toList ++
        ':' :: ' ' :: (chars level j ++ (fieldChars level rest ++ gap)))) := by
  induction rest generalizing name j with
  | nil => exact .lastMember (spells_field level hgap (h _ (.head _)))
  | cons next rest ih =>
      have hfield : Spells (.member (name, j)) _ := spells_field level isGap_nil (h _ (.head _))
      have hspells := Spells.nextMember hfield (ih fun field hf => h field (.tail _ hf))
      simp only [List.append_assoc, List.nil_append, List.cons_append] at hspells
      simp only [fieldChars, List.cons_append, List.append_assoc]
      exact hspells

end Parts

/-- A document is printed as a text that spells it, at every level. By induction on the
    document. -/
theorem spells_chars {j : Json} (h : Sound j) (level : Nat) :
    Spells (.value j) (chars level j) := by
  induction h generalizing level with
  | bool value =>
      cases value with
      | true => exact .yes
      | false => exact .no
  | @number x h =>
      cases x with
      | finite => exact .number (Double.denotes_text h)
      | infinite => cases h
      | nan => cases h
  | text s => exact .text (isBody_flatMap s.toList)
  | @array items h ih =>
      cases items with
      | nil => exact .emptyArray isGap_nil
      | cons item rest =>
          have hspells := Spells.array (spells_items (level + 1) (isGap_newline level)
            fun j hj => ih j hj (level + 1))
          simp only [List.append_assoc] at hspells
          simp only [chars, List.append_assoc]
          exact hspells
  | @object fields hnames h ih =>
      cases fields with
      | nil => exact .emptyObject isGap_nil
      | cons field rest =>
          have hspells := Spells.object (spells_fields (level + 1) (isGap_newline level)
            fun f hf => ih f hf (level + 1))
          simp only [List.append_assoc, List.cons_append] at hspells
          simp only [chars, List.append_assoc, List.cons_append, List.nil_append]
          exact hspells

/-- A printed line spells the document and no other. -/
theorem isText_pretty {j : Json} (h : Sound j) (j' : Json) :
    IsText (j.pretty ++ "\n").toList j' ↔ j' = j := by
  have hend : IsGap ['\n'] := List.forall_mem_singleton.2 rfl
  have hspells : IsText (j.pretty ++ "\n").toList j := by
    rw [String.toList_append, pretty, String.toList_ofList]
    exact .element isGap_nil (spells_chars h 0) hend
  constructor
  · intro h'
    exact isText_unique h' hspells
  · rintro rfl
    exact hspells

end Json

end Reckoner
