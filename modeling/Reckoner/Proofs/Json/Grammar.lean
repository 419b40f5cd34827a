import Mathlib
import Reckoner.Proofs.Number.Notation
import Reckoner.Text.Json

/-!
# The Grammar of Documents

Which texts spell a document, by the grammar of the format and with no regard to how
documents are printed. Blanks, tabs and line ends may stand around every element. In
strings, a character may stand for itself or be escaped, by a letter or by its code,
which has two parts if it does not fit into one.

A text spells one document at most (`spells_unique`). It is read from the left, and
nothing that has been read depends on what follows, except that numbers end where they
cannot be continued. What may follow a part never continues it (`Part.continues`).

## Main definitions

* `IsBody`: The insides of strings.
* `Part`: A document or a part of one.
* `Spells`: The texts that spell a part of a document.
* `IsText`: The texts that spell a document.

## Theorems

* `isBody_unique`: A string has one content.
* `spells_unique`: A text starts with one part of a kind at most.
* `isText_unique`: A text spells one document at most.
-/

namespace Reckoner

open Lexical (Clear clear_cons eq_of_append_eq)

namespace Json

/-! ## Strings -/

/-- The letters that escape a character, with the character. -/
def shortEscapes : List (Char × Char) :=
  [('"', '"'), ('\\', '\\'), ('/', '/'), ('b', '\x08'), ('f', '\x0c'), ('n', '\n'), ('r', '\r'),
    ('t', '\t')]

/-- The value of a hexadecimal digit. -/
def hexValue? (c : Char) : Option Nat :=
  if '0' ≤ c ∧ c ≤ '9' then some (c.toNat - '0'.toNat)
  else if 'a' ≤ c ∧ c ≤ 'f' then some (c.toNat - 'a'.toNat + 10)
  else if 'A' ≤ c ∧ c ≤ 'F' then some (c.toNat - 'A'.toNat + 10)
  else none

/-- Four hexadecimal digits, with their value. -/
inductive IsUnit : List Char → Nat → Prop
  | mk {a b c d : Char} {i j k l : Nat} (ha : hexValue? a = some i) (hb : hexValue? b = some j)
      (hc : hexValue? c = some k) (hd : hexValue? d = some l) :
      IsUnit [a, b, c, d] (((i * 16 + j) * 16 + k) * 16 + l)

/-- What stands between the quotes of a string, with its content. A code of four digits
    is that of the character, or the two halves of it come one after the other. -/
inductive IsBody : List Char → List Char → Prop
  | nil : IsBody [] []
  | plain {c : Char} {ts cs : List Char} (hlow : 0x20 ≤ c.toNat) (hquote : c ≠ '"')
      (hescape : c ≠ '\\') (h : IsBody ts cs) : IsBody (c :: ts) (c :: cs)
  | short {letter c : Char} {ts cs : List Char} (hletter : (letter, c) ∈ shortEscapes)
      (h : IsBody ts cs) : IsBody ('\\' :: letter :: ts) (c :: cs)
  | unit {c : Char} {ds ts cs : List Char} (hunit : IsUnit ds c.toNat) (h : IsBody ts cs) :
      IsBody ('\\' :: 'u' :: (ds ++ ts)) (c :: cs)
  | pair {c : Char} {ds ds' ts cs : List Char} {high low : Nat} (hhigh : IsUnit ds high)
      (hlow : IsUnit ds' low) (hfirst : 0xD800 ≤ high ∧ high ≤ 0xDBFF)
      (hsecond : 0xDC00 ≤ low ∧ low ≤ 0xDFFF)
      (hc : c.toNat = 0x10000 + (high - 0xD800) * 0x400 + (low - 0xDC00)) (h : IsBody ts cs) :
      IsBody ('\\' :: 'u' :: (ds ++ '\\' :: 'u' :: (ds' ++ ts))) (c :: cs)

/-- A code is read in one way. -/
theorem isUnit_unique {ds ds' r r' : List Char} {n n' : Nat} (h : IsUnit ds n) (h' : IsUnit ds' n')
    (heq : ds ++ r = ds' ++ r') : ds = ds' ∧ n = n' ∧ r = r' := by
  cases h with
  | mk ha hb hc hd =>
      cases h' with
      | mk ha' hb' hc' hd' =>
          cases heq
          rw [ha] at ha'
          rw [hb] at hb'
          rw [hc] at hc'
          rw [hd] at hd'
          cases ha'
          cases hb'
          cases hc'
          cases hd'
          exact ⟨rfl, rfl, rfl⟩

/-- No character has the code of a half. -/
theorem toNat_not_half (c : Char) : ¬ (0xD800 ≤ c.toNat ∧ c.toNat ≤ 0xDBFF) := by
  have hvalid : c.toNat < 0xD800 ∨ (0xDFFF < c.toNat ∧ c.toNat < 0x110000) := c.valid
  omega

theorem not_mem_shortEscapes (c : Char) : ('u', c) ∉ shortEscapes := by
  simp [shortEscapes]

/-- A letter escapes one character. -/
theorem shortEscapes_unique {letter c c' : Char} (h : (letter, c) ∈ shortEscapes)
    (h' : (letter, c') ∈ shortEscapes) : c = c' := by
  have hall : ∀ p ∈ shortEscapes, ∀ q ∈ shortEscapes, p.1 = q.1 → p.2 = q.2 := by decide
  exact hall _ h _ h' rfl

/-- A string has one content, by induction along the first way of reading it. -/
theorem isBody_unique {ts ts' cs cs' r r' : List Char} (h : IsBody ts cs) (h' : IsBody ts' cs')
    (heq : ts ++ '"' :: r = ts' ++ '"' :: r') : ts = ts' ∧ cs = cs' := by
  induction h generalizing ts' cs' with
  | nil =>
      cases h' with
      | nil => exact ⟨rfl, rfl⟩
      | plain _ hquote _ _ => exact (hquote (List.cons.inj heq).1.symm).elim
      | _ => cases heq
  | plain hlow hquote hescape h ih =>
      cases h' with
      | nil => exact (hquote (List.cons.inj heq).1).elim
      | plain _ _ _ h' =>
          rcases List.cons.inj heq with ⟨rfl, hrest⟩
          rcases ih h' hrest with ⟨rfl, rfl⟩
          exact ⟨rfl, rfl⟩
      | _ => exact (hescape (List.cons.inj heq).1).elim
  | short hletter h ih =>
      cases h' with
      | nil => cases heq
      | plain _ _ hescape _ => exact (hescape (List.cons.inj heq).1.symm).elim
      | short hletter' h' =>
          rcases List.cons.inj (List.cons.inj heq).2 with ⟨rfl, hrest⟩
          rcases ih h' hrest with ⟨rfl, rfl⟩
          exact ⟨rfl, by rw [shortEscapes_unique hletter hletter']⟩
      | _ =>
          rcases List.cons.inj (List.cons.inj heq).2 with ⟨rfl, -⟩
          exact (not_mem_shortEscapes _ hletter).elim
  | unit hunit h ih =>
      cases h' with
      | nil => cases heq
      | plain _ _ hescape _ => exact (hescape (List.cons.inj heq).1.symm).elim
      | short hletter' _ =>
          rcases List.cons.inj (List.cons.inj heq).2 with ⟨rfl, -⟩
          exact (not_mem_shortEscapes _ hletter').elim
      | unit hunit' h' =>
          simp only [List.cons_append, List.append_assoc, List.cons.injEq, true_and] at heq
          rcases isUnit_unique hunit hunit' heq with ⟨rfl, hcode, hrest⟩
          rcases ih h' hrest with ⟨rfl, rfl⟩
          exact ⟨rfl, by rw [Char.toNat_inj.1 hcode]⟩
      | pair hhigh' _ hfirst' _ _ _ =>
          -- The first code cannot be both that of a character and that of a half.
          simp only [List.cons_append, List.append_assoc, List.cons.injEq, true_and] at heq
          rcases isUnit_unique hunit hhigh' heq with ⟨-, rfl, -⟩
          exact (toNat_not_half _ hfirst').elim
  | pair hhigh hlow hfirst hsecond hc h ih =>
      cases h' with
      | nil => cases heq
      | plain _ _ hescape _ => exact (hescape (List.cons.inj heq).1.symm).elim
      | short hletter' _ =>
          rcases List.cons.inj (List.cons.inj heq).2 with ⟨rfl, -⟩
          exact (not_mem_shortEscapes _ hletter').elim
      | unit hunit' h' =>
          simp only [List.cons_append, List.append_assoc, List.cons.injEq, true_and] at heq
          rcases isUnit_unique hhigh hunit' heq with ⟨-, rfl, -⟩
          exact (toNat_not_half _ hfirst).elim
      | pair hhigh' hlow' _ _ hc' h' =>
          simp only [List.cons_append, List.append_assoc, List.cons.injEq, true_and] at heq
          rcases isUnit_unique hhigh hhigh' heq with ⟨rfl, rfl, hafter⟩
          simp only [List.cons.injEq, true_and] at hafter
          rcases isUnit_unique hlow hlow' hafter with ⟨rfl, rfl, hrest⟩
          rcases ih h' hrest with ⟨rfl, rfl⟩
          exact ⟨rfl, by rw [Char.toNat_inj.1 (hc.trans hc'.symm)]⟩

/-! ## Documents -/

/-- The characters that may stand around an element. -/
def isGap (c : Char) : Bool := c == ' ' || c == '\t' || c == '\n' || c == '\r'

/-- Nothing but such characters. -/
def IsGap (cs : List Char) : Prop := ∀ c ∈ cs, isGap c = true

/-- A document or a part of one. -/
inductive Part
  | value (j : Json)
  | element (j : Json)
  | elements (items : List Json)
  | member (field : String × Json)
  | members (fields : List (String × Json))

/-- The texts that spell a part of a document. -/
inductive Spells : Part → List Char → Prop
  | yes : Spells (.value (.bool true)) ['t', 'r', 'u', 'e']
  | no : Spells (.value (.bool false)) ['f', 'a', 'l', 's', 'e']
  | number {x : Double} {cs : List Char} (h : Numeral.Denotes cs x) : Spells (.value (.number x)) cs
  | text {s : String} {body : List Char} (h : IsBody body s.toList) :
      Spells (.value (.text s)) ('"' :: (body ++ ['"']))
  | emptyArray {gap : List Char} (hgap : IsGap gap) :
      Spells (.value (.array [])) ('[' :: (gap ++ [']']))
  | array {items : List Json} {cs : List Char} (h : Spells (.elements items) cs) :
      Spells (.value (.array items)) ('[' :: (cs ++ [']']))
  | emptyObject {gap : List Char} (hgap : IsGap gap) :
      Spells (.value (.object [])) ('\x7b' :: (gap ++ ['\x7d']))
  | object {fields : List (String × Json)} {cs : List Char} (h : Spells (.members fields) cs) :
      Spells (.value (.object fields)) ('\x7b' :: (cs ++ ['\x7d']))
  | element {j : Json} {before cs after : List Char} (hbefore : IsGap before)
      (h : Spells (.value j) cs) (hafter : IsGap after) :
      Spells (.element j) (before ++ (cs ++ after))
  | lastElement {j : Json} {cs : List Char} (h : Spells (.element j) cs) : Spells (.elements [j]) cs
  | nextElement {j : Json} {items : List Json} {cs ds : List Char} (h : Spells (.element j) cs)
      (hrest : Spells (.elements items) ds) : Spells (.elements (j :: items)) (cs ++ ',' :: ds)
  | member {name : String} {j : Json} {before body after cs : List Char} (hbefore : IsGap before)
      (hname : IsBody body name.toList) (hafter : IsGap after) (h : Spells (.element j) cs) :
      Spells (.member (name, j)) (before ++ '"' :: (body ++ '"' :: (after ++ ':' :: cs)))
  | lastMember {field : String × Json} {cs : List Char} (h : Spells (.member field) cs) :
      Spells (.members [field]) cs
  | nextMember {field : String × Json} {fields : List (String × Json)} {cs ds : List Char}
      (h : Spells (.member field) cs) (hrest : Spells (.members fields) ds) :
      Spells (.members (field :: fields)) (cs ++ ',' :: ds)

/-- The texts that spell a document. -/
def IsText (cs : List Char) (j : Json) : Prop := Spells (.element j) cs

/-- The kinds of parts. -/
inductive Role
  | value
  | element
  | elements
  | member
  | members

/-- The kind of a part. -/
def Part.role : Part → Role
  | .value _ => .value
  | .element _ => .element
  | .elements _ => .elements
  | .member _ => .member
  | .members _ => .members

/-- The characters that may continue a part. A number may be continued by what numerals are
    made of, an element by what may stand around it, and several of them by a comma. -/
def Part.continues (p : Part) (c : Char) : Bool :=
  match p with
  | .value _ => Numeral.isNumeral c
  | .element _ | .member _ => Numeral.isNumeral c || isGap c
  | .elements _ | .members _ => Numeral.isNumeral c || isGap c || c == ','

/-- A character that something has begun with: it may not stand around an element, and it
    closes nothing. -/
def Begins (c : Char) : Prop := isGap c = false ∧ c ≠ ']' ∧ c ≠ '\x7d'

/-- After a gap, something has begun. -/
def Begun (cs : List Char) : Prop :=
  ∃ gap c tail, cs = gap ++ c :: tail ∧ IsGap gap ∧ Begins c

theorem isGap_of_isDigit {c : Char} (h : c.isDigit = true) : isGap c = false := by
  by_contra hgap
  simp only [isGap, Bool.not_eq_false, Bool.or_eq_true, beq_iff_eq] at hgap
  rcases hgap with ((rfl | rfl) | rfl) | rfl <;> cases h

/-- A number begins with a minus or with a digit. -/
theorem denotes_start {cs : List Char} {x : Double} (h : Numeral.Denotes cs x) :
    ∃ c tail, cs = c :: tail ∧ (c = '-' ∨ c.isDigit = true) := by
  cases h with
  | @mk whole point fraction scale exponent negative hwhole hfraction hexponent =>
      cases negative with
      | true => exact ⟨'-', _, rfl, .inl rfl⟩
      | false =>
          rcases List.exists_cons_of_ne_nil hwhole.nonempty with ⟨d, ds, rfl⟩
          exact ⟨d, _, rfl, .inr (hwhole.digits d (.head _))⟩

theorem value_start {j : Json} {cs : List Char} (h : Spells (.value j) cs) :
    ∃ c tail, cs = c :: tail ∧ Begins c := by
  cases h with
  | number h =>
      rcases denotes_start h with ⟨c, tail, rfl, rfl | hdigit⟩
      · exact ⟨'-', tail, rfl, rfl, by decide, by decide⟩
      · refine ⟨c, tail, rfl, isGap_of_isDigit hdigit, ?_, ?_⟩
        · rintro rfl
          cases hdigit
        · rintro rfl
          cases hdigit
  | _ => exact ⟨_, _, rfl, rfl, by decide, by decide⟩

theorem begun_element {j : Json} {cs : List Char} (h : Spells (.element j) cs) : Begun cs := by
  cases h with
  | element hbefore h hafter =>
      rcases value_start h with ⟨c, tail, rfl, hc⟩
      exact ⟨_, c, _, rfl, hbefore, hc⟩

theorem begun_member {field : String × Json} {cs : List Char} (h : Spells (.member field) cs) :
    Begun cs := by
  cases h with
  | member hbefore _ _ _ => exact ⟨_, '"', _, rfl, hbefore, rfl, by decide, by decide⟩

theorem Begun.append {cs : List Char} (h : Begun cs) (ds : List Char) : Begun (cs ++ ds) := by
  rcases h with ⟨gap, c, tail, rfl, hgap, hc⟩
  exact ⟨gap, c, tail ++ ds, by rw [List.append_assoc, List.cons_append], hgap, hc⟩

theorem begun_elements {items : List Json} {cs : List Char} (h : Spells (.elements items) cs) :
    Begun cs := by
  cases h with
  | lastElement h => exact begun_element h
  | nextElement h _ => exact (begun_element h).append _

theorem begun_members {fields : List (String × Json)} {cs : List Char}
    (h : Spells (.members fields) cs) : Begun cs := by
  cases h with
  | lastMember h => exact begun_member h
  | nextMember h _ => exact (begun_member h).append _

section Unique

variable {rest rest' : List Char}

/-- What has begun is not nothing. -/
theorem Begun.ne_gap {cs gap : List Char} {closing : Char} (h : Begun cs) (hgap : IsGap gap)
    (hclosing : closing = ']' ∨ closing = '\x7d') : cs ++ rest ≠ gap ++ closing :: rest' := by
  rcases h with ⟨gap', c, tail, rfl, hgap', hc, hbracket, hbrace⟩
  intro heq
  have hclosed : isGap closing = false := by
    rcases hclosing with rfl | rfl <;> rfl
  rw [List.append_assoc, List.cons_append] at heq
  rcases List.cons.inj (eq_of_append_eq hgap' hgap (clear_cons _ hc) (clear_cons _ hclosed) heq).2
    with ⟨rfl, -⟩
  rcases hclosing with rfl | rfl
  · exact hbracket rfl
  · exact hbrace rfl

/-- A number is told from everything else by its first character. -/
theorem denotes_ne_cons {cs : List Char} {x : Double} {c : Char} (h : Numeral.Denotes cs x)
    (hminus : c ≠ '-') (hdigit : c.isDigit = false) : cs ++ rest ≠ c :: rest' := by
  rcases denotes_start h with ⟨d, tail, rfl, hd⟩
  intro heq
  rcases List.cons.inj heq with ⟨rfl, -⟩
  rcases hd with rfl | hd
  · exact hminus rfl
  · rw [hdigit] at hd
    cases hd

/-- A value ends at a gap, and without one it ends where its element does. -/
theorem clear_value_of_gap {after : List Char} (hafter : IsGap after)
    (hrest : Clear (fun c => Numeral.isNumeral c || isGap c) rest) :
    Clear Numeral.isNumeral (after ++ rest) := by
  refine .append (fun c hc => ?_) fun c hc => (Bool.or_eq_false_iff.1 (hrest c hc)).1
  have hgap := hafter c (List.mem_of_mem_head? hc)
  simp only [isGap, Bool.or_eq_true, beq_iff_eq] at hgap
  rcases hgap with ((rfl | rfl) | rfl) | rfl <;> rfl

theorem clear_gap (hrest : Clear (fun c => Numeral.isNumeral c || isGap c) rest) :
    Clear isGap rest :=
  fun c hc => (Bool.or_eq_false_iff.1 (hrest c hc)).2

/-- What continues an element continues several of them as well. -/
theorem clear_element (hrest : Clear (fun c => Numeral.isNumeral c || isGap c || c == ',') rest) :
    Clear (fun c => Numeral.isNumeral c || isGap c) rest :=
  fun c hc => (Bool.or_eq_false_iff.1 (hrest c hc)).1

/-- What stands between two characters, with what follows. -/
theorem enclosed_inj {first first' last last' : Char} {cs cs' : List Char}
    (h : first :: (cs ++ [last]) ++ rest = first' :: (cs' ++ [last']) ++ rest') :
    cs ++ last :: rest = cs' ++ last' :: rest' := by
  simp only [List.cons_append, List.append_assoc, List.cons.injEq, List.nil_append] at h
  exact h.2

/-- A text starts with one part of a kind at most, if what follows does not continue it. By
    induction along the first way of reading it. -/
theorem spells_unique {p p' : Part} {cs cs' : List Char} (h : Spells p cs) (h' : Spells p' cs')
    (hrole : p.role = p'.role) (hrest : Clear p.continues rest) (hrest' : Clear p'.continues rest')
    (heq : cs ++ rest = cs' ++ rest') : p = p' ∧ cs = cs' := by
  induction h generalizing p' cs' rest rest' with
  | yes =>
      cases h' with
      | yes => exact ⟨rfl, rfl⟩
      | number hx => exact (denotes_ne_cons hx (by decide) rfl heq.symm).elim
      | _ => first | contradiction | cases heq
  | no =>
      cases h' with
      | no => exact ⟨rfl, rfl⟩
      | number hx => exact (denotes_ne_cons hx (by decide) rfl heq.symm).elim
      | _ => first | contradiction | cases heq
  | number hx =>
      cases h' with
      | number hx' =>
          rcases Numeral.denotes_unique hx hx' hrest hrest' heq with ⟨rfl, rfl⟩
          exact ⟨rfl, rfl⟩
      | _ => first | contradiction | exact (denotes_ne_cons hx (by decide) rfl heq).elim
  | text hbody =>
      cases h' with
      | text hbody' =>
          rcases isBody_unique hbody hbody' (enclosed_inj heq) with ⟨rfl, hcontent⟩
          rw [String.toList_inj.1 hcontent]
          exact ⟨rfl, rfl⟩
      | number hx => exact (denotes_ne_cons hx (by decide) rfl heq.symm).elim
      | _ => first | contradiction | cases heq
  | emptyArray hgap =>
      cases h' with
      | emptyArray hgap' =>
          rcases eq_of_append_eq hgap hgap' (clear_cons _ rfl) (clear_cons _ rfl)
            (enclosed_inj heq) with ⟨rfl, -⟩
          exact ⟨rfl, rfl⟩
      | array h' =>
          exact ((begun_elements h').ne_gap hgap (.inl rfl) (enclosed_inj heq.symm)).elim
      | number hx => exact (denotes_ne_cons hx (by decide) rfl heq.symm).elim
      | _ => first | contradiction | cases heq
  | array h ih =>
      cases h' with
      | emptyArray hgap' =>
          exact ((begun_elements h).ne_gap hgap' (.inl rfl) (enclosed_inj heq)).elim
      | array h' =>
          rcases ih h' rfl (clear_cons _ rfl) (clear_cons _ rfl) (enclosed_inj heq) with
            ⟨hitems, rfl⟩
          cases hitems
          exact ⟨rfl, rfl⟩
      | number hx => exact (denotes_ne_cons hx (by decide) rfl heq.symm).elim
      | _ => first | contradiction | cases heq
  | emptyObject hgap =>
      cases h' with
      | emptyObject hgap' =>
          rcases eq_of_append_eq hgap hgap' (clear_cons _ rfl) (clear_cons _ rfl)
            (enclosed_inj heq) with ⟨rfl, -⟩
          exact ⟨rfl, rfl⟩
      | object h' =>
          exact ((begun_members h').ne_gap hgap (.inr rfl) (enclosed_inj heq.symm)).elim
      | number hx => exact (denotes_ne_cons hx (by decide) rfl heq.symm).elim
      | _ => first | contradiction | cases heq
  | object h ih =>
      cases h' with
      | emptyObject hgap' =>
          exact ((begun_members h).ne_gap hgap' (.inr rfl) (enclosed_inj heq)).elim
      | object h' =>
          rcases ih h' rfl (clear_cons _ rfl) (clear_cons _ rfl) (enclosed_inj heq) with
            ⟨hfields, rfl⟩
          cases hfields
          exact ⟨rfl, rfl⟩
      | number hx => exact (denotes_ne_cons hx (by decide) rfl heq.symm).elim
      | _ => first | contradiction | cases heq
  | element hbefore h hafter ih =>
      cases h' with
      | element hbefore' h' hafter' =>
          simp only [List.append_assoc] at heq
          rcases value_start h with ⟨c, tail, hstart, hc, -⟩
          rcases value_start h' with ⟨c', tail', hstart', hc', -⟩
          rcases eq_of_append_eq hbefore hbefore' (by rw [hstart]; exact clear_cons _ hc)
            (by rw [hstart']; exact clear_cons _ hc') heq with ⟨rfl, hvalue⟩
          -- The gap after the value does not continue it, so the values are the same as well.
          rcases ih h' rfl (clear_value_of_gap hafter hrest) (clear_value_of_gap hafter' hrest')
            hvalue with ⟨hj, rfl⟩
          cases hj
          rcases eq_of_append_eq hafter hafter' (clear_gap hrest) (clear_gap hrest')
            (List.append_cancel_left hvalue) with ⟨rfl, -⟩
          exact ⟨rfl, rfl⟩
      | _ => cases hrole
  | lastElement h ih =>
      cases h' with
      | lastElement h' =>
          rcases ih h' rfl (clear_element hrest) (clear_element hrest') heq with ⟨hj, rfl⟩
          cases hj
          exact ⟨rfl, rfl⟩
      | nextElement h' hmore' =>
          rw [List.append_assoc] at heq
          rcases ih h' rfl (clear_element hrest) (clear_cons _ rfl) heq with ⟨-, rfl⟩
          -- The comma of the second way would have to follow the first one.
          rw [List.append_cancel_left heq] at hrest
          cases hrest ',' rfl
      | _ => cases hrole
  | nextElement h hmore ih ihmore =>
      cases h' with
      | lastElement h' =>
          rw [List.append_assoc] at heq
          rcases ih h' rfl (clear_cons _ rfl) (clear_element hrest') heq with ⟨-, rfl⟩
          rw [← List.append_cancel_left heq] at hrest'
          cases hrest' ',' rfl
      | nextElement h' hmore' =>
          simp only [List.append_assoc, List.cons_append] at heq
          rcases ih h' rfl (clear_cons _ rfl) (clear_cons _ rfl) heq with ⟨hj, rfl⟩
          cases hj
          rcases ihmore hmore' rfl hrest hrest' (List.cons.inj (List.append_cancel_left heq)).2 with
            ⟨hitems, rfl⟩
          cases hitems
          exact ⟨rfl, rfl⟩
      | _ => cases hrole
  | member hbefore hname hafter h ih =>
      cases h' with
      | member hbefore' hname' hafter' h' =>
          simp only [List.append_assoc, List.cons_append] at heq
          rcases eq_of_append_eq hbefore hbefore' (clear_cons _ rfl) (clear_cons _ rfl) heq with
            ⟨rfl, hquoted⟩
          rcases isBody_unique hname hname' (List.cons.inj hquoted).2 with ⟨rfl, hcontent⟩
          have hcolon := (List.cons.inj (List.append_cancel_left (List.cons.inj hquoted).2)).2
          rcases eq_of_append_eq hafter hafter' (clear_cons _ rfl) (clear_cons _ rfl) hcolon with
            ⟨rfl, hvalue⟩
          rcases ih h' rfl hrest hrest' (List.cons.inj hvalue).2 with ⟨hj, rfl⟩
          cases hj
          rw [String.toList_inj.1 hcontent]
          exact ⟨rfl, rfl⟩
      | _ => cases hrole
  | lastMember h ih =>
      cases h' with
      | lastMember h' =>
          rcases ih h' rfl (clear_element hrest) (clear_element hrest') heq with ⟨hfield, rfl⟩
          cases hfield
          exact ⟨rfl, rfl⟩
      | nextMember h' hmore' =>
          rw [List.append_assoc] at heq
          rcases ih h' rfl (clear_element hrest) (clear_cons _ rfl) heq with ⟨-, rfl⟩
          rw [List.append_cancel_left heq] at hrest
          cases hrest ',' rfl
      | _ => cases hrole
  | nextMember h hmore ih ihmore =>
      cases h' with
      | lastMember h' =>
          rw [List.append_assoc] at heq
          rcases ih h' rfl (clear_cons _ rfl) (clear_element hrest') heq with ⟨-, rfl⟩
          rw [← List.append_cancel_left heq] at hrest'
          cases hrest' ',' rfl
      | nextMember h' hmore' =>
          simp only [List.append_assoc, List.cons_append] at heq
          rcases ih h' rfl (clear_cons _ rfl) (clear_cons _ rfl) heq with ⟨hfield, rfl⟩
          cases hfield
          rcases ihmore hmore' rfl hrest hrest' (List.cons.inj (List.append_cancel_left heq)).2 with
            ⟨hfields, rfl⟩
          cases hfields
          exact ⟨rfl, rfl⟩
      | _ => cases hrole

/-- A text spells one document at most. -/
theorem isText_unique {cs : List Char} {j j' : Json} (h : IsText cs j) (h' : IsText cs j') :
    j = j' := by
  have hclear : ∀ p : Part, Clear p.continues [] := by
    rintro p c ⟨⟩
  cases (spells_unique h h' rfl (hclear _) (hclear _) rfl).1
  rfl

end Unique

end Json

end Reckoner
