import Mathlib
import Reckoner.Log.Timestamp
import Reckoner.Proofs.Number.ReadBack
import Reckoner.Proofs.Scan.Lexeme
import Reckoner.Text.Quoted

/-!
# Texts of One Line

Which characters end a line. There are ten of them, and every one is blank and has no
place in a quoted text, so a text is on one line if it has no blanks, if it is quoted,
or if it is a numeral. Messages are made of such pieces and of words.

## Main definitions

* `isLineBreak`: Whether a character ends a line.
* `OneLine`: No character of a text ends a line.
* `lines`: A text cut at its line breaks.

## Theorems

* `isBlank_of_isLineBreak`, `isPrintable_of_isLineBreak`: Line breaks are blank, and
  not printable.
* `OneLine.append`: Pieces on one line make a text on one line.
* `oneLine_quoted`, `oneLine_text`, `oneLine_iso`: Quoted texts, numerals and times are
  on one line.
* `lines_append`: A line that is ended is the first one.
-/

namespace Reckoner

namespace Text

/-- The code points of the characters that end a line, as ranges. -/
def lineBreakRanges : List (Nat × Nat) :=
  [(0xA, 0xD), (0x1C, 0x1E), (0x85, 0x85), (0x2028, 0x2029)]

/-- Whether a character ends a line. -/
def isLineBreak (c : Char) : Bool :=
  lineBreakRanges.any fun range => range.1 ≤ c.toNat && c.toNat ≤ range.2

/-- No character of a text ends a line. -/
def OneLine (s : String) : Prop := ∀ c ∈ s.toList, isLineBreak c = false

instance (s : String) : Decidable (OneLine s) :=
  inferInstanceAs (Decidable (∀ c ∈ s.toList, isLineBreak c = false))

section Characters

variable {c : Char}

theorem isLineBreak_iff :
    isLineBreak c = true ↔ (0xA ≤ c.toNat ∧ c.toNat ≤ 0xD) ∨ (0x1C ≤ c.toNat ∧ c.toNat ≤ 0x1E) ∨
      c.toNat = 0x85 ∨ (0x2028 ≤ c.toNat ∧ c.toNat ≤ 0x2029) := by
  simp only [isLineBreak, lineBreakRanges, List.any_cons, List.any_nil, Bool.or_eq_true,
    Bool.and_eq_true, decide_eq_true_eq, Bool.false_eq_true, or_false]
  omega

/-- Every range of line breaks lies within a range of blanks. -/
theorem isBlank_of_isLineBreak (h : isLineBreak c = true) : isBlank c = true := by
  have hblank : ∀ range ∈ blankRanges, range.1 ≤ c.toNat → c.toNat ≤ range.2 →
      isBlank c = true := fun range hrange hlow hhigh =>
    List.any_eq_true.2 ⟨range, hrange, by simp [hlow, hhigh]⟩
  rcases isLineBreak_iff.1 h with h | h | h | h
  · exact hblank (0x9, 0xD) (by decide) (by omega) (by omega)
  · exact hblank (0x1C, 0x20) (by decide) (by omega) (by omega)
  · exact hblank (0x85, 0x85) (by decide) (by omega) (by omega)
  · exact hblank (0x2028, 0x2029) (by decide) (by omega) (by omega)

theorem isLineBreak_of_isBlank (h : isBlank c = false) : isLineBreak c = false := by
  cases hbreak : isLineBreak c with
  | false => rfl
  | true => rw [isBlank_of_isLineBreak hbreak] at h; cases h

/-- Every range of line breaks lies within a range of characters that are escaped. -/
theorem isPrintable_of_isLineBreak (h : isLineBreak c = true) : isPrintable c = false := by
  have hescaped : ∀ range ∈ unprintableRanges, range.1 ≤ c.toNat → c.toNat ≤ range.2 →
      isPrintable c = false := fun range hrange hlow hhigh => by
    rw [isPrintable, List.any_eq_true.2 ⟨range, hrange, by simp [hlow, hhigh]⟩]
    rfl
  rcases isLineBreak_iff.1 h with h | h | h | h
  · exact hescaped (0x0, 0x1F) (by decide) (by omega) (by omega)
  · exact hescaped (0x0, 0x1F) (by decide) (by omega) (by omega)
  · exact hescaped (0x7F, 0xA0) (by decide) (by omega) (by omega)
  · exact hescaped (0x2028, 0x202F) (by decide) (by omega) (by omega)

end Characters

section Pieces

variable {s t : String} {cs : List Char}

theorem oneLine_append : OneLine (s ++ t) ↔ OneLine s ∧ OneLine t := by
  simp only [OneLine, String.toList_append, List.forall_mem_append]

theorem OneLine.append (hs : OneLine s) (ht : OneLine t) : OneLine (s ++ t) :=
  oneLine_append.2 ⟨hs, ht⟩

theorem oneLine_ofList : OneLine (String.ofList cs) ↔ ∀ c ∈ cs, isLineBreak c = false := by
  rw [OneLine, String.toList_ofList]

/-- Characters that are written out can be looked at. -/
theorem isLineBreak_of_any (h : cs.any isLineBreak = false) : ∀ c ∈ cs, isLineBreak c = false := by
  simpa using h

theorem oneLine_literal (h : cs.any isLineBreak = false) : OneLine (String.ofList cs) :=
  oneLine_ofList.2 (isLineBreak_of_any h)

/-- A text without blanks is on one line. -/
theorem oneLine_of_not_isBlank (h : ∀ c ∈ s.toList, isBlank c = false) : OneLine s :=
  fun c hc => isLineBreak_of_isBlank (h c hc)

theorem isLineBreak_of_isDigit {c : Char} (h : c.isDigit = true) : isLineBreak c = false :=
  isLineBreak_of_isBlank (Lexical.isBlank_of_isDigit h)

end Pieces

section Numerals

theorem isLineBreak_of_mem_ofNat {n : Nat} : ∀ c ∈ Numeral.ofNat n, isLineBreak c = false :=
  fun _ hc => isLineBreak_of_isDigit (Nat.isDigit_of_mem_toDigits (by decide) (by decide) hc)

theorem isLineBreak_of_mem_zeros (n : Nat) : ∀ c ∈ List.replicate n '0', isLineBreak c = false :=
  fun c hc => isLineBreak_of_isDigit (Double.isDigit_zeros n c hc)

theorem isLineBreak_of_mem_padded (width n : Nat) :
    ∀ c ∈ Numeral.padded width n, isLineBreak c = false := by
  rw [Numeral.padded, List.forall_mem_append]
  exact ⟨isLineBreak_of_mem_zeros _, isLineBreak_of_mem_ofNat⟩

theorem oneLine_nat (n : Nat) : OneLine (toString n) := by
  rw [Nat.toString_eq_repr, Nat.repr_eq_ofList_toDigits, oneLine_ofList]
  exact isLineBreak_of_mem_ofNat

theorem oneLine_int (n : Int) : OneLine (toString n) := by
  cases n with
  | ofNat n => exact oneLine_nat n
  | negSucc n => exact .append (oneLine_literal rfl) (oneLine_nat (n + 1))

theorem isLineBreak_of_mem_positional {ds : List Char} {point : Int}
    (h : ∀ c ∈ ds, isLineBreak c = false) :
    ∀ c ∈ Numeral.positional ds point, isLineBreak c = false := by
  have hpoint : isLineBreak '.' = false := rfl
  have hzero : isLineBreak '0' = false := rfl
  rw [Numeral.positional]
  split
  · simp only [List.forall_mem_cons, List.forall_mem_append]
    exact ⟨hzero, hpoint, isLineBreak_of_mem_zeros _, h⟩
  · split
    · simp only [List.forall_mem_cons, List.forall_mem_append]
      exact ⟨⟨h, isLineBreak_of_mem_zeros _⟩, hpoint, hzero, List.forall_mem_nil _⟩
    · simp only [List.forall_mem_cons, List.forall_mem_append]
      exact ⟨fun c hc => h c (List.mem_of_mem_take hc), hpoint,
        fun c hc => h c (List.mem_of_mem_drop hc)⟩

theorem isLineBreak_of_mem_scientific {ds : List Char} {exponent : Int}
    (h : ∀ c ∈ ds, isLineBreak c = false) :
    ∀ c ∈ Numeral.scientific ds exponent, isLineBreak c = false := by
  have hsign : isLineBreak (if exponent < 0 then '-' else '+') = false := by
    split <;> rfl
  have hrest : ∀ c ∈ 'e' :: (if exponent < 0 then '-' else '+') :: Numeral.padded 2 exponent.natAbs,
      isLineBreak c = false := by
    simp only [List.forall_mem_cons]
    exact ⟨rfl, hsign, isLineBreak_of_mem_padded _ _⟩
  rcases ds with _ | ⟨d, _ | ⟨e, rest⟩⟩
  · exact hrest
  · exact List.forall_mem_cons.2 ⟨h d (.head _), hrest⟩
  · rw [List.forall_mem_cons] at h
    exact List.forall_mem_cons.2 ⟨h.1, List.forall_mem_cons.2 ⟨rfl,
      List.forall_mem_append.2 ⟨h.2, hrest⟩⟩⟩

theorem isLineBreak_of_mem_ofDecimal (d : Decimal) :
    ∀ c ∈ Numeral.ofDecimal d, isLineBreak c = false := by
  have hdigits : ∀ c ∈ d.digits, isLineBreak c = false := isLineBreak_of_mem_ofNat
  rw [Numeral.ofDecimal]
  split
  · exact isLineBreak_of_any rfl
  · split
    · exact isLineBreak_of_mem_positional hdigits
    · exact isLineBreak_of_mem_scientific hdigits

theorem oneLine_withSign {cs : List Char} (negative : Bool)
    (h : ∀ c ∈ cs, isLineBreak c = false) : OneLine (Double.withSign negative cs) := by
  rw [Double.withSign, oneLine_ofList]
  split
  · exact List.forall_mem_cons.2 ⟨rfl, h⟩
  · exact h

/-- A double is written on one line. -/
theorem oneLine_text (x : Double) : OneLine x.text := by
  cases x with
  | nan => exact oneLine_literal rfl
  | infinite s => exact oneLine_withSign s (isLineBreak_of_any rfl)
  | finite s m e h =>
      refine oneLine_withSign s ?_
      cases (Double.finite s m e h).decimal? with
      | none => exact List.forall_mem_nil _
      | some d => exact isLineBreak_of_mem_ofDecimal d

/-- So is a double in a step. -/
theorem oneLine_compact (x : Double) : OneLine x.compact := by
  rw [Double.compact]
  split
  · exact oneLine_literal rfl
  · split
    · split
      · rename_i n _ _
        rw [oneLine_ofList, Numeral.ofInt]
        split
        · exact List.forall_mem_cons.2 ⟨rfl, isLineBreak_of_mem_ofNat⟩
        · exact isLineBreak_of_mem_ofNat
      · exact oneLine_text x
    · exact oneLine_text x

/-- A time is written in one word. -/
theorem oneLine_iso (t : Timestamp) : OneLine t.iso := by
  have hfraction : ∀ c ∈ if t.micros = 0 then [] else '.' :: Numeral.padded 6 t.micros,
      isLineBreak c = false := by
    split
    · exact List.forall_mem_nil _
    · exact List.forall_mem_cons.2 ⟨rfl, isLineBreak_of_mem_padded _ _⟩
  simp only [Timestamp.iso, Timestamp.clockChars, oneLine_ofList, List.forall_mem_append,
    List.forall_mem_cons]
  have hnumber := isLineBreak_of_mem_padded
  exact ⟨⟨⟨⟨hnumber _ _, rfl, hnumber _ _⟩, rfl, hnumber _ _⟩, rfl,
    ⟨hnumber _ _, rfl, hnumber _ _⟩, rfl, hnumber _ _⟩, hfraction⟩

end Numerals

section Quoted

theorem isLineBreak_of_mem_toDigits {b n : Nat} (hone : 1 < b) (hb : b ≤ 16) :
    ∀ c ∈ Nat.toDigits b n, isLineBreak c = false := by
  have hdigit : ∀ d < 16, isLineBreak (Nat.digitChar d) = false := by decide
  induction n using Nat.strong_induction_on with
  | _ n ih =>
      by_cases hsmall : n < b
      · rw [Nat.toDigits_of_lt_base hsmall, List.forall_mem_singleton]
        exact hdigit n (by omega)
      · have hlast : n % b < b := Nat.mod_lt n (by omega)
        rw [Nat.toDigits_of_base_le hone (Nat.not_lt.1 hsmall), List.forall_mem_append,
          List.forall_mem_singleton]
        exact ⟨ih _ (Nat.div_lt_self (by omega) hone), hdigit _ (by omega)⟩

theorem isLineBreak_of_mem_hexadecimal {width n : Nat} :
    ∀ c ∈ hexadecimal width n, isLineBreak c = false := by
  rw [hexadecimal, List.forall_mem_append]
  exact ⟨isLineBreak_of_mem_zeros _, isLineBreak_of_mem_toDigits (by decide) (by decide)⟩

theorem isLineBreak_of_mem_codePoint (c : Char) : ∀ d ∈ codePoint c, isLineBreak d = false := by
  have hmarked : ∀ mark width n, isLineBreak mark = false →
      ∀ d ∈ '\\' :: mark :: hexadecimal width n, isLineBreak d = false := fun mark width n h =>
    List.forall_mem_cons.2 ⟨rfl, List.forall_mem_cons.2 ⟨h, isLineBreak_of_mem_hexadecimal⟩⟩
  rw [codePoint]
  split
  · exact hmarked _ _ _ rfl
  · split
    · exact hmarked _ _ _ rfl
    · exact hmarked _ _ _ rfl

/-- Inside of quotes no line ends. Only printable characters stand for themselves there,
    and line breaks are not printable. -/
theorem isLineBreak_of_mem_escape {quote : Char} (hquote : isLineBreak quote = false) (c : Char) :
    ∀ d ∈ escape quote c, isLineBreak d = false := by
  rw [escape]
  split
  · rename_i h
    rcases h with rfl | rfl
    · exact List.forall_mem_cons.2 ⟨rfl, List.forall_mem_singleton.2 hquote⟩
    · exact isLineBreak_of_any rfl
  · split
    · exact isLineBreak_of_any rfl
    · split
      · exact isLineBreak_of_any rfl
      · split
        · exact isLineBreak_of_any rfl
        · split
          · rename_i hprintable
            refine List.forall_mem_singleton.2 ?_
            cases hbreak : isLineBreak c with
            | false => rfl
            | true =>
                rw [isPrintable_of_isLineBreak hbreak] at hprintable
                cases hprintable
          · exact isLineBreak_of_mem_codePoint c

/-- A quoted text is on one line, whatever the text is. -/
theorem oneLine_quoted (s : String) : OneLine (quoted s) := by
  have hquote : ∀ cs, isLineBreak (quoteFor cs) = false := by
    intro cs
    rw [quoteFor]
    split <;> rfl
  rw [quoted, quotedChars, oneLine_ofList, List.forall_mem_cons, List.forall_mem_append,
    List.forall_mem_singleton]
  refine ⟨hquote _, fun c hc => ?_, hquote _⟩
  rcases List.mem_flatMap.1 hc with ⟨d, -, hd⟩
  exact isLineBreak_of_mem_escape (hquote _) d c hd

end Quoted

/-- The lines of characters, of which the first one has begun already. What it has
    begun with is in reverse order. -/
def linesFrom (begun : List Char) : List Char → List String
  | [] => if begun.isEmpty then [] else [String.ofList begun.reverse]
  | c :: rest =>
    if isLineBreak c then String.ofList begun.reverse :: linesFrom [] rest
    else linesFrom (c :: begun) rest

/-- The lines of a text. Every line break ends a line, and the last line need not end. -/
def lines (s : String) : List String := linesFrom [] s.toList

theorem linesFrom_append {cs : List Char} (h : ∀ c ∈ cs, isLineBreak c = false)
    (begun rest : List Char) :
    linesFrom begun (cs ++ rest) = linesFrom (cs.reverse ++ begun) rest := by
  induction cs generalizing begun with
  | nil => rfl
  | cons c cs ih =>
      rw [List.forall_mem_cons] at h
      rw [List.cons_append, linesFrom, h.1, if_neg (by decide), ih h.2, List.reverse_cons,
        List.append_assoc, List.singleton_append]

/-- A text on one line that is ended is the first of the lines. -/
theorem lines_append {s : String} (h : OneLine s) (rest : String) :
    lines (s ++ "\n" ++ rest) = s :: lines rest := by
  have hend : "\n".toList = ['\n'] := rfl
  rw [lines, String.toList_append, String.toList_append, List.append_assoc, linesFrom_append h,
    hend, List.singleton_append, linesFrom, if_pos (by decide), List.append_nil,
    List.reverse_reverse, String.ofList_toList, lines]

end Text

end Reckoner
