import Mathlib
import Reckoner.Proofs.Scan.Lexeme

/-!
# Segmentations

What the tokens of a text are, said without a scanner. A list of tokens segments
a stretch of a text when each of them is a lexeme where its position says, they
follow one another without overlap, and every character of the stretch that is
in none of them is blank. A minus has the kind that the token before it asks for.

The scanner is compared with this one token at a time. A blank at the front of a
stretch can be left out (`segmentation_blank`), and anything else starts the first
token, which is the one that is read there (`segmentation_read`). Both are
equivalences, so one induction along the scanner finds the only segmentation that
there is.

Where the scanner fails, it has segmented the text that far, and the text up to
there is one that it accepts.

## Main definitions

* `Stands`: A token is a lexeme of a text at its position.
* `Segmentation`: The tokens of a stretch of a text.
* `Failed`: The scanner can go no further.

## Theorems

* `segmentation_blank`: Blanks are skipped.
* `segmentation_first`, `segmentation_tail`, `segmentation_cons`: A segmentation
  with a first token, taken apart and put together.
* `segmentation_read`: The first token is the one that is read.
* `scanFrom_eq_ok_iff`: What is scanned is the segmentation.
* `scanFrom_error`: A failure has a segmentation up to its position.
* `scan_iff_segmentation`: Scanning finds the segmentation of a text, and fails
  only where no lexeme starts.
-/

namespace Reckoner

namespace Lexical

/-- A token is a lexeme of a text at its position. -/
def Stands (s : List Char) (t : Token) : Prop :=
  ∃ (n : Nat) (after : List Char), t.position = n ∧ s.drop n = t.text.toList ++ after ∧
    IsLexeme t.kind t.text.toList t.value after

/-- The tokens of a text from a position up to another, where a token of a given
    kind ends or the text starts at the first. -/
structure Segmentation (s : List Char) (start : Nat) (previous : Option TokenKind)
    (tokens : List Token) (stop : Nat) : Prop where
  lexemes : ∀ t ∈ tokens, Stands s t
  within : ∀ t ∈ tokens, (start : Int) ≤ t.position ∧ t.stop ≤ stop
  ordered : tokens.Pairwise fun t u => t.position < u.position ∧ t.stop ≤ u.position
  covered : ∀ n c, start ≤ n → n < stop → s[n]? = some c →
    Text.isBlank c = true ∨ ∃ t ∈ tokens, t.position ≤ n ∧ (n : Int) < t.stop
  minus : ∀ before t after, tokens = before ++ t :: after →
    MinusFits ((before.getLast?.map Token.kind).or previous) t.kind t.text.toList

theorem stands_start {s : List Char} {t : Token} (h : Stands s t) :
    ∃ n c, t.position = (n : Nat) ∧ s[n]? = some c ∧ Text.isBlank c = false ∧
      t.position < t.stop := by
  rcases h with ⟨n, after, hn, hdrop, hlexeme⟩
  rcases first_not_blank hlexeme with ⟨c, rest, hspelling, hblank⟩
  refine ⟨n, c, hn, ?_, hblank, ?_⟩
  · rw [← List.head?_drop, hdrop, hspelling]
    rfl
  · have hlength := congrArg List.length hspelling
    simp only [String.length_toList, List.length_cons] at hlength
    simp only [Token.stop]
    omega

variable {s : List Char} {start stop : Nat} {previous : Option TokenKind} {tokens : List Token}

/-- The token before the others is the last one before them, or the one in front. -/
theorem last_kind_cons (t : Token) (before : List Token) :
    ((t :: before).getLast?.map Token.kind).or previous =
      (before.getLast?.map Token.kind).or (some t.kind) := by
  rw [List.getLast?_cons]
  cases before.getLast? <;> rfl

/-- Nothing is left to segment at the end. -/
theorem segmentation_end (hend : stop ≤ start) :
    Segmentation s start previous tokens stop ↔ tokens = [] := by
  constructor
  · intro h
    cases tokens with
    | nil => rfl
    | cons t rest =>
        have hwithin := h.within t (.head _)
        rcases stands_start (h.lexemes t (.head _)) with ⟨_, _, _, _, _, hlt⟩
        omega
  · rintro rfl
    exact ⟨by simp, by simp, .nil, fun n c hstart hstop => by omega, by simp⟩

/-- Blanks are skipped. -/
theorem segmentation_blank {c : Char} (hc : s[start]? = some c) (hblank : Text.isBlank c = true) :
    Segmentation s (start + 1) previous tokens stop ↔
      Segmentation s start previous tokens stop := by
  constructor
  · intro h
    refine ⟨h.lexemes, fun t ht => ?_, h.ordered, fun n d hstart hstop hd => ?_, h.minus⟩
    · have hwithin := h.within t ht
      omega
    · by_cases hn : n = start
      · subst hn
        cases hc.symm.trans hd
        exact .inl hblank
      · exact h.covered n d (by omega) hstop hd
  · intro h
    refine ⟨h.lexemes, fun t ht => ?_, h.ordered, fun n d hstart => h.covered n d (by omega),
      h.minus⟩
    have hwithin := h.within t ht
    -- No token stands where the blank is, so all of them start later.
    rcases stands_start (h.lexemes t ht) with ⟨n, d, hn, hd, hnonblank, _⟩
    by_cases heq : n = start
    · subst heq
      cases hc.symm.trans hd
      rw [hblank] at hnonblank
      cases hnonblank
    · omega

/-- The first token starts at the first character that is not blank. -/
theorem segmentation_first {c : Char} (hstop : start < stop) (hc : s[start]? = some c)
    (hblank : Text.isBlank c = false) (h : Segmentation s start previous tokens stop) :
    ∃ t rest, tokens = t :: rest ∧ t.position = start := by
  rcases h.covered start c (Nat.le_refl _) hstop hc with hcontra | ⟨u, hu, hposition, _⟩
  · rw [hblank] at hcontra
    cases hcontra
  · cases tokens with
    | nil => cases hu
    | cons t rest =>
        refine ⟨t, rest, rfl, ?_⟩
        have ht := h.within t (.head _)
        -- If the token at the start were a later one, the first would stand before it.
        rcases List.mem_cons.1 hu with rfl | hu
        · omega
        · have hbefore := (List.pairwise_cons.1 h.ordered).1 u hu
          omega

/-- The tokens after the first segment the text after it. -/
theorem segmentation_tail {t : Token} {rest : List Token} {next : Nat} (hnext : t.stop = next)
    (h : Segmentation s start previous (t :: rest) stop) :
    Segmentation s next (some t.kind) rest stop := by
  have hordered := List.pairwise_cons.1 h.ordered
  have hwithin := h.within t (.head _)
  rcases stands_start (h.lexemes t (.head _)) with ⟨_, _, _, _, _, hlt⟩
  refine ⟨fun u hu => h.lexemes u (.tail _ hu), fun u hu => ?_, hordered.2,
    fun n d hstart hn hd => ?_, fun before u after hsplit => ?_⟩
  · have hbefore := hordered.1 u hu
    have huwithin := h.within u (.tail _ hu)
    omega
  · rcases h.covered n d (by omega) hn hd with hb | ⟨u, hu, hle, hlt⟩
    · exact .inl hb
    · rcases List.mem_cons.1 hu with rfl | hu
      · omega
      · exact .inr ⟨u, hu, hle, hlt⟩
  · have hminus := h.minus (t :: before) u after (by rw [hsplit]; rfl)
    rwa [last_kind_cons] at hminus

/-- A token in front of a segmentation makes a longer one. -/
theorem segmentation_cons {t : Token} {rest : List Token} {next : Nat}
    (hposition : t.position = start) (hstands : Stands s t) (hnext : t.stop = next)
    (hle : next ≤ stop) (hminus : MinusFits previous t.kind t.text.toList)
    (h : Segmentation s next (some t.kind) rest stop) :
    Segmentation s start previous (t :: rest) stop := by
  rcases stands_start hstands with ⟨_, _, _, _, _, hlt⟩
  refine ⟨?_, ?_, List.pairwise_cons.2 ⟨fun u hu => ?_, h.ordered⟩, fun n d hstart hn hd => ?_,
    fun before u after hsplit => ?_⟩
  · intro u hu
    rcases List.mem_cons.1 hu with rfl | hu
    · exact hstands
    · exact h.lexemes u hu
  · intro u hu
    rcases List.mem_cons.1 hu with rfl | hu
    · omega
    · have huwithin := h.within u hu
      omega
  · have huwithin := h.within u hu
    omega
  · by_cases hin : (n : Int) < t.stop
    · exact .inr ⟨t, .head _, by omega, hin⟩
    · rcases h.covered n d (by omega) hn hd with hb | ⟨u, hu, hle, hlt⟩
      · exact .inl hb
      · exact .inr ⟨u, .tail _ hu, hle, hlt⟩
  · cases before with
    | nil =>
        cases hsplit
        exact hminus
    | cons v before =>
        simp only [List.cons_append, List.cons.injEq] at hsplit
        rcases hsplit with ⟨rfl, rfl⟩
        rw [last_kind_cons]
        exact h.minus before u after rfl

theorem getElem?_of_drop {c : Char} {rest : List Char} (h : s.drop start = c :: rest) :
    s[start]? = some c := by
  rw [← List.head?_drop, h]
  rfl

theorem lt_length_of_drop {c : Char} {rest : List Char} (h : s.drop start = c :: rest) :
    start < s.length := by
  have hlength := congrArg List.length h
  simp only [List.length_drop, List.length_cons] at hlength
  omega

theorem drop_of_append (spelling : List Char) {after : List Char}
    (h : s.drop start = spelling ++ after) :
    s.drop (start + spelling.length) = after := by
  rw [← List.drop_drop, h, List.drop_left]

/-- The lexeme that is read at a position stands there as a token. -/
theorem stands_token {c : Char} {rest : List Char} {l : Lexeme (c :: rest)}
    (hdrop : s.drop start = c :: rest)
    (h : Lexeme.read start previous c rest = .ok l) : Stands s (l.token start) := by
  refine ⟨start, l.rest, rfl, ?_, ?_⟩
  · simp only [Lexeme.token, String.toList_ofList]
    rw [hdrop, ← l.split]
  · simp only [Lexeme.token, String.toList_ofList]
    exact (read_sound h).1

/-- A token that stands at a position is the one that is read there. -/
theorem read_of_stands {c : Char} {rest : List Char} {t : Token}
    (hdrop : s.drop start = c :: rest) (hposition : t.position = start) (ht : Stands s t)
    (hminus : MinusFits previous t.kind t.text.toList) :
    ∃ l, Lexeme.read start previous c rest = .ok l ∧ l.token start = t := by
  rcases ht with ⟨n, after, hn, hsplit, hlexeme⟩
  have hstart : n = start := by omega
  subst hstart
  rcases read_complete n hlexeme hminus (hdrop.symm.trans hsplit)
    with ⟨l, hread, hkind, hspelling, hvalue, hrest⟩
  refine ⟨l, hread, ?_⟩
  -- The fields of the token agree one by one, and its position is the one given.
  cases t
  simp_all [Lexeme.token]

/-- A segmentation starts with what is read where it starts. -/
theorem read_of_segmentation {c : Char} {rest : List Char} (hdrop : s.drop start = c :: rest)
    (hblank : Text.isBlank c = false) (hstop : start < stop)
    (h : Segmentation s start previous tokens stop) :
    ∃ l ts, Lexeme.read start previous c rest = .ok l ∧ tokens = l.token start :: ts := by
  rcases segmentation_first hstop (getElem?_of_drop hdrop) hblank h with ⟨t, ts, rfl, hposition⟩
  rcases read_of_stands hdrop hposition (h.lexemes t (.head _)) (h.minus [] t ts rfl)
    with ⟨l, hl, rfl⟩
  exact ⟨l, ts, hl, rfl⟩

/-- Where a lexeme is read, it is the first token and the rest follow it. -/
theorem segmentation_read {c : Char} {rest : List Char} {l : Lexeme (c :: rest)}
    (hdrop : s.drop start = c :: rest) (hblank : Text.isBlank c = false) (hstop : start < stop)
    (hread : Lexeme.read start previous c rest = .ok l) :
    Segmentation s start previous tokens stop ↔
      ∃ ts, tokens = l.token start :: ts ∧ start + l.spelling.length ≤ stop ∧
        Segmentation s (start + l.spelling.length) (some l.kind) ts stop := by
  have hnext : (l.token start).stop = ((start + l.spelling.length : Nat) : Int) := by
    simp [Token.stop, Lexeme.token]
  constructor
  · intro h
    rcases read_of_segmentation hdrop hblank hstop h with ⟨l', ts, hl, rfl⟩
    cases hread.symm.trans hl
    have hwithin := h.within _ (.head _)
    exact ⟨ts, rfl, by omega, segmentation_tail hnext h⟩
  · rintro ⟨ts, rfl, hle, h⟩
    refine segmentation_cons rfl (stands_token hdrop hread) hnext hle ?_ h
    simp only [Lexeme.token, String.toList_ofList]
    exact (read_sound hread).2

/-- What is scanned is the segmentation. -/
theorem scanFrom_eq_ok_iff (cs : List Char) (hdrop : s.drop start = cs) :
    Token.scanFrom start previous cs = .ok tokens ↔
      Segmentation s start previous tokens s.length := by
  -- The induction is along the scanner. The tokens differ from call to call, and so does the
  -- token before them, but the text that they segment stays the same.
  fun_induction Token.scanFrom start previous cs generalizing tokens with
  | case1 start previous =>
      rw [segmentation_end (List.drop_eq_nil_iff.1 hdrop)]
      simp [eq_comm]
  | case2 start previous c rest hblank ih =>
      rw [← segmentation_blank (getElem?_of_drop hdrop) hblank]
      exact ih (drop_of_append [c] hdrop)
  | case3 start previous c rest hblank e hread =>
      refine ⟨nofun, fun h => ?_⟩
      rcases read_of_segmentation hdrop (by simpa using hblank) (lt_length_of_drop hdrop) h
        with ⟨l, _, hl, _⟩
      cases hread.symm.trans hl
  | case4 start previous c rest hblank l hread e hrest ih =>
      rw [segmentation_read hdrop (by simpa using hblank) (lt_length_of_drop hdrop) hread]
      refine ⟨nofun, ?_⟩
      rintro ⟨ts, _, _, h⟩
      cases hrest.symm.trans ((ih (drop_of_append _ (hdrop.trans l.split))).2 h)
  | case5 start previous c rest hblank l hread ts hrest ih =>
      have hsegmentation := (ih (drop_of_append _ (hdrop.trans l.split))).1 hrest
      have hle : start + l.spelling.length ≤ s.length := by
        have hsplit := congrArg List.length (hdrop.trans l.split)
        simp only [List.length_drop, List.length_append] at hsplit
        have hstart := lt_length_of_drop hdrop
        omega
      rw [segmentation_read hdrop (by simpa using hblank) (lt_length_of_drop hdrop) hread]
      constructor
      · intro h
        cases h
        exact ⟨ts, rfl, hle, hsegmentation⟩
      · rintro ⟨us, rfl, _, h⟩
        cases hrest.symm.trans ((ih (drop_of_append _ (hdrop.trans l.split))).2 h)
        rfl

/-- The scanner has failed at a position: it has segmented the text that far, and
    neither a blank nor a lexeme comes next. -/
structure Failed (s : List Char) (start : Nat) (previous : Option TokenKind) (found : List Token)
    (position : Nat) : Prop where
  forward : start ≤ position
  nonblank : ∃ c, s[position]? = some c ∧ Text.isBlank c = false
  segmented : Segmentation s start previous found position
  stuck : ∀ kind spelling value after, IsLexeme kind spelling value after →
    s.drop position ≠ spelling ++ after

/-- A failure has a segmentation up to its position. -/
theorem scanFrom_error (cs : List Char) (hdrop : s.drop start = cs) {e : ScanError}
    (h : Token.scanFrom start previous cs = .error e) :
    ∃ found, Failed s start previous found e.position := by
  fun_induction Token.scanFrom start previous cs with
  | case1 start previous => cases h
  | case2 start previous c rest hblank ih =>
      rcases ih (drop_of_append [c] hdrop) h with ⟨found, hfailed⟩
      have hforward := hfailed.forward
      exact ⟨found, by omega, hfailed.nonblank,
        (segmentation_blank (getElem?_of_drop hdrop) hblank).1 hfailed.segmented, hfailed.stuck⟩
  | case3 start previous c rest hblank e hread =>
      cases h
      rw [read_error_position hread]
      refine ⟨[], Nat.le_refl _, ⟨c, getElem?_of_drop hdrop, by simpa using hblank⟩,
        (segmentation_end (Nat.le_refl _)).2 rfl, fun kind spelling value after hlexeme => ?_⟩
      rw [hdrop]
      exact not_isLexeme_of_error hread hlexeme
  | case4 start previous c rest hblank l hread e hrest ih =>
      cases h
      rcases ih (drop_of_append _ (hdrop.trans l.split)) hrest with ⟨found, hfailed⟩
      have hforward := hfailed.forward
      have hpos := List.length_pos_iff.2 l.nonempty
      exact ⟨l.token start :: found, by omega, hfailed.nonblank,
        (segmentation_read hdrop (by simpa using hblank) (by omega) hread).2
          ⟨found, rfl, hforward, hfailed.segmented⟩, hfailed.stuck⟩
  | case5 start previous c rest hblank l hread ts hrest ih => cases h

/-- What is segmented up to a position is segmented in the text cut off there. -/
theorem segmentation_take (h : Segmentation s start previous tokens stop) :
    Segmentation (s.take stop) start previous tokens stop := by
  refine ⟨fun t ht => ?_, h.within, h.ordered, fun n c hstart hn hc => ?_, h.minus⟩
  · rcases h.lexemes t ht with ⟨n, after, hn, hdrop, hlexeme⟩
    have hwithin := h.within t ht
    simp only [Token.stop] at hwithin
    -- What follows a token is cut short with the text, which a lexeme allows.
    refine ⟨n, after.take (stop - n - t.text.toList.length), hn, ?_, hlexeme.take _⟩
    rw [List.drop_take, hdrop, List.take_append, List.take_of_length_le]
    simp only [String.length_toList]
    omega
  · rw [List.getElem?_take_of_lt hn] at hc
    exact h.covered n c hstart hn hc

/-- No spelling has a glyph in it. -/
theorem spell_of_mem_normalizeChars {cs : List Char} {c : Char} (h : c ∈ normalizeChars cs) :
    spell c = [c] := by
  rcases List.mem_flatMap.1 h with ⟨d, _, hc⟩
  cases hlookup : glyphs.lookup d with
  | none =>
      have hspell := spell_of_not_glyph hlookup
      rw [hspell, List.mem_singleton] at hc
      rwa [hc]
  | some spelling =>
      have hplain : ∀ entry ∈ glyphs, ∀ c ∈ entry.2, spell c = [c] := by
        simp [glyphs, spell, List.lookup]
      simp only [spell, hlookup, Option.getD_some] at hc
      exact hplain _ (mem_of_lookup hlookup) c hc

/-- Every part of a normalized text is normalized. -/
theorem normalizeChars_take (cs : List Char) (n : Nat) :
    normalizeChars ((normalizeChars cs).take n) = (normalizeChars cs).take n := by
  have hplain : ∀ c ∈ (normalizeChars cs).take n, spell c = [c] :=
    fun c hc => spell_of_mem_normalizeChars (List.mem_of_mem_take hc)
  generalize (normalizeChars cs).take n = part at hplain
  induction part with
  | nil => rfl
  | cons c rest ih =>
      have hrest := ih fun d hd => hplain d (.tail _ hd)
      simp only [normalizeChars] at hrest ⊢
      rw [List.flatMap_cons, hplain c (.head _), hrest]
      rfl

/-- Scanning finds the segmentation of a text if there is one. If there is none it
    fails where the text up to there is segmented and no lexeme follows. -/
theorem scan_iff_segmentation (text : String) :
    (∀ tokens, Token.scan text = .ok tokens ↔
      Segmentation (normalizeChars text.toList) 0 none tokens (normalizeChars text.toList).length) ∧
    (∀ e, Token.scan text = .error e →
      ∃ found, Failed (normalizeChars text.toList) 0 none found e.position ∧
        Token.scan (String.ofList ((normalizeChars text.toList).take e.position)) = .ok found) := by
  refine ⟨fun tokens => scanFrom_eq_ok_iff _ rfl, fun e he => ?_⟩
  rcases scanFrom_error _ rfl he with ⟨found, hfailed⟩
  refine ⟨found, hfailed, ?_⟩
  -- The text up to the failure is scanned as the equivalence says, since it is segmented.
  rcases hfailed.nonblank with ⟨c, hc, _⟩
  have hlength : ((normalizeChars text.toList).take e.position).length = e.position := by
    rw [List.length_take_of_le]
    exact Nat.le_of_lt (List.getElem?_eq_some_iff.1 hc).1
  have hsegmentation := segmentation_take hfailed.segmented
  simp only [Token.scan, String.toList_ofList, normalizeChars_take]
  refine (scanFrom_eq_ok_iff _ rfl).2 ?_
  rw [hlength]
  exact hsegmentation

end Lexical

end Reckoner
