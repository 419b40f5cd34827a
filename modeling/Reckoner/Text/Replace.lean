/-!
# Replacing

A word in a text is replaced wherever it occurs. The text is gone through from the
left. Where the word starts, its replacement is put in and the search goes on behind
the word, so occurrences do not overlap, and what was put in is not searched again.

A word has a first character. It is given by that and the characters after it, so
there is no empty word to look for.

## Main definitions

* `replaceAll`: A text with every occurrence of a word replaced.

## Theorems

* `replaceAll_of_not_mem`: Without its first character there is no word to replace.
* `replaceAll_char`: A word of one character is replaced character by character.
-/

namespace Reckoner

namespace Text

/-- A text with every occurrence of a word replaced. The word is a first character
    with the characters after it. -/
def replaceAll (first : Char) (more replacement : List Char) : List Char → List Char
  | [] => []
  | c :: rest =>
    if c = first ∧ more.isPrefixOf rest = true then
      replacement ++ replaceAll first more replacement (rest.drop more.length)
    else c :: replaceAll first more replacement rest
termination_by cs => cs.length
decreasing_by
  · simp only [List.length_drop, List.length_cons]
    omega
  · simp

theorem replaceAll_of_not_mem {first : Char} {more replacement cs : List Char}
    (h : first ∉ cs) : replaceAll first more replacement cs = cs := by
  induction cs with
  | nil => rw [replaceAll]
  | cons c rest ih =>
      rw [List.mem_cons, not_or] at h
      rw [replaceAll, if_neg (fun hword => h.1 hword.1.symm), ih h.2]

theorem replaceAll_char (c : Char) (replacement cs : List Char) :
    replaceAll c [] replacement cs = cs.flatMap fun d => if d = c then replacement else [d] := by
  induction cs with
  | nil => rw [replaceAll, List.flatMap_nil]
  | cons d rest ih =>
      rw [replaceAll, List.flatMap_cons, List.length_nil, List.drop_zero, ih]
      by_cases hd : d = c
      · rw [if_pos ⟨hd, rfl⟩, if_pos hd]
      · rw [if_neg (fun hword => hd hword.1), if_neg hd, List.singleton_append]

end Text

end Reckoner
