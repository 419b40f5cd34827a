import Mathlib
import Reckoner.Proofs.Scan.Concatenation
import Reckoner.Proofs.Solve.Composition
import Reckoner.Proofs.Solve.Limits

/-!
# The Height of Parsed Trees

Evaluation goes into both branches of a node, so how deep it goes is the height of the
tree. The parser has its limit on something else. It counts one level for every right
operand, negation, function and pair of parentheses, but a left operand stays on the
level of its operation. What leans to the left therefore costs no levels at all, and
only the length of the text bounds it.

A text therefore has a tree that is too high if the limit lies between the depth of the
derivation and the height of the tree, and not otherwise (`height_le_iff`).

`height_le_nesting_add` says by how much the height of a tree exceeds its nesting.
Circle ratios side by side, as in `πππ`, are the worst case. Their tree leans to the left
as far as there are operations, and it is nested once (`parseText_circles`).

## Main definitions

* `Expr.leaning`: How often a path to an operation goes to the left.
* `circles`: A text of circle ratios side by side.
* `circleTree`: The tree of such a text.

## Theorems

* `Expr.height_le_nesting_add`: The height is nesting and leaning together.
* `Grammar.Derivation.operations_lt_length`: Every operation takes up a token.
* `parseText_of_derivation`: The depth of the derivation decides whether a text is parsed.
* `parseText_circles`: Circle ratios are parsed under every limit that allows an
  operation.
* `height_le_iff`: The limits under which a text has no tree that is too high.
* `limit_on_nesting`: The limit bounds the nesting of a tree and not its height.
-/

namespace Reckoner

namespace Expr

/-- How often a path from the root to an operation goes to the left, for the path where
    this is largest. -/
def leaning : Expr → Nat
  | .literal _ => 0
  | .binary _ left right _ =>
    max (if left.height = 0 then 0 else left.leaning + 1) right.leaning
  | .apply _ argument => argument.leaning
  | .foreign _ => 0

/-- The height of a tree is at most its nesting and its leaning together. -/
theorem height_le_nesting_add (e : Expr) : e.height ≤ e.nesting + e.leaning := by
  induction e with
  | literal value => exact Nat.le_refl 0
  | foreign shown => exact Nat.le_refl 0
  | apply name argument ih =>
      simp only [height, nesting, leaning]
      omega
  | binary symbol left right grouped ihleft ihright =>
      simp only [height, nesting, leaning]
      split <;> omega

theorem height_le_operations (e : Expr) : e.height ≤ e.operations := by
  induction e with
  | literal value => exact Nat.le_refl 0
  | foreign shown => exact Nat.le_refl 0
  | apply name argument ih =>
      simp only [height, operations]
      omega
  | binary symbol left right grouped ihleft ihright =>
      simp only [height, operations]
      omega

/-- A tree that is not nested has no operations, so it has no height either. -/
theorem height_of_nesting {e : Expr} (h : e.nesting = 0) : e.height = 0 := by
  cases e with
  | literal value => rfl
  | foreign shown => rfl
  | apply name argument =>
      simp only [nesting] at h
      omega
  | binary symbol left right grouped =>
      simp only [nesting] at h
      omega

end Expr

/-- Every operation takes up a token of its own, or it joins two operands without a token
    between them. One token is left over. -/
theorem Grammar.Derivation.operations_lt_length {s : Stratum} {ts : List Token} {e : Expr}
    (d : Derivation s ts e) : e.operations < ts.length := by
  induction d with
  | sumOfProduct _ ih => exact ih
  | productOfPower _ ih => exact ih
  | powerOfSigned _ ih => exact ih
  | signedOfPrimary _ ih => exact ih
  | number _ _ => exact Nat.zero_lt_one
  | constant _ _ => exact Nat.zero_lt_one
  | negation _ _ _ ih =>
      simp only [Expr.operations, List.length_cons]
      omega
  | parentheses _ _ _ _ _ ih =>
      simp only [Expr.operations_grouped, List.length_cons, List.length_append]
      omega
  | application _ _ _ _ _ _ _ ih =>
      simp only [Expr.operations, List.length_cons, List.length_append]
      omega
  | juxtaposition _ _ _ ihleft ihright =>
      simp only [Expr.operations, List.length_append, List.length_cons] at ihright ⊢
      omega
  | _ =>
      simp only [Expr.operations, List.length_append, List.length_cons]
      omega

/-- The text of circle ratios side by side that has the given number of operations. -/
def circles (n : Nat) : String := String.ofList (List.replicate (n + 1) 'π')

/-- A circle ratio at some place of a text. -/
def circleToken (position : Nat) : Token :=
  ⟨.constant, "π", some Lexical.circleRatio, position⟩

/-- The tokens of circle ratios side by side. -/
def circleTokens (n : Nat) : List Token := (List.range (n + 1)).map circleToken

/-- The tree of circle ratios side by side. -/
def circleTree : Nat → Expr
  | 0 => .literal (some Lexical.circleRatio)
  | n + 1 => .binary "*" (circleTree n) (.literal (some Lexical.circleRatio)) false

theorem length_circleTokens (n : Nat) : (circleTokens n).length = n + 1 := by
  rw [circleTokens, List.length_map, List.length_range]

theorem height_circleTree (n : Nat) : (circleTree n).height = n := by
  induction n with
  | zero => rfl
  | succ n ih =>
      simp only [circleTree, Expr.height, ih]
      omega

theorem nesting_circleTree_le (n : Nat) : (circleTree n).nesting ≤ 1 := by
  induction n with
  | zero => exact Nat.zero_le 1
  | succ n ih =>
      simp only [circleTree, Expr.nesting]
      omega

theorem scanFrom_circles (position : Nat) (previous : Option TokenKind) (n : Nat) :
    Token.scanFrom position previous (List.replicate n 'π') =
      .ok ((List.range' position n).map circleToken) := by
  induction n generalizing position previous with
  | zero => simp [Token.scanFrom]
  | succ n ih =>
      have hlexeme : Lexical.IsLexeme .constant ['π'] (some Lexical.circleRatio)
          (List.replicate n 'π') := .constantSign
      have hfits : Lexical.MinusFits previous .constant ['π'] :=
        Lexical.minusFits_of_singleton_ne (by decide)
      have hcircle := Lexical.scanFrom_lexeme position hlexeme hfits
      rw [List.replicate_succ, ← List.singleton_append, hcircle, List.length_singleton, ih,
        List.range'_succ, List.map_cons]
      rfl

theorem tokenize_circles (n : Nat) : tokenize (circles n) = .ok (circleTokens n) := by
  have hspell : spell 'π' = ['π'] := by decide
  have hnormal : normalizeChars (List.replicate (n + 1) 'π') = List.replicate (n + 1) 'π' := by
    rw [normalizeChars, List.flatMap_replicate, hspell]
    exact List.flatten_replicate_singleton
  refine mapError_eq_ok_iff.2 ?_
  rw [Token.scan, circles, String.toList_ofList, hnormal, scanFrom_circles, circleTokens,
    List.range_eq_range']

/-- Each circle ratio is the right operand of a product, one level below it. What stands
    before is the left operand and stays on the level of the product. -/
theorem derivation_circles (n : Nat) :
    ∃ d : Grammar.Derivation .product (circleTokens n) (circleTree n), d.depth ≤ 1 := by
  induction n with
  | zero =>
      exact ⟨.productOfPower (.powerOfSigned (.signedOfPrimary (.constant (circleToken 0) rfl))),
        Nat.zero_le 1⟩
  | succ n ih =>
      rcases ih with ⟨d, hd⟩
      have hlast : circleTokens (n + 1) = circleTokens n ++ [circleToken (n + 1)] := by
        rw [circleTokens, List.range_succ, List.map_append]
        rfl
      rw [hlast]
      refine ⟨.juxtaposition d (.inl rfl)
        (.powerOfSigned (.signedOfPrimary (.constant (circleToken (n + 1)) rfl))), ?_⟩
      simp only [Grammar.Derivation.depth]
      omega

section Limit

variable {settings : Settings}

/-- A text with a derivation has the derived tree if the derivation is not too deep, and
    if it is, none. -/
theorem parseText_of_derivation (settings : Settings) {text : String} {tokens : List Token}
    {tree : Expr} (hscan : tokenize text = .ok tokens) (d : Grammar.Derivation .sum tokens tree) :
    parseText settings text =
      if (d.depth : Int) ≤ settings.maxDepth then .ok tree
      else .error (.rejection (.tooDeep settings.maxDepth)) := by
  rw [parseText_eq, hscan]
  simp only [parseTokens, Grammar.ofTokens_of_derivation settings.maxDepth d]
  split <;> rfl

/-- Circle ratios are parsed under every limit that allows an operation, however many
    they are. -/
theorem parseText_circles (h : 1 ≤ settings.maxDepth) (n : Nat) :
    parseText settings (circles n) = .ok (circleTree n) := by
  rcases derivation_circles n with ⟨d, hd⟩
  rw [parseText_of_derivation settings (tokenize_circles n) (.sumOfProduct d)]
  refine if_pos ?_
  simp only [Grammar.Derivation.depth]
  omega

/-- A tree of a text is nested within the limit, and it is less high than the text has
    tokens. -/
theorem bounds_of_parseText {text : String} {tree : Expr}
    (h : parseText settings text = .ok tree) :
    (tree.nesting : Int) ≤ settings.maxDepth ∧
      ∃ tokens, tokenize text = .ok tokens ∧ Nonempty (Grammar.Derivation .sum tokens tree) ∧
        tree.height < tokens.length := by
  rcases derivation_of_parseText h with ⟨tokens, hscan, htree, ⟨d⟩⟩
  exact ⟨nesting_le_maxDepth htree, tokens, mapError_eq_ok_iff.2 hscan, ⟨d⟩,
    Nat.lt_of_le_of_lt tree.height_le_operations d.operations_lt_length⟩

/-- A text has no tree that is too high if it is refused under the limit, or if the limit
    is no less than the height. -/
theorem height_le_iff {text : String} {tokens : List Token} {tree : Expr}
    (hscan : tokenize text = .ok tokens) (d : Grammar.Derivation .sum tokens tree) :
    (∀ parsed, parseText settings text = .ok parsed →
        (parsed.height : Int) ≤ settings.maxDepth) ↔
      settings.maxDepth < d.depth ∨ (tree.height : Int) ≤ settings.maxDepth := by
  have hparse := parseText_of_derivation settings hscan d
  by_cases hdepth : (d.depth : Int) ≤ settings.maxDepth
  · rw [if_pos hdepth] at hparse
    constructor
    · intro h
      exact .inr (h tree hparse)
    · rintro (hlow | hheight) parsed hparsed
      · omega
      · rw [hparse] at hparsed
        rw [← Except.ok.inj hparsed]
        exact hheight
  · rw [if_neg hdepth] at hparse
    constructor
    · intro _
      exact .inl (by omega)
    · intro _ parsed hparsed
      rw [hparse] at hparsed
      cases hparsed

end Limit

/-- The limit on the depth bounds the nesting of a tree and not its height. A text has a
    tree that is too high just if the limit is at least the depth of its derivation and
    less than the height of its tree. The height is within the limit up to what leans to
    the left, and less than the number of tokens. It can be everything below that under a
    limit that allows an operation, so the limit is one on the height of all texts only if
    it allows none. -/
theorem limit_on_nesting (settings : Settings) :
    (∀ (text : String) (tokens : List Token) (tree : Expr)
      (d : Grammar.Derivation .sum tokens tree), tokenize text = .ok tokens →
      ((∀ parsed, parseText settings text = .ok parsed →
          (parsed.height : Int) ≤ settings.maxDepth) ↔
        settings.maxDepth < d.depth ∨ (tree.height : Int) ≤ settings.maxDepth)) ∧
    (∀ (text : String) (tree : Expr), parseText settings text = .ok tree →
      (tree.nesting : Int) ≤ settings.maxDepth ∧
        (tree.height : Int) ≤ settings.maxDepth + tree.leaning ∧
        ∃ tokens, tokenize text = .ok tokens ∧ Nonempty (Grammar.Derivation .sum tokens tree) ∧
          tree.height < tokens.length) ∧
    (1 ≤ settings.maxDepth → ∀ n : Nat,
      ∃ tree tokens, parseText settings (circles n) = .ok tree ∧
        tokenize (circles n) = .ok tokens ∧ tree.nesting ≤ 1 ∧ tree.height = n ∧
        tokens.length = n + 1) ∧
    ((∀ text tree, parseText settings text = .ok tree →
        (tree.height : Int) ≤ settings.maxDepth) ↔ settings.maxDepth ≤ 0) := by
  refine ⟨fun text tokens tree d hscan => height_le_iff hscan d, fun text tree h => ?_,
    fun h n => ?_, fun h => ?_, fun h text tree htree => ?_⟩
  · have hbounds := bounds_of_parseText h
    have hheight := tree.height_le_nesting_add
    exact ⟨hbounds.1, by omega, hbounds.2⟩
  · exact ⟨circleTree n, circleTokens n, parseText_circles h n, tokenize_circles n,
      nesting_circleTree_le n, height_circleTree n, length_circleTokens n⟩
  · -- One circle ratio more than the limit allows would be a tree that is too high.
    by_contra hpositive
    have hlimit : 1 ≤ settings.maxDepth := by omega
    have hheight := h _ _ (parseText_circles hlimit (settings.maxDepth.toNat + 1))
    rw [height_circleTree] at hheight
    omega
  · have hnesting := (bounds_of_parseText htree).1
    rw [Expr.height_of_nesting (by omega)]
    omega

/-- Under the limit of a hundred levels, a hundred and two circle ratios are a tree that
    is nested once and evaluated a hundred and one levels deep. -/
theorem limit_on_nesting_circles :
    ∃ tree tokens, parseText Settings.defaults (circles 101) = .ok tree ∧
      tokenize (circles 101) = .ok tokens ∧ tree.nesting ≤ 1 ∧ tree.height = 101 ∧
      tokens.length = 102 ∧ (tree.height : Int) ≤ Settings.defaults.maxDepth + tree.leaning := by
  rcases limit_on_nesting Settings.defaults with ⟨-, hbounds, hreached, -⟩
  rcases hreached (by decide) 101 with ⟨tree, tokens, htree, htokens, hnesting, hheight, hlength⟩
  exact ⟨tree, tokens, htree, htokens, hnesting, hheight, hlength, (hbounds _ _ htree).2.1⟩

/-- So the height of a tree that is parsed exceeds the limit. -/
theorem height_exceeds_limit :
    ∃ tree, parseText Settings.defaults (circles 101) = .ok tree ∧
      ¬ (tree.height : Int) ≤ Settings.defaults.maxDepth := by
  refine ⟨circleTree 101, parseText_circles (by decide) 101, ?_⟩
  rw [height_circleTree]
  decide

end Reckoner
