import Mathlib
import Reckoner.Proofs.Evaluation.PostOrder
import Reckoner.Proofs.Grammar.Leaves
import Reckoner.Proofs.Solve.Legible

/-!
# Evaluation Comes to Clean Numbers

No infinity, no indefinite value and no negative zero comes up in an evaluation
that starts without them. A tree is clean when it is proper and no negative zero
is among its leaves. Every node of such a tree has a clean value or a mathematical
error, and working through its nodes never puts anything else on the stack.

Only the last point needs an induction. That a node has a clean value follows from
its operation alone, because `settles_of_proper` has seen to it that its operands
are finite.

Trees of texts are clean from the start. Their leaves are values of tokens, and a
minus sign is never a part of a number, so nothing that is read is negative.

## Main definitions

* `Expr.Clean`: The tree is proper and has no negative zero in it.
* `Expr.ComesClean`: A clean value, a mathematical error, or bad decimal places.
* `Work.Clean`: The values still to be used are clean.

## Theorems

* `value_clean`: The value of a clean tree is clean.
* `visit_clean`, `run_clean`: Working through clean nodes keeps the stack clean.
* `signBit_of_scan`: The leaves of the tree of a text have no sign.
* `clean_of_scan`: So the tree is clean.
* `evaluateTree_clean`: All values in the evaluation of a clean tree are clean.
-/

namespace Reckoner

namespace Expr

/-- The operators and functions of a tree exist, and its numbers are finite and
    none of them is the negative zero. -/
structure Clean (tree : Expr) : Prop where
  proper : tree.Proper
  noNegativeZero : some Double.negativeZero ∉ tree.literals

theorem Clean.left {symbol : String} {left right : Expr} {grouped : Bool}
    (h : (binary symbol left right grouped).Clean) : left.Clean := by
  rcases h with ⟨_ | ⟨hop, hleft, hright⟩, hzero⟩
  simp only [literals, List.mem_append, not_or] at hzero
  exact ⟨hleft, hzero.1⟩

theorem Clean.right {symbol : String} {left right : Expr} {grouped : Bool}
    (h : (binary symbol left right grouped).Clean) : right.Clean := by
  rcases h with ⟨_ | ⟨hop, hleft, hright⟩, hzero⟩
  simp only [literals, List.mem_append, not_or] at hzero
  exact ⟨hright, hzero.2⟩

theorem Clean.argument {name : String} {argument : Expr} (h : (apply name argument).Clean) :
    argument.Clean := by
  rcases h with ⟨_ | _ | ⟨hf, hargument⟩, hzero⟩
  exact ⟨hargument, hzero⟩

theorem Clean.value {value : Double} (h : (literal (some value)).Clean) : value.Clean := by
  rcases h with ⟨⟨hfinite⟩, hzero⟩
  simp only [literals, List.mem_singleton, Option.some.injEq] at hzero
  exact ⟨hfinite, fun heq => hzero heq.symm⟩

/-- A function of a finite number that has a value has a clean one. -/
theorem evaluateUnary_clean {library : Numerics} (hlibrary : library.Reliable) {places : Int}
    {name : String} {a r : Evaluation} (ha : a.value.isFinite = true)
    (h : evaluateUnary places name a = .ok r) : r.value.Clean := by
  simp only [evaluateUnary] at h
  split at h
  · cases h
  · rename_i f _
    rcases Unary.calculate_settles (f := f) hlibrary ha with ⟨value, hvalue, hclean⟩ | ⟨e, he⟩
    · simp only [hvalue] at h
      split at h
      · cases h
      · cases h
        exact hclean
    · simp only [he] at h
      cases h

theorem evaluateBinary_clean {symbol : String} {grouped : Bool} {l r result : Evaluation}
    (h : evaluateBinary symbol grouped l r = .ok result) : result.value.Clean := by
  simp only [evaluateBinary] at h
  split at h
  · cases h
  · split at h
    · cases h
    · rename_i value hvalue
      cases h
      exact Operator.calculate_clean hvalue

/-- The value of a clean tree is clean. -/
theorem value_clean {library : Numerics} (hlibrary : library.Reliable) {places : Int}
    {tree : Expr} {r : Evaluation} (htree : tree.Clean) (h : tree.evaluate places = .ok r) :
    r.value.Clean := by
  cases tree with
  | literal value =>
      cases value with
      | none => cases h
      | some value =>
          cases h
          exact htree.value
  | binary symbol left right grouped =>
      simp only [evaluate] at h
      split at h
      · cases h
      · split at h
        · cases h
        · exact evaluateBinary_clean h
  | apply name argument =>
      -- A function needs a finite argument, and the argument has one, being proper.
      have hargument := settles_of_proper hlibrary places htree.argument.proper
      simp only [evaluate] at h
      split at h
      · cases h
      · rename_i a ha
        rw [ha] at hargument
        cases hargument with
        | value hfinite => exact evaluateUnary_clean hlibrary hfinite h
  | foreign shown => cases h

/-- What can become of a clean tree: a clean value, a mathematical error, or a step
    of a named function that cannot be written with so many decimal places. -/
inductive ComesClean (places : Int) (tree : Expr) : Except Failure Evaluation → Prop
  | value {r : Evaluation} (hclean : r.value.Clean) : ComesClean places tree (.ok r)
  | math (e : MathError) : ComesClean places tree (.error (.rejection (.math e)))
  | places {fault : PlacesFault} (hcalls : tree.calls = true) (hblames : fault.Blames places) :
      ComesClean places tree (.error (.fault (.places fault)))

/-- The number of decimal places is to blame only outside the range that the
    formatter accepts. -/
theorem ComesClean.of_range {places : Int} {tree : Expr} {o : Except Failure Evaluation}
    (h : ComesClean places tree o) (hlow : 0 ≤ places) (hhigh : places ≤ maxHalfWord) :
    (∃ r, o = .ok r ∧ r.value.Clean) ∨ ∃ e, o = .error (.rejection (.math e)) := by
  cases h with
  | value hclean => exact .inl ⟨_, rfl, hclean⟩
  | math e => exact .inr ⟨e, rfl⟩
  | @places fault _ hblames =>
      have hword : maxHalfWord < maxWord := by decide
      cases fault <;> simp only [PlacesFault.Blames] at hblames <;> omega

end Expr

namespace PostOrder

section Cleanness

variable {library : Numerics} {settings : Settings} {places : Option Int}

theorem comesClean_of_clean (hlibrary : library.Reliable) {tree : Expr} (htree : tree.Clean) :
    tree.ComesClean (settings.places places) (evaluateTree settings places tree) := by
  have hsettles := Expr.settles_of_proper hlibrary (settings.places places) htree.proper
  simp only [evaluateTree]
  cases h : tree.evaluate (settings.places places) with
  | ok r => exact .value (Expr.value_clean hlibrary htree h)
  | error e =>
      rw [h] at hsettles
      cases hsettles with
      | math e => exact .math e
      | places hcalls hblames => exact .places hcalls hblames

/-- Every node of a clean tree is the root of one. -/
theorem clean_of_mem_nodes {tree n : Expr} (htree : tree.Clean) (hn : n ∈ nodes tree) :
    n.Clean :=
  of_mem_nodes (fun h => ⟨h.left, h.right⟩) (fun h => h.argument) htree hn

/-- The values still to be used are clean. -/
def Work.Clean (work : Work) : Prop := ∀ value ∈ work.values, value.Clean

theorem Work.clean_nil (steps : List Step) : Work.Clean ⟨[], steps⟩ := by
  simp [Work.Clean]

theorem Work.clean_cons {value : Double} {values : List Double} {steps steps' : List Step}
    (hvalue : value.Clean) (h : Work.Clean ⟨values, steps⟩) :
    Work.Clean ⟨value :: values, steps'⟩ := by
  rintro v (_ | ⟨_, hv⟩)
  · exact hvalue
  · exact h v hv

theorem operate_clean {symbol : String} {grouped : Bool} {l r result : Evaluation}
    (h : operate symbol grouped l r = .ok result) : result.value.Clean :=
  Expr.evaluateBinary_clean (mapError_eq_ok_iff.1 h)

theorem callOn_clean (hlibrary : library.Reliable) {name : String} {a result : Evaluation}
    (ha : a.value.isFinite = true) (h : callOn settings places name a = .ok result) :
    result.value.Clean :=
  Expr.evaluateUnary_clean hlibrary ha (mapError_eq_ok_iff.1 h)

/-- One node keeps the values clean. -/
theorem visit_clean (hlibrary : library.Reliable) {work next : Work} {n : Expr} (hn : n.Clean)
    (hwork : work.Clean) (h : visit settings places work n = .ok next) : next.Clean := by
  unfold visit at h
  split at h
  · cases h
    exact Work.clean_cons hn.value hwork
  · rename_i symbol _ _ grouped r l values steps
    have hrest : Work.Clean ⟨values, steps⟩ := fun v hv => hwork v (.tail _ (.tail _ hv))
    cases hresult : operate symbol grouped ⟨l, []⟩ ⟨r, []⟩ with
    | error e =>
        rw [hresult] at h
        cases h
    | ok result =>
        rw [hresult] at h
        cases h
        exact Work.clean_cons (operate_clean hresult) hrest
  · rename_i name _ a values steps
    have hrest : Work.Clean ⟨values, steps⟩ := fun v hv => hwork v (.tail _ hv)
    cases hresult : callOn settings places name ⟨a, []⟩ with
    | error e =>
        rw [hresult] at h
        cases h
    | ok result =>
        rw [hresult] at h
        cases h
        exact Work.clean_cons (callOn_clean hlibrary (hwork a (.head _)).1 hresult) hrest
  · cases h
  · cases h
  · cases h
    exact hwork

/-- So do any number of nodes, by induction on their list. -/
theorem run_clean (hlibrary : library.Reliable) {work done : Work} {ns : List Expr}
    (hns : ∀ n ∈ ns, n.Clean) (hwork : work.Clean) (h : run settings places work ns = .ok done) :
    done.Clean := by
  induction ns generalizing work with
  | nil =>
      cases h
      exact hwork
  | cons n ns ih =>
      rw [run_cons] at h
      split at h
      · cases h
      · rename_i next hnext
        exact ih (fun m hm => hns m (.tail _ hm))
          (visit_clean hlibrary (hns n (.head _)) hwork hnext) h

/-- A numeral of an expression has no sign, and neither has its value. -/
theorem signBit_ofParts (whole fraction : List Char) :
    (Double.ofParts whole fraction).signBit = false := by
  simp only [Double.ofParts, Double.ofDecimal, Double.ofMagnitude]
  -- Whichever way the significand is rounded, the sign is given as a plus.
  repeat' split
  all_goals rfl

/-- No token stands for a number with a sign: the minus before a number is a token of
    its own. -/
theorem signBit_of_isLexeme {kind : TokenKind} {spelling after : List Char} {value : Double}
    (h : Lexical.IsLexeme kind spelling (some value) after) : value.signBit = false := by
  cases h with
  | integer _ _ _ _ => exact signBit_ofParts _ _
  | decimal _ _ _ _ _ _ => exact signBit_ofParts _ _
  | constantSign => rfl
  | constantName _ => rfl

/-- No number among the leaves of the tree of a text has a sign. -/
theorem signBit_of_scan {text : String} {tokens : List Token} {tree : Expr} {value : Double}
    (htokens : tokenize text = .ok tokens) (htree : parseTokens settings tokens = .ok tree)
    (hvalue : some value ∈ tree.literals) : value.signBit = false := by
  have hscan : Token.scan text = .ok tokens := mapError_eq_ok_iff.1 htokens
  rcases Grammar.derivation_of_ofTokens (mapError_eq_ok_iff.1 htree) with ⟨d⟩
  -- The leaves are values of tokens, and each token is a lexeme of the text.
  rw [Grammar.literals_of_derivation d] at hvalue
  rcases List.mem_map.1 hvalue with ⟨t, ht, hvalue⟩
  have hsegmentation := (Lexical.scanFrom_eq_ok_iff _ rfl).1 hscan
  rcases hsegmentation.lexemes t (List.mem_of_mem_filter ht) with ⟨_, _, _, _, hlexeme⟩
  rw [hvalue] at hlexeme
  exact signBit_of_isLexeme hlexeme

/-- The tree of a text is clean. -/
theorem clean_of_scan {text : String} {tokens : List Token} {tree : Expr}
    (htokens : tokenize text = .ok tokens) (htree : parseTokens settings tokens = .ok tree) :
    tree.Clean := by
  have hscan : Token.scan text = .ok tokens := mapError_eq_ok_iff.1 htokens
  rcases Grammar.derivation_of_ofTokens (mapError_eq_ok_iff.1 htree) with ⟨d⟩
  refine ⟨Grammar.proper_of_derivation d (legible_of_scan hscan), fun hzero => ?_⟩
  cases signBit_of_scan htokens htree hzero

/-- With a library to be relied on, every value in the evaluation of a clean tree is clean. Each
    of its nodes has a clean value or a mathematical error, if the formatter accepts the number
    of decimal places, and if it does not, nothing but that keeps a node from either. The values
    on the stack are clean whenever one looks, and the tree of a text is a clean one. -/
theorem evaluateTree_clean (hlibrary : library.Reliable) (settings : Settings)
    (places : Option Int) :
    (∀ tree n, tree.Clean → n ∈ nodes tree → 0 ≤ settings.places places →
      settings.places places ≤ maxHalfWord →
      (∃ r, evaluateTree settings places n = .ok r ∧ r.value.Clean) ∨
        ∃ e, evaluateTree settings places n = .error (.rejection (.math e))) ∧
    (∀ tree n, tree.Clean → n ∈ nodes tree →
      n.ComesClean (settings.places places) (evaluateTree settings places n)) ∧
    (∀ tree before after work, tree.Clean → nodes tree = before ++ after →
      run settings places ⟨[], []⟩ before = .ok work → work.Clean) ∧
    (∀ text tokens tree, tokenize text = .ok tokens → parseTokens settings tokens = .ok tree →
      tree.Clean) := by
  have hcomes : ∀ tree n, tree.Clean → n ∈ nodes tree →
      n.ComesClean (settings.places places) (evaluateTree settings places n) :=
    fun tree n htree hn => comesClean_of_clean hlibrary (clean_of_mem_nodes htree hn)
  refine ⟨fun tree n htree hn hlow hhigh => (hcomes tree n htree hn).of_range hlow hhigh, hcomes,
    fun tree before after work htree hsplit => run_clean hlibrary ?_
      (Work.clean_nil []),
    fun text tokens tree => clean_of_scan⟩
  -- A moment of the evaluation is a place where the list of nodes is split.
  intro n hn
  exact clean_of_mem_nodes htree (by rw [hsplit]; exact List.mem_append_left _ hn)

end Cleanness

/-- The tree of `-5*0`, a product that would be a negative zero. -/
def negativeProduct : Expr :=
  .binary "*" (.apply "neg" (.literal (some (Double.ofRat 5)))) (.literal (some Double.zero)) false

/-- The product is evaluated, and its value is clean. -/
theorem negativeProduct_clean :
    negativeProduct.Clean ∧
      ∃ r, evaluateTree Settings.defaults none negativeProduct = .ok r ∧ r.value.Clean := by
  have hclean : negativeProduct.Clean :=
    ⟨.binary (Operator.ofSymbol?_symbol .multiply)
      (.apply (f := .negate) (by decide) (.literal (by decide +kernel))) (.literal (by decide)),
      by decide +kernel⟩
  have hok : (evaluateTree Settings.defaults none negativeProduct).toBool = true := by
    decide +kernel
  have hroot : negativeProduct ∈ nodes negativeProduct := by simp [nodes, negativeProduct]
  refine ⟨hclean, ?_⟩
  rcases (evaluateTree_clean Numerics.reference_reliable Settings.defaults none).1 _ _ hclean hroot
    (by decide) (by decide) with h | ⟨e, he⟩
  · exact h
  · rw [he] at hok
    cases hok

end PostOrder

end Reckoner
