import Mathlib
import Reckoner.Proofs.Grammar.Derivation

/-!
# The Grammar Is Unambiguous

Two derivations of the same tokens are the same derivation. The argument reads
both from the left and shows that they never part, which takes more than equal
tokens: inside a longer text a phrase ends where no further operand can be taken
in, and the two have to agree on where that is.

Sums and products recurse on the left, so the shorter of two such phrases is not
a part of the longer one in an obvious way. `Growth` puts them in relation. It
takes further operands in one at a time, from the left, and every sum grows from
its first summand, every product from its first factor. What the induction shows
of a derivation is `Determines`: all phrases that begin as it does, and that go
on for as long as they can, have grown from it.

## Main definitions

* `Growth`: One phrase takes in further operands and becomes another.
* `Determines`: A phrase is the beginning of every other that starts with it.

## Theorems

* `eq_or_stops`: What a phrase takes in begins with one of its own operators.
* `exists_first_summand`, `exists_first_factor`: Where sums and products grow
  from.
* `determines_addition` and so on, one for each rule: The phrase that a rule
  builds determines what begins like it, if its parts do.
* `determines_of_derivation`: Every phrase determines what begins like it.
* `phrase_eq_of_tokens_eq`: Two phrases of the same tokens are the same.
-/

namespace Reckoner

namespace Grammar

/-- One phrase becomes another by taking in further operands on its right, which
    are spelled by the tokens in between. -/
inductive Growth : {s : Stratum} → Phrase s → List Token → Phrase s → Prop
  | done {s : Stratum} (p : Phrase s) : Growth p [] p
  | summand {ls rs more : List Token} {l r : Expr} {q : Phrase .sum} (left : Derivation .sum ls l)
      (op : Token) (hop : IsSign op ["+", "-"]) (right : Derivation .product rs r)
      (h : Growth ⟨_, _, .addition left op hop right⟩ more q) :
      Growth ⟨ls, l, left⟩ (op :: (rs ++ more)) q
  | factor {ls rs more : List Token} {l r : Expr} {q : Phrase .product}
      (left : Derivation .product ls l) (op : Token) (hop : IsSign op ["*", "/"])
      (right : Derivation .power rs r)
      (h : Growth ⟨_, _, .multiplication left op hop right⟩ more q) :
      Growth ⟨ls, l, left⟩ (op :: (rs ++ more)) q
  | neighbour {ls rs more : List Token} {l r : Expr} {t : Token} {q : Phrase .product}
      (left : Derivation .product ls l) (hfirst : OpensFactor t)
      (right : Derivation .power (t :: rs) r)
      (h : Growth ⟨_, _, .juxtaposition left hfirst right⟩ more q) :
      Growth ⟨ls, l, left⟩ (t :: (rs ++ more)) q

namespace Growth

theorem trans {s : Stratum} {p q q' : Phrase s} {more more' : List Token} (h : Growth p more q)
    (h' : Growth q more' q') : Growth p (more ++ more') q' := by
  induction h with
  | done p => exact h'
  | summand left op hop right _ ih =>
      rw [List.cons_append, List.append_assoc]
      exact .summand left op hop right (ih h')
  | factor left op hop right _ ih =>
      rw [List.cons_append, List.append_assoc]
      exact .factor left op hop right (ih h')
  | neighbour left hfirst right _ ih =>
      rw [List.cons_append, List.append_assoc]
      exact .neighbour left hfirst right (ih h')

theorem tokens {s : Stratum} {p q : Phrase s} {more : List Token} (h : Growth p more q) :
    q.tokens = p.tokens ++ more := by
  induction h with
  | done p => rw [List.append_nil]
  | summand left op hop right _ ih => rw [ih, List.append_assoc, List.cons_append]
  | factor left op hop right _ ih => rw [ih, List.append_assoc, List.cons_append]
  | neighbour left hfirst right _ ih => rw [ih, List.append_assoc, List.cons_append]

/-- Operands are taken in by operators of the phrase's own precedence. -/
theorem eq_or_stops {s : Stratum} {p q : Phrase s} {more : List Token} (h : Growth p more q) :
    (more = [] ∧ p = q) ∨
      (s.least < s.bar ∧ ∀ rest bar, Stops bar (more ++ rest) ↔ s.least < bar) := by
  cases h with
  | done => exact .inl ⟨rfl, rfl⟩
  | summand left op hop right _ =>
      exact .inr ⟨by decide, fun rest bar => stops_sign (s := .sum) _ bar hop⟩
  | factor left op hop right _ =>
      exact .inr ⟨by decide, fun rest bar => stops_sign (s := .product) _ bar hop⟩
  | neighbour left hfirst right _ =>
      exact .inr ⟨by decide, fun rest bar => stops_opensFactor _ bar hfirst⟩

theorem stops_bar {s : Stratum} {p q : Phrase s} {more rest : List Token} (h : Growth p more q)
    (hrest : Stops s.least rest) : Stops s.bar (more ++ rest) := by
  rcases h.eq_or_stops with ⟨rfl, -⟩ | ⟨hlt, hstops⟩
  · exact hrest.mono s.least_le_bar
  · exact (hstops rest s.bar).2 hlt

theorem eq_of_stops {s : Stratum} {p q : Phrase s} {more rest : List Token} (h : Growth p more q)
    (hstop : Stops s.least (more ++ rest)) : more = [] ∧ p = q := by
  rcases h.eq_or_stops with heq | ⟨-, hstops⟩
  · exact heq
  · exact absurd ((hstops rest s.least).1 hstop) (Nat.lt_irrefl _)

end Growth

/-- A sum grows from its first summand. -/
theorem exists_first_summand : ∀ {ts : List Token} {e : Expr} (d : Derivation .sum ts e),
    ∃ (first : Phrase .product) (more : List Token),
      Growth ⟨first.tokens, first.tree, .sumOfProduct first.derivation⟩ more ⟨ts, e, d⟩
  | _, _, .sumOfProduct d => ⟨⟨_, _, d⟩, [], .done _⟩
  -- The left operand has grown from it, and this rule takes in one more.
  | _, _, .addition left op hop right => by
      rcases exists_first_summand left with ⟨first, more, hgrowth⟩
      exact ⟨first, _, hgrowth.trans (.summand left op hop right (.done _))⟩

/-- A product grows from its first factor. -/
theorem exists_first_factor : ∀ {ts : List Token} {e : Expr} (d : Derivation .product ts e),
    ∃ (first : Phrase .power) (more : List Token),
      Growth ⟨first.tokens, first.tree, .productOfPower first.derivation⟩ more ⟨ts, e, d⟩
  | _, _, .productOfPower d => ⟨⟨_, _, d⟩, [], .done _⟩
  | _, _, .multiplication left op hop right => by
      rcases exists_first_factor left with ⟨first, more, hgrowth⟩
      exact ⟨first, _, hgrowth.trans (.factor left op hop right (.done _))⟩
  | _, _, .juxtaposition left hfirst right => by
      rcases exists_first_factor left with ⟨first, more, hgrowth⟩
      exact ⟨first, _, hgrowth.trans (.neighbour left hfirst right (.done _))⟩

/-- Every phrase that begins where `p` does, and goes on for as long as it can,
    has grown from `p`. -/
def Determines {s : Stratum} (p : Phrase s) : Prop :=
  ∀ (q : Phrase s) (rest rest' : List Token), p.tokens ++ rest = q.tokens ++ rest' →
    Stops s.bar rest → Stops s.least rest' → ∃ more, Growth p more q ∧ rest = more ++ rest'

/-- If neither phrase can go on, the two are the same. -/
theorem Determines.eq {s : Stratum} {p q : Phrase s} {rest rest' : List Token}
    (h : Determines p) (htokens : p.tokens ++ rest = q.tokens ++ rest')
    (hrest : Stops s.least rest) (hrest' : Stops s.least rest') : p = q ∧ rest = rest' := by
  rcases h q rest rest' htokens (hrest.mono s.least_le_bar) hrest' with ⟨more, hgrowth, rfl⟩
  rcases hgrowth.eq_of_stops hrest with ⟨rfl, rfl⟩
  exact ⟨rfl, rfl⟩

/-- Two phrases between the same parentheses are the same. -/
theorem Determines.eq_of_close {p q : Phrase .sum} {c c' : Token} {rest rest' : List Token}
    (h : Determines p) (htokens : p.tokens ++ c :: rest = q.tokens ++ c' :: rest')
    (hc : c.kind = .closeParen) (hc' : c'.kind = .closeParen) :
    p = q ∧ c = c' ∧ rest = rest' := by
  rcases h.eq htokens (stops_closeParen rest _ hc) (stops_closeParen rest' _ hc') with ⟨heq, hrest⟩
  rw [List.cons.injEq] at hrest
  exact ⟨heq, hrest⟩

section Rules

variable {ts ls rs : List Token} {e l r : Expr}

theorem determines_sumOfProduct {d : Derivation .product ts e} (h : Determines ⟨ts, e, d⟩) :
    Determines ⟨ts, e, .sumOfProduct d⟩ := by
  rintro ⟨us, u, d'⟩ rest rest' htokens hrest hrest'
  -- The other sum grows from its first summand, and that is the one given.
  rcases exists_first_summand d' with ⟨first, more, hgrowth⟩
  have hsplit := hgrowth.tokens
  simp only at htokens hsplit
  rw [hsplit, List.append_assoc] at htokens
  rcases h.eq (q := first) htokens hrest (hgrowth.stops_bar hrest') with ⟨rfl, rfl⟩
  exact ⟨more, hgrowth, rfl⟩

theorem determines_productOfPower {d : Derivation .power ts e} (h : Determines ⟨ts, e, d⟩) :
    Determines ⟨ts, e, .productOfPower d⟩ := by
  rintro ⟨us, u, d'⟩ rest rest' htokens hrest hrest'
  rcases exists_first_factor d' with ⟨first, more, hgrowth⟩
  have hsplit := hgrowth.tokens
  simp only at htokens hsplit
  rw [hsplit, List.append_assoc] at htokens
  rcases h.eq (q := first) htokens hrest (hgrowth.stops_bar hrest') with ⟨rfl, rfl⟩
  exact ⟨more, hgrowth, rfl⟩

/-- The left operand determines the other sum, which then takes in the same sign
    and, since the right operand determines what follows it, the same summand. -/
theorem determines_addition {left : Derivation .sum ls l} {op : Token}
    {hop : IsSign op ["+", "-"]} {right : Derivation .product rs r}
    (hleft : Determines ⟨ls, l, left⟩) (hright : Determines ⟨rs, r, right⟩) :
    Determines ⟨_, _, .addition left op hop right⟩ := by
  intro q rest rest' htokens hrest hrest'
  have hstops := fun rest bar => stops_sign (s := .sum) rest bar hop
  simp only [List.append_assoc, List.cons_append] at htokens
  rcases hleft q _ rest' htokens ((hstops _ _).2 (by decide)) hrest' with ⟨more, hgrowth, hmore⟩
  cases hgrowth with
  | done =>
      -- The other sum would end before the sign, which it could have taken in.
      rw [List.nil_append] at hmore
      rw [← hmore] at hrest'
      exact absurd ((hstops _ _).1 hrest') (by decide)
  | @summand _ rs' more' _ r' _ _ op' hop' right' h =>
      rw [List.cons_append, List.cons.injEq, List.append_assoc] at hmore
      rcases hmore with ⟨rfl, hmore⟩
      rcases hright.eq (q := ⟨rs', r', right'⟩) hmore hrest (h.stops_bar hrest') with ⟨heq, rfl⟩
      cases heq
      exact ⟨more', h, rfl⟩

theorem determines_multiplication {left : Derivation .product ls l} {op : Token}
    {hop : IsSign op ["*", "/"]} {right : Derivation .power rs r}
    (hleft : Determines ⟨ls, l, left⟩) (hright : Determines ⟨rs, r, right⟩) :
    Determines ⟨_, _, .multiplication left op hop right⟩ := by
  intro q rest rest' htokens hrest hrest'
  have hstops := fun rest bar => stops_sign (s := .product) rest bar hop
  simp only [List.append_assoc, List.cons_append] at htokens
  rcases hleft q _ rest' htokens ((hstops _ _).2 (by decide)) hrest' with ⟨more, hgrowth, hmore⟩
  cases hgrowth with
  | done =>
      rw [List.nil_append] at hmore
      rw [← hmore] at hrest'
      exact absurd ((hstops _ _).1 hrest') (by decide)
  | @factor _ rs' more' _ r' _ _ op' hop' right' h =>
      rw [List.cons_append, List.cons.injEq, List.append_assoc] at hmore
      rcases hmore with ⟨rfl, hmore⟩
      rcases hright.eq (q := ⟨rs', r', right'⟩) hmore hrest (h.stops_bar hrest') with ⟨heq, rfl⟩
      cases heq
      exact ⟨more', h, rfl⟩
  | neighbour _ hfirst _ h =>
      -- A sign does not begin a factor.
      rw [List.cons_append, List.cons.injEq] at hmore
      rcases hmore with ⟨rfl, -⟩
      exact absurd hop.1 hfirst.ne_operator

theorem determines_juxtaposition {t : Token} {left : Derivation .product ls l}
    {hfirst : OpensFactor t} {right : Derivation .power (t :: rs) r}
    (hleft : Determines ⟨ls, l, left⟩) (hright : Determines ⟨t :: rs, r, right⟩) :
    Determines ⟨_, _, .juxtaposition left hfirst right⟩ := by
  intro q rest rest' htokens hrest hrest'
  have hstops := fun rest bar => stops_opensFactor rest bar hfirst
  simp only [List.append_assoc, List.cons_append] at htokens
  rcases hleft q _ rest' htokens ((hstops _ _).2 (by decide)) hrest' with ⟨more, hgrowth, hmore⟩
  cases hgrowth with
  | done =>
      rw [List.nil_append] at hmore
      rw [← hmore] at hrest'
      exact absurd ((hstops _ _).1 hrest') (by decide)
  | factor _ op hop _ h =>
      rw [List.cons_append, List.cons.injEq] at hmore
      rcases hmore with ⟨rfl, -⟩
      exact absurd hop.1 hfirst.ne_operator
  | @neighbour _ rs' more' _ r' t' _ _ hfirst' right' h =>
      rw [List.cons_append, List.cons.injEq, List.append_assoc] at hmore
      rcases hmore with ⟨rfl, hmore⟩
      rcases hright.eq (q := ⟨t :: rs', r', right'⟩) (congrArg (t :: ·) hmore) hrest
        (h.stops_bar hrest') with ⟨heq, rfl⟩
      cases heq
      exact ⟨more', h, rfl⟩

theorem determines_powerOfSigned {d : Derivation .signed ts e} (h : Determines ⟨ts, e, d⟩) :
    Determines ⟨ts, e, .powerOfSigned d⟩ := by
  rintro ⟨us, u, d'⟩ rest rest' htokens hrest hrest'
  cases d' with
  | powerOfSigned d' =>
      rcases h.eq (q := ⟨us, u, d'⟩) htokens (hrest.mono (by decide)) (hrest'.mono (by decide))
        with ⟨heq, rfl⟩
      cases heq
      exact ⟨[], .done _, rfl⟩
  | @exponentiation ls rs l r left op hop right =>
      -- The base is the phrase given, and then a power sign would follow it.
      have hstops := fun bar => stops_sign (s := .power) (rs ++ rest') bar hop
      simp only [List.append_assoc, List.cons_append] at htokens
      rcases h.eq (q := ⟨ls, l, left⟩) htokens (hrest.mono (by decide))
        ((hstops _).2 (by decide)) with ⟨-, rfl⟩
      exact absurd ((hstops _).1 hrest) (by decide)

/-- Powers recurse on the right, so they do not grow: both operands are the same. -/
theorem determines_exponentiation {left : Derivation .signed ls l} {op : Token}
    {hop : IsSign op ["^"]} {right : Derivation .power rs r}
    (hleft : Determines ⟨ls, l, left⟩) (hright : Determines ⟨rs, r, right⟩) :
    Determines ⟨_, _, .exponentiation left op hop right⟩ := by
  rintro ⟨us, u, d'⟩ rest rest' htokens hrest hrest'
  have hstops := fun bar => stops_sign (s := .power) (rs ++ rest) bar hop
  simp only [List.append_assoc, List.cons_append] at htokens
  cases d' with
  | powerOfSigned d' =>
      rcases hleft.eq (q := ⟨us, u, d'⟩) htokens ((hstops _).2 (by decide))
        (hrest'.mono (by decide)) with ⟨-, rfl⟩
      exact absurd ((hstops _).1 hrest') (by decide)
  | @exponentiation ls' rs' l' r' left' op' hop' right' =>
      simp only [List.append_assoc, List.cons_append] at htokens
      rcases hleft.eq (q := ⟨ls', l', left'⟩) htokens ((hstops _).2 (by decide))
        ((stops_sign (s := .power) _ _ hop').2 (by decide)) with ⟨heq, hmore⟩
      cases heq
      rw [List.cons.injEq] at hmore
      rcases hmore with ⟨rfl, hmore⟩
      rcases hright.eq (q := ⟨rs', r', right'⟩) hmore hrest hrest' with ⟨heq, rfl⟩
      cases heq
      exact ⟨[], .done _, rfl⟩

theorem determines_negation {t : Token} {hkind : t.kind = .negate} {d : Derivation .signed ts e}
    (h : Determines ⟨ts, e, d⟩) : Determines ⟨_, _, .negation t hkind d⟩ := by
  rintro ⟨us, u, d'⟩ rest rest' htokens hrest hrest'
  cases d' with
  | @negation ts' e' t' hkind' argument' =>
      simp only [List.cons_append, List.cons.injEq] at htokens
      rcases htokens with ⟨rfl, htokens⟩
      rcases h.eq (q := ⟨ts', e', argument'⟩) htokens hrest hrest' with ⟨heq, rfl⟩
      cases heq
      exact ⟨[], .done _, rfl⟩
  | signedOfPrimary d' =>
      -- A primary phrase does not begin with the negation.
      refine absurd hkind (d'.not_negate rest' t ?_)
      simp only at htokens
      rw [← htokens]
      rfl

theorem determines_signedOfPrimary {d : Derivation .primary ts e} (h : Determines ⟨ts, e, d⟩) :
    Determines ⟨ts, e, .signedOfPrimary d⟩ := by
  rintro ⟨us, u, d'⟩ rest rest' htokens hrest hrest'
  cases d' with
  | negation t hkind argument =>
      refine absurd hkind (d.not_negate rest t ?_)
      simp only at htokens
      rw [htokens]
      rfl
  | signedOfPrimary d' =>
      rcases h.eq (q := ⟨us, u, d'⟩) htokens hrest hrest' with ⟨heq, rfl⟩
      cases heq
      exact ⟨[], .done _, rfl⟩

theorem determines_number {t : Token} {hkind : t.kind = .number} :
    Determines ⟨_, _, .number t hkind⟩ := by
  rintro ⟨us, u, d'⟩ rest rest' htokens _ _
  cases d' with
  | number t' _ =>
      rw [List.singleton_append, List.singleton_append, List.cons.injEq] at htokens
      rcases htokens with ⟨rfl, rfl⟩
      exact ⟨[], .done _, rfl⟩
  | _ => grind

theorem determines_constant {t : Token} {hkind : t.kind = .constant} :
    Determines ⟨_, _, .constant t hkind⟩ := by
  rintro ⟨us, u, d'⟩ rest rest' htokens _ _
  cases d' with
  | constant t' _ =>
      rw [List.singleton_append, List.singleton_append, List.cons.injEq] at htokens
      rcases htokens with ⟨rfl, rfl⟩
      exact ⟨[], .done _, rfl⟩
  | _ => grind

theorem determines_parentheses {o c : Token} {ho : o.kind = .openParen}
    {hc : c.kind = .closeParen} {d : Derivation .sum ts e} (h : Determines ⟨ts, e, d⟩) :
    Determines ⟨_, _, .parentheses o c ho hc d⟩ := by
  rintro ⟨us, u, d'⟩ rest rest' htokens _ _
  cases d' with
  | @parentheses ts' e' o' c' ho' hc' inner' =>
      simp only [List.cons_append, List.append_assoc, List.cons.injEq, List.nil_append] at htokens
      rcases htokens with ⟨rfl, htokens⟩
      rcases h.eq_of_close (q := ⟨ts', e', inner'⟩) htokens hc hc' with ⟨heq, rfl, rfl⟩
      cases heq
      exact ⟨[], .done _, rfl⟩
  -- The other rules begin with a token of another kind.
  | _ => grind

theorem determines_application {f o c : Token} {hf : f.kind = .function}
    {ho : o.kind = .openParen} {hc : c.kind = .closeParen} {d : Derivation .sum ts e}
    (h : Determines ⟨ts, e, d⟩) : Determines ⟨_, _, .application f o c hf ho hc d⟩ := by
  rintro ⟨us, u, d'⟩ rest rest' htokens _ _
  cases d' with
  -- The parentheses of a function belong to its rule, so they are compared with their own.
  | @application ts' e' f' o' c' hf' ho' hc' argument' =>
      simp only [List.cons_append, List.append_assoc, List.cons.injEq, List.nil_append] at htokens
      rcases htokens with ⟨rfl, rfl, htokens⟩
      rcases h.eq_of_close (q := ⟨ts', e', argument'⟩) htokens hc hc' with ⟨heq, rfl, rfl⟩
      cases heq
      exact ⟨[], .done _, rfl⟩
  | _ => grind

end Rules

/-- Every phrase determines what begins like it, by induction on its derivation. -/
theorem determines_of_derivation {s : Stratum} {ts : List Token} {e : Expr}
    (d : Derivation s ts e) : Determines ⟨ts, e, d⟩ := by
  induction d with
  | sumOfProduct _ ih => exact determines_sumOfProduct ih
  | addition _ _ _ _ ihleft ihright => exact determines_addition ihleft ihright
  | productOfPower _ ih => exact determines_productOfPower ih
  | multiplication _ _ _ _ ihleft ihright => exact determines_multiplication ihleft ihright
  | juxtaposition _ _ _ ihleft ihright => exact determines_juxtaposition ihleft ihright
  | powerOfSigned _ ih => exact determines_powerOfSigned ih
  | exponentiation _ _ _ _ ihleft ihright => exact determines_exponentiation ihleft ihright
  | negation _ _ _ ih => exact determines_negation ih
  | signedOfPrimary _ ih => exact determines_signedOfPrimary ih
  | number _ _ => exact determines_number
  | constant _ _ => exact determines_constant
  | parentheses _ _ _ _ _ ih => exact determines_parentheses ih
  | application _ _ _ _ _ _ _ ih => exact determines_application ih

/-- Two phrases of the same tokens are the same. -/
theorem phrase_eq_of_tokens_eq {p q : Phrase .sum} (h : p.tokens = q.tokens) : p = q := by
  have hnil : p.tokens ++ [] = q.tokens ++ [] := by rw [List.append_nil, List.append_nil, h]
  exact ((determines_of_derivation p.derivation).eq hnil (stops_nil _) (stops_nil _)).1

end Grammar

end Reckoner
