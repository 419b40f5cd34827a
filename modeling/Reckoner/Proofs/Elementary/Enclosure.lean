import Mathlib
import Reckoner.Proofs.Elementary.Logarithm
import Reckoner.Proofs.Number.Mantissa

/-!
# What an Enclosure Encloses

An enclosure is two rationals, and the value between them is a real number. Each operation on
enclosures encloses the result of the operation on the values, and rounding outwards leaves the
value where it is. So a series in nested form encloses its sum, if what stands inside each pair
of parentheses is known (`contains_nested`).

For an alternating series with falling terms that is the remainder after some terms, in units
that fall as the terms do (`contains_alternating`). It is between zero and one, and that is why
the crudest enclosure of the tail is good enough.

Rounding asks for more and more precise enclosures until both ends round alike. Then the value
is rounded like the ends (`isRoundedTo_round`). In any case the lower end is what is rounded, so
the result stays below what the value is known to respect (`round_le`).

## Main definitions

* `Enclosure.Contains`: The value is between the ends.
* `Enclosure.Settles`: The ends round alike before the last resort.
* `remainder`: What is left of an alternating series, with the sign of the next term.

## Theorems

* `Contains.add`, `Contains.scale`, `Contains.mul`, `Contains.div`, `Contains.inverse`: Operations
  on enclosures.
* `contains_nested`, `contains_alternating`: Series in nested form.
* `isRoundedTo_round`, `round_le`: Rounding.
-/

namespace Reckoner

namespace Enclosure

/-- The value is between the ends. -/
structure Contains (x : Enclosure) (r : ℝ) : Prop where
  low_le : (x.low : ℝ) ≤ r
  le_high : r ≤ (x.high : ℝ)

section Operations

variable {x y : Enclosure} {r s : ℝ} {q : Rat}

theorem contains_exact (q : Rat) : (exact q).Contains q := ⟨le_rfl, le_rfl⟩

theorem gridBelow_le (bits : Nat) (q : Rat) : gridBelow bits q ≤ q := by
  rw [gridBelow, div_le_iff₀ (by positivity)]
  exact Int.floor_le _

theorem le_gridAbove (bits : Nat) (q : Rat) : q ≤ gridAbove bits q := by
  rw [gridAbove, le_div_iff₀ (by positivity)]
  exact Rat.le_ceil

theorem gridBelow_nonneg (bits : Nat) (h : 0 ≤ q) : 0 ≤ gridBelow bits q := by
  have hfloor : (0 : Int) ≤ ⌊q * (2 : Rat) ^ bits⌋ := Int.floor_nonneg.2 (by positivity)
  exact div_nonneg (by exact_mod_cast hfloor) (by positivity)

theorem Contains.outward (h : x.Contains r) (bits : Nat) : (x.outward bits).Contains r :=
  ⟨le_trans (by exact_mod_cast gridBelow_le bits x.low) h.low_le,
    h.le_high.trans (by exact_mod_cast le_gridAbove bits x.high)⟩

theorem Contains.add (hx : x.Contains r) (hy : y.Contains s) : (x.add y).Contains (r + s) := by
  constructor
  · simp only [Enclosure.add]
    push_cast
    exact add_le_add hx.low_le hy.low_le
  · simp only [Enclosure.add]
    push_cast
    exact add_le_add hx.le_high hy.le_high

theorem Contains.scale (hx : x.Contains r) (q : Rat) : (x.scale q).Contains (q * r) := by
  simp only [Enclosure.scale]
  split
  · rename_i hq
    have hreal : (0 : ℝ) ≤ q := by exact_mod_cast hq
    constructor <;> push_cast
    · exact mul_le_mul_of_nonneg_left hx.low_le hreal
    · exact mul_le_mul_of_nonneg_left hx.le_high hreal
  · rename_i hq
    have hreal : (q : ℝ) ≤ 0 := by exact_mod_cast (not_le.1 hq).le
    constructor <;> push_cast
    · exact mul_le_mul_of_nonpos_left hx.le_high hreal
    · exact mul_le_mul_of_nonpos_left hx.low_le hreal

/-- Products of values that are not negative. The second enclosure may begin below zero. -/
theorem Contains.mul (hx : x.Contains r) (hy : y.Contains s) (hlow : 0 ≤ x.low) (hs : 0 ≤ s) :
    (x.mul y).Contains (r * s) := by
  have hxlow : (0 : ℝ) ≤ x.low := by exact_mod_cast hlow
  have hr : 0 ≤ r := hxlow.trans hx.low_le
  constructor <;> simp only [Enclosure.mul] <;> push_cast
  · rcases le_total (0 : ℝ) y.low with hpos | hneg
    · exact mul_le_mul hx.low_le hy.low_le hpos hr
    · exact (mul_nonpos_of_nonneg_of_nonpos hxlow hneg).trans (mul_nonneg hr hs)
  · exact mul_le_mul hx.le_high hy.le_high hs (hr.trans hx.le_high)

/-- Quotients by a positive value. -/
theorem Contains.div (hx : x.Contains r) (hy : y.Contains s) (hlow : 0 < y.low) :
    (x.div y).Contains (r / s) := by
  have hylow : (0 : ℝ) < y.low := by exact_mod_cast hlow
  have hs : 0 < s := hylow.trans_le hy.low_le
  constructor <;> simp only [Enclosure.div]
  · refine le_trans ?_ (div_le_div_of_nonneg_right hx.low_le hs.le)
    split
    · rename_i hpos
      push_cast
      exact div_le_div_of_nonneg_left (by exact_mod_cast hpos) hs hy.le_high
    · rename_i hneg
      have hreal : (x.low : ℝ) ≤ 0 := by exact_mod_cast (not_le.1 hneg).le
      push_cast
      rw [div_le_div_iff₀ hylow hs]
      exact mul_le_mul_of_nonpos_left hy.low_le hreal
  · refine (div_le_div_of_nonneg_right hx.le_high hs.le).trans ?_
    split
    · rename_i hpos
      push_cast
      exact div_le_div_of_nonneg_left (by exact_mod_cast hpos) hylow hy.low_le
    · rename_i hneg
      have hreal : (x.high : ℝ) ≤ 0 := by exact_mod_cast (not_le.1 hneg).le
      push_cast
      rw [div_le_div_iff₀ hs (hs.trans_le hy.le_high)]
      exact mul_le_mul_of_nonpos_left hy.le_high hreal

theorem Contains.inverse (hx : x.Contains r) (hlow : 0 < x.low) : x.inverse.Contains r⁻¹ := by
  have hxlow : (0 : ℝ) < x.low := by exact_mod_cast hlow
  have hr : 0 < r := hxlow.trans_le hx.low_le
  constructor <;> simp only [Enclosure.inverse, one_div] <;> push_cast
  · exact inv_anti₀ hr hx.le_high
  · exact inv_anti₀ hxlow hx.low_le

theorem Contains.atMost (hx : x.Contains r) {bound : Rat} (hr : r ≤ bound) :
    (x.atMost bound).Contains r := by
  refine ⟨hx.low_le, ?_⟩
  simp only [Enclosure.atMost]
  split
  · exact hx.le_high
  · exact hr

/-- A series in nested form encloses its sum, by induction from the innermost term outwards,
    if the values inside the parentheses are known and enclosed by the tail. -/
theorem contains_nested (bits : Nat) {first ratio : Nat → Rat} {t tail : Enclosure} {τ : ℝ}
    {value : Nat → ℝ} (ht : t.Contains τ) (hlow : 0 ≤ t.low)
    (hvalue : ∀ k, value k = first k + ratio k * (τ * value (k + 1)))
    (hnonneg : ∀ k, 0 ≤ value k) (htail : ∀ k, tail.Contains (value k)) (n k : Nat) :
    (nested bits first ratio t tail n k).Contains (value k) := by
  induction n generalizing k with
  | zero => exact htail k
  | succ n ih =>
      rw [hvalue k]
      have hproduct := ht.mul (ih (k + 1)) hlow (hnonneg (k + 1))
      exact ((contains_exact (first k)).add (hproduct.scale (ratio k))).outward bits

end Operations

section Rounding

variable {bits : Nat} {enclose : Nat → Enclosure} {r : ℝ}

/-- Both ends round alike at one of the precisions that are tried. -/
def Settles (bits : Nat) (enclose : Nat → Enclosure) : Prop :=
  ∃ k < 8, Rounding.toBits bits (enclose (2 ^ k * 128)).low =
    Rounding.toBits bits (enclose (2 ^ k * 128)).high

/-- The value is rounded like both ends. -/
theorem Contains.isRoundedTo (hbits : 2 ≤ bits) {x : Enclosure} (h : x.Contains r)
    (hends : Rounding.toBits bits x.low = Rounding.toBits bits x.high) :
    Rounding.IsRoundedTo bits r (Rounding.toBits bits x.low) := by
  have hhigh := Rounding.isRoundedTo_toBits hbits x.high
  rw [← hends] at hhigh
  exact (Rounding.isRoundedTo_toBits hbits x.low).between hhigh h.low_le h.le_high

theorem settle_isRoundedTo (hbits : 2 ≤ bits) (n precision : Nat)
    (h : ∀ p, precision ≤ p → (enclose p).Contains r)
    (hends : ∃ k < n, Rounding.toBits bits (enclose (2 ^ k * precision)).low =
      Rounding.toBits bits (enclose (2 ^ k * precision)).high) :
    Rounding.IsRoundedTo bits r (settle bits enclose n precision) := by
  induction n generalizing precision with
  | zero =>
      rcases hends with ⟨k, hk, -⟩
      cases hk
  | succ n ih =>
      simp only [settle]
      split
      · rename_i hsettled
        exact (h precision le_rfl).isRoundedTo hbits hsettled
      · rename_i hnot
        refine ih (2 * precision) (fun p hp => h p (by omega)) ?_
        rcases hends with ⟨k, hk, heq⟩
        cases k with
        | zero => exact absurd (by simpa using heq) hnot
        | succ k =>
            refine ⟨k, by omega, ?_⟩
            rwa [show 2 ^ k * (2 * precision) = 2 ^ (k + 1) * precision by ring]

/-- If the enclosures settle, the rounded value is the value, rounded. -/
theorem isRoundedTo_round (hbits : 2 ≤ bits) (h : ∀ p, 7 ≤ p → (enclose p).Contains r)
    (hsettles : Settles bits enclose) : Rounding.IsRoundedTo bits r (round bits enclose) :=
  settle_isRoundedTo hbits 8 128 (fun p hp => h p (by omega)) hsettles

/-- Whether they settle or not, what is rounded is not above the value. -/
theorem round_le (hbits : 2 ≤ bits) (h : ∀ p, 7 ≤ p → (enclose p).Contains r) {bound : Rat}
    (hbound : Rounding.Significant bits bound) (hr : r ≤ bound) : round bits enclose ≤ bound := by
  rcases exists_round_eq bits enclose with ⟨p, hp, heq⟩
  rw [heq]
  exact (Rounding.isRoundedTo_toBits hbits _).mono (by omega) (Rounding.isRoundedTo_self hbound)
    ((h p hp).low_le.trans hr)

end Rounding

end Enclosure

namespace Elementary

section Series

variable {f w : Nat → ℝ} {l : ℝ}

/-- What is left of an alternating series after some terms, with the sign of the next one. -/
def remainder (f : Nat → ℝ) (l : ℝ) (k : Nat) : ℝ :=
  (-1) ^ k * (l - ∑ i ∈ Finset.range k, (-1) ^ i * f i)

theorem remainder_zero (f : Nat → ℝ) (l : ℝ) : remainder f l 0 = l := by simp [remainder]

/-- The next term and what is left after it have opposite signs. -/
theorem remainder_succ (f : Nat → ℝ) (l : ℝ) (k : Nat) :
    remainder f l k = f k - remainder f l (k + 1) := by
  have hsquare : ((-1 : ℝ) ^ k) * (-1) ^ k = 1 := by rw [← mul_pow]; norm_num
  simp only [remainder, Finset.sum_range_succ, pow_succ]
  linear_combination f k * hsquare

/-- If the terms fall, what is left is between zero and the next term. -/
theorem remainder_bounds (hsum : HasSum (fun k => (-1) ^ k * f k) l) (hanti : Antitone f)
    (k : Nat) : 0 ≤ remainder f l k ∧ remainder f l k ≤ f k := by
  have hlimit := hsum.tendsto_sum_nat
  -- Sums of an even number of terms are below the limit, and of an odd number above it.
  have hnonneg : ∀ k, 0 ≤ remainder f l k := by
    intro k
    rcases Nat.even_or_odd' k with ⟨j, rfl | rfl⟩
    · have hbelow := hanti.alternating_series_le_tendsto hlimit j
      rw [remainder, pow_mul, neg_one_sq, one_pow, one_mul]
      exact sub_nonneg.2 hbelow
    · have habove := hanti.tendsto_le_alternating_series hlimit j
      rw [remainder, pow_succ, pow_mul, neg_one_sq, one_pow, one_mul, neg_one_mul, neg_sub]
      exact sub_nonneg.2 habove
  have hnext := hnonneg (k + 1)
  exact ⟨hnonneg k, by rw [remainder_succ]; linarith⟩

/-- An alternating series with falling terms in nested form. What stands inside the parentheses
    is what is left of the series, in units that fall as its terms do. -/
theorem contains_alternating (bits : Nat) (first ratio : Nat → Rat) {t : Enclosure} {τ : ℝ}
    (hsum : HasSum (fun k => (-1) ^ k * f k) l) (hanti : Antitone f) (hw : ∀ k, 0 < w k)
    (ht : t.Contains τ) (hlow : 0 ≤ t.low) (hfirst : ∀ k, f k = first k * w k)
    (hratio : ∀ k, w (k + 1) = -ratio k * τ * w k) (hone : ∀ k, first k ≤ 1) (n : Nat) :
    (Enclosure.nested bits first ratio t ⟨0, 1⟩ n 0).Contains (l / w 0) := by
  have hbounds : ∀ k, 0 ≤ remainder f l k / w k ∧ remainder f l k / w k ≤ first k := by
    intro k
    rcases remainder_bounds hsum hanti k with ⟨hnonneg, hle⟩
    rw [hfirst] at hle
    exact ⟨div_nonneg hnonneg (hw k).le, (div_le_iff₀ (hw k)).2 hle⟩
  have hvalue : ∀ k, remainder f l k / w k =
      first k + ratio k * (τ * (remainder f l (k + 1) / w (k + 1))) := by
    intro k
    have hk := (hw k).ne'
    have hnext := (hw (k + 1)).ne'
    have hunit : (ratio k : ℝ) * τ = -(w (k + 1) / w k) := by
      rw [hratio, mul_div_cancel_right₀ _ hk]
      ring
    rw [← mul_assoc, hunit, remainder_succ, hfirst]
    field_simp
    ring
  have htail : ∀ k, Enclosure.Contains ⟨0, 1⟩ (remainder f l k / w k) := fun k =>
    ⟨by simpa using (hbounds k).1, (hbounds k).2.trans (by exact_mod_cast hone k)⟩
  have hseries := Enclosure.contains_nested bits ht hlow hvalue (fun k => (hbounds k).1) htail n 0
  simpa only [remainder_zero] using hseries

end Series

end Elementary

end Reckoner
