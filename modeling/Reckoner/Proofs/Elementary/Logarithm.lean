import Mathlib
import Reckoner.Elementary.Logarithm
import Reckoner.Proofs.Number.Decimal
import Reckoner.Proofs.Number.Rounding

/-!
# How Large a Logarithm Is

An enclosure is computed to be narrow, and what it encloses is not needed to see
that a logarithm has the right sign and a moderate size. It is enough to follow
both ends of it through the computation (`Enclosure.Between`). The series near
one is a little more than its first term, the logarithm of two is about 2/3, and
the power of two that is split off outweighs the rest.

So the ends of a logarithm's enclosure are positive above one and negative below
it, and their distance from zero is about that of the argument from one, or the
number of powers of two that are split off. A refinement is only another
enclosure with the same bounds.

## Main definitions

* `Enclosure.Between`: Both ends lie between two bounds.

## Theorems

* `between_add`, `between_scale`, `between_mul`, `between_outward`: Bounds on what
  is computed from enclosures.
* `nearOneEnclosure_between`: The series is about its first term.
* `naturalEnclosure_eq`: The power of two that is split off.
* `naturalEnclosure_between`: Sign and size of both ends.
* `exists_round_eq`: A rounded value is that of the lower end of an enclosure.
-/

namespace Reckoner

namespace Enclosure

/-- Both ends lie between two bounds. Nothing is said about which end is the
    smaller one. -/
structure Between (low high : Rat) (x : Enclosure) : Prop where
  le_low : low ≤ x.low
  low_le : x.low ≤ high
  le_high : low ≤ x.high
  high_le : x.high ≤ high

variable {a b c d : Rat} {x y : Enclosure}

theorem Between.mono (h : Between a b x) (hca : c ≤ a) (hbd : b ≤ d) : Between c d x :=
  ⟨hca.trans h.le_low, h.low_le.trans hbd, hca.trans h.le_high, h.high_le.trans hbd⟩

theorem between_exact (q : Rat) : Between q q (exact q) :=
  ⟨le_refl _, le_refl _, le_refl _, le_refl _⟩

theorem between_add (hx : Between a b x) (hy : Between c d y) : Between (a + c) (b + d) (add x y) :=
  ⟨add_le_add hx.le_low hy.le_low, add_le_add hx.low_le hy.low_le,
    add_le_add hx.le_high hy.le_high, add_le_add hx.high_le hy.high_le⟩

theorem between_scale {q : Rat} (hq : 0 ≤ q) (hx : Between a b x) :
    Between (q * a) (q * b) (scale q x) := by
  simp only [scale, if_pos hq]
  exact ⟨mul_le_mul_of_nonneg_left hx.le_low hq, mul_le_mul_of_nonneg_left hx.low_le hq,
    mul_le_mul_of_nonneg_left hx.le_high hq, mul_le_mul_of_nonneg_left hx.high_le hq⟩

/-- A negative factor turns the bounds around. -/
theorem between_scale_of_neg {q : Rat} (hq : q < 0) (hx : Between a b x) :
    Between (q * b) (q * a) (scale q x) := by
  simp only [scale, if_neg (not_le.2 hq)]
  exact ⟨mul_le_mul_of_nonpos_left hx.high_le hq.le, mul_le_mul_of_nonpos_left hx.le_high hq.le,
    mul_le_mul_of_nonpos_left hx.low_le hq.le, mul_le_mul_of_nonpos_left hx.le_low hq.le⟩

theorem between_mul (ha : 0 ≤ a) (hc : 0 ≤ c) (hx : Between a b x) (hy : Between c d y) :
    Between (a * c) (b * d) (mul x y) :=
  ⟨mul_le_mul hx.le_low hy.le_low hc (ha.trans hx.le_low),
    mul_le_mul hx.low_le hy.low_le (hc.trans hy.le_low) (ha.trans (hx.le_low.trans hx.low_le)),
    mul_le_mul hx.le_high hy.le_high hc (ha.trans hx.le_high),
    mul_le_mul hx.high_le hy.high_le (hc.trans hy.le_high) (ha.trans (hx.le_high.trans hx.high_le))⟩

/-- Rounding outwards does not cross an integer bound below, and loses at most
    one unit of the grid above. -/
theorem between_outward {n : Int} (bits : Nat) (hx : Between n b x) :
    Between n (b + 1 / 2 ^ bits) (outward bits x) := by
  have hpow : (0 : Rat) < 2 ^ bits := by positivity
  have hunit : (0 : Rat) < 1 / 2 ^ bits := by positivity
  have hbelow : gridBelow bits x.low ≤ x.low := by
    unfold gridBelow
    rw [div_le_iff₀ hpow]
    exact Int.floor_le _
  have habove : x.high ≤ gridAbove bits x.high := by
    unfold gridAbove
    rw [le_div_iff₀ hpow]
    exact Rat.le_ceil
  have hlow : (n : Rat) ≤ gridBelow bits x.low := by
    unfold gridBelow
    rw [le_div_iff₀ hpow]
    have hfloor : n * 2 ^ bits ≤ ⌊x.low * 2 ^ bits⌋ := by
      rw [Int.le_floor]
      push_cast
      exact mul_le_mul_of_nonneg_right hx.le_low hpow.le
    exact_mod_cast hfloor
  have hhigh : gridAbove bits x.high ≤ x.high + 1 / 2 ^ bits := by
    unfold gridAbove
    rw [div_le_iff₀ hpow, add_mul, one_div, inv_mul_cancel₀ hpow.ne']
    exact Rat.ceil_lt.le
  refine ⟨hlow, ?_, hx.le_high.trans habove, ?_⟩
  · exact hbelow.trans (hx.low_le.trans (by linarith))
  · exact hhigh.trans (by linarith [hx.high_le])

/-- A rounded value is that of the lower end of some enclosure, of the precision
    that was asked for or a higher one. -/
theorem exists_settle_eq (bits : Nat) (enclose : Nat → Enclosure) (n precision : Nat) :
    ∃ p, precision ≤ p ∧
      settle bits enclose n precision = Rounding.toBits bits (enclose p).low := by
  induction n generalizing precision with
  | zero => exact ⟨precision, le_refl _, rfl⟩
  | succ n ih =>
      simp only [settle]
      split
      · exact ⟨precision, le_refl _, rfl⟩
      · rcases ih (2 * precision) with ⟨p, hp, heq⟩
        exact ⟨p, by omega, heq⟩

theorem exists_round_eq (bits : Nat) (enclose : Nat → Enclosure) :
    ∃ p, 7 ≤ p ∧ round bits enclose = Rounding.toBits bits (enclose p).low := by
  rcases exists_settle_eq bits enclose 8 128 with ⟨p, hp, heq⟩
  exact ⟨p, by omega, heq⟩

end Enclosure

namespace Elementary

open Enclosure

variable {p : Nat} {q y : Rat}

theorem grid_le (hp : 7 ≤ p) : (1 : Rat) / 2 ^ p ≤ 1 / 128 := by
  have hpow : (2 : Rat) ^ 7 ≤ 2 ^ p := pow_le_pow_right₀ (by norm_num) hp
  exact one_div_le_one_div_of_le (by norm_num) (by norm_num at hpow ⊢; exact hpow)

/-- The series of the logarithm, without its tail, from a term on. -/
def logSeries (p : Nat) (t : Enclosure) (n k : Nat) : Enclosure :=
  nested p (fun k => 1 / (2 * k + 1)) (fun _ => 1) t ⟨0, 2⟩ n k

/-- Each term adds little to the ones after it, which are at most two together. -/
theorem logSeries_step (hp : 7 ≤ p) {t : Enclosure} (ht : Between 0 (1 / 20) t) {n k : Nat}
    (h : Between 0 2 (logSeries p t n (k + 1))) {m : Int} (hm : (m : Rat) ≤ 1 / (2 * k + 1)) :
    Between m (1 / (2 * k + 1) + 1 / 9) (logSeries p t (n + 1) k) := by
  have hgrid := grid_le hp
  have hrest := between_scale zero_le_one (between_mul le_rfl le_rfl ht h)
  have hsum := between_add (between_exact (1 / (2 * (k : Rat) + 1))) hrest
  exact (between_outward p (hsum.mono (c := m) (by linarith) le_rfl)).mono le_rfl (by linarith)

/-- What stands inside the parentheses of the series is at most two, by induction
    from the innermost term outwards. -/
theorem logSeries_between (hp : 7 ≤ p) {t : Enclosure} (ht : Between 0 (1 / 20) t) (n k : Nat) :
    Between 0 2 (logSeries p t n k) := by
  induction n generalizing k with
  | zero => exact ⟨le_rfl, by simp [logSeries, nested], by simp [logSeries, nested], le_rfl⟩
  | succ n ih =>
      have hterm : (1 : Rat) / (2 * k + 1) ≤ 1 := by
        rw [div_le_one (by positivity)]
        linarith [(Nat.cast_nonneg k : (0 : Rat) ≤ k)]
      have hstep := logSeries_step hp ht (ih (k + 1)) (m := 0) (by push_cast; positivity)
      exact hstep.mono (by simp) (by linarith)

/-- Near one the argument of the series is a fifth at most. -/
theorem argument_bounds (hlow : 2 / 3 ≤ y) (hhigh : y ≤ 4 / 3) :
    -(1 / 5) ≤ (y - 1) / (y + 1) ∧ (y - 1) / (y + 1) ≤ 1 / 7 := by
  rw [le_div_iff₀ (by linarith), div_le_iff₀ (by linarith)]
  constructor <;> linarith

/-- Near one the logarithm is a little more than the first term of its series. -/
theorem nearOneEnclosure_between (hp : 7 ≤ p) (hlow : 2 / 3 ≤ y) (hhigh : y ≤ 4 / 3) :
    (1 ≤ y → Between (2 * ((y - 1) / (y + 1))) (20 / 9 * ((y - 1) / (y + 1)))
      (nearOneEnclosure p y)) ∧
    (y < 1 → Between (20 / 9 * ((y - 1) / (y + 1))) (2 * ((y - 1) / (y + 1)))
      (nearOneEnclosure p y)) := by
  rcases argument_bounds hlow hhigh with ⟨hzlow, hzhigh⟩
  have hgrid := grid_le hp
  simp only [nearOneEnclosure]
  generalize hz : (y - 1) / (y + 1) = z at *
  have hsquare : Between ((0 : Int) : Rat) (1 / 25) (exact (z * z)) := by
    refine (between_exact _).mono ?_ ?_
    · push_cast
      exact mul_self_nonneg z
    · nlinarith
  have ht : Between 0 (1 / 20) (outward p (exact (z * z))) :=
    (between_outward p hsquare).mono (by simp) (by linarith)
  -- The first term is the integer one, and rounding outwards keeps above it.
  have hseries : Between 1 (10 / 9) (logSeries p (outward p (exact (z * z))) (p / 4 + 8) 0) := by
    have hstep := logSeries_step hp ht (logSeries_between hp ht (p / 4 + 7) 1) (m := 1) (by simp)
    refine hstep.mono (by simp) ?_
    norm_num
  simp only [logSeries] at hseries
  constructor
  · intro hy
    have hz0 : 0 ≤ z := by
      rw [← hz]
      exact div_nonneg (by linarith) (by linarith)
    exact (between_scale (q := 2 * z) (by linarith) hseries).mono (by linarith) (by linarith)
  · intro hy
    have hz0 : z < 0 := by
      rw [← hz]
      exact div_neg_of_neg_of_pos (by linarith) (by linarith)
    exact (between_scale_of_neg (q := 2 * z) (by linarith) hseries).mono (by linarith) (by linarith)

/-- Near one the logarithm is less than a half. -/
theorem nearOneEnclosure_small (hp : 7 ≤ p) (hlow : 2 / 3 ≤ y) (hhigh : y ≤ 4 / 3) :
    Between (-(4 / 9)) (20 / 63) (nearOneEnclosure p y) := by
  rcases argument_bounds hlow hhigh with ⟨hzlow, hzhigh⟩
  rcases nearOneEnclosure_between hp hlow hhigh with ⟨hpos, hneg⟩
  by_cases hy : 1 ≤ y
  · have hz0 : 0 ≤ (y - 1) / (y + 1) := div_nonneg (by linarith) (by linarith)
    exact (hpos hy).mono (by linarith) (by linarith)
  · have hz0 : (y - 1) / (y + 1) < 0 := div_neg_of_neg_of_pos (by linarith) (by linarith)
    exact (hneg (not_le.1 hy)).mono (by linarith) (by linarith)

/-- The logarithm of two, as it is computed. -/
def twoEnclosure (p : Nat) : Enclosure :=
  add (nearOneEnclosure p (4 / 3)) (scale (-1) (nearOneEnclosure p (2 / 3)))

theorem twoEnclosure_between (hp : 7 ≤ p) : Between (24 / 35) (16 / 21) (twoEnclosure p) := by
  have hupper := (nearOneEnclosure_between (y := 4 / 3) hp (by norm_num) le_rfl).1 (by norm_num)
  have hlower := (nearOneEnclosure_between (y := 2 / 3) hp le_rfl (by norm_num)).2 (by norm_num)
  have hsum := between_add hupper (between_scale_of_neg (q := -1) (by norm_num) hlower)
  refine hsum.mono ?_ ?_ <;> norm_num

/-- A power of two is split off, and what remains is near one. -/
theorem naturalEnclosure_eq (p : Nat) (hq : 0 < q) :
    ∃ (order : Int) (y : Rat), 2 / 3 ≤ y ∧ y ≤ 4 / 3 ∧ q = y * (2 : Rat) ^ order ∧
      |order| ≤ |Rounding.binaryOrder q| + 1 ∧
      naturalEnclosure p q =
        if order = 0 then nearOneEnclosure p y
        else add (scale order (twoEnclosure p)) (nearOneEnclosure p y) := by
  have hpow : (0 : Rat) < (2 : Rat) ^ Rounding.binaryOrder q := by positivity
  have hone : 1 ≤ q / (2 : Rat) ^ Rounding.binaryOrder q := by
    rw [one_le_div hpow]
    exact Rounding.binaryOrder_le hq
  have htwo : q / (2 : Rat) ^ Rounding.binaryOrder q < 2 := by
    rw [div_lt_iff₀ hpow, ← zpow_one_add₀ two_ne_zero, add_comm]
    exact Rounding.lt_binaryOrder hq
  have hsplit : q = q / (2 : Rat) ^ Rounding.binaryOrder q * (2 : Rat) ^ Rounding.binaryOrder q :=
    (div_mul_cancel₀ q hpow.ne').symm
  simp only [naturalEnclosure]
  -- The factor that remains is less than two, and more than a third above one it is halved.
  by_cases hlarge : 4 / 3 < q / (2 : Rat) ^ Rounding.binaryOrder q
  · refine ⟨Rounding.binaryOrder q + 1, q / (2 : Rat) ^ Rounding.binaryOrder q / 2, by linarith,
      by linarith, ?_, abs_add_le _ 1, ?_⟩
    · rw [zpow_add_one₀ two_ne_zero]
      linarith
    · simp only [if_pos hlarge]
      rfl
  · refine ⟨Rounding.binaryOrder q, q / (2 : Rat) ^ Rounding.binaryOrder q, by linarith,
      not_lt.1 hlarge, hsplit, by linarith, ?_⟩
    simp only [if_neg hlarge]
    rfl

/-- With a power of two split off, the logarithm is about that many times the
    logarithm of two. -/
theorem naturalEnclosure_between (hp : 7 ≤ p) {order : Int} (hlow : 2 / 3 ≤ y) (hhigh : y ≤ 4 / 3) :
    (0 < order → Between (24 / 35 * order - 4 / 9) (16 / 21 * order + 20 / 63)
      (add (scale order (twoEnclosure p)) (nearOneEnclosure p y))) ∧
    (order < 0 → Between (16 / 21 * order - 4 / 9) (24 / 35 * order + 20 / 63)
      (add (scale order (twoEnclosure p)) (nearOneEnclosure p y))) := by
  have htwo := twoEnclosure_between hp
  have hrest := nearOneEnclosure_small hp hlow hhigh
  constructor
  · intro horder
    have hcast : (0 : Rat) < order := by exact_mod_cast horder
    exact (between_add (between_scale hcast.le htwo) hrest).mono (by linarith) (by linarith)
  · intro horder
    have hcast : (order : Rat) < 0 := by exact_mod_cast horder
    exact (between_add (between_scale_of_neg hcast htwo) hrest).mono (by linarith) (by linarith)

/-- The natural logarithm of ten is between one and three. -/
theorem naturalEnclosure_ten (hp : 7 ≤ p) : Between 1 3 (naturalEnclosure p 10) := by
  rcases naturalEnclosure_eq p (q := 10) (by norm_num) with
    ⟨order, y, hylow, hyhigh, hsplit, -, heq⟩
  -- The factor that remains is near one, so the power is more than four and less than sixteen.
  have horder : order = 3 := by
    have hlt : (2 : Rat) ^ order < (2 : Rat) ^ (4 : Int) := by norm_num; nlinarith
    have hgt : (2 : Rat) ^ (2 : Int) < (2 : Rat) ^ order := by norm_num; nlinarith
    have := (zpow_lt_zpow_iff_right₀ (by norm_num : (1 : Rat) < 2)).1 hlt
    have := (zpow_lt_zpow_iff_right₀ (by norm_num : (1 : Rat) < 2)).1 hgt
    omega
  subst horder
  rw [heq, if_neg (by norm_num)]
  refine ((naturalEnclosure_between hp hylow hyhigh).1 (by norm_num)).mono ?_ ?_ <;> norm_num

end Elementary

end Reckoner
