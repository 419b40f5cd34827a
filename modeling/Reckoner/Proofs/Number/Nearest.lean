import Mathlib
import Reckoner.Number.Arithmetic
import Reckoner.Proofs.Number.Value

/-!
# The Nearest Double

What rounding once comes to, said without the way in which it is computed. A rational
becomes the double that no other is nearer to, and of two equally near ones that with
an even significand, or an infinity if it is half a unit or more past the largest number
(`IsRounded`). Only the sign of a zero is not settled by that.

Rounding computes in units of the last place of the rational. The doubles with at least
that exponent are multiples of the unit, so the nearest multiple is as near as any of
them. Those with a smaller exponent lie below all significands of 53 bits, and the least
of these is nearer (`exists_multiple`).

Between two doubles with even significands there is always a third one. That is why no
rational has two roundings, and why rounding keeps the order.

## Main definitions

* `Rounding.Nearest`, `Rounding.NearestMultiple`: The nearest integer, or the nearest
  multiple of a unit, and of two the even one.
* `Double.overflowBound`: The least rational that is rounded to infinity.
* `Double.IsRounded`: A rational and the double that it is rounded to.

## Theorems

* `nearest_halfEven`, `nearestMultiple_halfEven`: Rounding to an integer comes to the
  nearest one, and in units to the nearest multiple.
* `isRounded_ofMagnitude`, `isRounded_ofRat`: So does rounding to a double.
* `IsRounded.unique`: There is only one, up to the sign of a zero.
* `IsRounded.mono`: A larger rational is rounded to a double that is not smaller.
* `isRounded_add`, `isRounded_sub`, `isRounded_mul`, `isRounded_div`: Arithmetic rounds
  exact results.
-/

namespace Reckoner

namespace Rounding

/-- The integer is the nearest one, and if another is as near as it, it is even. -/
structure Nearest (n : Int) (q : Rat) : Prop where
  le : ∀ k : Int, |(n : Rat) - q| ≤ |(k : Rat) - q|
  even : ∀ k : Int, k ≠ n → |(k : Rat) - q| = |(n : Rat) - q| → n % 2 = 0

theorem abs_halfEven_sub_le (q : Rat) : |(halfEven q : Rat) - q| ≤ 1 / 2 := by
  have hfloor : q.floor = ⌊q⌋ := rfl
  have hlow := Int.floor_le q
  have hhigh := Int.lt_floor_add_one q
  rw [abs_le]
  simp only [halfEven, hfloor]
  split_ifs <;> push_cast <;> constructor <;> linarith

/-- Half a unit away there are two candidates, and the even one is taken. -/
theorem halfEven_even {q : Rat} (h : |(halfEven q : Rat) - q| = 1 / 2) : halfEven q % 2 = 0 := by
  have hfloor : q.floor = ⌊q⌋ := rfl
  have hlow := Int.floor_le q
  have hhigh := Int.lt_floor_add_one q
  simp only [halfEven, hfloor] at h ⊢
  split_ifs at h ⊢ with hdown hup heven
  · rw [abs_sub_comm, abs_of_nonneg (by linarith)] at h
    linarith
  · push_cast at h
    rw [abs_of_nonneg (by linarith)] at h
    linarith
  · exact heven
  · omega

/-- Another integer is at least one unit away from the chosen one. -/
theorem one_sub_le_of_ne {q : Rat} {n k : Int} (hne : k ≠ n) :
    1 - |(n : Rat) - q| ≤ |(k : Rat) - q| := by
  have hint : (1 : Int) ≤ |k - n| := by
    have := abs_pos.2 (sub_ne_zero.2 hne)
    omega
  have hunit : (1 : Rat) ≤ |(k : Rat) - n| := by exact_mod_cast hint
  have htriangle := abs_sub_le (k : Rat) q n
  rw [abs_sub_comm q (n : Rat)] at htriangle
  linarith

/-- Rounding comes to the nearest integer, and a tie to the even one. -/
theorem nearest_halfEven (q : Rat) : Nearest (halfEven q) q := by
  have hhalf := abs_halfEven_sub_le q
  constructor
  · intro k
    by_cases hk : k = halfEven q
    · rw [hk]
    · have := one_sub_le_of_ne (q := q) hk
      linarith
  · intro k hk htie
    have := one_sub_le_of_ne (q := q) hk
    exact halfEven_even (by linarith)

/-- The multiple of a unit that is the nearest one, and if another is as near as it, an
    even one. -/
structure NearestMultiple (n : Int) (unit q : Rat) : Prop where
  le : ∀ k : Int, |(n : Rat) * unit - q| ≤ |(k : Rat) * unit - q|
  even : ∀ k : Int, k ≠ n → |(k : Rat) * unit - q| = |(n : Rat) * unit - q| → n % 2 = 0

/-- A distance from a multiple of a unit, counted in that unit. -/
theorem abs_multiple_sub {unit : Rat} (hunit : 0 < unit) (k : Int) (q : Rat) :
    |(k : Rat) * unit - q| = |(k : Rat) - q / unit| * unit := by
  calc |(k : Rat) * unit - q| = |((k : Rat) - q / unit) * unit| := by
        rw [sub_mul, div_mul_cancel₀ _ hunit.ne']
    _ = |(k : Rat) - q / unit| * unit := by rw [abs_mul, abs_of_pos hunit]

/-- Rounding in units comes to the nearest multiple. -/
theorem nearestMultiple_halfEven {unit : Rat} (hunit : 0 < unit) (q : Rat) :
    NearestMultiple (halfEven (q / unit)) unit q := by
  have hnearest := nearest_halfEven (q / unit)
  constructor
  · intro k
    rw [abs_multiple_sub hunit, abs_multiple_sub hunit]
    exact mul_le_mul_of_nonneg_right (hnearest.le k) hunit.le
  · intro k hk htie
    rw [abs_multiple_sub hunit, abs_multiple_sub hunit] at htie
    exact hnearest.even k hk (mul_right_cancel₀ hunit.ne' htie)

/-- An even integer is reached from half a unit below it. -/
theorem le_halfEven_of_even {n : Int} {q : Rat} (hn : n % 2 = 0) (h : (n : Rat) - 1 / 2 ≤ q) :
    n ≤ halfEven q := by
  by_contra hlt
  have hle : (halfEven q : Rat) ≤ n - 1 := by exact_mod_cast (by omega : halfEven q ≤ n - 1)
  have hhalf := abs_halfEven_sub_le q
  rw [abs_of_nonpos (by linarith)] at hhalf
  -- The rational lies halfway between the integer and the one before it, which is odd.
  have heven : halfEven q % 2 = 0 := by
    refine halfEven_even ?_
    rw [abs_of_nonpos (by linarith)]
    linarith
  have hpred : (halfEven q : Rat) = ((n - 1 : Int) : Rat) := by
    push_cast
    linarith
  have := Int.cast_injective hpred
  omega

/-- What is at most a half is rounded to zero. -/
theorem halfEven_eq_zero_iff {q : Rat} (hq : 0 ≤ q) : halfEven q = 0 ↔ q ≤ 1 / 2 := by
  have hhalf := abs_halfEven_sub_le q
  constructor
  · intro hzero
    rw [hzero, Int.cast_zero, zero_sub, abs_neg, abs_of_nonneg hq] at hhalf
    exact hhalf
  · intro hle
    have hnonneg : 0 ≤ halfEven q := le_halfEven (by exact_mod_cast hq)
    have hone : halfEven q ≤ 1 := by
      have := (abs_le.1 hhalf).2
      exact_mod_cast (by linarith : (halfEven q : Rat) ≤ 1)
    by_contra hne
    have heq : halfEven q = 1 := by omega
    -- One is as near only if it is a tie, and then it would have to be even.
    have heven : halfEven q % 2 = 0 := by
      refine halfEven_even (le_antisymm hhalf ?_)
      rw [heq, Int.cast_one, abs_of_nonneg (by linarith)]
      linarith
    omega

end Rounding

namespace Double

/-- Half a unit past the largest number. From there on rounding comes to infinity. -/
def overflowBound : Rat := ((2 : Rat) ^ 53 - 1 / 2) * (2 : Rat) ^ (971 : Int)

/-- The double is the rational rounded once. No double is nearer, and if another is as
    near, this one has an even significand. Past the bound it is an infinity. Which of
    the two zeros it is, if it is one, does not matter here. -/
inductive IsRounded (q : Rat) : Double → Prop
  | finite {s : Bool} {m : Nat} {e : Int} {h : Canonical m e} (hsmall : |q| < overflowBound)
      (hnearest : ∀ (y : Double) (b : Rat), y.toRat? = some b →
        |signed s (magnitude m e) - q| ≤ |b - q|)
      (heven : ∀ (y : Double) (b : Rat), y.toRat? = some b → b ≠ signed s (magnitude m e) →
        |b - q| = |signed s (magnitude m e) - q| → m % 2 = 0) :
      IsRounded q (.finite s m e h)
  | infinite (hlarge : overflowBound ≤ |q|) : IsRounded q (.infinite (decide (q < 0)))

section Units

variable {m n : Nat} {e f : Int} {q : Rat}

/-- A double with a larger exponent is a multiple of the unit. -/
theorem magnitude_of_le (hle : e ≤ f) : ∃ k : Nat, magnitude m f = (k : Rat) * (2 : Rat) ^ e ∧
    (f = e → k = m) := by
  rcases Int.eq_ofNat_of_zero_le (by omega : 0 ≤ f - e) with ⟨d, hd⟩
  have hf : f = (d : Int) + e := by omega
  refine ⟨m * 2 ^ d, ?_, fun heq => ?_⟩
  · rw [magnitude, hf, zpow_add₀ two_ne_zero, zpow_natCast]
    push_cast
    ring
  · have hzero : d = 0 := by omega
    rw [hzero, pow_zero, mul_one]

/-- A double with a smaller exponent is less than any significand of 53 bits in the
    unit. -/
theorem magnitude_lt_of_lt (h : Canonical m f) (hlt : f < e) :
    magnitude m f < (2 : Rat) ^ 52 * (2 : Rat) ^ e := by
  have hsmall : (m : Rat) < (2 : Rat) ^ 53 := by exact_mod_cast h.1
  calc magnitude m f < (2 : Rat) ^ 53 * (2 : Rat) ^ f :=
        mul_lt_mul_of_pos_right hsmall (by positivity)
    _ ≤ (2 : Rat) ^ 53 * (2 : Rat) ^ (e - 1) :=
        mul_le_mul_of_nonneg_left (zpow_le_zpow_right₀ (by norm_num) (by omega)) (by positivity)
    _ = (2 : Rat) ^ 52 * (2 : Rat) ^ e := by
        rw [zpow_sub_one₀ two_ne_zero]
        ring

/-- In the unit of a rational, every double is a multiple or further away than some
    multiple is. -/
theorem exists_multiple (hnormal : (2 : Rat) ^ 52 * (2 : Rat) ^ e ≤ q ∨ e = -1074)
    (h : Canonical m f) : ∃ k : Int, magnitude m f = (k : Rat) * (2 : Rat) ^ e ∨
      |(k : Rat) * (2 : Rat) ^ e - q| < |magnitude m f - q| := by
  by_cases hle : e ≤ f
  · rcases magnitude_of_le (m := m) hle with ⟨k, hk, -⟩
    exact ⟨k, .inl hk⟩
  · have hfull : (2 : Rat) ^ 52 * (2 : Rat) ^ e ≤ q := by
      refine hnormal.resolve_right ?_
      have := h.2.1
      omega
    have hlt := magnitude_lt_of_lt h (not_le.1 hle)
    refine ⟨2 ^ 52, .inr ?_⟩
    push_cast
    rw [abs_of_nonpos (by linarith), abs_of_nonpos (by linarith)]
    linarith

/-- The nearest multiple of its unit is as near to a rational as any double, and if
    another is as near, the multiple is an even one. -/
theorem nearest_multiple (hnormal : (2 : Rat) ^ 52 * (2 : Rat) ^ e ≤ q ∨ e = -1074)
    (h : Canonical m f) :
    |(Rounding.halfEven (q / (2 : Rat) ^ e) : Rat) * (2 : Rat) ^ e - q| ≤ |magnitude m f - q| ∧
      (magnitude m f ≠ (Rounding.halfEven (q / (2 : Rat) ^ e) : Rat) * (2 : Rat) ^ e →
        |magnitude m f - q| =
          |(Rounding.halfEven (q / (2 : Rat) ^ e) : Rat) * (2 : Rat) ^ e - q| →
        Rounding.halfEven (q / (2 : Rat) ^ e) % 2 = 0) := by
  have hunit : (0 : Rat) < (2 : Rat) ^ e := by positivity
  have hnearest := Rounding.nearestMultiple_halfEven hunit q
  generalize Rounding.halfEven (q / (2 : Rat) ^ e) = n at *
  rcases exists_multiple hnormal h with ⟨k, hk | hk⟩
  · rw [hk]
    refine ⟨hnearest.le k, fun hne htie => hnearest.even k ?_ htie⟩
    rintro rfl
    exact hne rfl
  · have hlt := (hnearest.le k).trans_lt hk
    exact ⟨hlt.le, fun _ htie => absurd htie hlt.ne'⟩

end Units

section Rounding

variable {s : Bool} {m : Nat} {e : Int} {h : Canonical m e} {q : Rat}

theorem isRounded_of_multiple (hq : 0 ≤ q) (hsmall : q < overflowBound)
    (hnearest : ∀ (n : Nat) (f : Int), Canonical n f →
      |magnitude m e - q| ≤ |magnitude n f - q| ∧
        (magnitude n f ≠ magnitude m e → |magnitude n f - q| = |magnitude m e - q| → m % 2 = 0)) :
    IsRounded (signed s q) (finite s m e h) := by
  have hzero := (hnearest 0 (-1074) (by decide)).1
  rw [show magnitude 0 (-1074) = 0 by simp [magnitude], zero_sub, abs_neg,
    abs_of_nonneg hq] at hzero
  refine .finite (by rwa [abs_signed, abs_of_nonneg hq]) ?_ ?_
  · intro y b hb
    rcases toRat?_eq_some hb with ⟨t, n, f, hc, -, rfl⟩
    rw [abs_signed_sub]
    by_cases hsign : t = s
    · rw [hsign, abs_signed_sub]
      exact (hnearest n f hc).1
    · -- On the other side of zero, no number is nearer than zero is.
      rw [abs_signed_sub_of_ne hsign (magnitude_nonneg n f) hq]
      linarith [magnitude_nonneg n f]
  · intro y b hb hne htie
    rcases toRat?_eq_some hb with ⟨t, n, f, hc, -, rfl⟩
    rw [abs_signed_sub] at htie
    -- A tie with a number on the other side of zero is one with zero itself.
    by_cases hsign : t = s
    · rw [hsign, abs_signed_sub] at htie
      rw [hsign] at hne
      exact (hnearest n f hc).2 (fun heq => hne (by rw [heq])) htie
    · rw [abs_signed_sub_of_ne hsign (magnitude_nonneg n f) hq] at htie
      have hvanishes : magnitude n f = 0 := by linarith [magnitude_nonneg n f]
      rw [hvanishes, signed_zero] at hne
      rw [hvanishes, zero_add] at htie
      refine (hnearest n f hc).2 (fun heq => hne ?_) ?_
      · rw [← heq, hvanishes, signed_zero]
      · rw [hvanishes, zero_sub, abs_neg, abs_of_nonneg hq]
        exact htie

/-- What is at most a power of two in the unit is below the bound, unless the unit is the
    largest one. -/
theorem lt_overflowBound (he : e ≤ 970) (hmax : q ≤ (2 : Rat) ^ 53 * (2 : Rat) ^ e) :
    q < overflowBound := by
  have hpow : (2 : Rat) ^ 53 = 9007199254740992 := by norm_num
  have hunit : (0 : Rat) < (2 : Rat) ^ (970 : Int) := by positivity
  calc q ≤ (2 : Rat) ^ 53 * (2 : Rat) ^ e := hmax
    _ ≤ (2 : Rat) ^ 53 * (2 : Rat) ^ (970 : Int) :=
        mul_le_mul_of_nonneg_left (zpow_le_zpow_right₀ (by norm_num) he) (by positivity)
    _ < overflowBound := by
        rw [overflowBound, show (971 : Int) = 970 + 1 from rfl, zpow_add_one₀ two_ne_zero, hpow]
        generalize (2 : Rat) ^ (970 : Int) = unit at *
        linarith

theorem isRounded_zero (s : Bool) : IsRounded 0 (finite s 0 (-1074) (by decide)) := by
  have hzero : magnitude 0 (-1074) = 0 := by simp [magnitude]
  have hbound : 0 < overflowBound := lt_overflowBound (e := 0) (by decide) (by positivity)
  rw [← signed_zero s]
  refine isRounded_of_multiple le_rfl hbound fun n f _ => ⟨?_, fun _ _ => rfl⟩
  rw [hzero, sub_self, abs_zero]
  exact abs_nonneg _

/-- A rational counted in the unit of its last place: `k` is the nearest number of units.
    There are at most `2 ^ 53` of them, and fewer than `2 ^ 52` only of the smallest. -/
structure Counted (q : Rat) (e : Int) (k : Nat) : Prop where
  nearest : Rounding.halfEven (q / (2 : Rat) ^ e) = k
  least : -1074 ≤ e
  le : q ≤ (2 : Rat) ^ 53 * (2 : Rat) ^ e
  normal : (2 : Rat) ^ 52 * (2 : Rat) ^ e ≤ q ∨ e = -1074
  count_le : k ≤ Nat.pow 2 53
  count_normal : Nat.pow 2 52 ≤ k ∨ e = -1074

theorem counted_of_pos (hq : 0 < q) :
    Counted q (Rounding.quantum 53 (some (-1074)) q)
      (Rounding.halfEven (q / (2 : Rat) ^ Rounding.quantum 53 (some (-1074)) q)).toNat := by
  rcases significand_bounds hq with ⟨hmax, hnormal⟩
  have hleast : -1074 ≤ Rounding.quantum 53 (some (-1074)) q := by
    rw [quantum_of_pos hq]
    omega
  generalize Rounding.quantum 53 (some (-1074)) q = e at *
  have hunit : (0 : Rat) < (2 : Rat) ^ e := by positivity
  have hnonneg : (0 : Int) ≤ Rounding.halfEven (q / (2 : Rat) ^ e) :=
    Rounding.le_halfEven (by push_cast; positivity)
  have hcount := Rounding.halfEven_le hmax
  have hfull : (2 : Int) ^ 52 ≤ Rounding.halfEven (q / (2 : Rat) ^ e) ∨ e = -1074 :=
    hnormal.imp_left Rounding.le_halfEven
  have hpow : Nat.pow 2 53 = 9007199254740992 ∧ Nat.pow 2 52 = 4503599627370496 := ⟨rfl, rfl⟩
  have hpowInt : (2 : Int) ^ 53 = 9007199254740992 ∧ (2 : Int) ^ 52 = 4503599627370496 := by
    norm_num
  rw [div_le_iff₀ hunit] at hmax
  rw [le_div_iff₀ hunit] at hnormal
  refine ⟨(Int.toNat_of_nonneg hnonneg).symm, hleast, by exact_mod_cast hmax, ?_, ?_, ?_⟩
  · exact hnormal.imp_left fun h => by exact_mod_cast h
  · omega
  · omega

/-- The count times the unit is as near as any double. -/
theorem Counted.nearest_count {k n : Nat} {f : Int} (h : Counted q e k) (hc : Canonical n f) :
    |(k : Rat) * (2 : Rat) ^ e - q| ≤ |magnitude n f - q| ∧
      (magnitude n f ≠ (k : Rat) * (2 : Rat) ^ e →
        |magnitude n f - q| = |(k : Rat) * (2 : Rat) ^ e - q| → k % 2 = 0) := by
  have hmultiple := nearest_multiple h.normal hc
  rw [h.nearest, Int.cast_natCast] at hmultiple
  exact ⟨hmultiple.1, fun hne htie => by have := hmultiple.2 hne htie; omega⟩

/-- Half a unit below the power of two the count has reached it. -/
theorem Counted.count_eq {k : Nat} (h : Counted q e k)
    (hlarge : ((2 : Rat) ^ 53 - 1 / 2) * (2 : Rat) ^ e ≤ q) : k = Nat.pow 2 53 := by
  rw [← le_div_iff₀ (by positivity)] at hlarge
  have hcount := Rounding.le_halfEven_of_even (n := 2 ^ 53) (by norm_num) (by exact_mod_cast hlarge)
  have hpow : Nat.pow 2 53 = 9007199254740992 := rfl
  have hle := h.count_le
  rw [h.nearest] at hcount
  norm_num at hcount
  omega

/-- A count that is a significand is the one of the nearest double. -/
theorem Counted.isRounded {k : Nat} (h : Counted q e k) (hq : 0 ≤ q) (hc : Canonical k e) :
    IsRounded (signed s q) (finite s k e hc) := by
  refine isRounded_of_multiple hq ?_ fun n f hn => h.nearest_count hn
  by_cases he : e ≤ 970
  · exact lt_overflowBound he h.le
  · -- The unit is the largest one, and the count would be too large from the bound on.
    have hlast : e = 971 := by
      have := hc.2.2.1
      omega
    subst hlast
    by_contra hlarge
    have hcount := h.count_eq (not_lt.1 hlarge)
    have := hc.1
    omega

/-- A count that is a power of two is halved, and its half is even. -/
theorem Counted.isRounded_half {k : Nat} (h : Counted q e k) (hq : 0 ≤ q)
    (hc : Canonical (k / 2) (e + 1)) : IsRounded (signed s q) (finite s (k / 2) (e + 1) hc) := by
  have hpow : Nat.pow 2 53 = 9007199254740992 ∧ Nat.pow 2 52 = 4503599627370496 := ⟨rfl, rfl⟩
  have hk : k = 9007199254740992 := by
    have := h.count_le
    have := h.least
    unfold Canonical at hc
    omega
  have hvalue : magnitude (k / 2) (e + 1) = (k : Rat) * (2 : Rat) ^ e := by
    rw [hk, magnitude, zpow_add_one₀ two_ne_zero]
    norm_num
    ring
  -- Halving leaves the value as it is, and the new significand is even anyway.
  refine isRounded_of_multiple hq ?_ fun n f hn => ?_
  · refine lt_overflowBound ?_ h.le
    have := hc.2.2.1
    omega
  · rw [hvalue]
    exact ⟨(h.nearest_count hn).1, fun _ _ => by omega⟩

/-- A count with no double for it is past the bound. -/
theorem Counted.overflowBound_le {k : Nat} (h : Counted q e k) (hne : ¬ Canonical k e)
    (hhalf : ¬ Canonical (k / 2) (e + 1)) : overflowBound ≤ q := by
  have hpow : Nat.pow 2 53 = 9007199254740992 ∧ Nat.pow 2 52 = 4503599627370496 := ⟨rfl, rfl⟩
  -- The unit is too large, or it is the largest one and the count a power of two.
  have hlast : 971 < e ∨ e = 971 ∧ k = 9007199254740992 := by
    have := h.count_le
    have := h.count_normal
    have := h.least
    unfold Canonical at hne hhalf
    omega
  rcases hlast with hlast | ⟨rfl, rfl⟩
  · have hfull := h.normal.resolve_right (by omega)
    refine le_trans ?_ hfull
    have hunit : (0 : Rat) < (2 : Rat) ^ (971 : Int) := by positivity
    have hnext : (2 : Rat) ^ (971 : Int) * 2 ≤ (2 : Rat) ^ e := by
      rw [← zpow_add_one₀ two_ne_zero]
      exact zpow_le_zpow_right₀ (by norm_num) (by omega)
    rw [overflowBound]
    generalize (2 : Rat) ^ (971 : Int) = unit at *
    generalize (2 : Rat) ^ e = next at *
    linarith
  · -- The count is at most half a unit away.
    have hfar := (abs_le.1 (Rounding.abs_halfEven_sub_le (q / (2 : Rat) ^ (971 : Int)))).2
    rw [h.nearest] at hfar
    rw [overflowBound, ← le_div_iff₀ (by positivity)]
    generalize q / (2 : Rat) ^ (971 : Int) = units at *
    push_cast at hfar
    linarith

/-- Rounding comes to the nearest double, whatever sign is put on it. -/
theorem isRounded_ofMagnitude (s : Bool) (hq : 0 ≤ q) :
    IsRounded (signed s q) (ofMagnitude s q) := by
  rcases hq.eq_or_lt with rfl | hpos
  · have hzero : ofMagnitude s 0 = finite s 0 (-1074) (by decide) := by
      rw [← ofMagnitude_magnitude s (by decide), magnitude, Nat.cast_zero, zero_mul]
    rw [hzero, signed_zero]
    exact isRounded_zero s
  have hcounted := counted_of_pos hpos
  simp only [ofMagnitude]
  split
  · rename_i hc
    exact hcounted.isRounded hq hc
  · rename_i hne
    split
    · rename_i hc
      exact hcounted.isRounded_half hq hc
    · rename_i hhalf
      have hsign : decide (signed s q < 0) = s := by cases s <;> simp [signed, hpos, hpos.le]
      have hinfinite := IsRounded.infinite (q := signed s q) (by
        rw [abs_signed, abs_of_pos hpos]
        exact hcounted.overflowBound_le hne hhalf)
      rw [hsign] at hinfinite
      exact hinfinite

theorem isRounded_ofRat (q : Rat) : IsRounded q (ofRat q) := by
  rcases lt_or_ge q 0 with hneg | hpos
  · have hrounded := isRounded_ofMagnitude true (neg_nonneg.2 hneg.le)
    rw [ofRat, decide_eq_true hneg, Rat.abs_of_nonpos hneg.le]
    simpa [signed] using hrounded
  · have hrounded := isRounded_ofMagnitude false hpos
    rw [ofRat, decide_eq_false (not_lt.2 hpos), Rat.abs_of_nonneg hpos]
    exact hrounded

/-- The value of a double is rounded to the double. -/
theorem isRounded_self {x : Double} (h : x.toRat? = some q) : IsRounded q x := by
  rcases toRat?_eq_some h with ⟨s, m, e, hc, rfl, rfl⟩
  have hrounded := isRounded_ofMagnitude s (magnitude_nonneg m e)
  rw [ofMagnitude_magnitude s hc] at hrounded
  exact hrounded

end Rounding

section Uniqueness

variable {m n : Nat} {e f : Int} {q q' a b : Rat} {x y : Double}

/-- The significand after an even one is odd, so the next double of an even significand
    is not yet another one. -/
theorem exists_magnitude_between (h : Canonical m e) (h' : Canonical n f) (hm : m % 2 = 0)
    (hn : n % 2 = 0) (hlt : magnitude m e < magnitude n f) :
    ∃ k, Canonical k e ∧ magnitude m e < magnitude k e ∧ magnitude k e < magnitude n f := by
  have hunit : (0 : Rat) < (2 : Rat) ^ e := by positivity
  have hpow : Nat.pow 2 53 = 9007199254740992 ∧ Nat.pow 2 52 = 4503599627370496 := ⟨rfl, rfl⟩
  have hnext : Canonical (m + 1) e := by
    unfold Canonical at h ⊢
    omega
  refine ⟨m + 1, hnext, ?_, ?_⟩
  · exact mul_lt_mul_of_pos_right (by push_cast; linarith) hunit
  by_cases hle : e ≤ f
  · rcases magnitude_of_le (m := n) hle with ⟨k, hk, -⟩
    have hcount : m < k := by
      rw [hk] at hlt
      exact_mod_cast lt_of_mul_lt_mul_right hlt hunit.le
    have hat : magnitude (m + 1) e ≤ magnitude n f := by
      rw [hk]
      exact mul_le_mul_of_nonneg_right (by exact_mod_cast hcount) hunit.le
    refine lt_of_le_of_ne hat fun heq => ?_
    have := (eq_of_magnitude_eq hnext h' heq).1
    omega
  · -- A full significand is larger than every double with a smaller exponent.
    have hfull : Nat.pow 2 52 ≤ m := h.2.2.2.resolve_right (by have := h'.2.1; omega)
    have hless := magnitude_lt_of_lt h' (not_le.1 hle)
    have hmore : (2 : Rat) ^ 52 * (2 : Rat) ^ e ≤ magnitude m e :=
      mul_le_mul_of_nonneg_right (by exact_mod_cast hfull) hunit.le
    linarith

/-- There is a double between two others whose significands are even. -/
theorem exists_between {s t : Bool} (h : Canonical m e) (h' : Canonical n f) (hm : m % 2 = 0)
    (hn : n % 2 = 0) (hlt : signed s (magnitude m e) < signed t (magnitude n f)) :
    ∃ (z : Double) (c : Rat), z.toRat? = some c ∧ signed s (magnitude m e) < c ∧
      c < signed t (magnitude n f) := by
  have hmpos := magnitude_nonneg m e
  have hnpos := magnitude_nonneg n f
  have hup : ∀ {m' n' : Nat} {e' f' : Int}, Canonical m' e' → Canonical n' f' → m' % 2 = 0 →
      n' % 2 = 0 → magnitude m' e' < magnitude n' f' →
      ∀ s : Bool, ∃ (z : Double) (c : Rat), z.toRat? = some (signed s c) ∧ magnitude m' e' < c ∧
        c < magnitude n' f' := by
    intro m' n' e' f' hc hc' hm' hn' hlt' s
    rcases exists_magnitude_between hc hc' hm' hn' hlt' with ⟨k, hk, hlow, hhigh⟩
    exact ⟨finite s k e' hk, _, rfl, hlow, hhigh⟩
  cases s with
  | false =>
      cases t with
      | false => exact hup h h' hm hn hlt false
      | true =>
          simp only [signed, Bool.false_eq_true, if_true, if_false] at hlt
          linarith
  | true =>
      simp only [signed, if_true] at hlt ⊢
      cases t with
      | true =>
          simp only [if_true] at hlt ⊢
          rcases hup h' h hn hm (neg_lt_neg_iff.1 hlt) true with ⟨z, c, hz, hlow, hhigh⟩
          exact ⟨z, -c, hz, neg_lt_neg hhigh, neg_lt_neg hlow⟩
      | false =>
          simp only [Bool.false_eq_true, if_false] at hlt ⊢
          -- Zero is between numbers of different signs, unless one of them is zero.
          rcases hmpos.eq_or_lt with hzero | hmlt
          · rcases hup h h' hm hn (by linarith) false with ⟨z, c, hz, hlow, hhigh⟩
            exact ⟨z, c, hz, by linarith, hhigh⟩
          rcases hnpos.eq_or_lt with hzero | hnlt
          · rcases hup h' h hn hm (by linarith) true with ⟨z, c, hz, hlow, hhigh⟩
            exact ⟨z, -c, hz, by linarith, by linarith⟩
          exact ⟨zero, 0, by simp [zero, toRat?, magnitude, signed], by linarith, hnlt⟩

/-- Between two values that are equally far from a rational there is none that is nearer
    than both, if they are nearest. -/
theorem not_nearest_of_between {c : Rat} (htie : |a - q| = |b - q|) (hlow : a < c) (hhigh : c < b)
    (hnearest : |a - q| ≤ |c - q|) : False := by
  rcases abs_eq_abs.1 htie with heq | heq
  · linarith
  · rcases le_total q c with hq | hq
    · rw [abs_of_nonneg (by linarith : 0 ≤ c - q), abs_of_nonpos (by linarith)] at hnearest
      linarith
    · rw [abs_of_nonpos (by linarith : c - q ≤ 0), abs_of_nonpos (by linarith)] at hnearest
      linarith

/-- A rational is rounded to one double only, up to the sign of a zero. -/
theorem IsRounded.unique (hx : IsRounded q x) (hy : IsRounded q y) :
    x.unsignedZero = y.unsignedZero := by
  cases hx with
  | infinite hlarge =>
      cases hy with
      | infinite _ => rfl
      | finite hsmall _ _ => exact absurd hlarge (not_le.2 hsmall)
  | @finite s m e h hsmall hnearest heven =>
      cases hy with
      | infinite hlarge => exact absurd hlarge (not_le.2 hsmall)
      | @finite t n f h' _ hnearest' heven' =>
          -- Neither is nearer. If they differ, both are even, and the one between them is
          -- nearer than both.
          have htie := le_antisymm (hnearest (.finite t n f h') _ rfl)
            (hnearest' (.finite s m e h) _ rfl)
          by_cases heq : signed s (magnitude m e) = signed t (magnitude n f)
          · exact unsignedZero_eq_of_toRat? (by rw [toRat?, heq]) rfl
          · have hm := heven (.finite t n f h') _ rfl (Ne.symm heq) htie.symm
            have hn := heven' (.finite s m e h) _ rfl heq htie
            rcases lt_or_gt_of_ne heq with hlt | hgt
            · rcases exists_between h h' hm hn hlt with ⟨z, c, hz, hlow, hhigh⟩
              exact (not_nearest_of_between htie hlow hhigh (hnearest z c hz)).elim
            · rcases exists_between h' h hn hm hgt with ⟨z, c, hz, hlow, hhigh⟩
              exact (not_nearest_of_between htie.symm hlow hhigh (hnearest' z c hz)).elim

/-- The value of a double is rounded to that value. -/
theorem toRat?_ofRat (hx : x.toRat? = some q) : (ofRat q).toRat? = some q := by
  rw [← toRat?_unsignedZero, (isRounded_ofRat q).unique (isRounded_self hx),
    toRat?_unsignedZero, hx]

theorem IsRounded.le_of_toRat? (hx : IsRounded q x) (ha : x.toRat? = some a)
    (hb : y.toRat? = some b) : |a - q| ≤ |b - q| := by
  cases hx with
  | infinite _ => cases ha
  | finite _ hnearest _ =>
      cases ha
      exact hnearest y b hb

/-- A larger rational is not rounded to a smaller double. -/
theorem IsRounded.mono (hx : IsRounded q x) (hy : IsRounded q' y) (hle : q ≤ q')
    (ha : x.toRat? = some a) (hb : y.toRat? = some b) : a ≤ b := by
  by_contra hlt
  rw [not_le] at hlt
  have hnearest := hx.le_of_toRat? ha hb
  have hnearest' := hy.le_of_toRat? hb ha
  -- Both rationals would have to be halfway between the doubles, and then they are one.
  have hmiddle : a + b ≤ 2 * q := by
    by_contra hmiddle
    rcases le_total q b with hq | hq
    · rw [abs_of_nonneg (by linarith), abs_of_nonneg (by linarith)] at hnearest
      linarith
    · rw [abs_of_nonpos (by linarith : b - q ≤ 0)] at hnearest
      linarith [le_abs_self (a - q)]
  have hmiddle' : 2 * q' ≤ a + b := by
    by_contra hmiddle'
    rcases le_total a q' with hq | hq
    · rw [abs_of_nonpos (by linarith), abs_of_nonpos (by linarith)] at hnearest'
      linarith
    · rw [abs_of_nonneg (by linarith : 0 ≤ a - q')] at hnearest'
      linarith [neg_le_abs (b - q')]
  have heq : q = q' := by linarith
  subst heq
  have hsame := congrArg toRat? (hx.unique hy)
  rw [toRat?_unsignedZero, toRat?_unsignedZero, ha, hb] at hsame
  cases hsame
  exact lt_irrefl _ hlt

end Uniqueness

section Arithmetic

variable {x y : Double} {a b : Rat}

theorem isRounded_add (hx : x.toRat? = some a) (hy : y.toRat? = some b) :
    IsRounded (a + b) (x + y) := by
  rcases toRat?_eq_some hx with ⟨s, m, e, hc, rfl, rfl⟩
  rcases toRat?_eq_some hy with ⟨t, n, f, hc', rfl, rfl⟩
  change IsRounded _ (Double.add _ _)
  simp only [Double.add]
  -- The sign of an exact zero depends on the operands.
  split
  · rename_i hsum
    rw [hsum]
    split
    · exact isRounded_zero true
    · exact isRounded_zero false
  · exact isRounded_ofRat _

theorem isRounded_sub (hx : x.toRat? = some a) (hy : y.toRat? = some b) :
    IsRounded (a - b) (x - y) := by
  have hneg : (-y).toRat? = some (-b) := by rw [toRat_neg, hy, Option.map_some]
  rw [sub_eq_add_neg]
  exact isRounded_add hx hneg

theorem isRounded_mul (hx : x.toRat? = some a) (hy : y.toRat? = some b) :
    IsRounded (a * b) (x * y) := by
  rcases toRat?_eq_some hx with ⟨s, m, e, hc, rfl, rfl⟩
  rcases toRat?_eq_some hy with ⟨t, n, f, hc', rfl, rfl⟩
  rw [signed_mul_signed]
  exact isRounded_ofMagnitude _ (mul_nonneg (magnitude_nonneg m e) (magnitude_nonneg n f))

theorem isRounded_div (hx : x.toRat? = some a) (hy : y.toRat? = some b) (hb : b ≠ 0) :
    IsRounded (a / b) (x / y) := by
  rcases toRat?_eq_some hx with ⟨s, m, e, hc, rfl, rfl⟩
  rcases toRat?_eq_some hy with ⟨t, n, f, hc', rfl, rfl⟩
  have hn : n ≠ 0 := by
    rintro rfl
    exact hb (by simp [magnitude, signed_zero])
  rw [signed_div_signed]
  change IsRounded _ (Double.div _ _)
  simp only [Double.div, signBit, if_neg hn]
  exact isRounded_ofMagnitude _ (div_nonneg (magnitude_nonneg m e) (magnitude_nonneg n f))

end Arithmetic

end Double

end Reckoner
