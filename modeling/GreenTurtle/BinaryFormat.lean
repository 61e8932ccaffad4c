import Mathlib.Algebra.Order.Field.Power
import Mathlib.Tactic

/-!
# Binary floating-point formats

A number of the format is a significand times a power of two.  The significand
has at most one bit more than is stored, and a number whose significand has
fewer bits has the least exponent.  The numbers next to a given one are a unit
away, or half a unit below the least significand with all its bits.  A rational
that is closer than half of that is nearer to the given number than to any
other.
-/

namespace GreenTurtle.BinaryFormat

def value (f : ℕ) (e : ℤ) : ℚ :=
  f * 2 ^ e

/-- The numbers of a format that stores `bits` bits of a significand. -/
structure Canonical (bits : ℕ) (least : ℤ) (f : ℕ) (e : ℤ) : Prop where
  lt : f < 2 ^ (bits + 1)
  least_le : least ≤ e
  full : 2 ^ bits ≤ f ∨ e = least

/-- A distance that the next smaller number keeps.  It is twice as far away
when `f` is the least full significand and `e` the least exponent; otherwise
this is the distance. -/
def gapBelow (bits f : ℕ) (e : ℤ) : ℚ :=
  if f = 2 ^ bits then 2 ^ (e - 1) else 2 ^ e

@[simp] theorem value_zero (e : ℤ) : value 0 e = 0 := by
  rw [value, Nat.cast_zero, zero_mul]

theorem value_nonneg (f : ℕ) (e : ℤ) : 0 ≤ value f e := by
  unfold value
  positivity

theorem value_succ (f : ℕ) (e : ℤ) : value (f + 1) e = value f e + 2 ^ e := by
  unfold value
  push_cast
  ring

theorem value_add_one (f : ℕ) (e : ℤ) : value f (e + 1) = value (2 * f) e := by
  unfold value
  rw [zpow_add_one₀ (by norm_num)]
  push_cast
  ring

theorem two_zpow_sub_one (e : ℤ) : (2 : ℚ) ^ (e - 1) = 2 ^ e / 2 := by
  rw [zpow_sub₀ (by norm_num), zpow_one]

theorem gapBelow_le (bits f : ℕ) (e : ℤ) : gapBelow bits f e ≤ 2 ^ e := by
  unfold gapBelow
  split
  next =>
    rw [two_zpow_sub_one]
    linarith [show (0 : ℚ) < 2 ^ e by positivity]
  next => exact le_rfl

/-- A number with a larger exponent, counted in smaller units. -/
theorem value_eq_mul
    (f : ℕ) {e e' : ℤ} (hle : e ≤ e') :
    value f e' = ((f * 2 ^ (e' - e).toNat : ℕ) : ℚ) * 2 ^ e := by
  have hsplit : e' = ((e' - e).toNat : ℤ) + e := by omega
  unfold value
  nth_rewrite 1 [hsplit]
  rw [zpow_add₀ (by norm_num), zpow_natCast]
  push_cast
  ring

/-- Counted in the same units, numbers differ by whole units. -/
theorem add_unit_le
    {m n : ℕ} {e : ℤ} (hlt : (m : ℚ) * 2 ^ e < n * 2 ^ e) :
    (m : ℚ) * 2 ^ e + 2 ^ e ≤ n * 2 ^ e := by
  have hpos : (0 : ℚ) < 2 ^ e := by positivity
  have hless : m < n := by
    exact_mod_cast lt_of_mul_lt_mul_right hlt hpos.le
  have hstep : (m : ℚ) + 1 ≤ n := by exact_mod_cast hless
  calc (m : ℚ) * 2 ^ e + 2 ^ e = (m + 1) * 2 ^ e := by ring
    _ ≤ n * 2 ^ e := mul_le_mul_of_nonneg_right hstep hpos.le

section Spacing

variable {bits : ℕ} {least : ℤ} {f f' : ℕ} {e e' : ℤ}

/-- A number with a smaller exponent is below every full significand, by half
a unit at least. -/
theorem Canonical.below_full
    (h' : Canonical bits least f' e') (hless : e' < e) :
    value f' e' ≤ 2 ^ bits * 2 ^ e - 2 ^ (e - 1) := by
  have hsignificand : (f' : ℚ) ≤ 2 ^ (bits + 1) - 1 := by
    have hlt : (f' : ℚ) + 1 ≤ 2 ^ (bits + 1) := by exact_mod_cast h'.lt
    linarith
  have hnonneg : (0 : ℚ) ≤ 2 ^ (bits + 1) - 1 :=
    le_trans (Nat.cast_nonneg f') hsignificand
  have hexponent : (2 : ℚ) ^ e' ≤ 2 ^ (e - 1) :=
    zpow_le_zpow_right₀ (by norm_num) (by omega)
  calc value f' e' ≤ (2 ^ (bits + 1) - 1) * 2 ^ (e - 1) :=
        mul_le_mul hsignificand hexponent (by positivity) hnonneg
    _ = 2 ^ bits * 2 ^ e - 2 ^ (e - 1) := by
        rw [two_zpow_sub_one, pow_succ]
        ring

theorem Canonical.full_of_lt
    (h : Canonical bits least f e) (h' : Canonical bits least f' e')
    (hless : e' < e) : (2 : ℚ) ^ bits ≤ f := by
  rcases h.full with hfull | hleast
  · exact_mod_cast hfull
  · have hle := h'.least_le
    omega

theorem Canonical.add_gap_le
    (h : Canonical bits least f e) (h' : Canonical bits least f' e')
    (hlt : value f e < value f' e') :
    value f e + 2 ^ e ≤ value f' e' := by
  by_cases hle : e ≤ e'
  · rw [value_eq_mul f' hle] at hlt ⊢
    exact add_unit_le hlt
  · exfalso
    have hbelow := h'.below_full (lt_of_not_ge hle)
    have hfull := h.full_of_lt h' (lt_of_not_ge hle)
    have hpos : (0 : ℚ) < 2 ^ e := by positivity
    have hge : (2 : ℚ) ^ bits * 2 ^ e ≤ value f e :=
      mul_le_mul_of_nonneg_right hfull hpos.le
    linarith [show (0 : ℚ) < 2 ^ (e - 1) by positivity]

theorem Canonical.le_sub_gap
    (h : Canonical bits least f e) (h' : Canonical bits least f' e')
    (hlt : value f' e' < value f e) :
    value f' e' ≤ value f e - gapBelow bits f e := by
  by_cases hle : e ≤ e'
  · rw [value_eq_mul f' hle] at hlt ⊢
    have hstep := add_unit_le hlt
    have hgap := gapBelow_le bits f e
    unfold value
    linarith
  · have hbelow := h'.below_full (lt_of_not_ge hle)
    have hfull := h.full_of_lt h' (lt_of_not_ge hle)
    have hpos : (0 : ℚ) < 2 ^ e := by positivity
    unfold gapBelow
    split
    next heq =>
      rw [heq] at *
      unfold value at *
      push_cast at *
      linarith
    next hne =>
      have hmore : (2 : ℚ) ^ bits + 1 ≤ f := by
        have hfull' : 2 ^ bits ≤ f := by exact_mod_cast hfull
        exact_mod_cast (by omega : 2 ^ bits + 1 ≤ f)
      have hge : ((2 : ℚ) ^ bits + 1) * 2 ^ e ≤ value f e :=
        mul_le_mul_of_nonneg_right hmore hpos.le
      linarith [show (0 : ℚ) < 2 ^ (e - 1) by positivity]

end Spacing

/-- Closer to the number than half of the distance to the next one. -/
structure Within (bits f : ℕ) (e : ℤ) (q : ℚ) : Prop where
  above : value f e - gapBelow bits f e / 2 < q
  below : q < value f e + 2 ^ e / 2

theorem Within.pos
    {bits f : ℕ} {e : ℤ} {q : ℚ} (hwithin : Within bits f e q)
    (hf : 0 < f) : 0 < q := by
  have hone : (1 : ℚ) * 2 ^ e ≤ value f e :=
    mul_le_mul_of_nonneg_right (by exact_mod_cast hf) (by positivity)
  have hgap := gapBelow_le bits f e
  linarith [hwithin.above, show (0 : ℚ) < 2 ^ e by positivity]

theorem Within.nearest
    {bits : ℕ} {least : ℤ} {f f' : ℕ} {e e' : ℤ} {q : ℚ}
    (hwithin : Within bits f e q)
    (h : Canonical bits least f e) (h' : Canonical bits least f' e')
    (hne : value f' e' ≠ value f e) :
    |q - value f e| < |q - value f' e'| := by
  have habove := hwithin.above
  have hbelow := hwithin.below
  have hgap := gapBelow_le bits f e
  rcases lt_or_gt_of_ne hne with hlt | hgt
  · have hle := h.le_sub_gap h' hlt
    have hpositive : 0 < q - value f' e' := by linarith
    rw [abs_of_pos hpositive, abs_lt]
    constructor <;> linarith
  · have hle := h.add_gap_le h' hgt
    have hnegative : q - value f' e' < 0 := by
      linarith [show (0 : ℚ) < 2 ^ e by positivity]
    rw [abs_of_neg hnegative, abs_lt]
    constructor <;> linarith

end GreenTurtle.BinaryFormat
