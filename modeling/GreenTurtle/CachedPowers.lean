import GreenTurtle.DiyFpExact
import Mathlib.Tactic

/-!
# The table of powers of ten

Every entry of the table is a power of ten, rounded to 64 bits.
`GetCachedPower` computes the index of an entry with three operations on
doubles.  For every exponent that the border of a finite double can have, the
index is inside the table, and the product with the entry has between 32 and 60
bits behind the point.
-/

namespace GreenTurtle.Num2a

open BinaryFormat
open FixedWidth

/-- A power of ten in 64 bits, at most half a unit off. -/
structure IsPower (c : DiyFp) (k : ℤ) : Prop where
  full : 2 ^ 63 ≤ c.f
  fits : c.Fits
  near : |value c.f c.e - 10 ^ k| ≤ 2 ^ c.e / 2

/-! ## The entries -/

/-- The rounding error, with both exponents cleared. -/
def nearPower (f : ℕ) (e k : ℤ) : Bool :=
  let unit := 10 ^ (-k).toNat * 2 ^ e.toNat
  let power := 10 ^ k.toNat * 2 ^ (-e).toNat
  decide (2 * power ≤ 2 * f * unit + unit) &&
    decide (2 * f * unit ≤ 2 * power + unit)

theorem zpow_eq_div {base : ℚ} (hbase : base ≠ 0) (k : ℤ) :
    base ^ k = base ^ k.toNat / base ^ (-k).toNat := by
  rw [eq_div_iff (pow_ne_zero _ hbase), ← zpow_natCast, ← zpow_natCast,
    ← zpow_add₀ hbase]
  congr 1
  omega

theorem abs_value_sub_le_of_nearPower
    {f : ℕ} {e k : ℤ} (hnear : nearPower f e k = true) :
    |value f e - 10 ^ k| ≤ 2 ^ e / 2 := by
  simp only [nearPower, Bool.and_eq_true, decide_eq_true_eq] at hnear
  obtain ⟨hupper, hlower⟩ := hnear
  have hupperQ :
      2 * ((10 : ℚ) ^ k.toNat * 2 ^ (-e).toNat) ≤
        2 * f * (10 ^ (-k).toNat * 2 ^ e.toNat) +
          10 ^ (-k).toNat * 2 ^ e.toNat := by
    exact_mod_cast hupper
  have hlowerQ :
      2 * f * ((10 : ℚ) ^ (-k).toNat * 2 ^ e.toNat) ≤
        2 * (10 ^ k.toNat * 2 ^ (-e).toNat) +
          10 ^ (-k).toNat * 2 ^ e.toNat := by
    exact_mod_cast hlower
  have hten : (0 : ℚ) < 10 ^ (-k).toNat := by positivity
  have htwo : (0 : ℚ) < 2 ^ (-e).toNat := by positivity
  unfold value
  rw [zpow_eq_div (by norm_num) e, zpow_eq_div (by norm_num) k, abs_le]
  constructor
  · rw [← sub_nonneg]
    have hsum :
        f * ((2 : ℚ) ^ e.toNat / 2 ^ (-e).toNat) -
              10 ^ k.toNat / 10 ^ (-k).toNat -
            -(2 ^ e.toNat / 2 ^ (-e).toNat / 2) =
          (2 * f * (10 ^ (-k).toNat * 2 ^ e.toNat) +
              10 ^ (-k).toNat * 2 ^ e.toNat -
            2 * (10 ^ k.toNat * 2 ^ (-e).toNat)) /
            (2 * 2 ^ (-e).toNat * 10 ^ (-k).toNat) := by
      field_simp
      ring
    rw [hsum]
    exact div_nonneg (by linarith) (by positivity)
  · rw [← sub_nonneg]
    have hsum :
        (2 : ℚ) ^ e.toNat / 2 ^ (-e).toNat / 2 -
            (f * (2 ^ e.toNat / 2 ^ (-e).toNat) -
              10 ^ k.toNat / 10 ^ (-k).toNat) =
          (2 * (10 ^ k.toNat * 2 ^ (-e).toNat) +
              10 ^ (-k).toNat * 2 ^ e.toNat -
            2 * f * (10 ^ (-k).toNat * 2 ^ e.toNat)) /
            (2 * 2 ^ (-e).toNat * 10 ^ (-k).toNat) := by
      field_simp
      ring
    rw [hsum]
    exact div_nonneg (by linarith) (by positivity)

/-- The power that an index of the table stands for. -/
def cachedExponent (index : ℕ) : ℤ :=
  -348 + 8 * index

def cachedPower (index : ℕ) : DiyFp :=
  { f := kCachedPowersF.getD index 0, e := kCachedPowersE.getD index 0 }

theorem isPower_cachedPower {index : ℕ} (hindex : index < 87) :
    IsPower (cachedPower index) (cachedExponent index) := by
  have hall :
      ∀ i < 87,
        2 ^ 63 ≤ (cachedPower i).f ∧ (cachedPower i).f < 2 ^ 64 ∧
          nearPower (cachedPower i).f (cachedPower i).e
            (cachedExponent i) = true := by
    decide +kernel
  obtain ⟨hfull, hfits, hnear⟩ := hall index hindex
  exact ⟨hfull, hfits, abs_value_sub_le_of_nearPower hnear⟩

/-! ## The index -/

/-- Where a product with the entry has its point. -/
def fittingIndex (e : ℤ) (index : ℕ) : Bool :=
  decide (index < 87) &&
    decide (-124 ≤ e + (cachedPower index).e) &&
      decide (e + (cachedPower index).e ≤ -96)

theorem fittingIndex_cachedIndex
    {e : ℤ} (hlo : -1137 ≤ e) (hhi : e ≤ 960) :
    fittingIndex e (cachedIndex e) = true := by
  have hall :
      (List.range 2098).all (fun i =>
        fittingIndex (i - 1137) (cachedIndex (i - 1137))) = true := by
    decide +kernel
  rw [List.all_eq_true] at hall
  have hone := hall (e + 1137).toNat (List.mem_range.mpr (by omega))
  rwa [show (((e + 1137).toNat : ℕ) : ℤ) - 1137 = e by omega] at hone

theorem getCachedPower_spec
    {e : ℤ} (hlo : -1137 ≤ e) (hhi : e ≤ 960) :
    IsPower (getCachedPower e).1 (-(getCachedPower e).2) ∧
      -60 ≤ e + (getCachedPower e).1.e + 64 ∧
        e + (getCachedPower e).1.e + 64 ≤ -32 := by
  have hfitting := fittingIndex_cachedIndex hlo hhi
  simp only [fittingIndex, Bool.and_eq_true, decide_eq_true_eq] at hfitting
  obtain ⟨⟨hindex, hleast⟩, hlargest⟩ := hfitting
  have hexponent :
      -(getCachedPower e).2 = cachedExponent (cachedIndex e) := by
    simp only [getCachedPower, cachedExponent, Nat.shiftLeft_eq]
    rw [toInt32_of_bounds (by omega) (by omega)]
    omega
  have hpower : (getCachedPower e).1 = cachedPower (cachedIndex e) := rfl
  rw [hexponent, hpower]
  exact ⟨isPower_cachedPower hindex, by omega, by omega⟩

theorem boundaries_of_positive
    {bits fuel : ℕ} (hpositive : IsPositive bits) (hfuel : 64 ≤ fuel) :
    ∃ lower upper,
      (DiyFp.ofDouble bits).normalizedBoundaries fuel =
          some (lower, upper) ∧
        DiyFp.Bordered (doubleSignificand bits) (doubleExponent bits)
            lower upper ∧
          -1137 ≤ upper.e ∧ upper.e ≤ 960 ∧
            upper.e = (DiyFp.ofDouble bits).normalize.e := by
  have hcanonical := canonical_double bits
  rw [DiyFp.ofDouble_eq]
  have hexponent :=
    @DiyFp.normalize_exponent
      { f := doubleSignificand bits, e := doubleExponent bits }
      hpositive.significand_pos hcanonical
      (doubleExponent_le hpositive.finite)
  obtain ⟨lower, upper, hboundaries, hsame, hborder⟩ :=
    @DiyFp.normalizedBoundaries_eq
      { f := doubleSignificand bits, e := doubleExponent bits } fuel
      hpositive.significand_pos hcanonical.lt hfuel
  rw [← hsame] at hexponent
  exact ⟨lower, upper, hboundaries, hborder, hexponent.1, hexponent.2, hsame⟩

/-- The border above a number is half way to the next one. -/
theorem upper_halfway
    {bits : ℕ} {lower upper : DiyFp} (hpositive : IsPositive bits)
    (hborder :
      DiyFp.Bordered (doubleSignificand bits) (doubleExponent bits)
        lower upper) :
    value upper.f upper.e = (magnitude bits + magnitude (bits + 1)) / 2 := by
  rw [hborder.above, magnitude_succ hpositive.lt, magnitude]
  ring

/-- The border below a number is half way to the one before, but only half as
far from the least normal number, whose predecessor has the same unit. -/
theorem lower_halfway
    {bits : ℕ} {lower upper : DiyFp} (hpositive : IsPositive bits)
    (hborder :
      DiyFp.Bordered (doubleSignificand bits) (doubleExponent bits)
        lower upper) :
    value lower.f lower.e =
      if bits = 2 ^ 52 then magnitude bits - 2 ^ (-1076 : ℤ)
      else (magnitude (bits - 1) + magnitude bits) / 2 := by
  have hpos := hpositive.pos
  have hlt := hpositive.lt
  rw [hborder.below]
  split
  next hleast =>
    have hsignificand : doubleSignificand (2 ^ 52) = 2 ^ 52 := rfl
    have hexponent : doubleExponent (2 ^ 52) = -1074 := rfl
    rw [hleast, magnitude, hsignificand, hexponent, gapBelow, if_pos rfl,
      ← two_zpow_sub_one]
    norm_num
  next hnormal =>
    have hnext := @magnitude_succ (bits - 1) (by omega)
    rw [show bits - 1 + 1 = bits by omega] at hnext
    rw [gapBelow_eq hpos hnormal hlt, ← magnitude, hnext]
    ring

/-- For every positive double the borders are exactly half way to the
neighbours, the border below the least normal one excepted, and the index of the
power stays inside the table. -/
theorem boundaries_in_range
    {bits fuel : ℕ} (hpositive : IsPositive bits) (hfuel : 64 ≤ fuel) :
    ∃ lower upper,
      (DiyFp.ofDouble bits).normalizedBoundaries fuel =
          some (lower, upper) ∧
        lower.e = upper.e ∧
        value upper.f upper.e =
          (magnitude bits + magnitude (bits + 1)) / 2 ∧
        value lower.f lower.e =
          (if bits = 2 ^ 52 then magnitude bits - 2 ^ (-1076 : ℤ)
            else (magnitude (bits - 1) + magnitude bits) / 2) ∧
        cachedIndex upper.e < 87 ∧
        IsPower (getCachedPower upper.e).1 (-(getCachedPower upper.e).2) ∧
        -60 ≤ upper.e + (getCachedPower upper.e).1.e + 64 ∧
        upper.e + (getCachedPower upper.e).1.e + 64 ≤ -32 := by
  obtain ⟨lower, upper, hboundaries, hborder, hlo, hhi, _⟩ :=
    boundaries_of_positive hpositive hfuel
  have hfitting := fittingIndex_cachedIndex hlo hhi
  simp only [fittingIndex, Bool.and_eq_true, decide_eq_true_eq] at hfitting
  exact ⟨lower, upper, hboundaries, hborder.same,
    upper_halfway hpositive hborder, lower_halfway hpositive hborder,
    hfitting.1.1, getCachedPower_spec hlo hhi⟩

theorem boundaries_in_range_least :
    IsPositive 1 ∧
      ∃ lower upper,
        (DiyFp.ofDouble 1).normalizedBoundaries 64 = some (lower, upper) ∧
          lower.e = upper.e ∧
          value upper.f upper.e = (magnitude 1 + magnitude (1 + 1)) / 2 ∧
          value lower.f lower.e =
            (if 1 = 2 ^ 52 then magnitude 1 - 2 ^ (-1076 : ℤ)
              else (magnitude (1 - 1) + magnitude 1) / 2) ∧
          cachedIndex upper.e < 87 ∧
          IsPower (getCachedPower upper.e).1 (-(getCachedPower upper.e).2) ∧
          -60 ≤ upper.e + (getCachedPower upper.e).1.e + 64 ∧
          upper.e + (getCachedPower upper.e).1.e + 64 ≤ -32 :=
  ⟨⟨by decide, by decide⟩,
    boundaries_in_range ⟨by decide, by decide⟩ le_rfl⟩

end GreenTurtle.Num2a
