import GreenTurtle.CachedPowers
import GreenTurtle.DigitGeneration
import Mathlib.Tactic

/-!
# Digits that read back as the number

`Grisu2` multiplies the borders of the interval of a number by a power of ten
and moves the products inward by one unit, which is more than the table and the
product can be wrong by.  `DigitGen` delivers a decimal between them.  So the
decimal is nearer to the number than to any other double.
-/

namespace GreenTurtle.Num2a

open BinaryFormat
open FixedWidth
open Memory
open Numeral
open RoundedArithmetic

/-! ## Scaled borders -/

section Scaling

variable {x c : DiyFp} {k : ℤ}

/-- Half a unit from the table and half a unit from the product. -/
theorem abs_mul_sub_lt (hx : x.Fits) (hc : IsPower c k) :
    |value (x.mul c).f (x.mul c).e - value x.f x.e * 10 ^ k| <
      2 ^ (x.mul c).e := by
  have hle := roundedHigh_le (2 ^ 63) x.f c.f
  have hlt := lt_roundedHigh (by norm_num : 0 < 2 ^ 63) x.f c.f
  rw [← DiyFp.mul_f hx hc.fits] at hle hlt
  have hleQ : (2 : ℚ) ^ 64 * (x.mul c).f ≤ x.f * c.f + 2 ^ 63 := by
    have hnat : 2 ^ 64 * (x.mul c).f ≤ x.f * c.f + 2 ^ 63 := by omega
    exact_mod_cast hnat
  have hltQ : (x.f : ℚ) * c.f < 2 ^ 64 * (x.mul c).f + 2 ^ 63 := by
    have hnat : x.f * c.f < 2 ^ 64 * (x.mul c).f + 2 ^ 63 := by omega
    exact_mod_cast hnat
  have hword : (x.f : ℚ) < 2 ^ 64 := by exact_mod_cast hx
  have hexponent :
      (2 : ℚ) ^ (x.mul c).e = 2 ^ 64 * (2 ^ x.e * 2 ^ c.e) := by
    rw [show (x.mul c).e = x.e + c.e + 64 from rfl,
      zpow_add₀ (by norm_num), zpow_add₀ (by norm_num)]
    norm_num
    ring
  have hpos : (0 : ℚ) < 2 ^ x.e * 2 ^ c.e := by positivity
  have hnear := abs_le.mp hc.near
  have hunit : (0 : ℚ) ≤ x.f * 2 ^ x.e := by positivity
  have hupper :
      value x.f x.e * 10 ^ k ≤
        (x.f * c.f + x.f / 2) * (2 ^ x.e * 2 ^ c.e) := by
    have hbound : (10 : ℚ) ^ k ≤ (c.f + 1 / 2) * 2 ^ c.e := by
      unfold value at hnear
      linarith [hnear.1]
    calc value x.f x.e * 10 ^ k
        ≤ x.f * 2 ^ x.e * ((c.f + 1 / 2) * 2 ^ c.e) :=
          mul_le_mul_of_nonneg_left hbound hunit
      _ = (x.f * c.f + x.f / 2) * (2 ^ x.e * 2 ^ c.e) := by ring
  have hlower :
      ((x.f : ℚ) * c.f - x.f / 2) * (2 ^ x.e * 2 ^ c.e) ≤
        value x.f x.e * 10 ^ k := by
    have hbound : (c.f - 1 / 2) * 2 ^ c.e ≤ (10 : ℚ) ^ k := by
      unfold value at hnear
      linarith [hnear.2]
    calc ((x.f : ℚ) * c.f - x.f / 2) * (2 ^ x.e * 2 ^ c.e)
        = x.f * 2 ^ x.e * ((c.f - 1 / 2) * 2 ^ c.e) := by ring
      _ ≤ value x.f x.e * 10 ^ k :=
          mul_le_mul_of_nonneg_left hbound hunit
  have hproduct :
      value (x.mul c).f (x.mul c).e =
        2 ^ 64 * (x.mul c).f * (2 ^ x.e * 2 ^ c.e) := by
    rw [value, hexponent]
    ring
  rw [hproduct, hexponent, abs_lt]
  constructor
  · nlinarith
  · nlinarith

theorem DiyFp.Bordered.lower_fits
    {f : ℕ} {e : ℤ} {lower upper : DiyFp}
    (hborder : DiyFp.Bordered f e lower upper) : lower.Fits := by
  have hfits := hborder.fits
  have hwidth := hborder.width
  unfold DiyFp.Fits at *
  omega

/-- The scaled borders are far enough apart to be moved inward, and the
interval between them is wide enough for seventeen digits. -/
theorem scaled_width
    {f : ℕ} {e : ℤ} {lower upper : DiyFp}
    (hborder : DiyFp.Bordered f e lower upper) (hc : IsPower c k) :
    2 ^ 61 ≤ (upper.mul c).f ∧
      (lower.mul c).f + 768 ≤ (upper.mul c).f ∧
        10 * (upper.mul c).f ≤
          10 ^ 17 * ((upper.mul c).f - (lower.mul c).f - 2) := by
  have hupperLe := roundedHigh_le (2 ^ 63) upper.f c.f
  have hupperLt := lt_roundedHigh (by norm_num : 0 < 2 ^ 63) upper.f c.f
  have hlowerLe := roundedHigh_le (2 ^ 63) lower.f c.f
  have hlowerLt := lt_roundedHigh (by norm_num : 0 < 2 ^ 63) lower.f c.f
  rw [← DiyFp.mul_f hborder.fits hc.fits] at hupperLe hupperLt
  rw [← DiyFp.mul_f hborder.lower_fits hc.fits] at hlowerLe hlowerLt
  have hlarge : 2 ^ 63 * 2 ^ 63 ≤ upper.f * c.f :=
    Nat.mul_le_mul hborder.full hc.full
  have hwidth : lower.f * c.f + 1536 * 2 ^ 63 ≤ upper.f * c.f := by
    calc lower.f * c.f + 1536 * 2 ^ 63 ≤ lower.f * c.f + 1536 * c.f :=
          Nat.add_le_add_left (Nat.mul_le_mul_left _ hc.full) _
      _ = (lower.f + 1536) * c.f := (add_mul _ _ _).symm
      _ ≤ upper.f * c.f := Nat.mul_le_mul_right _ hborder.width
  have hshare :
      upper.f * c.f ≤ 2 ^ 53 * (upper.f * c.f - lower.f * c.f) := by
    rw [← Nat.sub_mul, ← mul_assoc]
    exact Nat.mul_le_mul_right _ hborder.share
  generalize upper.f * c.f = a at *
  generalize lower.f * c.f = b at *
  omega

/-- The scaled borders, moved inward, are inside the scaled interval. -/
theorem between_borders
    {f : ℕ} {e : ℤ} {lower upper : DiyFp} {q : ℚ}
    (hborder : DiyFp.Bordered f e lower upper) (hc : IsPower c k)
    (hlower : value ((lower.mul c).f + 1) (upper.mul c).e ≤ q)
    (hupper : q ≤ value ((upper.mul c).f - 1) (upper.mul c).e) :
    Within 52 f e (q * 10 ^ (-k)) := by
  have hpositive : 1 ≤ (upper.mul c).f := by
    have hwidth := scaled_width hborder hc
    omega
  have hsame : (lower.mul c).e = (upper.mul c).e := by
    simp only [DiyFp.mul, hborder.same]
  have hnearUpper := abs_lt.mp (abs_mul_sub_lt hborder.fits hc)
  have hnearLower := abs_lt.mp (abs_mul_sub_lt hborder.lower_fits hc)
  rw [hborder.above] at hnearUpper
  rw [hsame, hborder.below] at hnearLower
  have hten : (0 : ℚ) < 10 ^ (-k) := by positivity
  have hcancel : (10 : ℚ) ^ k * 10 ^ (-k) = 1 := by
    rw [← zpow_add₀ (by norm_num), add_neg_cancel, zpow_zero]
  unfold value at hlower hupper
  rw [Nat.cast_sub hpositive] at hupper
  push_cast at hlower hupper
  constructor
  · have hless : (value f e - gapBelow 52 f e / 2) * 10 ^ k < q := by
      have hbound := hnearLower.1
      unfold value at hbound ⊢
      linarith
    calc value f e - gapBelow 52 f e / 2
        = (value f e - gapBelow 52 f e / 2) * 10 ^ k * 10 ^ (-k) := by
          rw [mul_assoc, hcancel, mul_one]
      _ < q * 10 ^ (-k) := mul_lt_mul_of_pos_right hless hten
  · have hless : q < (value f e + 2 ^ e / 2) * 10 ^ k := by
      have hbound := hnearUpper.2
      unfold value at hbound ⊢
      linarith
    calc q * 10 ^ (-k)
        < (value f e + 2 ^ e / 2) * 10 ^ k * 10 ^ (-k) :=
          mul_lt_mul_of_pos_right hless hten
      _ = value f e + 2 ^ e / 2 := by rw [mul_assoc, hcancel, mul_one]

end Scaling

/-- The number lies between its borders, in the same units. -/
theorem DiyFp.Bordered.number
    {x lower upper : DiyFp} (hpos : 0 < x.f) (hlt : x.f < 2 ^ 53)
    (hborder : DiyFp.Bordered x.f x.e lower upper)
    (hsame : upper.e = x.normalize.e) :
    lower.f + 512 ≤ x.normalize.f ∧ x.normalize.f + 1024 ≤ upper.f := by
  have hfits : x.Fits := hlt.trans (by norm_num)
  have hlog : x.f.log2 < 53 := (Nat.log2_lt hpos.ne').mpr hlt
  have hclz : 11 ≤ clz x.f := by
    unfold clz
    omega
  have hnumber : value x.normalize.f upper.e = value x.f x.e := by
    rw [hsame, normalize_eq hpos hfits]
    exact value_shifted _ _ _
  have hunit : (2 : ℚ) ^ 11 * 2 ^ upper.e ≤ 2 ^ x.e := by
    rw [← zpow_natCast, ← zpow_add₀ (by norm_num)]
    apply zpow_le_zpow_right₀ (by norm_num)
    rw [hsame, normalize_eq hpos hfits]
    dsimp only
    omega
  have hgap : (2 : ℚ) ^ x.e / 2 ≤ gapBelow 52 x.f x.e := by
    unfold gapBelow
    split
    next => rw [two_zpow_sub_one]
    next => linarith [show (0 : ℚ) < 2 ^ x.e by positivity]
  have habove := hborder.above
  have hbelow := hborder.below
  rw [hborder.same, ← hnumber] at hbelow
  rw [← hnumber] at habove
  have hpositive : (0 : ℚ) < 2 ^ upper.e := by positivity
  unfold value at habove hbelow
  constructor
  · have hle :
        ((lower.f + 512 : ℕ) : ℚ) * 2 ^ upper.e ≤
          x.normalize.f * 2 ^ upper.e := by
      push_cast
      linarith
    exact_mod_cast le_of_mul_le_mul_right hle hpositive
  · have hle :
        ((x.normalize.f + 1024 : ℕ) : ℚ) * 2 ^ upper.e ≤
          upper.f * 2 ^ upper.e := by
      push_cast
      linarith
    exact_mod_cast le_of_mul_le_mul_right hle hpositive

/-- The scaled number lies between the scaled borders. -/
theorem scaled_number
    {x lower upper c : DiyFp} {k : ℤ} (hpos : 0 < x.f) (hlt : x.f < 2 ^ 53)
    (hborder : DiyFp.Bordered x.f x.e lower upper)
    (hsame : upper.e = x.normalize.e) (hc : IsPower c k) :
    (lower.mul c).f + 1 ≤ (x.normalize.mul c).f ∧
      (x.normalize.mul c).f + 1 ≤ (upper.mul c).f := by
  obtain ⟨hbelow, habove⟩ := hborder.number hpos hlt hsame
  have hfits : x.normalize.Fits := by
    have hupper := hborder.fits
    unfold DiyFp.Fits at *
    omega
  have hstep :
      ∀ {a b : ℕ}, a + 512 ≤ b →
        roundedHigh (2 ^ 63) a c.f + 1 ≤ roundedHigh (2 ^ 63) b c.f := by
    intro a b hle
    have hlower := roundedHigh_le (2 ^ 63) a c.f
    have hupper := lt_roundedHigh (by norm_num : 0 < 2 ^ 63) b c.f
    have hproduct : a * c.f + 512 * 2 ^ 63 ≤ b * c.f := by
      calc a * c.f + 512 * 2 ^ 63 ≤ a * c.f + 512 * c.f :=
            Nat.add_le_add_left (Nat.mul_le_mul_left _ hc.full) _
        _ = (a + 512) * c.f := (add_mul _ _ _).symm
        _ ≤ b * c.f := Nat.mul_le_mul_right _ hle
    omega
  rw [DiyFp.mul_f hborder.lower_fits hc.fits, DiyFp.mul_f hfits hc.fits,
    DiyFp.mul_f hborder.fits hc.fits]
  exact ⟨hstep hbelow, hstep (by omega)⟩

/-! ## The whole conversion -/

/-- What `Grisu2` has computed before it generates digits. -/
structure Prepared
    (bits : ℕ) (lower upper c : DiyFp) (k : ℤ) : Prop where
  border :
    DiyFp.Bordered (doubleSignificand bits) (doubleExponent bits) lower upper
  power : IsPower c (-k)
  shift_le : -60 ≤ (upper.mul c).e
  shift_ge : (upper.mul c).e ≤ -32
  above :
    (lower.mul c).f + 1 ≤ ((DiyFp.ofDouble bits).normalize.mul c).f
  below :
    ((DiyFp.ofDouble bits).normalize.mul c).f + 1 ≤ (upper.mul c).f

/-- The upper border that is handed to `DigitGen`. -/
def innerUpper (upper c : DiyFp) : DiyFp :=
  { f := (upper.mul c).f - 1, e := (upper.mul c).e }

def innerWidth (lower upper c : DiyFp) : ℕ :=
  (upper.mul c).f - (lower.mul c).f - 2

theorem Prepared.suitable
    {bits : ℕ} {lower upper c : DiyFp} {k : ℤ}
    (hprepared : Prepared bits lower upper c k) :
    Suitable (innerUpper upper c) (innerWidth lower upper c) := by
  obtain ⟨hlarge, hwidth, _⟩ := scaled_width hprepared.border hprepared.power
  have hfits := DiyFp.mul_fits hprepared.border.fits hprepared.power.fits
  unfold DiyFp.Fits at hfits
  unfold innerUpper innerWidth
  exact
    { fits := by
        unfold DiyFp.Fits
        dsimp only
        omega
      shift_ge := hprepared.shift_ge
      shift_le := hprepared.shift_le
      integral := by
        dsimp only
        omega
      width_pos := by omega
      width_lt := by
        dsimp only
        omega }

/-- The conversion is the generation of digits from prepared borders. -/
theorem grisu2_eq
    {bits fuel : ℕ} (hpositive : IsPositive bits) (hfuel : 64 ≤ fuel) :
    ∃ lower upper c k,
      (DiyFp.ofDouble bits).normalizedBoundaries fuel =
          some (lower, upper) ∧
        getCachedPower upper.e = (c, k) ∧
        Prepared bits lower upper c k ∧
        ∀ behind, grisu2 behind fuel bits =
          digitGen behind fuel ((DiyFp.ofDouble bits).normalize.mul c)
            (innerUpper upper c) (innerWidth lower upper c) k := by
  obtain ⟨lower, upper, hboundaries, hborder, hlo, hhi, hsame⟩ :=
    boundaries_of_positive hpositive hfuel
  obtain ⟨hpower, hshift⟩ := getCachedPower_spec hlo hhi
  obtain ⟨habove, hbelow⟩ :=
    scaled_number
      (by rw [DiyFp.ofDouble_eq]; exact hpositive.significand_pos)
      (by rw [DiyFp.ofDouble_eq]; exact (canonical_double bits).lt)
      (by rw [DiyFp.ofDouble_eq]; exact hborder) hsame hpower
  have hprepared :
      Prepared bits lower upper (getCachedPower upper.e).1
        (getCachedPower upper.e).2 :=
    ⟨hborder, hpower, hshift.1, hshift.2, habove, hbelow⟩
  refine ⟨lower, upper, _, _, hboundaries, rfl, hprepared, ?_⟩
  intro behind
  obtain ⟨hlarge, hwidth, _⟩ := scaled_width hborder hpower
  have hfits := DiyFp.mul_fits hborder.fits hpower.fits
  unfold DiyFp.Fits at hfits
  have hlowerWord :
      toUInt64 (((lower.mul (getCachedPower upper.e).1).f : ℤ) + 1) =
        (lower.mul (getCachedPower upper.e).1).f + 1 := by
    unfold toUInt64
    omega
  have hupperWord :
      toUInt64 (((upper.mul (getCachedPower upper.e).1).f : ℤ) - 1) =
        (upper.mul (getCachedPower upper.e).1).f - 1 := by
    unfold toUInt64
    omega
  have hwidthWord :
      toUInt64
          (((upper.mul (getCachedPower upper.e).1).f - 1 : ℕ) -
            ((lower.mul (getCachedPower upper.e).1).f + 1 : ℕ)) =
        innerWidth lower upper (getCachedPower upper.e).1 := by
    unfold toUInt64 innerWidth
    omega
  simp only [grisu2, hboundaries, Option.bind_eq_bind, Option.bind_some,
    hlowerWord, hupperWord, hwidthWord]
  rfl

/-- The digits and the exponent, up to the moves of the last digit. -/
theorem grisu2_digits
    {bits fuel : ℕ} (hpositive : IsPositive bits) (hfuel : 64 ≤ fuel) :
    ∃ d k, d < 10 ^ 17 ∧ ∀ behind, ∃ n, n ≤ d % 10 ∧ n < d ∧
      grisu2 behind fuel bits = some (digitsOf (d - n), k) ∧
        Within 52 (doubleSignificand bits) (doubleExponent bits)
          ((d - n : ℕ) * 10 ^ k) := by
  obtain ⟨lower, upper, c, k, -, -, hprepared, hgrisu⟩ :=
    grisu2_eq hpositive hfuel
  obtain ⟨hlarge, hwidth, hwide⟩ :=
    scaled_width hprepared.border hprepared.power
  obtain ⟨done, d, _, hcut, hround⟩ :=
    digitGen_settles hprepared.suitable (by omega : 20 ≤ fuel)
      ((DiyFp.ofDouble bits).normalize.mul c) k
  have hseventeen : d < 10 ^ 17 := by
    apply hcut.lt_of_wide
    unfold innerUpper innerWidth
    dsimp only
    omega
  refine ⟨d, k + done.kappa, hseventeen, ?_⟩
  intro behind
  obtain ⟨n, hsettled, hle, hlt, hrun⟩ := hround behind
  refine ⟨n, hle, hlt, (hgrisu behind).trans hrun, ?_⟩
  have hbelow := (hcut.between_iff hlt.le).mpr hsettled.inside
  have habove := hcut.le_whole.mpr (Nat.sub_le d n)
  have hexponent :
      (2 : ℚ) ^ (-(innerUpper upper c).e).toNat * 2 ^ (upper.mul c).e =
        1 := by
    have hle := hprepared.shift_ge
    rw [← zpow_natCast, ← zpow_add₀ (by norm_num)]
    have hzero :
        ((-(innerUpper upper c).e).toNat : ℤ) + (upper.mul c).e = 0 := by
      unfold innerUpper
      dsimp only
      omega
    rw [hzero, zpow_zero]
  have hunit : (0 : ℚ) ≤ 2 ^ (upper.mul c).e := by positivity
  have hback :
      ((d - n : ℕ) : ℚ) * 10 ^ done.kappa =
        (d - n : ℕ) * 10 ^ done.kappa *
            2 ^ (-(innerUpper upper c).e).toNat *
          2 ^ (upper.mul c).e := by
    rw [mul_assoc _ _ ((2 : ℚ) ^ (upper.mul c).e), hexponent, mul_one]
  have hwithin :
      Within 52 (doubleSignificand bits) (doubleExponent bits)
        ((d - n : ℕ) * 10 ^ done.kappa * 10 ^ (-(-k))) := by
    apply between_borders hprepared.border hprepared.power
    · rw [hback, value]
      apply mul_le_mul_of_nonneg_right _ hunit
      have hinner :
          (((lower.mul c).f + 1 : ℕ) : ℚ) =
            (innerUpper upper c).f - innerWidth lower upper c := by
        rw [eq_sub_iff_add_eq]
        have hnat :
            (lower.mul c).f + 1 + innerWidth lower upper c =
              (innerUpper upper c).f := by
          unfold innerUpper innerWidth
          dsimp only
          omega
        exact_mod_cast hnat
      rw [hinner]
      exact hbelow
    · rw [hback, value]
      exact mul_le_mul_of_nonneg_right habove hunit
  rw [neg_neg] at hwithin
  rwa [add_comm k, zpow_add₀ (by norm_num), ← mul_assoc]

/-! ## Reading the digits back -/

def doubleValue (bits : ℕ) : ℚ :=
  if bits / 2 ^ 63 % 2 = 0 then
    value (doubleSignificand bits) (doubleExponent bits)
  else -value (doubleSignificand bits) (doubleExponent bits)

/-- Nearer to the double than to any pattern with another value.  The patterns
behind the largest double stand for the next powers of two here, so the
rational does not overflow either. -/
def ReadsBack (q : ℚ) (bits : ℕ) : Prop :=
  ∀ other, doubleValue other ≠ doubleValue bits →
    |q - doubleValue bits| < |q - doubleValue other|

theorem IsPositive.doubleValue_eq
    {bits : ℕ} (hpositive : IsPositive bits) :
    doubleValue bits =
      value (doubleSignificand bits) (doubleExponent bits) := by
  have hlt := hpositive.lt
  rw [doubleValue, if_pos (by omega)]

theorem readsBack_of_within
    {bits : ℕ} {q : ℚ} (hpositive : IsPositive bits)
    (hwithin :
      Within 52 (doubleSignificand bits) (doubleExponent bits) q) :
    ReadsBack q bits := by
  intro other hne
  have hcanonical := canonical_double bits
  have hvalue := hpositive.doubleValue_eq
  rw [hvalue] at hne ⊢
  by_cases hsign : other / 2 ^ 63 % 2 = 0
  · rw [doubleValue, if_pos hsign] at hne ⊢
    exact hwithin.nearest hcanonical (canonical_double other) hne
  · rw [doubleValue, if_neg hsign]
    have hpos := hwithin.pos hpositive.significand_pos
    have hzero : Canonical 52 (-1074) 0 (-1074) :=
      ⟨by norm_num, le_rfl, Or.inr rfl⟩
    have hvaluePos :
        0 < value (doubleSignificand bits) (doubleExponent bits) := by
      have hsignificand := hpositive.significand_pos
      unfold value
      positivity
    have hless :=
      hwithin.nearest hcanonical hzero
        (by rw [value_zero]; exact hvaluePos.ne)
    rw [value_zero, sub_zero, abs_of_pos hpos] at hless
    have hother := value_nonneg (doubleSignificand other) (doubleExponent other)
    have hsum :
        0 < q + value (doubleSignificand other) (doubleExponent other) := by
      linarith
    rw [sub_neg_eq_add, abs_of_pos hsum]
    linarith

/-- For every positive double the conversion ends with at most seventeen digits
that read back as the double.  What stands behind the table of powers changes
the last of them at most. -/
theorem grisu2_reads_back
    {bits fuel : ℕ} (hpositive : IsPositive bits) (hfuel : 64 ≤ fuel) :
    ∃ front k, front < 10 ^ 16 ∧ ∀ behind, ∃ last < 10,
      0 < 10 * front + last ∧
        grisu2 behind fuel bits =
            some ((numeral 10 (10 * front + last)).map digitByte, k) ∧
          ReadsBack ((10 * front + last : ℕ) * 10 ^ k) bits := by
  obtain ⟨d, k, hlt, hall⟩ := grisu2_digits hpositive hfuel
  refine ⟨d / 10, k, by omega, ?_⟩
  intro behind
  obtain ⟨n, hle, hn, hrun, hwithin⟩ := hall behind
  have hparts : 10 * (d / 10) + (d % 10 - n) = d - n := by omega
  refine ⟨d % 10 - n, by omega, by omega, ?_, ?_⟩
  · rw [hparts, hrun, digitsOf, if_neg (by omega)]
  · rw [hparts]
    exact readsBack_of_within hpositive hwithin

theorem grisu2_reads_back_third :
    IsPositive 0x3FD5555555555555 ∧
      ∃ front k, front < 10 ^ 16 ∧ ∀ behind, ∃ last < 10,
        0 < 10 * front + last ∧
          grisu2 behind 64 0x3FD5555555555555 =
              some ((numeral 10 (10 * front + last)).map digitByte, k) ∧
            ReadsBack ((10 * front + last : ℕ) * 10 ^ k)
              0x3FD5555555555555 :=
  ⟨⟨by decide, by decide⟩, grisu2_reads_back ⟨by decide, by decide⟩ le_rfl⟩

/-! ## The closest digits -/

/-- If the table of powers is read inside its bounds, no multiple of the last
unit between the scaled borders is closer to the scaled number than the digits
are. -/
theorem grisu2_closest
    {bits fuel : ℕ} (hpositive : IsPositive bits) (hfuel : 64 ≤ fuel)
    (behind : ℕ → ℕ) :
    ∃ lower upper c k done,
      (DiyFp.ofDouble bits).normalizedBoundaries fuel =
          some (lower, upper) ∧
        getCachedPower upper.e = (c, k) ∧
        Prepared bits lower upper c k ∧
        generateDigits fuel (innerUpper upper c)
            (innerWidth lower upper c) = some done ∧
        (-9 ≤ done.kappa → ∃ d,
          grisu2 behind fuel bits = some (digitsOf d, k + done.kappa) ∧
            ClosestCandidate (innerUpper upper c)
              (innerWidth lower upper c)
              ((DiyFp.ofDouble bits).normalize.mul c) done.kappa d) := by
  obtain ⟨lower, upper, c, k, hboundaries, hcached, hprepared, hgrisu⟩ :=
    grisu2_eq hpositive hfuel
  obtain ⟨done, d, hdone, _⟩ :=
    generateDigits_cut hprepared.suitable (by omega : 20 ≤ fuel)
  refine ⟨lower, upper, c, k, done, hboundaries, hcached, hprepared, hdone,
    ?_⟩
  intro hkappa
  have habove := hprepared.above
  have hbelow := hprepared.below
  have hle :
      ((DiyFp.ofDouble bits).normalize.mul c).f ≤
        (innerUpper upper c).f := by
    unfold innerUpper
    dsimp only
    omega
  have hgap :
      (innerUpper upper c).f - ((DiyFp.ofDouble bits).normalize.mul c).f ≤
        innerWidth lower upper c := by
    unfold innerUpper innerWidth
    dsimp only
    omega
  obtain ⟨m, hrun, hclosest⟩ :=
    digitGen_closest hprepared.suitable (by omega : 20 ≤ fuel) hle hgap
      hdone hkappa behind k
  exact ⟨m, (hgrisu behind).trans hrun, hclosest⟩

theorem grisu2_closest_one :
    IsPositive 0x3FF0000000000000 ∧
      ∃ lower upper c k done,
        (DiyFp.ofDouble 0x3FF0000000000000).normalizedBoundaries 64 =
            some (lower, upper) ∧
          getCachedPower upper.e = (c, k) ∧
          Prepared 0x3FF0000000000000 lower upper c k ∧
          generateDigits 64 (innerUpper upper c)
              (innerWidth lower upper c) = some done ∧
          (-9 ≤ done.kappa → ∃ d,
            grisu2 (fun _ => 0) 64 0x3FF0000000000000 =
                some (digitsOf d, k + done.kappa) ∧
              ClosestCandidate (innerUpper upper c)
                (innerWidth lower upper c)
                ((DiyFp.ofDouble 0x3FF0000000000000).normalize.mul c)
                done.kappa d) :=
  ⟨⟨by decide, by decide⟩,
    grisu2_closest ⟨by decide, by decide⟩ le_rfl (fun _ => 0)⟩

end GreenTurtle.Num2a
