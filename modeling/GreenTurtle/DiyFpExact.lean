import GreenTurtle.BinaryFormat
import GreenTurtle.GrisuModel
import Mathlib.Tactic

/-!
# What the significands of 64 bits stand for

A finite double is a number of the format with 52 stored bits.  `DiyFp` takes
it apart exactly, and the shifts of `Normalize` and `NormalizedBoundaries` lose
nothing: the number and the two borders are brought to one exponent, in which
the upper border fills the word.  Products are rounded, and the three ways of
computing them give the same word.
-/

namespace GreenTurtle.Num2a

open BinaryFormat
open FixedWidth
open Iteration
open RoundedArithmetic

/-! ## Doubles -/

def exponentField (bits : ℕ) : ℕ :=
  bits / 2 ^ 52 % 2048

def doubleSignificand (bits : ℕ) : ℕ :=
  if exponentField bits = 0 then bits % 2 ^ 52 else bits % 2 ^ 52 + 2 ^ 52

def doubleExponent (bits : ℕ) : ℤ :=
  if exponentField bits = 0 then -1074 else exponentField bits - 1075

/-- The patterns of the positive finite numbers. -/
structure IsPositive (bits : ℕ) : Prop where
  pos : 0 < bits
  lt : bits < 0x7FF0000000000000

theorem DiyFp.ofDouble_eq (bits : ℕ) :
    DiyFp.ofDouble bits =
      { f := doubleSignificand bits, e := doubleExponent bits } := by
  have hfield :
      (bits &&& kDpExponentMask) >>> kDpSignificandSize =
        exponentField bits := by
    rw [Nat.shiftRight_and_distrib, Nat.shiftRight_eq_div_pow]
    exact Nat.and_two_pow_sub_one_eq_mod _ 11
  have hfraction : bits &&& kDpSignificandMask = bits % 2 ^ 52 :=
    Nat.and_two_pow_sub_one_eq_mod bits 52
  unfold ofDouble doubleSignificand doubleExponent
  simp only [hfield, hfraction]
  by_cases hzero : exponentField bits = 0
  · rw [if_neg (not_not.mpr hzero), if_pos hzero, if_pos hzero]
    rfl
  · rw [if_pos hzero, if_neg hzero, if_neg hzero]
    rfl

section Positive

variable {bits : ℕ}

theorem canonical_double (bits : ℕ) :
    Canonical 52 (-1074) (doubleSignificand bits) (doubleExponent bits) := by
  have hmod : bits % 2 ^ 52 < 2 ^ 52 := Nat.mod_lt _ (by norm_num)
  unfold doubleSignificand doubleExponent
  by_cases hzero : exponentField bits = 0
  · rw [if_pos hzero, if_pos hzero]
    exact ⟨by omega, le_rfl, Or.inr rfl⟩
  · rw [if_neg hzero, if_neg hzero]
    exact ⟨by omega, by omega, Or.inl (by omega)⟩

/-- The value of a pattern without its sign. -/
def magnitude (bits : ℕ) : ℚ :=
  value (doubleSignificand bits) (doubleExponent bits)

/-- The next pattern is the next number, one unit above. -/
theorem magnitude_succ (hlt : bits < 0x7FF0000000000000) :
    magnitude (bits + 1) = magnitude bits + 2 ^ doubleExponent bits := by
  unfold magnitude doubleSignificand doubleExponent
  by_cases hcarry : bits % 2 ^ 52 + 1 < 2 ^ 52
  · have hfield : exponentField (bits + 1) = exponentField bits := by
      unfold exponentField
      omega
    have hfraction : (bits + 1) % 2 ^ 52 = bits % 2 ^ 52 + 1 := by omega
    rw [hfield, hfraction]
    split
    next => exact value_succ _ _
    next =>
      rw [Nat.add_right_comm]
      exact value_succ _ _
  · -- the fraction is full, so that the exponent grows
    have hfield : exponentField (bits + 1) = exponentField bits + 1 := by
      unfold exponentField
      omega
    have hfraction : (bits + 1) % 2 ^ 52 = 0 := by omega
    have hfull : bits % 2 ^ 52 = 2 ^ 52 - 1 := by omega
    rw [hfield, hfraction, hfull, if_neg (Nat.succ_ne_zero _),
      if_neg (Nat.succ_ne_zero _), ← value_succ]
    by_cases hzero : exponentField bits = 0
    · rw [if_pos hzero, if_pos hzero, hzero]
      rfl
    · rw [if_neg hzero, if_neg hzero,
        show ((exponentField bits + 1 : ℕ) : ℤ) - 1075 =
          (exponentField bits - 1075 : ℤ) + 1 by push_cast; ring,
        value_add_one]
      rfl

/-- The distance to the number below is known except at the least normal
number. -/
theorem gapBelow_eq (hpos : 0 < bits) (hnormal : bits ≠ 2 ^ 52)
    (hlt : bits < 0x7FF0000000000000) :
    gapBelow 52 (doubleSignificand bits) (doubleExponent bits) =
      2 ^ doubleExponent (bits - 1) := by
  have hmod : bits % 2 ^ 52 < 2 ^ 52 := Nat.mod_lt _ (by norm_num)
  unfold gapBelow doubleSignificand doubleExponent
  by_cases hfraction : bits % 2 ^ 52 = 0
  · have hfield : exponentField bits = exponentField (bits - 1) + 1 := by
      unfold exponentField
      omega
    have hbefore : exponentField (bits - 1) ≠ 0 := by
      unfold exponentField
      omega
    rw [if_neg (by omega : exponentField bits ≠ 0), hfraction,
      if_pos (zero_add _), if_neg (by omega), if_neg hbefore, hfield]
    congr 1
    push_cast
    ring
  · have hfield : exponentField (bits - 1) = exponentField bits := by
      unfold exponentField
      omega
    rw [hfield, if_neg]
    split <;> omega

theorem doubleExponent_le (hfinite : exponentField bits ≠ 2047) :
    doubleExponent bits ≤ 971 := by
  unfold doubleExponent
  split
  next => norm_num
  next =>
    have hlt : exponentField bits < 2048 := Nat.mod_lt _ (by norm_num)
    omega

theorem IsPositive.finite (hpositive : IsPositive bits) :
    exponentField bits ≠ 2047 := by
  have hlt := hpositive.lt
  unfold exponentField
  omega

theorem IsPositive.significand_pos (hpositive : IsPositive bits) :
    0 < doubleSignificand bits := by
  have hpos := hpositive.pos
  have hlt := hpositive.lt
  unfold doubleSignificand exponentField
  split <;> omega

end Positive

namespace DiyFp

/-! ## Products -/

/-- A significand that fits into its word. -/
def Fits (x : DiyFp) : Prop :=
  x.f < 2 ^ 64

variable {x y : DiyFp}

theorem mul_f (hx : x.Fits) (hy : y.Fits) :
    (x.mul y).f = roundedHigh (2 ^ 63) x.f y.f := by
  have hhigh : roundedHigh (2 ^ 63) x.f y.f < 2 ^ 64 := roundedHigh_lt hx hy
  have hbit := @and_two_pow_eq_zero_iff_lt (x.f * y.f % 2 ^ 64) 63
    (Nat.mod_lt _ (by norm_num))
  have hlow : toUInt64 (x.f * y.f : ℕ) = x.f * y.f % 2 ^ 64 := by
    unfold toUInt64
    omega
  unfold mul
  unfold roundedHigh at hhigh ⊢
  simp only [Nat.shiftRight_eq_div_pow, hlow, Nat.one_shiftLeft, ne_eq,
    hbit]
  generalize x.f * y.f = p at hhigh ⊢
  split
  next hlower =>
    rw [toUInt64_natCast (by omega)]
    omega
  next hlower => omega

theorem mul_fits (hx : x.Fits) (hy : y.Fits) : (x.mul y).Fits := by
  unfold Fits
  rw [mul_f hx hy]
  exact roundedHigh_lt hx hy

theorem mulPortable_f (hx : x.Fits) (hy : y.Fits) :
    (x.mulPortable y).f = roundedHigh (2 ^ 63) x.f y.f := by
  have hhigh : roundedHigh (2 ^ 63) x.f y.f < 2 ^ 64 := roundedHigh_lt hx hy
  have hmask : ∀ n : ℕ, n &&& 0xFFFFFFFF = n % 2 ^ 32 := fun n =>
    Nat.and_two_pow_sub_one_eq_mod n 32
  have hhalves :=
    roundedHigh_eq_of_halves (by norm_num : 2 ^ 32 = 2 * 2 ^ 31)
      (by norm_num) (x.f / 2 ^ 32) (x.f % 2 ^ 32) (y.f / 2 ^ 32)
      (y.f % 2 ^ 32)
  rw [Nat.div_add_mod', Nat.div_add_mod',
    show 2 ^ 31 * 2 ^ 32 = 2 ^ 63 by norm_num] at hhalves
  have hword :
      ∀ m n : ℕ, m < 2 ^ 32 → n < 2 ^ 32 →
        m * n < 18446744073709551616 := by
    intro m n hm hn
    calc m * n < 2 ^ 32 * 2 ^ 32 := Nat.mul_lt_mul'' hm hn
      _ = 18446744073709551616 := by norm_num
  have ha : x.f / 2 ^ 32 < 2 ^ 32 := by
    unfold Fits at hx
    omega
  have hc : y.f / 2 ^ 32 < 2 ^ 32 := by
    unfold Fits at hy
    omega
  have hb : x.f % 2 ^ 32 < 2 ^ 32 := Nat.mod_lt _ (by norm_num)
  have hd : y.f % 2 ^ 32 < 2 ^ 32 := Nat.mod_lt _ (by norm_num)
  unfold mulPortable
  simp only [Nat.shiftRight_eq_div_pow, hmask,
    toUInt64_natCast (hword _ _ ha hc), toUInt64_natCast (hword _ _ hb hc),
    toUInt64_natCast (hword _ _ ha hd), toUInt64_natCast (hword _ _ hb hd)]
  have hbd := hword _ _ hb hd
  generalize x.f / 2 ^ 32 * (y.f / 2 ^ 32) = ac at hhalves ⊢
  generalize x.f / 2 ^ 32 * (y.f % 2 ^ 32) = ad at hhalves ⊢
  generalize x.f % 2 ^ 32 * (y.f / 2 ^ 32) = bc at hhalves ⊢
  generalize x.f % 2 ^ 32 * (y.f % 2 ^ 32) = bd at hbd hhalves ⊢
  have hsum :
      toUInt64 (bd / 2 ^ 32 + ad % 2 ^ 32 + bc % 2 ^ 32 : ℕ) =
        bd / 2 ^ 32 + ad % 2 ^ 32 + bc % 2 ^ 32 :=
    toUInt64_natCast (by omega)
  have hround :
      toUInt64
          (bd / 2 ^ 32 + ad % 2 ^ 32 + bc % 2 ^ 32 + 2 ^ 31 : ℕ) =
        bd / 2 ^ 32 + ad % 2 ^ 32 + bc % 2 ^ 32 + 2 ^ 31 :=
    toUInt64_natCast (by omega)
  rw [hsum, Nat.one_shiftLeft, hround, ← hhalves]
  exact toUInt64_natCast hhigh

/-! ## Shifts -/

theorem two_pow_le_mul_clz {f : ℕ} (hpos : 0 < f) (hlt : f < 2 ^ 64) :
    2 ^ 63 ≤ f * 2 ^ clz f := by
  have hlog : f.log2 < 64 := (Nat.log2_lt hpos.ne').mpr hlt
  calc 2 ^ 63 = 2 ^ f.log2 * 2 ^ clz f := by
        rw [← pow_add, clz]
        congr 1
        omega
    _ ≤ f * 2 ^ clz f :=
        Nat.mul_le_mul_right _ (Nat.log2_self_le hpos.ne')

theorem mul_clz_lt {f : ℕ} (hpos : 0 < f) (hlt : f < 2 ^ 64) :
    f * 2 ^ clz f < 2 ^ 64 := by
  have hlog : f.log2 < 64 := (Nat.log2_lt hpos.ne').mpr hlt
  calc f * 2 ^ clz f < 2 ^ (f.log2 + 1) * 2 ^ clz f :=
        Nat.mul_lt_mul_of_pos_right Nat.lt_log2_self (Nat.two_pow_pos _)
    _ = 2 ^ 64 := by
        rw [← pow_add, clz]
        congr 1
        omega

theorem normalize_eq (hpos : 0 < x.f) (hx : x.Fits) :
    x.normalize = { f := x.f * 2 ^ clz x.f, e := x.e - clz x.f } := by
  simp only [normalize, Nat.shiftLeft_eq,
    toUInt64_natCast (mul_clz_lt hpos hx)]

/-- The exponents that the normalized doubles have. -/
theorem normalize_exponent
    (hpos : 0 < x.f) (hcanonical : Canonical 52 (-1074) x.f x.e)
    (hle : x.e ≤ 971) :
    -1137 ≤ x.normalize.e ∧ x.normalize.e ≤ 960 := by
  have hlt := hcanonical.lt
  have hleast := hcanonical.least_le
  have hlog : x.f.log2 < 53 := (Nat.log2_lt hpos.ne').mpr hlt
  have hfits : x.Fits := hlt.trans (by norm_num)
  have hfull : 2 ^ 52 ≤ x.f → 52 ≤ x.f.log2 := (Nat.le_log2 hpos.ne').mpr
  rw [normalize_eq hpos hfits]
  unfold clz
  rcases hcanonical.full with hlead | heq
  · have hbits := hfull hlead
    constructor <;> dsimp only <;> omega
  · constructor <;> dsimp only <;> omega

/-- The loop ends with the significand whose leading bit is the asked one. -/
theorem iterate_shiftBody
    {n k fuel f : ℕ} (e : ℤ) (hn : n < 63) (hset : 2 ^ n ≤ f * 2 ^ k)
    (hlt : f * 2 ^ k < 2 ^ (n + 1)) (hfuel : k < fuel) :
    iterate (shiftBody (2 ^ n)) fuel { f := f, e := e } =
      some { f := f * 2 ^ k, e := e - k } := by
  have hword : 2 ^ (n + 1) ≤ 2 ^ 63 :=
    Nat.pow_le_pow_right (by norm_num) (by omega)
  induction k generalizing f e fuel with
  | zero =>
      obtain ⟨rest, rfl⟩ : ∃ rest, fuel = rest + 1 := ⟨fuel - 1, by omega⟩
      rw [pow_zero, mul_one] at hset hlt
      have hbit : ¬ (f &&& 2 ^ n = 0) := by
        rw [and_two_pow_eq_zero_iff_lt hlt]
        omega
      simp only [iterate, shiftBody, if_neg hbit, pow_zero, mul_one,
        Nat.cast_zero, sub_zero]
  | succ k ih =>
      obtain ⟨rest, rfl⟩ : ∃ rest, fuel = rest + 1 := ⟨fuel - 1, by omega⟩
      have hmore : f * 2 ^ (k + 1) = f * 2 * 2 ^ k := by ring
      rw [hmore] at hset hlt ⊢
      have hdouble : f * 2 < 2 ^ (n + 1) :=
        lt_of_le_of_lt (Nat.le_mul_of_pos_right _ (Nat.two_pow_pos k)) hlt
      have hbit : f &&& 2 ^ n = 0 := by
        rw [and_two_pow_eq_zero_iff_lt (by omega)]
        rw [pow_succ] at hdouble
        omega
      have hbody :
          shiftBody (2 ^ n) { f := f, e := e } =
            .inl { f := f * 2, e := e - 1 } := by
        simp only [shiftBody, if_pos hbit, Nat.shiftLeft_eq, pow_one,
          toUInt64_natCast (by omega : f * 2 < 18446744073709551616)]
      rw [iterate_of_next hbody, ih (e - 1) hset hlt (by omega)]
      simp only [Option.some.injEq, DiyFp.mk.injEq, true_and]
      push_cast
      ring

theorem shiftTo_eq
    {n places fuel : ℕ} (hplaces : n + places = 63) (hn : n < 63)
    (hpos : 0 < x.f) (hlt : x.f < 2 ^ (n + 1)) (hfuel : 64 ≤ fuel) :
    shiftTo fuel (2 ^ n) places x = some x.normalize := by
  have hword : 2 ^ (n + 1) ≤ 2 ^ 63 :=
    Nat.pow_le_pow_right (by norm_num) (by omega)
  have hx : x.Fits := by
    unfold Fits
    omega
  have hlog : x.f.log2 < n + 1 := (Nat.log2_lt hpos.ne').mpr hlt
  have hclz : clz x.f = n - x.f.log2 + places := by
    unfold clz
    omega
  have hfull := two_pow_le_mul_clz hpos hx
  have hfits := mul_clz_lt hpos hx
  have hsplit :
      x.f * 2 ^ clz x.f = x.f * 2 ^ (n - x.f.log2) * 2 ^ places := by
    rw [hclz, pow_add, mul_assoc]
  rw [hsplit, ← hplaces, pow_add] at hfull
  rw [hsplit, show 64 = n + 1 + places by omega, pow_add] at hfits
  rw [normalize_eq hpos hx, shiftTo,
    iterate_shiftBody x.e hn
      (Nat.le_of_mul_le_mul_right hfull (Nat.two_pow_pos _))
      (Nat.lt_of_mul_lt_mul_right hfits) (by omega)]
  have hshifted :=
    toUInt64_natCast (mul_clz_lt hpos hx)
  rw [hsplit] at hshifted
  rw [Option.map_some, Nat.shiftLeft_eq, hshifted, hsplit, hclz]
  simp only [Option.some.injEq, DiyFp.mk.injEq, true_and]
  push_cast
  ring

theorem normalizeBoundary_eq
    {fuel : ℕ} (hpos : 0 < x.f) (hlt : x.f < 2 ^ 54) (hfuel : 64 ≤ fuel) :
    x.normalizeBoundary fuel = some x.normalize :=
  shiftTo_eq (by decide) (by norm_num) hpos hlt hfuel

/-- The variants without compiler intrinsics compute the same. -/
theorem portable_agrees
    {fuel : ℕ} (hx : x.Fits) (hy : y.Fits) (hfuel : 64 ≤ fuel) :
    x.mulPortable y = x.mul y ∧
      (0 < x.f → x.f < 2 ^ 53 →
        x.normalizePortable fuel = some x.normalize) := by
  constructor
  · have hproduct := (mulPortable_f hx hy).trans (mul_f hx hy).symm
    have hexponent : (x.mulPortable y).e = (x.mul y).e := rfl
    generalize x.mulPortable y = portable at hproduct hexponent ⊢
    generalize x.mul y = product at hproduct hexponent ⊢
    cases portable
    cases product
    rw [DiyFp.mk.injEq]
    exact ⟨hproduct, hexponent⟩
  · intro hpos hlt
    exact shiftTo_eq (by decide) (by norm_num) hpos hlt hfuel

theorem portable_agrees_largest :
    (DiyFp.mk (2 ^ 53 - 1) 0).mulPortable { f := 2 ^ 64 - 1, e := 0 } =
        (DiyFp.mk (2 ^ 53 - 1) 0).mul { f := 2 ^ 64 - 1, e := 0 } ∧
      (0 < 2 ^ 53 - 1 → 2 ^ 53 - 1 < 2 ^ 53 →
        (DiyFp.mk (2 ^ 53 - 1) 0).normalizePortable 64 =
          some (DiyFp.mk (2 ^ 53 - 1) 0).normalize) :=
  portable_agrees (by unfold Fits; norm_num) (by unfold Fits; norm_num)
    le_rfl

/-! ## Borders -/

/-- Borders of an interval that rounds to a number, in units of one
exponent. -/
structure Bordered (f : ℕ) (e : ℤ) (lower upper : DiyFp) : Prop where
  full : 2 ^ 63 ≤ upper.f
  fits : upper.Fits
  same : lower.e = upper.e
  width : lower.f + 1536 ≤ upper.f
  share : upper.f ≤ 2 ^ 53 * (upper.f - lower.f)
  above : value upper.f upper.e = value f e + 2 ^ e / 2
  below : value lower.f lower.e = value f e - gapBelow 52 f e / 2

theorem clz_double_add_one {f : ℕ} (hpos : 0 < f) (hlt : f < 2 ^ 53) :
    clz f = clz (2 * f + 1) + 1 := by
  have hlog : f.log2 < 53 := (Nat.log2_lt hpos.ne').mpr hlt
  have hself := Nat.log2_self_le hpos.ne'
  have hless := @Nat.lt_log2_self f
  have hnext : (2 * f + 1).log2 = f.log2 + 1 := by
    rw [Nat.log2_eq_iff (by omega), pow_succ 2 (f.log2 + 1)]
    rw [pow_succ] at hless ⊢
    omega
  unfold clz
  omega

theorem value_shifted (f : ℕ) (e : ℤ) (t : ℕ) :
    value (f * 2 ^ t) (e - t) = value f e := by
  unfold value
  rw [zpow_sub₀ (by norm_num), zpow_natCast]
  push_cast
  field_simp

/-- The lower border before the shift. -/
def lowerBorder (x : DiyFp) : DiyFp :=
  if x.f = 2 ^ 52 then { f := 4 * x.f - 1, e := x.e - 2 }
  else { f := 2 * x.f - 1, e := x.e - 1 }

theorem value_lowerBorder (hpos : 0 < x.f) :
    value x.lowerBorder.f x.lowerBorder.e =
      value x.f x.e - gapBelow 52 x.f x.e / 2 := by
  have hone : (2 : ℚ) ^ (x.e - 1) = 2 ^ x.e / 2 := two_zpow_sub_one x.e
  have htwo : (2 : ℚ) ^ (x.e - 2) = 2 ^ x.e / 4 := by
    rw [show x.e - 2 = x.e - 1 - 1 by ring, two_zpow_sub_one, hone]
    ring
  unfold lowerBorder gapBelow value
  split
  next =>
    rw [Nat.cast_sub (by omega), htwo, hone]
    push_cast
    ring
  next =>
    rw [Nat.cast_sub (by omega), hone]
    push_cast
    ring

/-- The lower border in the units of the upper one. -/
theorem lowerBorder_shifted
    {t : ℕ} (hpos : 0 < x.f) (hlt : x.f < 2 ^ 53) (hten : 10 ≤ t) :
    ∃ s : ℕ,
      x.lowerBorder.e - s = x.e - 1 - t ∧
        x.lowerBorder.f * 2 ^ s + 1536 ≤ (2 * x.f + 1) * 2 ^ t ∧
          (2 * x.f + 1) * 2 ^ t ≤
            2 ^ 53 *
              ((2 * x.f + 1) * 2 ^ t - x.lowerBorder.f * 2 ^ s) := by
  have hlarge : 2 ^ 10 ≤ 2 ^ t := Nat.pow_le_pow_right (by norm_num) hten
  unfold lowerBorder
  split
  next hhidden =>
    have hsplit : 2 ^ t = 2 * 2 ^ (t - 1) := by
      rw [← pow_succ']
      congr 1
      omega
    refine ⟨t - 1, ?_, ?_, ?_⟩
    · dsimp only
      omega
    all_goals
      dsimp only
      rw [hhidden, hsplit]
      omega
  next =>
    have hwidth :
        (2 * x.f + 1) * 2 ^ t = (2 * x.f - 1) * 2 ^ t + 2 * 2 ^ t := by
      rw [← add_mul]
      congr 1
      omega
    refine ⟨t, rfl, ?_, ?_⟩
    · dsimp only
      omega
    · rw [hwidth, Nat.add_sub_cancel_left, ← hwidth, ← mul_assoc]
      exact Nat.mul_le_mul_right _ (by omega)

theorem normalizedBoundaries_eq
    {fuel : ℕ} (hpos : 0 < x.f) (hlt : x.f < 2 ^ 53) (hfuel : 64 ≤ fuel) :
    ∃ lower upper,
      x.normalizedBoundaries fuel = some (lower, upper) ∧
        upper.e = x.normalize.e ∧ Bordered x.f x.e lower upper := by
  have hclz := clz_double_add_one hpos hlt
  have hfull := two_pow_le_mul_clz (f := 2 * x.f + 1) (by omega) (by omega)
  have hfits := mul_clz_lt (f := 2 * x.f + 1) (by omega) (by omega)
  have hten : 10 ≤ clz (2 * x.f + 1) := by
    have hlog : (2 * x.f + 1).log2 < 54 :=
      (Nat.log2_lt (by omega)).mpr (by omega)
    unfold clz
    omega
  obtain ⟨s, hexponent, hwidth, hshare⟩ := lowerBorder_shifted hpos hlt hten
  have hupper :
      (DiyFp.mk (toUInt64 ((x.f <<< 1) + 1 : ℕ)) (x.e - 1)).normalizeBoundary
          fuel =
        some
          { f := (2 * x.f + 1) * 2 ^ clz (2 * x.f + 1)
            e := x.e - 1 - clz (2 * x.f + 1) } := by
    have hword : toUInt64 ((x.f <<< 1) + 1 : ℕ) = 2 * x.f + 1 := by
      rw [Nat.shiftLeft_eq, pow_one, toUInt64_natCast (by omega), mul_comm]
    have hpositive : 0 < (DiyFp.mk (2 * x.f + 1) (x.e - 1)).f := by
      dsimp only
      omega
    have hless : (DiyFp.mk (2 * x.f + 1) (x.e - 1)).f < 2 ^ 54 := by
      dsimp only
      omega
    rw [hword, normalizeBoundary_eq hpositive hless hfuel,
      normalize_eq hpositive (hless.trans (by norm_num))]
  have hlower :
      (if x.f = kDpHiddenBit then
          DiyFp.mk (toUInt64 ((x.f <<< 2 : ℕ) - 1)) (x.e - 2)
        else { f := toUInt64 ((x.f <<< 1 : ℕ) - 1), e := x.e - 1 }) =
        x.lowerBorder := by
    rw [lowerBorder, show kDpHiddenBit = 2 ^ 52 from rfl,
      Nat.shiftLeft_eq, Nat.shiftLeft_eq, toUInt64_of_bounds (by omega)
        (by omega), toUInt64_of_bounds (by omega) (by omega)]
    congr 2 <;> omega
  refine ⟨{ f := x.lowerBorder.f * 2 ^ s,
            e := x.e - 1 - clz (2 * x.f + 1) },
    { f := (2 * x.f + 1) * 2 ^ clz (2 * x.f + 1),
      e := x.e - 1 - clz (2 * x.f + 1) }, ?_, ?_, ?_⟩
  · have hplaces :
        (x.lowerBorder.e - (x.e - 1 - clz (2 * x.f + 1))).toNat = s := by
      omega
    have hword :
        toUInt64 (x.lowerBorder.f <<< s : ℕ) = x.lowerBorder.f * 2 ^ s := by
      rw [Nat.shiftLeft_eq]
      exact toUInt64_natCast (by omega)
    rw [normalizedBoundaries, hupper]
    simp only [Option.bind_eq_bind, Option.bind_some, hlower, hplaces, hword]
  · rw [normalize_eq hpos (by unfold Fits; omega), hclz]
    push_cast
    ring
  · exact
      { full := hfull
        fits := hfits
        same := rfl
        width := hwidth
        share := hshare
        above := by
          rw [value_shifted, value, value, two_zpow_sub_one]
          push_cast
          ring
        below := by
          rw [← value_lowerBorder hpos, ← hexponent]
          exact value_shifted _ _ s }

end DiyFp

end GreenTurtle.Num2a
