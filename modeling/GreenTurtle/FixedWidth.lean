import Mathlib.Tactic

/-!
# Fixed-width integer conversions

Machine integers are unbounded numbers with an explicit reduction at every
operation that can wrap.  This file names the reductions and proves when they
are the identity, together with the mask and shift facts used for tables whose
size is a power of two.
-/

namespace GreenTurtle.FixedWidth

/-- Conversion of an integer to an unsigned 64-bit value. -/
def toUInt64 (x : ℤ) : ℕ :=
  (x % 18446744073709551616).toNat

/-- Conversion of an integer to a signed 64-bit value. -/
def toInt64 (x : ℤ) : ℤ :=
  x.bmod 18446744073709551616

/-- Conversion of an integer to a signed 32-bit value. -/
def toInt32 (x : ℤ) : ℤ :=
  x.bmod 4294967296

theorem toUInt64_of_bounds
    {x : ℤ} (hnonneg : 0 ≤ x) (hlt : x < 18446744073709551616) :
    toUInt64 x = x.toNat := by
  unfold toUInt64
  omega

theorem toUInt64_natCast
    {n : ℕ} (hlt : n < 18446744073709551616) : toUInt64 n = n := by
  unfold toUInt64
  omega

theorem toUInt64_lt (x : ℤ) : toUInt64 x < 18446744073709551616 := by
  unfold toUInt64
  omega

theorem toUInt64_natCast_add
    {x y : ℕ} (hfits : x + y < 18446744073709551616) :
    toUInt64 (x + y) = x + y := by
  rw [toUInt64_of_bounds (by omega) (by omega)]
  omega

/-- The distance of two counters survives their wrapping. -/
theorem toUInt64_counter_sub
    {w r : ℕ} (hle : r ≤ w) (hlt : w - r < 18446744073709551616) :
    toUInt64 ((w % 18446744073709551616 : ℕ) -
        (r % 18446744073709551616 : ℕ)) =
      w - r := by
  unfold toUInt64
  omega

theorem toUInt64_counter_succ (w : ℕ) :
    toUInt64 ((w % 18446744073709551616 : ℕ) + 1) =
      (w + 1) % 18446744073709551616 := by
  unfold toUInt64
  omega

theorem toInt64_emod (x : ℤ) :
    toInt64 x % 18446744073709551616 = x % 18446744073709551616 := by
  unfold toInt64
  rw [Int.bmod_def]
  split <;> omega

/-- Only the residue of the argument matters, so a value may pass through a
signed 64-bit variable on its way to an unsigned sum. -/
theorem toUInt64_toInt64_add (x y : ℤ) :
    toUInt64 (toInt64 x + y) = toUInt64 (x + y) := by
  unfold toUInt64 toInt64
  rw [Int.bmod_def]
  split <;> omega

theorem toInt32_of_bounds
    {x : ℤ} (hlo : -2147483648 ≤ x) (hhi : x < 2147483648) :
    toInt32 x = x := by
  unfold toInt32
  rw [Int.bmod_def]
  split <;> omega

theorem toInt32_lt (x : ℤ) : toInt32 x < 2147483648 := by
  unfold toInt32
  rw [Int.bmod_def]
  split <;> omega

theorem two_pow_lt_wrap {k : ℕ} (hk : k < 64) :
    2 ^ k < 18446744073709551616 :=
  calc
    2 ^ k < 2 ^ 64 := Nat.pow_lt_pow_right (by norm_num) hk
    _ = 18446744073709551616 := by norm_num

theorem lt_of_two_pow_lt_wrap
    {k : ℕ} (hlt : 2 ^ k < 18446744073709551616) : k < 64 := by
  by_contra hge
  have hle : 2 ^ 64 ≤ 2 ^ k :=
    Nat.pow_le_pow_right (by norm_num) (not_lt.mp hge)
  omega

/-- A 64-bit wrap is invisible after masking with a smaller power of two. -/
theorem mod_wrap_mod_two_pow (x : ℕ) {k : ℕ} (hk : k ≤ 64) :
    x % 18446744073709551616 % 2 ^ k = x % 2 ^ k := by
  have hdvd : 2 ^ k ∣ 18446744073709551616 :=
    (pow_dvd_pow 2 hk).trans (by norm_num)
  exact Nat.mod_mod_of_dvd x hdvd

theorem and_two_pow_eq_zero_iff (x i : ℕ) :
    x &&& 2 ^ i = 0 ↔ x / 2 ^ i % 2 = 0 := by
  constructor
  · intro hzero
    have hbit : (x &&& 2 ^ i).testBit i = (0 : ℕ).testBit i := by
      rw [hzero]
    rw [Nat.testBit_and, Nat.testBit_two_pow_self, Bool.and_true,
      Nat.zero_testBit, Nat.testBit_eq_decide_div_mod_eq,
      decide_eq_false_iff_not] at hbit
    omega
  · intro heven
    apply Nat.eq_of_testBit_eq
    intro j
    rw [Nat.testBit_and, Nat.zero_testBit]
    by_cases hj : i = j
    · rw [← hj, Nat.testBit_eq_decide_div_mod_eq]
      simp [heven]
    · rw [Nat.testBit_two_pow_of_ne hj, Bool.and_false]

/-- The leading bit of a number is set or the number has fewer bits. -/
theorem and_two_pow_eq_zero_iff_lt {x i : ℕ} (hlt : x < 2 ^ (i + 1)) :
    x &&& 2 ^ i = 0 ↔ x < 2 ^ i := by
  have hpos : 0 < 2 ^ i := Nat.two_pow_pos i
  have hdiv : x / 2 ^ i < 2 :=
    Nat.div_lt_of_lt_mul (by rwa [pow_succ] at hlt)
  rw [and_two_pow_eq_zero_iff, Nat.mod_eq_of_lt hdiv,
    Nat.div_eq_zero_iff_lt hpos]

end GreenTurtle.FixedWidth
