import Mathlib.Tactic

/-!
# Rounded arithmetic

Two ways of keeping the leading bits of an exact result.  Floating-point units
round to the nearest number with a given precision, and a tie goes to the even
one.  Routines that work on machine words keep the upper word of a product and
add one if the lower word is at least half of its range; the product may be
computed at once or from the halves of the factors.
-/

namespace GreenTurtle.RoundedArithmetic

/-! ## Nearest numbers with a given precision -/

/-- An integer times a power of two. -/
structure Scaled where
  significand : ℤ
  exponent : ℤ

def Scaled.ofInt (n : ℤ) : Scaled :=
  { significand := n, exponent := 0 }

/-- The significand in units of a smaller exponent. -/
def Scaled.units (x : Scaled) (exponent : ℤ) : ℤ :=
  x.significand * (2 ^ (x.exponent - exponent).toNat : ℕ)

/-- A quotient to the nearest integer. -/
def roundHalfEven (n d : ℕ) : ℕ :=
  if 2 * (n % d) < d ∨ 2 * (n % d) = d ∧ n / d % 2 = 0 then n / d
  else n / d + 1

def Scaled.round (precision : ℕ) (x : Scaled) : Scaled :=
  let magnitude := x.significand.natAbs
  let shift := magnitude.log2 + 1 - precision
  { significand :=
      x.significand.sign * roundHalfEven magnitude (2 ^ shift)
    exponent := x.exponent + shift }

def Scaled.mul (precision : ℕ) (x y : Scaled) : Scaled :=
  Scaled.round precision
    { significand := x.significand * y.significand
      exponent := x.exponent + y.exponent }

def Scaled.add (precision : ℕ) (x y : Scaled) : Scaled :=
  let exponent := min x.exponent y.exponent
  Scaled.round precision
    { significand := x.units exponent + y.units exponent
      exponent := exponent }

/-- The nearest number to a positive fraction. -/
def Scaled.ofFraction (precision n d : ℕ) : Scaled :=
  let shift := precision + d.log2 - n.log2
  let shift := if 2 ^ precision * d ≤ n * 2 ^ shift then shift - 1 else shift
  { significand := roundHalfEven (n * 2 ^ shift) d, exponent := -shift }

/-- The integer part, towards zero. -/
def Scaled.truncate (x : Scaled) : ℤ :=
  (x.units 0).tdiv (2 ^ (-x.exponent).toNat : ℕ)

def Scaled.same (x y : Scaled) : Bool :=
  let exponent := min x.exponent y.exponent
  x.units exponent == y.units exponent

/-! ## Upper words of products -/

section Products

variable {half a b : ℕ}

/-- The nearest multiple of `2 * half`, in units of it. -/
def roundedHigh (half a b : ℕ) : ℕ :=
  (a * b + half) / (2 * half)

theorem roundedHigh_le (half a b : ℕ) :
    2 * half * roundedHigh half a b ≤ a * b + half :=
  Nat.mul_div_le _ _

theorem lt_roundedHigh (hhalf : 0 < half) (a b : ℕ) :
    a * b < 2 * half * roundedHigh half a b + half := by
  have hlt :=
    Nat.lt_mul_div_succ (a * b + half) (by omega : 0 < 2 * half)
  unfold roundedHigh
  rw [Nat.mul_succ] at hlt
  omega

theorem roundedHigh_lt
    (ha : a < 2 * half) (hb : b < 2 * half) :
    roundedHigh half a b < 2 * half := by
  have hprod : a * b ≤ (2 * half - 1) * (2 * half - 1) :=
    Nat.mul_le_mul (by omega) (by omega)
  have hfits : a * b + half < 2 * half * (2 * half) := by
    obtain ⟨n, hn⟩ : ∃ n, 2 * half = n + 1 := ⟨2 * half - 1, by omega⟩
    rw [hn, Nat.add_sub_cancel] at hprod
    rw [hn]
    nlinarith
  exact Nat.div_lt_of_lt_mul hfits

/-- A product taken from the halves of the words. -/
theorem roundedHigh_eq_of_halves
    {quarter base : ℕ} (hbase : base = 2 * quarter) (hpos : 0 < quarter)
    (a b c d : ℕ) :
    roundedHigh (quarter * base) (a * base + b) (c * base + d) =
      a * c + a * d / base + b * c / base +
        (b * d / base + a * d % base + b * c % base + quarter) / base := by
  have hbasePos : 0 < base := by omega
  have had := Nat.div_add_mod (a * d) base
  have hbc := Nat.div_add_mod (b * c) base
  have hsplit :
      (a * base + b) * (c * base + d) + quarter * base =
        b * d +
          base *
            (a * c * base + a * d + b * c + quarter) := by
    ring
  have hregroup :
      b * d / base +
          (a * c * base + a * d + b * c + quarter) =
        b * d / base + a * d % base + b * c % base + quarter +
          base * (a * c + a * d / base + b * c / base) := by
    nlinarith
  unfold roundedHigh
  rw [show 2 * (quarter * base) = base * base by rw [hbase]; ring,
    ← Nat.div_div_eq_div_mul, hsplit, Nat.add_mul_div_left _ _ hbasePos,
    hregroup, Nat.add_mul_div_left _ _ hbasePos]
  ring

end Products

end GreenTurtle.RoundedArithmetic
