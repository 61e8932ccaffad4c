import GreenTurtle.TimerTermination
import Mathlib.Tactic

/-!
# What the constructor of the timer wheel checks

The two asserts of `TimerQueue::TimerQueue`.  They are meant to let powers of
two through and nothing else.  The complement makes a number out of the test
that is never zero, so they let everything through.
-/

namespace GreenTurtle.Timers

open FixedWidth

/-- The condition `~(x & (x - 1))`. -/
def assertTwoPow (x : UInt64) : Bool := ~~~(x &&& (x - 1)) != 0

/-- What the rest of the wheel relies on: the exponent loop has ended with the
exponent of the interval, and the mask takes remainders. -/
def Established (slotSize interval : UInt64) : Prop :=
  ∃ queue, TimerQueue.new slotSize.toNat interval.toNat = some queue ∧
    2 ^ queue.intervalExponent = interval.toNat ∧ 0 < slotSize.toNat ∧
    ∀ x : UInt64, x.toNat &&& queue.slotMask = x.toNat % slotSize.toNat

/-- A number and its predecessor do not have the lowest bit in common. -/
theorem and_sub_one_even (x : UInt64) : (x &&& (x - 1)).toNat % 2 = 0 := by
  have hlt := x.toNat_lt
  have hpred : (x - 1).toNat % 2 = (x.toNat + 1) % 2 := by
    rw [UInt64.toNat_sub]
    simp only [UInt64.toNat_one]
    omega
  rw [UInt64.toNat_and, Nat.mod_two_eq_zero_iff_testBit_zero,
    Nat.testBit_and, Nat.testBit_zero, Nat.testBit_zero, hpred]
  rcases Nat.mod_two_eq_zero_or_one x.toNat with hx | hx
  · simp [hx]
  · have hnext : (x.toNat + 1) % 2 = 0 := by omega
    simp [hnext]

theorem assertTwoPow_eq_true (x : UInt64) : assertTwoPow x = true := by
  have heven := and_sub_one_even x
  unfold assertTwoPow
  rw [bne_iff_ne]
  intro hzero
  have hones : x &&& (x - 1) = ~~~0 := by
    rw [← hzero, UInt64.not_not]
  rw [hones] at heven
  revert heven
  decide

theorem slotMask_of_new
    {slotSize interval : ℕ} {queue : TimerQueue}
    (hnew : TimerQueue.new slotSize interval = some queue) :
    queue.slotMask = toUInt64 (slotSize - 1) := by
  rw [WheelClock.slotMask, (TimerQueue.new_eq_some hnew).1]

theorem Established.powers
    {slotSize interval : UInt64} (hest : Established slotSize interval) :
    slotSize.toNat.isPowerOfTwo ∧ interval.toNat.isPowerOfTwo := by
  obtain ⟨queue, hnew, hexponent, hpos, hmask⟩ := hest
  refine ⟨?_, ⟨_, hexponent.symm⟩⟩
  have hlt := slotSize.toNat_lt
  -- the mask takes the size itself to remainder zero
  have hself := hmask slotSize
  rw [slotMask_of_new hnew,
    toUInt64_of_bounds (by omega) (by omega), Nat.mod_self,
    show ((slotSize.toNat : ℤ) - 1).toNat = slotSize.toNat - 1 by omega]
    at hself
  exact (Nat.and_sub_one_eq_zero_iff_isPowerOfTwo hpos.ne').mp hself

theorem established_of_powers
    {slotSize interval : UInt64} (hslots : slotSize.toNat.isPowerOfTwo)
    (hinterval : interval.toNat.isPowerOfTwo) :
    Established slotSize interval := by
  obtain ⟨a, ha⟩ := hslots
  obtain ⟨b, hb⟩ := hinterval
  have halt : a < 64 :=
    lt_of_two_pow_lt_wrap (ha ▸ slotSize.toNat_lt)
  have hblt : b < 64 :=
    lt_of_two_pow_lt_wrap (hb ▸ interval.toNat_lt)
  obtain ⟨queue, hnew, hclock, -⟩ := new_two_pow a hblt
  have hsize : queue.slotSize = 2 ^ a := (TimerQueue.new_eq_some hnew).1
  have hmask := WheelClock.slotMask_two_pow hsize halt
  unfold Established
  rw [ha, hb]
  refine ⟨queue, hnew, ?_, by positivity, ?_⟩
  · rw [hclock]
    rfl
  · intro x
    rw [hmask, Nat.and_two_pow_sub_one_eq_mod]

/-- The asserts establish the arithmetic of the wheel exactly for powers of
two: they keep no other value away. -/
theorem asserts_establish_iff (slotSize interval : UInt64) :
    (assertTwoPow slotSize → assertTwoPow interval →
        Established slotSize interval) ↔
      slotSize.toNat.isPowerOfTwo ∧ interval.toNat.isPowerOfTwo := by
  constructor
  · intro hestablish
    exact
      (hestablish (assertTwoPow_eq_true _)
        (assertTwoPow_eq_true _)).powers
  · intro hpowers _ _
    exact established_of_powers hpowers.1 hpowers.2

/-- Three slots pass, and their mask is no remainder; the interval zero passes,
and no number of rounds is enough for the exponent loop. -/
theorem asserts_let_through :
    assertTwoPow 3 ∧ assertTwoPow 0 ∧ assertTwoPow 1 ∧
      ¬ Established 3 1 ∧ ∀ fuel, exponentLoop fuel 0 = none := by
  refine ⟨by decide, by decide, by decide, ?_, exponentLoop_zero⟩
  intro hest
  have hand : 3 &&& (3 - 1) = 0 :=
    (Nat.and_sub_one_eq_zero_iff_isPowerOfTwo (by decide)).mpr
      hest.powers.1
  revert hand
  decide

end GreenTurtle.Timers
