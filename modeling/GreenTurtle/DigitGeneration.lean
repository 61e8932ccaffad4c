import GreenTurtle.DiyFpExact
import Mathlib.Data.Nat.Dist
import Mathlib.Tactic

/-!
# The digits of a scaled number

`DigitGen` takes digits from the front of a fixed-point number, first from its
integral part and then, multiplying by ten, from its fractional part.  It stops
when the rest is smaller than the width of an interval, and `GrisuRound` then
moves the last digit down while that brings the digits closer to a second
number.  Whatever this number is, the digits that come out stand for a multiple
of the last unit inside the interval, and none of them leaves the range of the
digits.
-/

namespace GreenTurtle.Num2a

open FixedWidth
open Iteration
open Memory
open Numeral

/-! ## Digits in the buffer -/

/-- The digits of a number, none for zero. -/
def digitsOf (d : ℕ) : List Byte :=
  if d = 0 then [] else (numeral 10 d).map digitByte

theorem digitsOf_ne_nil {d : ℕ} (hpos : 0 < d) : digitsOf d ≠ [] := by
  have hlength := length_numeral_pos 10 d
  rw [digitsOf, if_neg hpos.ne']
  intro hnil
  rw [List.map_eq_nil_iff] at hnil
  rw [hnil] at hlength
  exact absurd hlength (lt_irrefl _)

/-- A number with at least one digit in front of its last one, or none. -/
theorem digitsOf_eq_append {d : ℕ} (hpos : 0 < d) :
    digitsOf d = digitsOf (d / 10) ++ [digitByte (d % 10)] := by
  unfold digitsOf
  rw [if_neg hpos.ne']
  by_cases hlt : d < 10
  · rw [if_pos (by omega), numeral_of_lt hlt, Nat.mod_eq_of_lt hlt]
    rfl
  · rw [if_neg (by omega), numeral_of_ge (by norm_num) (by omega),
      List.map_append]
    rfl

theorem pushDigit_digitsOf {n d : ℕ} (hlt : d < 10) :
    pushDigit (digitsOf n) d = digitsOf (10 * n + d) := by
  have hpush : 0 < 10 * n + d →
      digitsOf (10 * n + d) = digitsOf n ++ [digitByte d] := by
    intro hpos
    rw [digitsOf_eq_append hpos, show (10 * n + d) / 10 = n by omega,
      show (10 * n + d) % 10 = d by omega]
  unfold pushDigit
  by_cases hpos : 0 < 10 * n + d
  · rw [hpush hpos, if_pos]
    by_cases hzero : d = 0
    · exact Or.inr (digitsOf_ne_nil (by omega))
    · exact Or.inl hzero
  · have hn : n = 0 := by omega
    have hd : d = 0 := by omega
    rw [hn, hd]
    rfl

theorem decrementLast_append (front : List Byte) (b : Byte) :
    decrementLast (front ++ [b]) = front ++ [b - 1] := by
  unfold decrementLast
  rw [List.length_append, List.length_singleton, Nat.add_sub_cancel]
  induction front with
  | nil => rfl
  | cons c front ih =>
      rw [List.cons_append, List.length_cons, List.modify_succ_cons, ih,
        List.cons_append]

theorem digitByte_sub_one {d : ℕ} (hpos : 0 < d) (hlt : d < 10) :
    digitByte d - 1 = digitByte (d - 1) := by
  have hall : ∀ n < 10, 0 < n → digitByte n - 1 = digitByte (n - 1) := by
    decide
  exact hall d hlt hpos

theorem decrementLast_digitsOf
    {d : ℕ} (hlast : 0 < d % 10) (hpos : 0 < d - 1) :
    decrementLast (digitsOf d) = digitsOf (d - 1) := by
  rw [digitsOf_eq_append (by omega), digitsOf_eq_append hpos,
    decrementLast_append, digitByte_sub_one hlast (Nat.mod_lt _ (by norm_num)),
    show (d - 1) / 10 = d / 10 by omega,
    show (d - 1) % 10 = d % 10 - 1 by omega]

/-! ## Rounding -/

section Rounding

variable {delta unit wpW : ℕ}

/-- With `n` moves of the last digit the rest is inside the interval, and no
other number of moves brings it closer to the second number. -/
structure Settled (delta unit wpW rest n : ℕ) : Prop where
  inside : rest + n * unit ≤ delta
  closest :
    ∀ m, rest + m * unit ≤ delta →
      Nat.dist (rest + n * unit) wpW ≤ Nat.dist (rest + m * unit) wpW

theorem grisuRoundBody_eq
    {rest : ℕ} (buffer : List Byte) (hunit : 0 < unit)
    (hdelta : delta < 2 ^ 64) (hwpW : wpW < 2 ^ 64) (hinside : rest ≤ delta) :
    grisuRoundBody delta unit wpW (rest, buffer) =
      if rest + unit ≤ delta ∧
          Nat.dist (rest + unit) wpW < Nat.dist rest wpW then
        .inl (rest + unit, decrementLast buffer)
      else .inr buffer := by
  have hcondition :
      (rest < wpW ∧ unit ≤ toUInt64 (delta - rest) ∧
          (toUInt64 (rest + unit) < wpW ∨
            toUInt64 (rest + unit - wpW) < toUInt64 (wpW - rest))) ↔
        rest + unit ≤ delta ∧
          Nat.dist (rest + unit) wpW < Nat.dist rest wpW := by
    unfold toUInt64 Nat.dist
    omega
  simp only [grisuRoundBody, hcondition]
  split
  next hcontinue =>
    have hnext : toUInt64 ((rest : ℤ) + unit) = rest + unit :=
      toUInt64_natCast_add (by omega)
    rw [hnext]
  next => rfl

theorem settled_of_stop
    {rest : ℕ} (hunit : 0 < unit) (hinside : rest ≤ delta)
    (hstop :
      ¬ (rest + unit ≤ delta ∧
        Nat.dist (rest + unit) wpW < Nat.dist rest wpW)) :
    Settled delta unit wpW rest 0 := by
  constructor
  · omega
  · intro m hm
    cases m with
    | zero => exact le_rfl
    | succ m =>
        rw [add_mul, one_mul] at hm ⊢
        generalize m * unit = more at hm ⊢
        unfold Nat.dist at hstop ⊢
        omega

theorem Settled.step
    {rest n : ℕ} (hsettled : Settled delta unit wpW (rest + unit) n)
    (hcloser : Nat.dist (rest + unit) wpW < Nat.dist rest wpW)
    (hroom : rest + unit ≤ delta) :
    Settled delta unit wpW rest (n + 1) := by
  have hrest : ∀ m, rest + (m + 1) * unit = rest + unit + m * unit := by
    intro m
    ring
  constructor
  · rw [hrest]
    exact hsettled.inside
  · intro m hm
    rw [hrest]
    cases m with
    | zero =>
        have hfirst := hsettled.closest 0 (by omega)
        rw [zero_mul, add_zero] at hfirst ⊢
        exact hfirst.trans hcloser.le
    | succ m =>
        rw [hrest] at hm ⊢
        exact hsettled.closest m hm

theorem grisuRound_settles
    {fuel rest d : ℕ} (hunit : 0 < unit) (hdelta : delta < 2 ^ 64)
    (hwpW : wpW < 2 ^ 64) (hinside : rest ≤ delta)
    (hdigit : delta ≤ d % 10 * unit + rest)
    (hlarge : delta < d * unit + rest) (hfuel : d % 10 < fuel) :
    ∃ n, Settled delta unit wpW rest n ∧ n ≤ d % 10 ∧ n < d ∧
      grisuRound fuel (digitsOf d) delta rest unit wpW =
        some (digitsOf (d - n)) := by
  unfold grisuRound
  induction fuel generalizing rest d with
  | zero => omega
  | succ fuel ih =>
      have hbody :=
        grisuRoundBody_eq (digitsOf d) hunit hdelta hwpW hinside
      have hpositive : 0 < d := by
        by_contra hzero
        rw [Nat.eq_zero_of_not_pos hzero, zero_mul] at hlarge
        omega
      by_cases hmove :
          rest + unit ≤ delta ∧
            Nat.dist (rest + unit) wpW < Nat.dist rest wpW
      · have hlast : 0 < d % 10 := by
          by_contra hzero
          rw [Nat.eq_zero_of_not_pos hzero, zero_mul] at hdigit
          omega
        have hdigits : (d - 1) % 10 = d % 10 - 1 := by omega
        have hdigit' : delta ≤ (d - 1) % 10 * unit + (rest + unit) := by
          rw [hdigits, Nat.sub_mul]
          omega
        have hlarge' : delta < (d - 1) * unit + (rest + unit) := by
          rw [Nat.sub_mul]
          omega
        have hmore : 0 < d - 1 := by
          by_contra hzero
          rw [Nat.eq_zero_of_not_pos hzero, zero_mul] at hlarge'
          omega
        obtain ⟨n, hsettled, hle, hless, hrun⟩ :=
          ih hmove.1 hdigit' hlarge' (by omega)
        refine ⟨n + 1, hsettled.step hmove.2 hmove.1, by omega, by omega, ?_⟩
        rw [if_pos hmove, decrementLast_digitsOf hlast hmore] at hbody
        rw [iterate_of_next hbody, hrun]
        congr 2
        omega
      · rw [if_neg hmove] at hbody
        refine ⟨0, settled_of_stop hunit hinside hmove, by omega, hpositive, ?_⟩
        simp only [iterate, hbody, Nat.sub_zero]

end Rounding

/-! ## The integral part -/

theorem countDecimalDigit32_spec {n : ℕ} (hlt : n < 2 ^ 32) :
    n < 10 ^ countDecimalDigit32 n ∧
      (0 < n → 10 ^ countDecimalDigit32 n ≤ 10 * n) ∧
        countDecimalDigit32 n ≤ 10 := by
  unfold countDecimalDigit32
  repeat' split
  all_goals omega

/-- The power of ten by which the fractional part has been multiplied. -/
def DigitsDone.scale (done : DigitsDone) : ℕ :=
  10 ^ (-done.kappa).toNat

theorem DigitsDone.scale_pos (done : DigitsDone) : 0 < done.scale :=
  Nat.pow_pos (by norm_num)

/-- The digits that have been taken from `m`, with the rest and the width of
the interval in the same units. -/
structure Cut
    (shift m width : ℕ) (done : DigitsDone) (d : ℕ) : Prop where
  buffer_eq : done.buffer = digitsOf d
  delta_eq : done.delta = width * done.scale
  whole : d * done.tenKappa + done.rest = m * done.scale
  unit_eq : (done.tenKappa : ℚ) = 10 ^ done.kappa * 2 ^ shift * done.scale
  rest_lt : done.rest < done.tenKappa
  inside : done.rest ≤ done.delta
  last : done.delta ≤ d % 10 * done.tenKappa + done.rest
  coarse : done.delta < 10 * done.tenKappa
  fits : done.delta < 2 ^ 64

/-- The loop over the integral part is left inside the interval, or with all
digits and a fractional part that is not smaller than the width. -/
def IntegralCut (shift m delta p2 : ℕ) : DigitsDone ⊕ List Byte → Prop
  | .inl done => ∃ d, Cut shift m delta done d
  | .inr buffer =>
      ∃ d, buffer = digitsOf d ∧ d * 2 ^ shift + p2 = m ∧ delta ≤ p2

theorem kPow10_getD {kappa : ℕ} (hlt : kappa < 10) :
    kPow10.getD kappa 0 = 10 ^ kappa := by
  have hall : ∀ i < 10, kPow10.getD i 0 = 10 ^ i := by decide
  exact hall kappa hlt

theorem integralDigits_cut
    {shift delta p2 m : ℕ} (hm : m < 2 ^ 64) (hdelta : delta < 2 ^ 64)
    (kappa : ℕ) {p1 d : ℕ} (hkappa : kappa ≤ 10) (hp2 : p2 < 2 ^ shift)
    (hp1 : p1 < 10 ^ kappa)
    (hwhole : (d * 10 ^ kappa + p1) * 2 ^ shift + p2 = m)
    (hunit : 10 ^ kappa * 2 ^ shift ≤ 10 * m)
    (hwide : delta ≤ p1 * 2 ^ shift + p2) :
    IntegralCut shift m delta p2
      (integralDigits shift delta p2 kappa p1 (digitsOf d)) := by
  induction kappa generalizing p1 d with
  | zero =>
      have hzero : p1 = 0 := by omega
      rw [hzero, zero_mul, zero_add] at hwide
      rw [hzero, pow_zero, mul_one, add_zero] at hwhole
      exact ⟨d, rfl, hwhole, hwide⟩
  | succ kappa ih =>
      have hdigit : p1 / 10 ^ kappa < 10 :=
        Nat.div_lt_of_lt_mul (by rwa [← pow_succ])
      have hless : p1 % 10 ^ kappa < 10 ^ kappa :=
        Nat.mod_lt _ (Nat.pow_pos (by norm_num))
      have hparts := Nat.div_add_mod p1 (10 ^ kappa)
      rw [integralDigits]
      generalize p1 / 10 ^ kappa = digit at hdigit hparts ⊢
      generalize p1 % 10 ^ kappa = p1' at hless hparts ⊢
      have hcoarse : delta < 10 * (10 ^ kappa * 2 ^ shift) := by
        have hfull : (p1 + 1) * 2 ^ shift ≤ 10 ^ (kappa + 1) * 2 ^ shift :=
          Nat.mul_le_mul_right _ hp1
        rw [add_mul, pow_succ'] at hfull
        linarith
      have hunit' : 10 ^ kappa * 2 ^ shift ≤ m := by
        rw [pow_succ] at hunit
        linarith
      have hwhole' :
          ((10 * d + digit) * 10 ^ kappa + p1') * 2 ^ shift + p2 = m := by
        rw [← hwhole, ← hparts, pow_succ]
        ring
      have hrest : p1' * 2 ^ shift + p2 ≤ m := by
        rw [← hwhole', add_mul]
        omega
      have hwide' :
          delta ≤
            digit * (10 ^ kappa * 2 ^ shift) + (p1' * 2 ^ shift + p2) := by
        rw [← hparts] at hwide
        linarith
      have htmp :
          toUInt64 ((toUInt64 (p1' <<< shift : ℕ) : ℤ) + p2) =
            p1' * 2 ^ shift + p2 := by
        rw [Nat.shiftLeft_eq, toUInt64_natCast (by omega),
          toUInt64_natCast_add (by omega)]
      have hword :
          toUInt64 (kPow10.getD kappa 0 <<< shift : ℕ) =
            10 ^ kappa * 2 ^ shift := by
        rw [kPow10_getD (by omega), Nat.shiftLeft_eq,
          toUInt64_natCast (by omega)]
      simp only [pushDigit_digitsOf hdigit, htmp, hword]
      split
      next hinside =>
        have hscale : 10 ^ (-(kappa : ℤ)).toNat = 1 := by
          rw [Int.toNat_of_nonpos (by omega), pow_zero]
        refine ⟨10 * d + digit, ?_⟩
        exact
          { buffer_eq := rfl
            delta_eq := by rw [DigitsDone.scale, hscale, mul_one]
            whole := by
              rw [DigitsDone.scale, hscale, mul_one, ← hwhole']
              ring
            unit_eq := by
              rw [DigitsDone.scale, hscale, zpow_natCast]
              push_cast
              ring
            rest_lt := by
              calc p1' * 2 ^ shift + p2 < (p1' + 1) * 2 ^ shift := by
                    rw [add_mul]
                    omega
                _ ≤ 10 ^ kappa * 2 ^ shift := Nat.mul_le_mul_right _ hless
            inside := hinside
            last := by
              rw [show (10 * d + digit) % 10 = digit by omega]
              exact hwide'
            coarse := hcoarse
            fits := hdelta }
      next houtside =>
        exact ih (by omega) hless hwhole' (by linarith) (by omega)

/-! ## The fractional part -/

/-- In front of an iteration `j` digits have been taken from the fractional
part, and what is left of it is not smaller than the width. -/
structure FractionCut
    (shift m width : ℕ) (state : Fraction) (j d : ℕ) : Prop where
  kappa_eq : state.kappa = -(j : ℤ)
  buffer_eq : state.buffer = digitsOf d
  delta_eq : state.delta = width * 10 ^ j
  whole : d * 2 ^ shift + state.p2 = m * 10 ^ j
  p2_lt : state.p2 < 2 ^ shift
  wide : state.delta ≤ state.p2

section Fractions

variable {shift m width : ℕ} {state : Fraction} {j d : ℕ}

theorem fractionBody_cut
    (hshift : shift ≤ 60) (hcut : FractionCut shift m width state j d) :
    (∃ done d', fractionBody shift state = .inr done ∧
        Cut shift m width done d') ∨
      ∃ next d', fractionBody shift state = .inl next ∧
        FractionCut shift m width next (j + 1) d' := by
  have hpow : 2 ^ shift ≤ 2 ^ 60 := Nat.pow_le_pow_right (by norm_num) hshift
  have hlt := hcut.p2_lt
  have hwide := hcut.wide
  have hp2 : toUInt64 (state.p2 * 10 : ℕ) = state.p2 * 10 :=
    toUInt64_natCast (by omega)
  have hdelta : toUInt64 (state.delta * 10 : ℕ) = state.delta * 10 :=
    toUInt64_natCast (by omega)
  have hdigit : state.p2 * 10 / 2 ^ shift < 10 :=
    Nat.div_lt_of_lt_mul (by omega)
  have hrest : state.p2 * 10 % 2 ^ shift < 2 ^ shift :=
    Nat.mod_lt _ (Nat.two_pow_pos shift)
  have hparts := Nat.div_add_mod (state.p2 * 10) (2 ^ shift)
  unfold fractionBody
  simp only [hp2, hdelta, Nat.shiftRight_eq_div_pow, Nat.one_shiftLeft,
    Nat.and_two_pow_sub_one_eq_mod, hcut.buffer_eq]
  generalize state.p2 * 10 / 2 ^ shift = digit at hdigit hparts ⊢
  generalize state.p2 * 10 % 2 ^ shift = p2' at hrest hparts ⊢
  rw [Nat.mod_eq_of_lt (by omega : digit < 256), pushDigit_digitsOf hdigit]
  have hkappa : state.kappa - 1 = -((j + 1 : ℕ) : ℤ) := by
    rw [hcut.kappa_eq]
    push_cast
    ring
  have hwhole : (10 * d + digit) * 2 ^ shift + p2' = m * 10 ^ (j + 1) := by
    rw [pow_succ, ← mul_assoc, ← hcut.whole]
    linarith
  have hwidth : state.delta * 10 = width * 10 ^ (j + 1) := by
    rw [hcut.delta_eq, pow_succ, mul_assoc]
  split
  next hinside =>
    left
    have hscale : 10 ^ (-(state.kappa - 1)).toNat = 10 ^ (j + 1) := by
      rw [hkappa, neg_neg, Int.toNat_natCast]
    refine ⟨_, 10 * d + digit, rfl, ?_⟩
    exact
      { buffer_eq := rfl
        delta_eq := by
          rw [DigitsDone.scale, hscale]
          exact hwidth
        whole := by
          rw [DigitsDone.scale, hscale]
          exact hwhole
        unit_eq := by
          rw [DigitsDone.scale, hscale]
          dsimp only
          rw [hkappa, zpow_neg, zpow_natCast]
          push_cast
          field_simp
        rest_lt := hrest
        inside := hinside.le
        last := by
          dsimp only
          rw [show (10 * d + digit) % 10 = digit by omega]
          linarith
        coarse := by
          dsimp only
          omega
        fits := by
          dsimp only
          omega }
  next houtside =>
    right
    refine ⟨_, 10 * d + digit, rfl, ?_⟩
    exact
      { kappa_eq := hkappa
        buffer_eq := rfl
        delta_eq := hwidth
        whole := hwhole
        p2_lt := hrest
        wide := Nat.le_of_not_lt houtside }

/-- The width grows by ten in every iteration and the rest does not, so the
loop ends. -/
theorem fraction_ends
    {fuel : ℕ} (hshift : shift ≤ 60)
    (hfuel : 2 ^ shift ≤ width * 10 ^ (j + fuel))
    (hcut : FractionCut shift m width state j d) :
    ∃ done d', iterate (fractionBody shift) fuel state = some done ∧
      Cut shift m width done d' := by
  induction fuel generalizing state j d with
  | zero =>
      have hlt := hcut.p2_lt
      have hwide := hcut.wide
      rw [hcut.delta_eq] at hwide
      rw [add_zero] at hfuel
      omega
  | succ fuel ih =>
      rcases fractionBody_cut hshift hcut with
        ⟨done, d', hbody, hdone⟩ | ⟨next, d', hbody, hnext⟩
      · refine ⟨done, d', ?_, hdone⟩
        simp only [iterate, hbody]
      · rw [iterate_of_next hbody]
        apply ih _ hnext
        rwa [show j + 1 + fuel = j + (fuel + 1) by ring]

end Fractions

/-! ## Both parts -/

/-- A fixed-point number that `DigitGen` can work on. -/
structure Suitable (mp : DiyFp) (width : ℕ) : Prop where
  fits : mp.Fits
  shift_ge : mp.e ≤ -32
  shift_le : -60 ≤ mp.e
  integral : 2 ^ 60 ≤ mp.f
  width_pos : 0 < width
  width_lt : width < mp.f

section Generation

variable {mp : DiyFp} {width : ℕ}

theorem generateDigits_cut
    {fuel : ℕ} (hsuitable : Suitable mp width) (hfuel : 20 ≤ fuel) :
    ∃ done d, generateDigits fuel mp width = some done ∧
      Cut (-mp.e).toNat mp.f width done d := by
  have hfits := hsuitable.fits
  have hintegral := hsuitable.integral
  have hless := hsuitable.width_lt
  unfold DiyFp.Fits at hfits
  unfold generateDigits
  have hge : 32 ≤ (-mp.e).toNat := by
    have hle := hsuitable.shift_ge
    omega
  have hle : (-mp.e).toNat ≤ 60 := by
    have hge := hsuitable.shift_le
    omega
  generalize (-mp.e).toNat = shift at hge hle ⊢
  have hlow : 2 ^ 32 ≤ 2 ^ shift := Nat.pow_le_pow_right (by norm_num) hge
  have hhigh : 2 ^ shift ≤ 2 ^ 60 := Nat.pow_le_pow_right (by norm_num) hle
  have hpart : mp.f / 2 ^ shift < 2 ^ 32 := by
    apply Nat.div_lt_of_lt_mul
    calc mp.f < 2 ^ 32 * 2 ^ 32 := by omega
      _ ≤ 2 ^ shift * 2 ^ 32 := Nat.mul_le_mul_right _ hlow
  have hpositive : 0 < mp.f / 2 ^ shift :=
    Nat.div_pos (by omega) (Nat.two_pow_pos _)
  have hfraction : mp.f % 2 ^ shift < 2 ^ shift :=
    Nat.mod_lt _ (Nat.two_pow_pos _)
  have hparts := Nat.div_add_mod' mp.f (2 ^ shift)
  simp only [Nat.shiftRight_eq_div_pow, Nat.one_shiftLeft,
    Nat.and_two_pow_sub_one_eq_mod]
  rw [Nat.mod_eq_of_lt (by omega : mp.f / 2 ^ shift < 4294967296)]
  generalize mp.f / 2 ^ shift = p1 at hpart hpositive hparts ⊢
  generalize mp.f % 2 ^ shift = p2 at hfraction hparts ⊢
  obtain ⟨hdigits, hcount, hten⟩ := countDecimalDigit32_spec hpart
  have hcut :=
    @integralDigits_cut shift width p2 mp.f hfits (hless.trans hfits)
      (countDecimalDigit32 p1) p1 0 hten hfraction hdigits
      (by rw [zero_mul, zero_add, hparts])
      (by
        calc 10 ^ countDecimalDigit32 p1 * 2 ^ shift
            ≤ 10 * p1 * 2 ^ shift :=
              Nat.mul_le_mul_right _ (hcount hpositive)
          _ ≤ 10 * mp.f := by
              rw [← hparts, mul_assoc]
              omega)
      (by omega)
  rw [show digitsOf 0 = [] from rfl] at hcut
  generalize
    integralDigits shift width p2 (countDecimalDigit32 p1) p1 [] = result
      at hcut ⊢
  cases result with
  | inl done =>
      obtain ⟨d, hdone⟩ := hcut
      exact ⟨done, d, rfl, hdone⟩
  | inr buffer =>
      obtain ⟨d, hbuffer, hwhole, hwide⟩ := hcut
      apply fraction_ends (j := 0) (d := d) hle
      · have hpos := hsuitable.width_pos
        calc 2 ^ shift ≤ 1 * 10 ^ 20 := by omega
          _ ≤ width * 10 ^ (0 + fuel) :=
            Nat.mul_le_mul hpos
              (Nat.pow_le_pow_right (by norm_num) (by omega))
      · exact
          { kappa_eq := rfl
            buffer_eq := hbuffer
            delta_eq := (mul_one _).symm
            whole := by rw [hwhole, pow_zero, mul_one]
            p2_lt := hfraction
            wide := hwide }

section Cuts

variable {shift m : ℕ} {done : DigitsDone} {d n : ℕ}

theorem Cut.large
    (hcut : Cut shift m width done d) (hless : width < m) :
    done.delta < d * done.tenKappa + done.rest := by
  rw [hcut.whole, hcut.delta_eq]
  exact Nat.mul_lt_mul_of_pos_right hless done.scale_pos

theorem Cut.unit_pos (hcut : Cut shift m width done d) :
    0 < done.tenKappa := by
  have hcoarse := hcut.coarse
  omega

/-- A wide interval needs few digits. -/
theorem Cut.lt_of_wide
    {digits : ℕ} (hcut : Cut shift m width done d)
    (hwide : 10 * m ≤ 10 ^ digits * width) : d < 10 ^ digits := by
  by_contra hge
  have hpositive : 0 < 10 ^ digits := Nat.pow_pos (by norm_num)
  have hproduct : d * done.delta < d * (10 * done.tenKappa) :=
    Nat.mul_lt_mul_of_pos_left hcut.coarse (by omega)
  have hunits : d * done.tenKappa ≤ m * done.scale := by
    rw [← hcut.whole]
    omega
  have hbound : d * width * done.scale < 10 ^ digits * width * done.scale := by
    calc d * width * done.scale = d * done.delta := by
          rw [hcut.delta_eq, mul_assoc]
      _ < 10 * (d * done.tenKappa) := by linarith
      _ ≤ 10 * (m * done.scale) := by linarith
      _ = 10 * m * done.scale := by ring
      _ ≤ 10 ^ digits * width * done.scale := Nat.mul_le_mul_right _ hwide
  have hless := Nat.lt_of_mul_lt_mul_right (Nat.lt_of_mul_lt_mul_right hbound)
  omega

/-- What is left when the last digit has been moved down `n` times. -/
theorem Cut.moved_whole (hcut : Cut shift m width done d) (hn : n ≤ d) :
    (d - n) * done.tenKappa + (done.rest + n * done.tenKappa) =
      m * done.scale := by
  have hle : n * done.tenKappa ≤ d * done.tenKappa :=
    Nat.mul_le_mul_right _ hn
  rw [← hcut.whole, Nat.sub_mul]
  omega

/-- Numbers of units, in the scale of the interval. -/
theorem Cut.units_eq (hcut : Cut shift m width done d) (count : ℕ) :
    (count : ℚ) * 10 ^ done.kappa * 2 ^ shift * done.scale =
      (count * done.tenKappa : ℕ) := by
  push_cast
  rw [hcut.unit_eq]
  ring

/-- The digits stand for a number inside the interval if and only if what is
left is not larger than the width. -/
theorem Cut.between_iff (hcut : Cut shift m width done d) (hn : n ≤ d) :
    (m : ℚ) - width ≤ (d - n : ℕ) * 10 ^ done.kappa * 2 ^ shift ↔
      done.rest + n * done.tenKappa ≤ done.delta := by
  have hscale : (0 : ℚ) < done.scale := by exact_mod_cast done.scale_pos
  have hwhole := hcut.moved_whole hn
  rw [← mul_le_mul_iff_of_pos_right hscale, hcut.units_eq, sub_mul,
    hcut.delta_eq, sub_le_iff_le_add]
  constructor
  · intro hle
    have hnat :
        m * done.scale ≤
          (d - n) * done.tenKappa + width * done.scale := by
      exact_mod_cast hle
    omega
  · intro hle
    have hnat :
        m * done.scale ≤
          (d - n) * done.tenKappa + width * done.scale := by
      omega
    exact_mod_cast hnat

theorem Cut.le_whole
    (hcut : Cut shift m width done d) {count : ℕ} :
    (count : ℚ) * 10 ^ done.kappa * 2 ^ shift ≤ m ↔ count ≤ d := by
  have hscale : (0 : ℚ) < done.scale := by exact_mod_cast done.scale_pos
  have hwhole := hcut.whole
  have hrest := hcut.rest_lt
  rw [← mul_le_mul_iff_of_pos_right hscale, hcut.units_eq]
  constructor
  · intro hle
    have hnat : count * done.tenKappa ≤ m * done.scale := by
      exact_mod_cast hle
    rw [← hwhole] at hnat
    have hless : count * done.tenKappa < (d + 1) * done.tenKappa := by
      rw [add_mul]
      omega
    have hlt := Nat.lt_of_mul_lt_mul_right hless
    omega
  · intro hle
    have hnat : count * done.tenKappa ≤ m * done.scale := by
      rw [← hwhole]
      exact (Nat.mul_le_mul_right _ hle).trans (Nat.le_add_right _ _)
    exact_mod_cast hnat

end Cuts

/-- The loops do not depend on what stands behind the table of powers; it only
decides how often the last digit is moved. -/
theorem digitGen_settles
    {fuel : ℕ} (hsuitable : Suitable mp width) (hfuel : 20 ≤ fuel)
    (w : DiyFp) (k : ℤ) :
    ∃ done d, generateDigits fuel mp width = some done ∧
      Cut (-mp.e).toNat mp.f width done d ∧
        ∀ behind, ∃ n,
          Settled done.delta done.tenKappa
              (done.wpW behind (mp.sub w).f) done.rest n ∧
            n ≤ d % 10 ∧ n < d ∧
              digitGen behind fuel w mp width k =
                some (digitsOf (d - n), k + done.kappa) := by
  obtain ⟨done, d, hdone, hcut⟩ := generateDigits_cut hsuitable hfuel
  refine ⟨done, d, hdone, hcut, ?_⟩
  intro behind
  have hwpW : done.wpW behind (mp.sub w).f < 2 ^ 64 := by
    unfold DigitsDone.wpW DiyFp.sub
    split <;> exact toUInt64_lt _
  obtain ⟨n, hsettled, hle, hlt, hround⟩ :=
    @grisuRound_settles _ _ _ fuel _ _ hcut.unit_pos hcut.fits hwpW
      hcut.inside hcut.last (hcut.large hsuitable.width_lt) (by omega)
  refine ⟨n, hsettled, hle, hlt, ?_⟩
  rw [← hcut.buffer_eq] at hround
  simp only [digitGen, hdone, Option.bind_eq_bind, Option.bind_some, hround]

/-! ## How close the digits are -/

theorem cast_dist (a b : ℕ) : ((Nat.dist a b : ℕ) : ℚ) = |(a : ℚ) - b| := by
  rcases le_total a b with hle | hle
  · have hnonpos : (a : ℚ) - b ≤ 0 := by
      rw [sub_nonpos]
      exact_mod_cast hle
    rw [Nat.dist_eq_sub_of_le hle, Nat.cast_sub hle, abs_of_nonpos hnonpos,
      neg_sub]
  · have hnonneg : 0 ≤ (a : ℚ) - b := by
      rw [sub_nonneg]
      exact_mod_cast hle
    rw [Nat.dist_eq_sub_of_le_right hle, Nat.cast_sub hle,
      abs_of_nonneg hnonneg]

/-- A multiple of the last unit inside the interval. -/
def Candidate
    (mp : DiyFp) (width : ℕ) (kappa : ℤ) (count : ℕ) : Prop :=
  (mp.f : ℚ) - width ≤ count * 10 ^ kappa * 2 ^ (-mp.e).toNat ∧
    (count : ℚ) * 10 ^ kappa * 2 ^ (-mp.e).toNat ≤ mp.f

/-- No candidate is closer to the second number. -/
structure ClosestCandidate
    (mp : DiyFp) (width : ℕ) (w : DiyFp) (kappa : ℤ) (d : ℕ) : Prop where
  candidate : Candidate mp width kappa d
  closest :
    ∀ count, Candidate mp width kappa count →
      |d * 10 ^ kappa * 2 ^ (-mp.e).toNat - (w.f : ℚ)| ≤
        |count * 10 ^ kappa * 2 ^ (-mp.e).toNat - (w.f : ℚ)|

theorem DigitsDone.wpW_eq
    {done : DigitsDone} {behind : ℕ → ℕ} {gap : ℕ}
    (hkappa : -9 ≤ done.kappa) (hgap : gap * done.scale < 2 ^ 64) :
    done.wpW behind gap = gap * done.scale := by
  have hindex : (-done.kappa).toNat < 10 := by omega
  unfold DigitsDone.wpW
  unfold DigitsDone.scale at hgap ⊢
  split
  next hnonneg =>
    rw [Int.toNat_of_nonpos (by omega), pow_zero, mul_one]
  next hnegative =>
    rw [readPow10, if_pos hindex, kPow10_getD hindex]
    exact toUInt64_natCast hgap

theorem sub_f {w : DiyFp} (hfits : mp.Fits) (hle : w.f ≤ mp.f) :
    (mp.sub w).f = mp.f - w.f := by
  unfold DiyFp.Fits at hfits
  unfold DiyFp.sub toUInt64
  dsimp only
  omega

/-- As long as the table of powers is read inside its bounds, no candidate is
closer to the scaled number than the digits that come out. -/
theorem digitGen_closest
    {fuel : ℕ} {w : DiyFp} {done : DigitsDone}
    (hsuitable : Suitable mp width) (hfuel : 20 ≤ fuel)
    (hle : w.f ≤ mp.f) (hgap : mp.f - w.f ≤ width)
    (hdone : generateDigits fuel mp width = some done)
    (hkappa : -9 ≤ done.kappa) (behind : ℕ → ℕ) (k : ℤ) :
    ∃ d, digitGen behind fuel w mp width k =
        some (digitsOf d, k + done.kappa) ∧
      ClosestCandidate mp width w done.kappa d := by
  obtain ⟨done', d, hdone', hcut, hall⟩ :=
    digitGen_settles hsuitable hfuel w k
  obtain rfl : done = done' := by
    rw [hdone, Option.some.injEq] at hdone'
    exact hdone'
  obtain ⟨n, hsettled, _, hlt, hrun⟩ := hall behind
  have hfits : (mp.f - w.f) * done.scale < 2 ^ 64 := by
    have hdelta := hcut.fits
    rw [hcut.delta_eq] at hdelta
    exact lt_of_le_of_lt (Nat.mul_le_mul_right _ hgap) hdelta
  rw [sub_f hsuitable.fits hle, done.wpW_eq hkappa hfits] at hsettled
  have hscale : (0 : ℚ) < done.scale := by exact_mod_cast done.scale_pos
  -- distances in the interval are distances of what is left
  have hdistance :
      ∀ moves ≤ d,
        |((d - moves : ℕ) : ℚ) * 10 ^ done.kappa * 2 ^ (-mp.e).toNat -
              w.f| * done.scale =
          Nat.dist (done.rest + moves * done.tenKappa)
            ((mp.f - w.f) * done.scale) := by
    intro moves hmoves
    have hwhole :
        ((d - moves : ℕ) : ℚ) * 10 ^ done.kappa * 2 ^ (-mp.e).toNat *
              done.scale +
            (done.rest + moves * done.tenKappa : ℕ) =
          mp.f * done.scale := by
      rw [hcut.units_eq]
      exact_mod_cast hcut.moved_whole hmoves
    rw [cast_dist, ← abs_of_pos hscale, ← abs_mul, Nat.cast_mul,
      Nat.cast_sub hle, ← abs_neg]
    congr 1
    linarith
  refine ⟨d - n, hrun,
    ⟨(hcut.between_iff hlt.le).mpr hsettled.inside,
      hcut.le_whole.mpr (Nat.sub_le d n)⟩, ?_⟩
  intro count hcount
  have hcountLe : count ≤ d := hcut.le_whole.mp hcount.2
  have hmoves : d - (d - count) = count := by omega
  have hinside :
      done.rest + (d - count) * done.tenKappa ≤ done.delta := by
    rw [← hcut.between_iff (Nat.sub_le d count), hmoves]
    exact hcount.1
  have hclosest := hsettled.closest (d - count) hinside
  apply le_of_mul_le_mul_right _ hscale
  have hcountDistance := hdistance (d - count) (Nat.sub_le d count)
  rw [hmoves] at hcountDistance
  rw [hdistance n hlt.le, hcountDistance]
  exact_mod_cast hclosest

end Generation

end GreenTurtle.Num2a
