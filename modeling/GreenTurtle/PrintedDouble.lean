import GreenTurtle.DecimalText
import GreenTurtle.FloatText
import GreenTurtle.Grisu2
import GreenTurtle.IntegerText
import Mathlib.Tactic

/-!
# The text of a double

`dtoa_milo` with the digits of `Grisu2`.  Each of the five layouts of
`Prettify` stands for the same number, so a reader that rounds to the nearest
double gets the printed one back, for every finite double.  The text and its
terminator need 26 of the 64 bytes that `ToString` provides.
-/

namespace GreenTurtle.Num2a

open BinaryFormat
open DecimalText
open Memory
open Formatting
open Numeral

/-- `dtoa_milo`, from the bits of the number. -/
def dtoaMiloBits
    (behind : ℕ → ℕ) (fuel bits : ℕ) (array : ℤ → Byte) :
    Option Converted :=
  if bits % 2 ^ 63 = 0 then some (3, store array 0 [48, 46, 48, 0])
  else do
    let buffer : Cursor := { array := array, pos := 0 }
    let buffer := if bits / 2 ^ 63 % 2 = 1 then buffer.put 45 else buffer
    let (digits, k) ← grisu2 behind fuel (bits % 2 ^ 63)
    let array := store buffer.array buffer.pos digits
    some (digits.length, prettify array buffer.pos digits.length k)

/-! ## What the layouts stand for -/

theorem exponentText_eq_decimal {k : ℤ} (hlt : k.natAbs < 1000) :
    exponentText k = decimal k := by
  have hdigits :
      (if 100 ≤ k.natAbs then
          [UInt8.ofNat (48 + k.natAbs / 100), lut (k.natAbs % 100 * 2),
            lut (k.natAbs % 100 * 2 + 1)]
        else if 10 ≤ k.natAbs then
          [lut (k.natAbs * 2), lut (k.natAbs * 2 + 1)]
        else [UInt8.ofNat (48 + k.natAbs)]) =
        (numeral 10 k.natAbs).map digitByte := by
    generalize k.natAbs = n at hlt ⊢
    have hpair : ∀ i < 100,
        lut (i * 2) = digitByte (i / 10) ∧
          lut (i * 2 + 1) = digitByte (i % 10) := by
      intro i hi
      have hlut := lut_pair hi
      rwa [Nat.shiftLeft_eq, pow_one] at hlut
    by_cases hthree : 100 ≤ n
    · obtain ⟨htens, hones⟩ := hpair (n % 100) (by omega)
      rw [if_pos hthree, htens, hones, numeral_three hthree hlt,
        show n % 100 / 10 = n / 10 % 10 by omega,
        show n % 100 % 10 = n % 10 by omega]
      rfl
    · rw [if_neg hthree]
      by_cases htwo : 10 ≤ n
      · obtain ⟨htens, hones⟩ := hpair n (by omega)
        rw [if_pos htwo, htens, hones, numeral_two htwo (by omega)]
        rfl
      · rw [if_neg htwo, numeral_of_lt (by omega)]
        rfl
  unfold exponentText decimal
  rw [hdigits]
  split
  next => rfl
  next => rw [List.nil_append]

section Layouts

variable {text : List Byte} {kk : ℤ}

/-- The exponent part, which is missing in three of the layouts. -/
structure ExponentPart (rest : List Byte) (exponent : ℤ) : Prop where
  stops : ∀ b ∈ rest.head?, isDigit b = false
  read : readExponent rest = some exponent

theorem exponentPart_nil : ExponentPart [] 0 where
  stops := by
    intro b hb
    simp at hb
  read := rfl

theorem exponentPart_exponentText {k : ℤ} (hlt : k.natAbs < 1000) :
    ExponentPart (101 :: exponentText k) k where
  stops := by
    intro b hb
    rw [List.head?_cons, Option.mem_some_iff] at hb
    rw [← hb]
    rfl
  read := by
    rw [readExponent, if_pos rfl, exponentText_eq_decimal hlt,
      readInteger_decimal]

/-- The places in front of the point and behind it hold the digits, with
zeros around them. -/
theorem readMagnitude_layout
    {whole fraction rest : List Byte} {exponent : ℤ} {zeros : ℕ}
    (hne : whole ≠ [])
    (hdigits : ∀ b ∈ whole ++ fraction, isDigit b = true)
    (hpart : ExponentPart rest exponent)
    (hvalue :
      digitsValue (whole ++ fraction) = digitsValue text * 10 ^ zeros)
    (hplace : zeros + (exponent - fraction.length) = kk - text.length) :
    readMagnitude (whole ++ 46 :: (fraction ++ rest)) =
      some ((digitsValue text : ℚ) * 10 ^ (kk - text.length)) := by
  rw [readMagnitude_point hne
    (fun b hb => hdigits b (List.mem_append_left _ hb))
    (fun b hb => hdigits b (List.mem_append_right _ hb)) hpart.stops
    hpart.read, hvalue, ← hplace, zpow_add₀ (by norm_num), zpow_natCast]
  push_cast
  rw [mul_assoc]

theorem isDigit_of_mem_zeros
    {count : ℕ} {b : Byte} (hb : b ∈ List.replicate count (48 : Byte)) :
    isDigit b = true := by
  rw [List.eq_of_mem_replicate hb]
  rfl

theorem readMagnitude_integral
    (hdigits : ∀ b ∈ text, isDigit b = true) (hpos : 0 < text.length)
    (hge : text.length ≤ kk) :
    readMagnitude
        (text ++ List.replicate (kk - text.length).toNat 48 ++ [46, 48]) =
      some ((digitsValue text : ℚ) * 10 ^ (kk - text.length)) := by
  have hread :=
    @readMagnitude_layout text kk
      (text ++ List.replicate (kk - text.length).toNat 48) [48] [] 0
      ((kk - text.length).toNat + 1)
      (List.append_ne_nil_of_left_ne_nil
        (List.ne_nil_of_length_pos hpos) _)
      (by
        intro b hb
        rw [List.append_assoc, ← List.replicate_succ', List.mem_append]
          at hb
        rcases hb with hb | hb
        · exact hdigits b hb
        · exact isDigit_of_mem_zeros hb)
      exponentPart_nil
      (by
        rw [List.append_assoc, ← List.replicate_succ', digitsValue_append,
          digitsValue_zeros, List.length_replicate, add_zero])
      (by
        rw [List.length_singleton]
        omega)
  exact hread

theorem readMagnitude_between
    (hdigits : ∀ b ∈ text, isDigit b = true) (hpos : 0 < kk)
    (hlt : kk < text.length) :
    readMagnitude (text.take kk.toNat ++ ([46] ++ text.drop kk.toNat)) =
      some ((digitsValue text : ℚ) * 10 ^ (kk - text.length)) := by
  have hread :=
    @readMagnitude_layout text kk (text.take kk.toNat) (text.drop kk.toNat)
      [] 0 0
      (by
        apply List.ne_nil_of_length_pos
        rw [List.length_take]
        omega)
      (by rwa [List.take_append_drop])
      exponentPart_nil
      (by rw [List.take_append_drop, pow_zero, mul_one])
      (by
        rw [List.length_drop]
        omega)
  rw [List.append_nil] at hread
  exact hread

theorem readMagnitude_small
    (hdigits : ∀ b ∈ text, isDigit b = true) (hle : kk ≤ 0) :
    readMagnitude ([48, 46] ++ List.replicate (-kk).toNat 48 ++ text) =
      some ((digitsValue text : ℚ) * 10 ^ (kk - text.length)) := by
  have hread :=
    @readMagnitude_layout text kk [48]
      (List.replicate (-kk).toNat 48 ++ text) [] 0 0
      (by simp)
      (by
        intro b hb
        rw [← List.append_assoc, ← List.replicate_one,
          List.replicate_append_replicate, List.mem_append] at hb
        rcases hb with hb | hb
        · exact isDigit_of_mem_zeros hb
        · exact hdigits b hb)
      exponentPart_nil
      (by
        rw [← List.append_assoc, ← List.replicate_one,
          List.replicate_append_replicate, digitsValue_append,
          digitsValue_zeros, zero_mul, zero_add, pow_zero, mul_one])
      (by
        rw [List.length_append, List.length_replicate]
        omega)
  rw [List.append_nil] at hread
  exact hread

theorem readMagnitude_digit
    (hdigits : ∀ b ∈ text, isDigit b = true) (hone : text.length = 1)
    (hsmall : (kk - 1).natAbs < 1000) :
    readMagnitude (text ++ [101] ++ exponentText (kk - 1)) =
      some ((digitsValue text : ℚ) * 10 ^ (kk - text.length)) := by
  have hinteger : readInteger (exponentText (kk - 1)) = some (kk - 1) := by
    rw [exponentText_eq_decimal hsmall, readInteger_decimal]
  rw [hone, List.append_assoc]
  exact readMagnitude_letter
    (List.ne_nil_of_length_pos (by omega)) hdigits hinteger

theorem readMagnitude_scientific
    (hdigits : ∀ b ∈ text, isDigit b = true) (hpos : 0 < text.length)
    (hsmall : (kk - 1).natAbs < 1000) :
    readMagnitude
        (text.take 1 ++ ([46] ++ text.drop 1) ++ [101] ++
          exponentText (kk - 1)) =
      some ((digitsValue text : ℚ) * 10 ^ (kk - text.length)) := by
  have hread :=
    @readMagnitude_layout text kk (text.take 1) (text.drop 1)
      (101 :: exponentText (kk - 1)) (kk - 1) 0
      (by
        apply List.ne_nil_of_length_pos
        rw [List.length_take]
        omega)
      (by rwa [List.take_append_drop])
      (exponentPart_exponentText hsmall)
      (by rw [List.take_append_drop, pow_zero, mul_one])
      (by
        rw [List.length_drop]
        omega)
  simp only [List.append_assoc, List.cons_append, List.nil_append]
  exact hread

/-- Every layout stands for the digits times the power of ten. -/
theorem readMagnitude_prettyText
    (hdigits : ∀ b ∈ text, isDigit b = true) (hpos : 0 < text.length)
    (hsmall : (kk - 1).natAbs < 1000) :
    readMagnitude (prettyText text kk) =
      some ((digitsValue text : ℚ) * 10 ^ (kk - text.length)) := by
  unfold prettyText mantissaText
  by_cases hintegral : text.length ≤ kk ∧ kk ≤ 21
  · rw [if_pos hintegral, if_pos (by omega), List.append_nil]
    exact readMagnitude_integral hdigits hpos hintegral.1
  · rw [if_neg hintegral]
    by_cases hpoint : 0 < kk ∧ kk ≤ 21
    · rw [if_pos hpoint, if_pos (by omega), List.append_nil]
      exact readMagnitude_between hdigits hpoint.1 (by omega)
    · rw [if_neg hpoint]
      by_cases hfraction : -6 < kk ∧ kk ≤ 0
      · rw [if_pos hfraction, if_pos (by omega), List.append_nil]
        exact readMagnitude_small hdigits hfraction.2
      · have hexponent : ¬ (-6 < kk ∧ kk ≤ 21) := by omega
        rw [if_neg hfraction, if_neg hexponent]
        by_cases hone : text.length = 1
        · rw [if_pos hone]
          exact readMagnitude_digit hdigits hone hsmall
        · rw [if_neg hone]
          exact readMagnitude_scientific hdigits hpos hsmall

/-- The longest text is that of a small number with all its digits. -/
theorem length_prettyText_le
    (hpos : 0 < text.length) (hle : text.length ≤ 17) (kk : ℤ) :
    (prettyText text kk).length ≤ 24 := by
  have hexponent : (exponentText (kk - 1)).length ≤ 4 := by
    unfold exponentText
    repeat' split
    all_goals simp
  unfold prettyText mantissaText
  repeat' split
  all_goals
    simp only [List.length_append, List.length_take, List.length_drop,
      List.length_replicate, List.length_cons, List.length_nil]
    omega

end Layouts

/-! ## Which bytes are written -/

theorem Cursor.put_of_lt
    (buffer : Cursor) (c : Byte) {address : ℤ} (hlt : buffer.pos < address) :
    (buffer.put c).array address = buffer.array address :=
  store_of_ge _ (by rw [List.length_singleton]; omega)

theorem writeExponent_frame
    (k : ℤ) (buffer : Cursor) {address : ℤ}
    (hbehind : buffer.pos + 5 ≤ address) :
    (writeExponent k buffer).array address = buffer.array address := by
  unfold writeExponent
  dsimp only
  repeat' split
  all_goals
    repeat rw [Cursor.put_of_lt]
  all_goals
    try simp only [Cursor.put]
    omega

/-- The layouts stay inside the first 25 bytes. -/
theorem prettify_frame
    {array : ℤ → Byte} {buffer k address : ℤ} {length : ℕ}
    (hpos : 0 < length) (hle : length ≤ 17)
    (hbehind : buffer + 25 ≤ address) :
    prettify array buffer length k address = array address := by
  have hstore :
      ∀ (mem : ℤ → Byte) (start : ℤ) (data : List Byte),
        start + data.length ≤ address →
          store mem start data address = mem address :=
    fun mem _ _ hge => store_of_ge mem hge
  unfold prettify memset memmove
  dsimp only
  repeat' split
  · rw [hstore _ _ _ (by simp; omega), hstore _ _ _ (by simp; omega),
      hstore _ _ _ (by simp; omega), hstore _ _ _ (by simp; omega)]
  · rw [hstore _ _ _ (by simp; omega), hstore _ _ _ (by simp; omega),
      hstore _ _ _ (by simp; omega)]
  · rw [hstore _ _ _ (by simp; omega), hstore _ _ _ (by simp; omega),
      hstore _ _ _ (by simp; omega), hstore _ _ _ (by simp; omega),
      hstore _ _ _ (by simp; omega)]
  · rw [writeExponent_frame _ _ (by dsimp only; omega)]
    exact hstore _ _ _ (by simp; omega)
  · rw [writeExponent_frame _ _ (by dsimp only; omega)]
    dsimp only
    rw [hstore _ _ _ (by simp; omega), hstore _ _ _ (by simp; omega),
      hstore _ _ _ (by simp; omega)]

/-! ## The size of the exponent -/

theorem pow_length_numeral {d : ℕ} (hpos : 0 < d) :
    10 ^ ((numeral 10 d).length - 1) ≤ d ∧
      d < 10 ^ (numeral 10 d).length := by
  have hlength := length_numeral_pos 10 d
  constructor
  · by_contra hlt
    by_cases hone : (numeral 10 d).length = 1
    · rw [hone] at hlt
      omega
    · have hshort :=
        length_numeral_le (by norm_num) (not_le.mp hlt) (by omega)
      omega
  · by_contra hge
    have hlong := lt_length_numeral (by norm_num) (not_lt.mp hge)
    omega

/-- The decimal exponents of the doubles. -/
theorem natAbs_exponent_lt
    {bits d : ℕ} {k : ℤ} (hpositive : IsPositive bits) (hd : 0 < d)
    (hwithin :
      Within 52 (doubleSignificand bits) (doubleExponent bits)
        (d * 10 ^ k)) :
    ((numeral 10 d).length + k - 1).natAbs < 1000 := by
  have hcanonical := canonical_double bits
  have hle := doubleExponent_le hpositive.finite
  have hsignificand := hpositive.significand_pos
  have hgap := gapBelow_le 52 (doubleSignificand bits) (doubleExponent bits)
  have hlength := length_numeral_pos 10 d
  obtain ⟨hleast, hlargest⟩ := pow_length_numeral hd
  have hten : (0 : ℚ) < 10 ^ k := by positivity
  have hunit : (0 : ℚ) < 2 ^ doubleExponent bits := by positivity
  have hupper : ((numeral 10 d).length : ℤ) + k - 1 < 309 := by
    apply (zpow_lt_zpow_iff_right₀ (by norm_num : (1 : ℚ) < 10)).mp
    calc (10 : ℚ) ^ (((numeral 10 d).length : ℤ) + k - 1)
        = (10 ^ ((numeral 10 d).length - 1) : ℕ) * 10 ^ k := by
          push_cast
          rw [← zpow_natCast, ← zpow_add₀ (by norm_num)]
          congr 1
          omega
      _ ≤ d * 10 ^ k :=
          mul_le_mul_of_nonneg_right (by exact_mod_cast hleast) hten.le
      _ < value (doubleSignificand bits) (doubleExponent bits) +
            2 ^ doubleExponent bits / 2 := hwithin.below
      _ ≤ 2 ^ 54 * 2 ^ doubleExponent bits := by
          have hless : (doubleSignificand bits : ℚ) ≤ 2 ^ 53 := by
            exact_mod_cast hcanonical.lt.le
          have hvalue :
              value (doubleSignificand bits) (doubleExponent bits) ≤
                2 ^ 53 * 2 ^ doubleExponent bits :=
            mul_le_mul_of_nonneg_right hless hunit.le
          linarith
      _ ≤ 2 ^ 54 * 2 ^ (971 : ℤ) :=
          mul_le_mul_of_nonneg_left
            (zpow_le_zpow_right₀ (by norm_num) hle) (by positivity)
      _ < 10 ^ (309 : ℤ) := by
          have hpowers : 2 ^ 54 * 2 ^ 971 < 10 ^ 309 := by decide +kernel
          exact_mod_cast hpowers
  have hlower : -325 < ((numeral 10 d).length : ℤ) + k := by
    apply (zpow_lt_zpow_iff_right₀ (by norm_num : (1 : ℚ) < 10)).mp
    calc (10 : ℚ) ^ (-325 : ℤ) < 2 ^ (-1074 : ℤ) / 2 := by
          have hpowers : 2 ^ 1075 < 10 ^ 325 := by decide +kernel
          have hcast : (2 : ℚ) ^ 1075 < 10 ^ 325 := by
            exact_mod_cast hpowers
          rw [← two_zpow_sub_one, show (-1074 - 1 : ℤ) = -(1075 : ℕ) by rfl,
            show (-325 : ℤ) = -(325 : ℕ) by rfl, zpow_neg, zpow_neg,
            zpow_natCast, zpow_natCast]
          exact inv_strictAnti₀ (by positivity) hcast
      _ ≤ 2 ^ doubleExponent bits / 2 := by
          have hpow : (2 : ℚ) ^ (-1074 : ℤ) ≤ 2 ^ doubleExponent bits :=
            zpow_le_zpow_right₀ (by norm_num) hcanonical.least_le
          linarith
      _ ≤ value (doubleSignificand bits) (doubleExponent bits) -
            gapBelow 52 (doubleSignificand bits) (doubleExponent bits) /
              2 := by
          have hone : (1 : ℚ) ≤ doubleSignificand bits := by
            exact_mod_cast hsignificand
          have hvalue :
              1 * 2 ^ doubleExponent bits ≤
                value (doubleSignificand bits) (doubleExponent bits) :=
            mul_le_mul_of_nonneg_right hone hunit.le
          linarith
      _ < d * 10 ^ k := hwithin.above
      _ ≤ (10 ^ (numeral 10 d).length : ℕ) * 10 ^ k :=
          mul_le_mul_of_nonneg_right (by exact_mod_cast hlargest.le) hten.le
      _ = 10 ^ (((numeral 10 d).length : ℤ) + k) := by
          rw [zpow_add₀ (by norm_num)]
          push_cast
          rw [zpow_natCast]
  omega

/-! ## Signs -/

theorem exponentField_mod (bits : ℕ) :
    exponentField (bits % 2 ^ 63) = exponentField bits := by
  unfold exponentField
  omega

theorem doubleSignificand_mod (bits : ℕ) :
    doubleSignificand (bits % 2 ^ 63) = doubleSignificand bits := by
  rw [doubleSignificand, exponentField_mod, doubleSignificand,
    show bits % 2 ^ 63 % 2 ^ 52 = bits % 2 ^ 52 by omega]

theorem doubleValue_of_sign (bits : ℕ) :
    doubleValue bits =
      if bits / 2 ^ 63 % 2 = 1 then -doubleValue (bits % 2 ^ 63)
      else doubleValue (bits % 2 ^ 63) := by
  have hmagnitude :
      doubleValue (bits % 2 ^ 63) =
        value (doubleSignificand bits) (doubleExponent bits) := by
    rw [doubleValue, if_pos (by omega), doubleSignificand_mod,
      doubleExponent, exponentField_mod, doubleExponent]
  rw [hmagnitude, doubleValue]
  by_cases hsign : bits / 2 ^ 63 % 2 = 0
  · rw [if_pos hsign, if_neg (by omega)]
  · rw [if_neg hsign, if_pos (by omega)]

/-- The pattern with the other sign. -/
theorem exists_doubleValue_neg (bits : ℕ) :
    ∃ other, doubleValue other = -doubleValue bits := by
  by_cases hsign : bits / 2 ^ 63 % 2 = 1
  · refine ⟨bits % 2 ^ 63, ?_⟩
    rw [doubleValue_of_sign bits, if_pos hsign, neg_neg]
  · refine ⟨bits % 2 ^ 63 + 2 ^ 63, ?_⟩
    rw [doubleValue_of_sign bits, if_neg hsign,
      doubleValue_of_sign (bits % 2 ^ 63 + 2 ^ 63), if_pos (by omega),
      show (bits % 2 ^ 63 + 2 ^ 63) % 2 ^ 63 = bits % 2 ^ 63 by omega]

theorem ReadsBack.neg
    {q : ℚ} {bits negated : ℕ} (hreads : ReadsBack q bits)
    (hneg : doubleValue negated = -doubleValue bits) :
    ReadsBack (-q) negated := by
  intro other hne
  obtain ⟨mirror, hmirror⟩ := exists_doubleValue_neg other
  have hdistance : ∀ v : ℚ, |-q - -v| = |q - v| := by
    intro v
    rw [← abs_neg]
    congr 1
    ring
  rw [hneg] at hne ⊢
  have hless :=
    hreads mirror (by rw [hmirror]; intro heq; exact hne (by linarith))
  rw [hmirror, ← hdistance, ← hdistance, neg_neg] at hless
  exact hless

theorem readsBack_zero {bits : ℕ} (hzero : bits % 2 ^ 63 = 0) :
    ReadsBack 0 bits := by
  have hvalue : doubleValue bits = 0 := by
    have hpositive : doubleValue 0 = 0 := by
      rw [doubleValue, if_pos (by norm_num),
        show doubleSignificand 0 = 0 from rfl, value_zero]
    rw [doubleValue_of_sign, hzero, hpositive, neg_zero, ite_self]
  intro other hne
  rw [hvalue] at hne ⊢
  rw [sub_zero, abs_zero, zero_sub, abs_neg]
  exact abs_pos.mpr hne

/-! ## The whole text -/

theorem prettyText_ne_zero
    {text : List Byte} {kk : ℤ} (htext : ∀ b ∈ text, b ≠ 0)
    (hsmall : (kk - 1).natAbs < 1000) {b : Byte}
    (hb : b ∈ prettyText text kk) : b ≠ 0 := by
  rcases List.mem_append.mp hb with hb | hb
  · exact mantissaText_ne_zero htext kk hb
  · split at hb
    next => simp at hb
    next =>
      rw [exponentText_eq_decimal hsmall, decimal] at hb
      have hdigit :
          ∀ c ∈ (numeral 10 (kk - 1).natAbs).map digitByte, c ≠ 0 := by
        intro c hc
        obtain ⟨digit, hmem, rfl⟩ := List.mem_map.mp hc
        exact digitByte_ne_zero (lt_of_mem_numeral (by norm_num) hmem)
      split at hb
      next =>
        rcases List.mem_cons.mp hb with hminus | hb
        · rw [hminus]
          decide
        · exact hdigit b hb
      next => exact hdigit b hb

/-- What `dtoa_milo` leaves behind the sign. -/
def laidOut (buffer : Cursor) (digits : List Byte) (k : ℤ) : ℤ → Byte :=
  prettify (store buffer.array buffer.pos digits) buffer.pos digits.length k

section Printed

variable {d : ℕ} {k : ℤ}

theorem laidOut_appends (buffer : Cursor) (d : ℕ) (k : ℤ) :
    ∃ pos,
      Appends buffer
        { array := laidOut buffer ((numeral 10 d).map digitByte) k
          pos := pos }
        (prettyText ((numeral 10 d).map digitByte)
            ((numeral 10 d).length + k) ++ [0]) := by
  have hpos : 0 < ((numeral 10 d).map digitByte).length := by
    rw [List.length_map]
    exact length_numeral_pos 10 d
  have hall :=
    prettify_appends
      (appends_store buffer ((numeral 10 d).map digitByte)) hpos k
  rw [List.length_map] at hall
  rw [laidOut, List.length_map]
  exact hall

theorem Appends.isCString
    {buffer final : Cursor} {text : List Byte}
    (happends : Appends buffer final (text ++ [0]))
    (hne : ∀ b ∈ text, b ≠ 0) : IsCString final.array buffer.pos text := by
  have hslice := happends.slice_eq
  rw [List.length_append, slice_add] at hslice
  obtain ⟨hfront, hlast⟩ := List.append_inj hslice (length_slice _ _ _)
  refine ⟨hfront, ?_, hne⟩
  simpa [slice] using hlast

theorem laidOut_frame
    (buffer : Cursor) {address : ℤ} (hlength : (numeral 10 d).length ≤ 17)
    (houtside : address < buffer.pos ∨ buffer.pos + 25 ≤ address) :
    laidOut buffer ((numeral 10 d).map digitByte) k address =
      buffer.array address := by
  rcases houtside with hbefore | hbehind
  · obtain ⟨pos, happends⟩ := laidOut_appends buffer d k
    exact happends.frame address hbefore
  · have hpos := length_numeral_pos 10 d
    rw [laidOut, List.length_map, prettify_frame hpos hlength hbehind,
      store_of_ge _ (by rw [List.length_map]; omega)]

/-- The text of a number behind a sign, or without one. -/
theorem laidOut_reads
    (negative : Bool) (array : ℤ → Byte)
    (hlength : (numeral 10 d).length ≤ 17)
    (hsmall : ((numeral 10 d).length + k - 1).natAbs < 1000) :
    ∃ text,
      IsCString
          (laidOut
            (if negative then Cursor.put { array := array, pos := 0 } 45
              else { array := array, pos := 0 })
            ((numeral 10 d).map digitByte) k) 0 text ∧
        text.length ≤ 25 ∧
          readDecimal text =
            some (if negative then -((d : ℚ) * 10 ^ k) else d * 10 ^ k) := by
  set text :=
    prettyText ((numeral 10 d).map digitByte) ((numeral 10 d).length + k)
      with htext
  have hcount :
      ((numeral 10 d).map digitByte).length = (numeral 10 d).length :=
    List.length_map _
  have hpos : 0 < ((numeral 10 d).map digitByte).length := by
    rw [hcount]
    exact length_numeral_pos 10 d
  have hread : readMagnitude text = some ((d : ℚ) * 10 ^ k) := by
    rw [htext, readMagnitude_prettyText (fun _ => isDigit_of_mem_numeral)
      hpos hsmall, digitsValue_numeral, hcount, add_sub_cancel_left]
  have hbound : text.length ≤ 24 :=
    length_prettyText_le hpos (by rwa [hcount]) _
  have hne : ∀ b ∈ text, b ≠ 0 := by
    intro b hb
    apply prettyText_ne_zero _ hsmall hb
    intro c hc
    obtain ⟨digit, hmem, rfl⟩ := List.mem_map.mp hc
    exact digitByte_ne_zero (lt_of_mem_numeral (by norm_num) hmem)
  cases negative with
  | false =>
      obtain ⟨pos, happends⟩ :=
        laidOut_appends { array := array, pos := 0 } d k
      exact ⟨text, happends.isCString hne, by omega,
        readDecimal_of_readMagnitude hread⟩
  | true =>
      obtain ⟨pos, happends⟩ :=
        laidOut_appends (Cursor.put { array := array, pos := 0 } 45) d k
      have hsigned :=
        (appends_put { array := array, pos := 0 } 45).trans happends
      rw [← List.append_assoc] at hsigned
      refine ⟨45 :: text, hsigned.isCString ?_, ?_, readDecimal_minus hread⟩
      · intro b hb
        rcases List.mem_cons.mp hb with hminus | hb
        · rw [hminus]
          decide
        · exact hne b hb
      · rw [List.length_cons]
        omega

end Printed

theorem positive_of_finite
    {bits : ℕ} (hfinite : exponentField bits ≠ 2047)
    (hne : ¬ bits % 2 ^ 63 = 0) : IsPositive (bits % 2 ^ 63) := by
  unfold exponentField at hfinite
  exact ⟨Nat.pos_of_ne_zero hne, by omega⟩

/-- The conversion of a number that is not zero. -/
theorem dtoaMiloBits_nonzero
    {bits fuel : ℕ} (hpositive : IsPositive (bits % 2 ^ 63))
    (hfuel : 64 ≤ fuel) (behind : ℕ → ℕ) (array : ℤ → Byte) :
    ∃ d k,
      dtoaMiloBits behind fuel bits array =
          some (((numeral 10 d).length : ℤ),
            laidOut
              (if decide (bits / 2 ^ 63 % 2 = 1) then
                Cursor.put { array := array, pos := 0 } 45
              else { array := array, pos := 0 })
              ((numeral 10 d).map digitByte) k) ∧
        0 < d ∧ (numeral 10 d).length ≤ 17 ∧
          ((numeral 10 d).length + k - 1).natAbs < 1000 ∧
            ReadsBack (d * 10 ^ k) (bits % 2 ^ 63) := by
  obtain ⟨m, k, hlt, hall⟩ := grisu2_digits hpositive hfuel
  obtain ⟨n, _, hn, hrun, hwithin⟩ := hall behind
  have hpos : 0 < m - n := by omega
  refine ⟨m - n, k, ?_, hpos,
    length_numeral_le (by norm_num) (by omega) (by norm_num),
    natAbs_exponent_lt hpositive hpos hwithin,
    readsBack_of_within hpositive hwithin⟩
  rw [digitsOf, if_neg hpos.ne'] at hrun
  rw [dtoaMiloBits, if_neg hpositive.pos.ne']
  simp only [hrun, Option.bind_eq_bind, Option.bind_some, List.length_map,
    decide_eq_true_eq, laidOut]

/-- The digits of a positive number, as `Prettify` expects them. -/
def shortestDigits
    (d : ℕ) (hd : 0 < d) (hlength : (numeral 10 d).length ≤ 17) :
    ShortestDigits where
  digits := numeral 10 d
  length_pos := length_numeral_pos 10 d
  length_le := hlength
  lt_ten := fun _ => lt_of_mem_numeral (by norm_num)
  lead_ne_zero := by
    rw [numeral, if_neg hd.ne', List.head?_reverse]
    intro hlast
    have hne : Nat.digits 10 d ≠ [] :=
      Nat.digits_ne_nil_iff_ne_zero.mpr hd.ne'
    rw [List.getLast?_eq_some_getLast hne, Option.some.injEq] at hlast
    exact Nat.getLast_digit_ne_zero 10 hd.ne' hlast

/-- The conversion of a finite double is that of its digits. -/
theorem dtoaMiloBits_eq_dtoaMilo
    {bits fuel : ℕ} (hfinite : exponentField bits ≠ 2047)
    (hfuel : 64 ≤ fuel) (behind : ℕ → ℕ) (array : ℤ → Byte) :
    ∃ value,
      dtoaMiloBits behind fuel bits array = some (dtoaMilo value array) ∧
        (value = .zero ↔ bits % 2 ^ 63 = 0) := by
  by_cases hzero : bits % 2 ^ 63 = 0
  · refine ⟨.zero, ?_, iff_of_true rfl hzero⟩
    rw [dtoaMiloBits, if_pos hzero]
    rfl
  · obtain ⟨d, k, hrun, hd, hlength, _⟩ :=
      dtoaMiloBits_nonzero (positive_of_finite hfinite hzero) hfuel behind
        array
    refine ⟨.nonzero (decide (bits / 2 ^ 63 % 2 = 1))
      (shortestDigits d hd hlength) k, ?_,
      iff_of_false (fun heq => by cases heq) hzero⟩
    rw [hrun]
    simp only [dtoaMilo, laidOut, shortestDigits, List.length_map]

/-- The text of every finite double reads back as the double, and it is written
inside the first 26 bytes. -/
theorem dtoa_reads_back
    {bits fuel : ℕ} (hfinite : exponentField bits ≠ 2047)
    (hfuel : 64 ≤ fuel) (behind : ℕ → ℕ) (array : ℤ → Byte) :
    ∃ converted text q,
      dtoaMiloBits behind fuel bits array = some converted ∧
        IsCString converted.2 0 text ∧ text.length ≤ 25 ∧
          readDecimal text = some q ∧ ReadsBack q bits ∧
            ∀ address, address < 0 ∨ 26 ≤ address →
              converted.2 address = array address := by
  by_cases hzero : bits % 2 ^ 63 = 0
  · have happends :=
      appends_store { array := array, pos := 0 } [48, 46, 48, 0]
    refine ⟨_, [48, 46, 48], 0, by rw [dtoaMiloBits, if_pos hzero],
      @Appends.isCString _ _ [48, 46, 48] happends (by simp), by simp, ?_,
      readsBack_zero hzero, ?_⟩
    · apply readDecimal_of_readMagnitude
      rw [show ([48, 46, 48] : List Byte) = [48] ++ 46 :: ([48] ++ [])
        from rfl,
        readMagnitude_point (by simp) (List.forall_mem_singleton.mpr rfl)
          (List.forall_mem_singleton.mpr rfl) exponentPart_nil.stops
          exponentPart_nil.read,
        show digitsValue ([48] ++ [48]) = 0 from rfl, Nat.cast_zero,
        zero_mul]
    · intro address houtside
      rcases houtside with hbefore | hbehind
      · exact store_of_lt _ _ hbefore
      · apply store_of_ge
        simp only [List.length_cons, List.length_nil]
        omega
  · have hpositive := positive_of_finite hfinite hzero
    obtain ⟨d, k, hrun, hd, hlength, hsmall, hreads⟩ :=
      dtoaMiloBits_nonzero hpositive hfuel behind array
    obtain ⟨text, hstring, hbound, hread⟩ :=
      laidOut_reads (decide (bits / 2 ^ 63 % 2 = 1)) array hlength hsmall
    have hvalue := doubleValue_of_sign bits
    refine ⟨_, text, _, hrun, hstring, hbound, hread, ?_, ?_⟩
    · by_cases hsign : bits / 2 ^ 63 % 2 = 1
      · rw [if_pos hsign] at hvalue
        rw [if_pos (decide_eq_true hsign)]
        exact hreads.neg hvalue
      · rw [if_neg hsign] at hvalue
        rw [if_neg (by simpa using hsign), ReadsBack, hvalue]
        exact hreads
    · intro address houtside
      by_cases hsign : bits / 2 ^ 63 % 2 = 1
      · have hsigned :
            (Cursor.put { array := array, pos := 0 } 45).array address =
              array address := by
          rcases houtside with hbefore | hbehind
          · exact store_of_lt _ _ hbefore
          · exact Cursor.put_of_lt _ _ (by dsimp only; omega)
        rw [if_pos (decide_eq_true hsign), ← hsigned]
        exact laidOut_frame _ hlength (by simp only [Cursor.put]; omega)
      · rw [if_neg (by simpa using hsign)]
        exact laidOut_frame { array := array, pos := 0 } hlength
          (by dsimp only; omega)

/-- The largest double. -/
theorem dtoa_reads_back_largest :
    exponentField 0x7FEFFFFFFFFFFFFF ≠ 2047 ∧
      ∃ converted text q,
        dtoaMiloBits (fun _ => 0) 64 0x7FEFFFFFFFFFFFFF (fun _ => 0) =
            some converted ∧
          IsCString converted.2 0 text ∧ text.length ≤ 25 ∧
            readDecimal text = some q ∧
              ReadsBack q 0x7FEFFFFFFFFFFFFF ∧
                ∀ address, address < 0 ∨ 26 ≤ address →
                  converted.2 address = 0 :=
  ⟨by decide, dtoa_reads_back (by decide) le_rfl (fun _ => 0) (fun _ => 0)⟩

end GreenTurtle.Num2a
