import GreenTurtle.Numeral
import Mathlib.Algebra.Order.Field.Power
import Mathlib.Tactic

/-!
# Reading decimal numbers

A decimal number is written as digits, a point with more digits behind it, and
a power of ten behind the letter `e`.  The point, the power and a minus sign in
front may be missing.  The reader accepts a text if nothing is left over.
-/

namespace GreenTurtle.DecimalText

open Memory
open Numeral

def isDigit (b : Byte) : Bool :=
  48 ≤ b && b ≤ 57

def digitsValue (text : List Byte) : ℕ :=
  text.foldl (fun value b => 10 * value + (b.toNat - 48)) 0

def readNatural (text : List Byte) : Option ℕ :=
  if text ≠ [] ∧ text.all isDigit then some (digitsValue text) else none

def readInteger : List Byte → Option ℤ
  | [] => none
  | sign :: text =>
      if sign = 45 then (readNatural text).map fun (n : ℕ) => -(n : ℤ)
      else (readNatural (sign :: text)).map fun (n : ℕ) => (n : ℤ)

def readExponent : List Byte → Option ℤ
  | [] => some 0
  | letter :: text => if letter = 101 then readInteger text else none

/-- The digits behind the point, and what follows them. -/
def readFraction : List Byte → List Byte × List Byte
  | [] => ([], [])
  | point :: text =>
      if point = 46 then (text.takeWhile isDigit, text.dropWhile isDigit)
      else ([], point :: text)

def readMagnitude (text : List Byte) : Option ℚ :=
  let whole := text.takeWhile isDigit
  let fraction := readFraction (text.dropWhile isDigit)
  if whole = [] then none
  else
    (readExponent fraction.2).map fun (exponent : ℤ) =>
      (digitsValue (whole ++ fraction.1) : ℚ) *
        10 ^ (exponent - fraction.1.length)

def readDecimal : List Byte → Option ℚ
  | [] => none
  | sign :: text =>
      if sign = 45 then (readMagnitude text).map fun q => -q
      else readMagnitude (sign :: text)

/-! ## Digits -/

theorem digitsValue_append (front rest : List Byte) :
    digitsValue (front ++ rest) =
      digitsValue front * 10 ^ rest.length + digitsValue rest := by
  induction rest using List.reverseRecOn with
  | nil => simp [digitsValue]
  | append_singleton rest b ih =>
      have hlast :
          ∀ text, digitsValue (text ++ [b]) =
            10 * digitsValue text + (b.toNat - 48) := by
        intro text
        simp [digitsValue]
      rw [← List.append_assoc, hlast, hlast, ih, List.length_append,
        List.length_singleton, pow_succ]
      ring

theorem digitsValue_singleton (b : Byte) :
    digitsValue [b] = b.toNat - 48 := by
  simp [digitsValue]

theorem digitsValue_zeros (count : ℕ) :
    digitsValue (List.replicate count 48) = 0 := by
  induction count with
  | zero => rfl
  | succ count ih =>
      rw [List.replicate_succ', digitsValue_append, ih,
        digitsValue_singleton]
      rfl

theorem digitByte_toNat {digit : ℕ} (hlt : digit < 10) :
    (digitByte digit).toNat = 48 + digit := by
  have hall : ∀ d < 10, (digitByte d).toNat = 48 + d := by decide
  exact hall digit hlt

theorem isDigit_digitByte {digit : ℕ} (hlt : digit < 10) :
    isDigit (digitByte digit) = true := by
  have hall : ∀ d < 10, isDigit (digitByte d) = true := by decide
  exact hall digit hlt

theorem digitsValue_numeral (n : ℕ) :
    digitsValue ((numeral 10 n).map digitByte) = n := by
  induction n using Nat.strong_induction_on with
  | _ n ih =>
      by_cases hlt : n < 10
      · rw [numeral_of_lt hlt, List.map_singleton, digitsValue_singleton,
          digitByte_toNat hlt]
        omega
      · rw [numeral_of_ge (by norm_num) (by omega), List.map_append,
          List.map_singleton, digitsValue_append, ih _ (by omega),
          digitsValue_singleton, digitByte_toNat (Nat.mod_lt _ (by norm_num))]
        simp only [List.length_singleton, pow_one]
        omega

theorem isDigit_of_mem_numeral
    {n : ℕ} {b : Byte} (hmem : b ∈ (numeral 10 n).map digitByte) :
    isDigit b = true := by
  obtain ⟨digit, hdigit, rfl⟩ := List.mem_map.mp hmem
  exact isDigit_digitByte (lt_of_mem_numeral (by norm_num) hdigit)

/-! ## Whole numbers -/

section Reading

variable {whole fraction rest : List Byte}

theorem takeWhile_digits
    (hwhole : ∀ b ∈ whole, isDigit b = true)
    (hrest : ∀ b ∈ rest.head?, isDigit b = false) :
    (whole ++ rest).takeWhile isDigit = whole := by
  rw [List.takeWhile_append_of_pos hwhole]
  cases rest with
  | nil => simp
  | cons b rest =>
      have hstop := hrest b rfl
      rw [List.takeWhile_cons_of_neg (by simp [hstop]), List.append_nil]

theorem dropWhile_digits
    (hwhole : ∀ b ∈ whole, isDigit b = true)
    (hrest : ∀ b ∈ rest.head?, isDigit b = false) :
    (whole ++ rest).dropWhile isDigit = rest := by
  rw [List.dropWhile_append_of_pos hwhole]
  cases rest with
  | nil => rfl
  | cons b rest =>
      have hstop := hrest b rfl
      rw [List.dropWhile_cons_of_neg (by simp [hstop])]

/-- A number with a point. -/
theorem readMagnitude_point
    {exponent : ℤ} (hne : whole ≠ [])
    (hwhole : ∀ b ∈ whole, isDigit b = true)
    (hfraction : ∀ b ∈ fraction, isDigit b = true)
    (hrest : ∀ b ∈ rest.head?, isDigit b = false)
    (hexponent : readExponent rest = some exponent) :
    readMagnitude (whole ++ 46 :: (fraction ++ rest)) =
      some
        ((digitsValue (whole ++ fraction) : ℚ) *
          10 ^ (exponent - fraction.length)) := by
  have hpoint :
      ∀ b ∈ (46 :: (fraction ++ rest) : List Byte).head?,
        isDigit b = false := by
    intro b hb
    rw [List.head?_cons, Option.mem_some_iff] at hb
    rw [← hb]
    rfl
  simp only [readMagnitude, takeWhile_digits hwhole hpoint,
    dropWhile_digits hwhole hpoint, readFraction, if_neg hne, if_true,
    takeWhile_digits hfraction hrest, dropWhile_digits hfraction hrest,
    hexponent, Option.map_some]

/-- A number without a point. -/
theorem readMagnitude_letter
    {exponent : ℤ} (hne : whole ≠ [])
    (hwhole : ∀ b ∈ whole, isDigit b = true)
    (hexponent : readInteger rest = some exponent) :
    readMagnitude (whole ++ 101 :: rest) =
      some ((digitsValue whole : ℚ) * 10 ^ exponent) := by
  have hletter :
      ∀ b ∈ (101 :: rest : List Byte).head?, isDigit b = false := by
    intro b hb
    rw [List.head?_cons, Option.mem_some_iff] at hb
    rw [← hb]
    rfl
  have hpoint : (101 : Byte) ≠ 46 := by decide
  simp only [readMagnitude, takeWhile_digits hwhole hletter,
    dropWhile_digits hwhole hletter, readFraction, if_neg hne,
    if_neg hpoint, readExponent, if_true, hexponent, Option.map_some,
    List.append_nil, List.length_nil, Nat.cast_zero, sub_zero]

/-- What can be read as a number without a sign does not begin with one. -/
theorem readDecimal_of_readMagnitude
    {text : List Byte} {q : ℚ} (hread : readMagnitude text = some q) :
    readDecimal text = some q := by
  cases text with
  | nil => simp [readMagnitude] at hread
  | cons sign text =>
      by_cases hminus : sign = 45
      · rw [hminus] at hread
        have hdigit : ¬ isDigit 45 = true := by decide
        simp [readMagnitude, List.takeWhile_cons_of_neg hdigit] at hread
      · rw [readDecimal, if_neg hminus, hread]

theorem readDecimal_minus
    {text : List Byte} {q : ℚ} (hread : readMagnitude text = some q) :
    readDecimal (45 :: text) = some (-q) := by
  rw [readDecimal, if_pos rfl, hread, Option.map_some]

end Reading

theorem readNatural_numeral (n : ℕ) :
    readNatural ((numeral 10 n).map digitByte) = some n := by
  have hlength := length_numeral_pos 10 n
  have hne : (numeral 10 n).map digitByte ≠ [] := by
    intro hnil
    rw [List.map_eq_nil_iff] at hnil
    rw [hnil] at hlength
    exact absurd hlength (lt_irrefl _)
  have hall : ((numeral 10 n).map digitByte).all isDigit = true :=
    List.all_eq_true.mpr fun _ => isDigit_of_mem_numeral
  rw [readNatural, if_pos ⟨hne, hall⟩, digitsValue_numeral]

theorem readInteger_of_readNatural
    {text : List Byte} {n : ℕ} (hread : readNatural text = some n) :
    readInteger text = some (n : ℤ) := by
  cases text with
  | nil => simp [readNatural] at hread
  | cons sign text =>
      by_cases hminus : sign = 45
      · rw [hminus] at hread
        have hdigit : isDigit 45 = false := by decide
        simp [readNatural, hdigit] at hread
      · rw [readInteger, if_neg hminus, hread, Option.map_some]

theorem readInteger_decimal (k : ℤ) : readInteger (decimal k) = some k := by
  have hread := readNatural_numeral k.natAbs
  unfold decimal
  split
  next hneg =>
    rw [readInteger, if_pos rfl, hread, Option.map_some]
    congr 1
    omega
  next hnonneg =>
    rw [readInteger_of_readNatural hread]
    congr 1
    omega

end GreenTurtle.DecimalText
