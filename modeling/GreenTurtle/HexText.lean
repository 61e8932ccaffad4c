import GreenTurtle.AlignText
import GreenTurtle.Numeral
import Mathlib.Tactic

/-!
# Hexadecimal text

`__ToHex` of `format.h` and the integer types that are wired to it.  An aligned
integer is always rendered this way, and with zeros for padding the result is
what `printf` writes for `%0*x`.
-/

namespace GreenTurtle.Formatting

open Memory
open Numeral

/-- The types with an overload of `ToHex`. -/
inductive IntegerType where
  | signedChar
  | unsignedChar
  | signedShort
  | unsignedShort
  | signedInt
  | unsignedInt
  | signedLong
  | unsignedLong
  | signedLongLong
  | unsignedLongLong
  | char16
  | char32
  | wchar
  deriving DecidableEq

namespace IntegerType

/-- In bytes, on the 64-bit platforms that the library is for. -/
def size : IntegerType → ℕ
  | signedChar | unsignedChar => 1
  | signedShort | unsignedShort | char16 => 2
  | signedInt | unsignedInt | char32 | wchar => 4
  | signedLong | unsignedLong | signedLongLong | unsignedLongLong => 8

def isSigned : IntegerType → Bool
  | signedChar | signedShort | signedInt | signedLong | signedLongLong => true
  | wchar => true
  | _ => false

def Holds (type : IntegerType) (v : ℤ) : Prop :=
  if type.isSigned then
    -2 ^ (8 * type.size - 1) ≤ v ∧ v < 2 ^ (8 * type.size - 1)
  else 0 ≤ v ∧ v < 2 ^ (8 * type.size)

instance (type : IntegerType) (v : ℤ) : Decidable (type.Holds v) := by
  unfold Holds
  infer_instance

/-- The conversion to the unsigned type of the same width. -/
def unsigned (type : IntegerType) (v : ℤ) : ℕ :=
  (v % 2 ^ (8 * type.size)).toNat

/-- The value as an argument of the overloads.  The digits are those that
`ToString` would copy, which `ToHex` does not look at. -/
def argument
    (type : IntegerType) (v : ℤ) (digits : List Byte) : FormatValue :=
  match type with
  | signedChar => .signedChar (UInt8.ofNat (type.unsigned v))
  | type => .integer type.size (type.unsigned v) digits

theorem size_pos (type : IntegerType) : 0 < type.size := by
  cases type <;> decide

theorem unsigned_lt (type : IntegerType) (v : ℤ) :
    type.unsigned v < 16 ^ (2 * type.size) := by
  have hpow : (16 : ℕ) ^ (2 * type.size) = 2 ^ (8 * type.size) := by
    rw [show (16 : ℕ) = 2 ^ 4 from rfl, ← pow_mul]
    congr 1
    omega
  have hpos : (0 : ℤ) < 2 ^ (8 * type.size) := by positivity
  have hnonneg := Int.emod_nonneg v hpos.ne'
  have hlt := Int.emod_lt_of_pos v hpos
  have hcast : ((2 ^ (8 * type.size) : ℕ) : ℤ) = 2 ^ (8 * type.size) := by
    push_cast
    rfl
  rw [hpow]
  unfold unsigned
  omega

theorem unsigned_of_nonneg
    {type : IntegerType} {v : ℤ} (hv : type.Holds v) (hnonneg : 0 ≤ v) :
    type.unsigned v = v.toNat := by
  have hlt : v < 2 ^ (8 * type.size) := by
    unfold Holds at hv
    split at hv
    next =>
      refine lt_of_lt_of_le hv.2 (pow_le_pow_right₀ (by norm_num) ?_)
      omega
    next => exact hv.2
  unfold unsigned
  rw [Int.emod_eq_of_lt hnonneg hlt]

theorem argument_hex (type : IntegerType) (v : ℤ) (digits : List Byte) :
    (type.argument v digits).hex =
      hexText type.size (type.unsigned v) := by
  cases type with
  | signedChar =>
      have hlt : unsigned .signedChar v < 2 ^ 8 := unsigned_lt _ v
      rw [argument, FormatValue.hex, UInt8.toNat_ofNat',
        Nat.mod_eq_of_lt hlt]
      rfl
  | _ => rfl

end IntegerType

/-! ## The loop over the nibbles -/

theorem hexLoop_step
    {nibbles value : ℕ} (hlt : value < 16 ^ (nibbles + 1)) :
    (value >>> (4 * nibbles)) % 256 = value / 16 ^ nibbles ∧
      value &&& (2 ^ (4 * nibbles) - 1) = value % 16 ^ nibbles := by
  have hpow : 2 ^ (4 * nibbles) = 16 ^ nibbles := by
    rw [pow_mul]
    rfl
  have hdigit : value / 16 ^ nibbles < 16 :=
    Nat.div_lt_of_lt_mul (by rwa [← pow_succ])
  rw [Nat.shiftRight_eq_div_pow, Nat.and_two_pow_sub_one_eq_mod, hpow]
  exact ⟨Nat.mod_eq_of_lt (by omega), rfl⟩

theorem hexLoop_of_ne_nil
    {nibbles value : ℕ} {array : List Byte} (harray : array ≠ [])
    (hlt : value < 16 ^ nibbles) :
    hexLoop nibbles value array =
      array ++ (field 16 nibbles value).map hexDigit := by
  induction nibbles generalizing value array with
  | zero => simp [hexLoop, field]
  | succ nibbles ih =>
      have hdigit : value / 16 ^ nibbles % 16 = value / 16 ^ nibbles :=
        Nat.mod_eq_of_lt (Nat.div_lt_of_lt_mul (by rwa [← pow_succ]))
      rw [hexLoop, (hexLoop_step hlt).1, (hexLoop_step hlt).2]
      simp only [harray, ne_eq, not_false_eq_true, true_or, if_true]
      rw [ih (by simp) (Nat.mod_lt _ (by positivity)), field_mod,
        field_succ, hdigit, List.map_cons, List.append_assoc]
      rfl

theorem hexLoop_nil {nibbles value : ℕ} (hlt : value < 16 ^ nibbles) :
    hexLoop nibbles value [] =
      if value = 0 then [] else (numeral 16 value).map hexDigit := by
  induction nibbles generalizing value with
  | zero =>
      rw [pow_zero] at hlt
      simp [hexLoop, show value = 0 by omega]
  | succ nibbles ih =>
      have hdigit : value / 16 ^ nibbles < 16 :=
        Nat.div_lt_of_lt_mul (by rwa [← pow_succ])
      have hrest : value % 16 ^ nibbles < 16 ^ nibbles :=
        Nat.mod_lt _ (by positivity)
      rw [hexLoop, (hexLoop_step hlt).1, (hexLoop_step hlt).2]
      by_cases hsmall : value < 16 ^ nibbles
      · rw [Nat.div_eq_of_lt hsmall]
        simp only [ne_eq, not_true_eq_false, or_false, if_false]
        rw [ih hrest, Nat.mod_eq_of_lt hsmall]
      · have hge : 16 ^ nibbles ≤ value := by omega
        have hpos : value / 16 ^ nibbles ≠ 0 :=
          (Nat.div_pos hge (by positivity)).ne'
        have hne : value ≠ 0 := by
          rintro rfl
          simp at hpos
        rw [if_neg hne]
        simp only [ne_eq, hpos, not_false_eq_true, or_true, if_true,
          List.nil_append]
        rw [hexLoop_of_ne_nil (by simp) hrest, field_mod,
          numeral_cut (by norm_num) nibbles hge, numeral_of_lt hdigit]
        rfl

/-- Zero has no digits at all. -/
theorem hexText_eq {bytes value : ℕ} (hlt : value < 16 ^ (2 * bytes)) :
    hexText bytes value =
      if value = 0 then [] else (numeral 16 value).map hexDigit :=
  hexLoop_nil hlt

/-! ## The reference -/

/-- The digits of the conversions `x` and `X`. -/
def printfDigit (upper : Bool) (digit : ℕ) : Byte :=
  if digit < 10 then UInt8.ofNat (48 + digit)
  else if upper then UInt8.ofNat (65 + (digit - 10))
  else UInt8.ofNat (97 + (digit - 10))

/-- What `printf` writes for `%0*x` and for `%0*X`. -/
def printfHex (upper : Bool) (width value : ℕ) : List Byte :=
  let digits := (numeral 16 value).map (printfDigit upper)
  List.replicate (width - digits.length) 48 ++ digits

theorem shown_hexDigits
    (upper : Bool) {digits : List ℕ} (hdigits : ∀ d ∈ digits, d < 16) :
    shown upper (digits.map hexDigit) = digits.map (printfDigit upper) := by
  have hdigit :
      ∀ d < 16,
        upperChar (hexDigit d) = printfDigit true d ∧
          hexDigit d = printfDigit false d := by
    decide
  cases upper with
  | false =>
      exact List.map_congr_left fun d hd => (hdigit d (hdigits d hd)).2
  | true =>
      simp only [shown, if_true, List.map_map]
      exact List.map_congr_left fun d hd => (hdigit d (hdigits d hd)).1

theorem laidOut_hexText
    (upper : Bool) {width bytes value : ℕ} (hwidth : 0 < width)
    (hlt : value < 16 ^ (2 * bytes)) :
    laidOut .right width 48 (shown upper (hexText bytes value)) =
      printfHex upper width value := by
  rw [hexText_eq hlt]
  unfold printfHex laidOut
  split
  next hzero =>
    rw [hzero, numeral_of_lt (by norm_num)]
    cases upper <;>
      simp only [shown, List.map_nil, List.map_cons, List.length_nil,
        List.length_singleton, Nat.zero_max, Nat.sub_zero, List.append_nil,
        if_true, if_false, Bool.false_eq_true] <;>
      rw [show width = width - 1 + 1 by omega, List.replicate_succ'] <;>
      rfl
  next =>
    rw [shown_hexDigits upper fun d hd => lt_of_mem_numeral (by norm_num) hd]
    dsimp only
    rw [show ∀ a b : ℕ, max a b - a = b - a by omega]

/-- Formatting in hexadecimal agrees with `printf`. -/
theorem hex_eq_printf
    (type : IntegerType) (v : ℤ) (digits : List Byte) (width : UInt8)
    (hwidth : 1 ≤ width.toNat) (mem : ℤ → Byte) (cursor left : ℤ)
    (hint : left < 2147483648) :
    WritesOrRefuses (toString (hex (type.argument v digits) width 48))
        (printfHex false width.toNat (type.unsigned v)) mem cursor left ∧
      WritesOrRefuses (toString (upperHex (type.argument v digits) width 48))
        (printfHex true width.toNat (type.unsigned v)) mem cursor left := by
  have hcall :
      ∀ upper,
        WritesOrRefuses
          (toString (align .right upper (type.argument v digits) width 48))
          (printfHex upper width.toNat (type.unsigned v)) mem cursor
          left := by
    intro upper
    rw [← laidOut_hexText upper hwidth (type.unsigned_lt v),
      ← type.argument_hex v digits]
    exact align_writesOrRefuses .right upper _ width 48 mem cursor left hint
  exact ⟨hcall false, hcall true⟩

theorem hex_eq_printf_minus_two :
    WritesOrRefuses
      (toString (upperHex (IntegerType.signedShort.argument (-2) []) 6 48))
      (printfHex true 6 65534) (fun _ => 0) 0 30 :=
  (hex_eq_printf .signedShort (-2) [] 6 (by decide) (fun _ => 0) 0 30
    (by decide)).2

end GreenTurtle.Formatting
