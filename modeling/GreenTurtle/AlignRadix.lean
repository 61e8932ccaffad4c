import GreenTurtle.IntegerText
import Mathlib.Tactic

/-!
# The radix of aligned integers

`ToString` of an aligned value calls `ToHex` whatever the flags, so an aligned
integer is shown in hexadecimal.  It looks like its decimal numeral, and like
what `Format` writes for the integer alone, only where the two radices agree and
`ToString` of the type writes a numeral.
-/

namespace GreenTurtle.Formatting

open Memory
open Numeral
open Num2a

/-! ## Integer arguments -/

/-- The integer types that can be aligned: `char`, for which `ToHex` is the
template that calls `ToString`, and the types with an overload of `ToHex`. -/
inductive AlignedType where
  | char
  | integer (type : IntegerType)
  deriving DecidableEq

namespace AlignedType

def Holds : AlignedType → ℤ → Prop
  | char, v => -128 ≤ v ∧ v < 128
  | integer type, v => type.Holds v

instance : (type : AlignedType) → (v : ℤ) → Decidable (type.Holds v)
  | char, v => inferInstanceAs (Decidable (-128 ≤ v ∧ v < 128))
  | integer type, v => inferInstanceAs (Decidable (type.Holds v))

def argument
    (type : AlignedType) (v : ℤ) (digits : List Byte) : FormatValue :=
  match type with
  | char => .char (UInt8.ofNat (v % 256).toNat)
  | integer type => type.argument v digits

/-- The argument of `Format(v)`.  There is none for a type without a definition
of `ToString`, nor when the conversion negates the least value. -/
def alone
    (type : AlignedType) (v : ℤ) (array : ℤ → Byte) : Option FormatValue :=
  match type with
  | char => some (argument char v [])
  | integer .signedChar => some (argument (integer .signedChar) v [])
  | integer type => do
      let toa ← conversion type
      let (length, array) ← toa v { array := array, pos := 0 }
      return type.argument v (slice array 0 length.toNat)

/-- `ToString` of the type is one of `FORMAT_INTEGER`. -/
def wired : AlignedType → Bool
  | char => false
  | integer type => (conversion type).isSome

end AlignedType

/-! ## What is claimed of alignment -/

/-- All three alignments show the decimal numeral, at every width and with any
padding. -/
def ShowsDecimal (value : FormatValue) (v : ℤ) : Prop :=
  ∀ (width : UInt8) (pad : Byte) (mem : ℤ → Byte) (cursor left : ℤ),
    left < 2147483648 →
      WritesOrRefuses (toString (leftAlign value width pad))
          (laidOut .left width.toNat pad (decimal v)) mem cursor left ∧
        WritesOrRefuses (toString (rightAlign value width pad))
          (laidOut .right width.toNat pad (decimal v)) mem cursor left ∧
        WritesOrRefuses (toString (centerAlign value width pad))
          (laidOut .center width.toNat pad (decimal v)) mem cursor left

/-- All three alignments show the decimal numeral, and what stands behind the
spaces of `RightAlign(v, width, ' ')` is the text that `Format` writes for the
integer alone, whatever its local array held before. -/
structure KeepsRadix (type : AlignedType) (v : ℤ) : Prop where
  decimal : ∀ digits, ShowsDecimal (type.argument v digits) v
  alone :
    ∀ array, ∃ value, type.alone v array = some value ∧
      ∀ (width : UInt8) (mem : ℤ → Byte) (maxLength : ℕ),
        256 ≤ maxLength → maxLength < 2147483648 →
          ∃ aligned single,
            format mem maxLength [rightAlign value width 32] =
                some aligned ∧
              format mem maxLength [value] = some single ∧
              (slice aligned.2 0 aligned.1.toNat).dropWhile (· == 32) =
                slice single.2 0 single.1.toNat

/-! ## What is shown -/

theorem laidOut_zero (mode : AlignMode) (pad : Byte) (text : List Byte) :
    laidOut mode 0 pad text = text := by
  cases mode <;> simp [laidOut]

theorem WritesOrRefuses.text_eq
    {writer : Writer} {first second : List Byte} {mem : ℤ → Byte}
    {cursor left : ℤ} (hfirst : first.length ≤ left)
    (hsecond : second.length ≤ left)
    (hone : WritesOrRefuses writer first mem cursor left)
    (hother : WritesOrRefuses writer second mem cursor left) :
    first = second := by
  unfold WritesOrRefuses at hone hother
  rw [if_pos hfirst] at hone
  rw [if_pos hsecond] at hother
  have hlength : first.length = second.length := by
    have heq := hone.1.symm.trans hother.1
    omega
  rw [← hone.2, ← hother.2, hlength]

theorem length_decimal_le {v : ℤ} (hlt : v.natAbs < 10 ^ 20) :
    (decimal v).length ≤ 21 := by
  have hdigits := length_numeral_le (by norm_num) hlt (by norm_num)
  unfold decimal
  split
  next =>
    rw [List.length_cons, List.length_map]
    omega
  next =>
    rw [List.length_map]
    omega

theorem AlignedType.Holds.natAbs_lt
    {type : AlignedType} {v : ℤ} (hv : type.Holds v) :
    v.natAbs < 10 ^ 20 := by
  cases type with
  | char =>
      unfold AlignedType.Holds at hv
      omega
  | integer type =>
      cases type <;>
        simp only [AlignedType.Holds, IntegerType.Holds,
          IntegerType.isSigned, IntegerType.size, if_true, if_false,
          Bool.false_eq_true] at hv <;>
        omega

theorem length_hexText_le {bytes value : ℕ} (hbytes : bytes ≤ 8)
    (hlt : value < 16 ^ (2 * bytes)) :
    (hexText bytes value).length ≤ 16 := by
  have hwide : value < 16 ^ 16 :=
    lt_of_lt_of_le hlt (Nat.pow_le_pow_right (by norm_num) (by omega))
  rw [hexText_eq hlt]
  split
  next => simp
  next =>
    rw [List.length_map]
    exact length_numeral_le (by norm_num) hwide (by norm_num)

theorem AlignedType.length_hex_le
    (type : AlignedType) (v : ℤ) (digits : List Byte) :
    (type.argument v digits).hex.length ≤ 16 := by
  cases type with
  | char => simp [argument, FormatValue.hex]
  | integer type =>
      have hsize : type.size ≤ 8 := by cases type <;> decide
      rw [argument, type.argument_hex]
      exact length_hexText_le hsize (type.unsigned_lt v)

/-- At width zero there is nothing but the digits. -/
theorem ShowsDecimal.hex_eq
    {type : AlignedType} {v : ℤ} {digits : List Byte}
    (hv : type.Holds v) (hshows : ShowsDecimal (type.argument v digits) v) :
    (type.argument v digits).hex = decimal v := by
  have hexact :=
    align_writesOrRefuses .right false (type.argument v digits) 0 0
      (fun _ => 0) 0 100 (by norm_num)
  have hdecimal := (hshows 0 0 (fun _ => 0) 0 100 (by norm_num)).2.1
  rw [show (0 : UInt8).toNat = 0 from rfl, laidOut_zero] at hexact hdecimal
  rw [show ∀ text, shown false text = text from fun _ => rfl] at hexact
  have hfirst := type.length_hex_le v digits
  have hsecond := length_decimal_le hv.natAbs_lt
  exact hexact.text_eq (by omega) (by omega) hdecimal

theorem decimal_of_digit {v : ℤ} (hnonneg : 0 ≤ v) (hle : v ≤ 9) :
    decimal v = [UInt8.ofNat (48 + v.toNat)] := by
  unfold decimal
  rw [if_neg (by omega), numeral_of_lt (by omega),
    show v.natAbs = v.toNat by omega]
  rfl

/-- A `char` is shown as itself, and no byte is its own decimal numeral. -/
theorem char_not_decimal (v : ℤ) :
    [UInt8.ofNat (v % 256).toNat] ≠ decimal v := by
  intro heq
  have hlength := congrArg List.length heq
  rw [List.length_singleton] at hlength
  have hnonneg : 0 ≤ v := by
    by_contra hneg
    rw [length_decimal_of_neg (by omega), digitText,
      List.length_map] at hlength
    have hpos := length_numeral_pos 10 (-v).toNat
    omega
  have hle : v ≤ 9 := by
    by_contra hlarge
    rw [decimal_of_nonneg hnonneg, digitText, List.length_map] at hlength
    have htwo : 1 < (numeral 10 v.toNat).length :=
      lt_length_numeral (by norm_num) (by omega)
    omega
  rw [decimal_of_digit hnonneg hle] at heq
  interval_cases v <;> exact absurd heq (by decide)

theorem hexText_of_digit
    {bytes value : ℕ} (hbytes : 0 < bytes) (hpos : 1 ≤ value)
    (hle : value ≤ 9) :
    hexText bytes value = [UInt8.ofNat (48 + value)] := by
  have hlt : value < 16 ^ (2 * bytes) := by
    have hpow : 16 ^ 1 ≤ 16 ^ (2 * bytes) :=
      Nat.pow_le_pow_right (by norm_num) (by omega)
    omega
  rw [hexText_eq hlt, if_neg (by omega), numeral_of_lt (by omega)]
  simp [hexDigit, show value < 10 by omega]

theorem hexDigit_ne_minus {digit : ℕ} (hlt : digit < 16) :
    hexDigit digit ≠ 45 := by
  have hall : ∀ d < 16, hexDigit d ≠ 45 := by decide
  exact hall digit hlt

theorem map_hexDigit_inj
    {first second : List ℕ} (hfirst : ∀ d ∈ first, d < 16)
    (hsecond : ∀ d ∈ second, d < 10)
    (heq : first.map hexDigit = second.map digitByte) :
    first = second := by
  have hdigit :
      ∀ a < 16, ∀ b < 10, hexDigit a = digitByte b → a = b := by
    decide
  induction first generalizing second with
  | nil =>
      cases second with
      | nil => rfl
      | cons b second => simp at heq
  | cons a first ih =>
      cases second with
      | nil => simp at heq
      | cons b second =>
          rw [List.map_cons, List.map_cons, List.cons.injEq] at heq
          have hhead :=
            hdigit a (hfirst a (by simp)) b (hsecond b (by simp)) heq.1
          have htail :=
            ih (fun d hd => hfirst d (by simp [hd]))
              (fun d hd => hsecond d (by simp [hd])) heq.2
          rw [hhead, htail]

theorem digit_of_hexText_eq_decimal
    {type : IntegerType} {v : ℤ} (hv : type.Holds v)
    (heq : hexText type.size (type.unsigned v) = decimal v) :
    1 ≤ v ∧ v ≤ 9 := by
  rw [hexText_eq (type.unsigned_lt v)] at heq
  unfold decimal at heq
  have hnonempty := length_numeral_pos 10 v.natAbs
  by_cases hzero : type.unsigned v = 0
  · rw [if_pos hzero] at heq
    split at heq
    next => cases heq
    next =>
      have hlength := congrArg List.length heq
      rw [List.length_map, List.length_nil] at hlength
      omega
  · rw [if_neg hzero] at heq
    split at heq
    next =>
      -- no hexadecimal digit is a minus sign
      cases hnumeral : numeral 16 (type.unsigned v) with
      | nil => simp [hnumeral] at heq
      | cons d rest =>
          rw [hnumeral, List.map_cons, List.cons.injEq] at heq
          have hlt : d < 16 :=
            lt_of_mem_numeral (by norm_num)
              (by rw [hnumeral]; exact List.mem_cons_self)
          exact absurd heq.1 (hexDigit_ne_minus hlt)
    next hnonneg =>
      rw [IntegerType.unsigned_of_nonneg hv (by omega)] at heq hzero
      rw [show v.natAbs = v.toNat by omega] at heq
      have hsame :=
        map_hexDigit_inj (fun d hd => lt_of_mem_numeral (by norm_num) hd)
          (fun d hd => lt_of_mem_numeral (by norm_num) hd) heq
      have hlt :=
        lt_of_numeral_eq (by norm_num) (by norm_num) hsame.symm
      omega

theorem hexText_of_decimal_digit
    {type : IntegerType} {v : ℤ} (hv : type.Holds v) (hpos : 1 ≤ v)
    (hle : v ≤ 9) :
    hexText type.size (type.unsigned v) = decimal v := by
  rw [IntegerType.unsigned_of_nonneg hv (by omega),
    hexText_of_digit type.size_pos (by omega) (by omega),
    decimal_of_digit (by omega) hle]

theorem showsDecimal_of_hex
    {value : FormatValue} {v : ℤ} (htext : value.hex = decimal v) :
    ShowsDecimal value v := by
  intro width pad mem cursor left hint
  have hcall :
      ∀ mode,
        WritesOrRefuses (toString (align mode false value width pad))
          (laidOut mode width.toNat pad (decimal v)) mem cursor left := by
    intro mode
    rw [← htext]
    exact align_writesOrRefuses mode false _ width pad mem cursor left hint
  exact ⟨hcall .left, hcall .right, hcall .center⟩

/-! ## Formatting one argument -/

theorem format_one
    {value : FormatValue} {maxLength : ℕ}
    (hfits : value.text.length ≤ maxLength) (hint : maxLength < 2147483648)
    (mem : ℤ → Byte) :
    ∃ written, format mem maxLength [value] = some written ∧
      slice written.2 0 written.1.toNat = value.text := by
  have hone : texts [value] = value.text := by simp [texts]
  rcases formatFrom_fits [value] mem 0 maxLength 0
      (by rw [hone]; exact_mod_cast hfits) (by omega) le_rfl (by omega)
    with ⟨final, hformat, hslice, -, -⟩
  rw [hone] at hformat hslice
  refine ⟨_, hformat, ?_⟩
  simpa using hslice

theorem strip_rightAlign (value : FormatValue) (width : UInt8) :
    (rightAlign value width 32).text.dropWhile (· == 32) =
      value.hex.dropWhile (· == 32) := by
  rw [rightAlign, align_text, laidOut, List.dropWhile_append_of_pos]
  · rfl
  · intro byte hbyte
    rw [List.eq_of_mem_replicate hbyte]
    rfl

theorem length_rightAlign_le
    {value : FormatValue} (hvalue : value.hex.length ≤ 256) (width : UInt8) :
    (rightAlign value width 32).text.length ≤ 256 := by
  have hwidth := width.toNat_lt
  rw [rightAlign, align_text, length_laidOut, length_shown]
  omega

/-- Both texts fit, so that they are what is compared. -/
theorem alone_iff_text
    {value : FormatValue} (hhex : value.hex.length ≤ 256)
    (htext : value.text.length ≤ 256) :
    (∀ (width : UInt8) (mem : ℤ → Byte) (maxLength : ℕ),
        256 ≤ maxLength → maxLength < 2147483648 →
          ∃ aligned single,
            format mem maxLength [rightAlign value width 32] =
                some aligned ∧
              format mem maxLength [value] = some single ∧
              (slice aligned.2 0 aligned.1.toNat).dropWhile (· == 32) =
                slice single.2 0 single.1.toNat) ↔
      value.hex.dropWhile (· == 32) = value.text := by
  constructor
  · intro hsame
    rcases hsame 0 (fun _ => 0) 256 le_rfl (by norm_num) with
      ⟨aligned, single, haligned, hsingle, heq⟩
    rcases format_one (length_rightAlign_le hhex 0) (by norm_num)
        (fun _ => 0) with ⟨first, hfirst, hshown⟩
    rcases format_one htext (by norm_num) (fun _ => 0) with
      ⟨second, hsecond, halone⟩
    obtain rfl := Option.some.inj (haligned.symm.trans hfirst)
    obtain rfl := Option.some.inj (hsingle.symm.trans hsecond)
    rw [hshown, halone, strip_rightAlign] at heq
    exact heq
  · intro heq width mem maxLength hroom hint
    rcases format_one ((length_rightAlign_le hhex width).trans hroom) hint
        mem with ⟨aligned, haligned, hshown⟩
    rcases format_one (htext.trans hroom) hint mem with
      ⟨single, hsingle, halone⟩
    refine ⟨aligned, single, haligned, hsingle, ?_⟩
    rw [hshown, halone, strip_rightAlign, heq]

/-! ## The result -/

/-- A digit alone is printed as it is by the conversions. -/
theorem alone_of_wired
    {type : IntegerType} {v : ℤ} (hwired : (conversion type).isSome)
    (hv : type.Holds v) (hnonneg : 0 ≤ v) (hle : v ≤ 9)
    (array : ℤ → Byte) :
    (AlignedType.integer type).alone v array =
      some (type.argument v (decimal v)) := by
  rcases Option.isSome_iff_exists.mp hwired with ⟨toa, htoa⟩
  rcases conversion_of_nonneg htoa hv hnonneg { array := array, pos := 0 }
    with ⟨written, hwritten, hleaves⟩
  have hlength := hleaves.length_eq
  rw [if_pos (by omega)] at hlength
  have hdigits : slice written.2 0 written.1.toNat = decimal v := by
    rw [show written.1.toNat = (decimal v).length by omega]
    exact hleaves.slice_eq
  cases type with
  | signedChar => cases hwired
  | _ =>
      simp only [AlignedType.alone, htoa, Option.bind_eq_bind,
        Option.bind_some, hwritten, hdigits]
      rfl

theorem text_argument
    {type : IntegerType} (hwired : (conversion type).isSome) (v : ℤ)
    (digits : List Byte) :
    (type.argument v digits).text = digits := by
  cases type with
  | signedChar => cases hwired
  | _ => rfl

/-- A digit is no space. -/
theorem strip_decimal_digit {v : ℤ} (hnonneg : 0 ≤ v) (hle : v ≤ 9) :
    (decimal v).dropWhile (· == 32) = decimal v := by
  rw [decimal_of_digit hnonneg hle]
  interval_cases v <;> rfl

/-- A `signed char` alone is written as the byte it is. -/
theorem signedChar_text_ne_decimal {v : ℤ} (hnonneg : 0 ≤ v) (hle : v ≤ 9) :
    (IntegerType.signedChar.argument v []).text ≠ decimal v := by
  rw [decimal_of_digit hnonneg hle]
  interval_cases v <;> decide

/-- The types without a conversion: a `signed char` is not printed as a number
at all, and for the others there is no `ToString`. -/
theorem conversion_isSome_of_alone
    {type : IntegerType} {v : ℤ}
    (hhex : hexText type.size (type.unsigned v) = decimal v)
    (hnonneg : 0 ≤ v) (hle : v ≤ 9)
    (hkeeps : KeepsRadix (.integer type) v) :
    (conversion type).isSome = true := by
  rcases hkeeps.alone fun _ => 0 with ⟨value, hvalue, hsame⟩
  cases type with
  | signedChar =>
      obtain rfl := Option.some.inj hvalue
      have hlength :=
        (AlignedType.integer .signedChar).length_hex_le v []
      have htext :
          ((AlignedType.integer .signedChar).argument v []).text.length =
            1 := rfl
      rw [alone_iff_text (by omega) (by omega), AlignedType.argument,
        IntegerType.argument_hex, hhex,
        strip_decimal_digit hnonneg hle] at hsame
      exact absurd hsame.symm (signedChar_text_ne_decimal hnonneg hle)
  | char16 | char32 | wchar => simp [AlignedType.alone, conversion] at hvalue
  | _ => rfl

theorem align_keepsRadix_iff
    (type : AlignedType) (v : ℤ) (hv : type.Holds v) :
    KeepsRadix type v ↔ (1 ≤ v ∧ v ≤ 9) ∧ type.wired = true := by
  constructor
  · intro hkeeps
    have hhex := (hkeeps.decimal []).hex_eq hv
    cases type with
    | char => exact absurd hhex (char_not_decimal v)
    | integer type =>
        rw [AlignedType.argument, type.argument_hex] at hhex
        have hdigit := digit_of_hexText_eq_decimal hv hhex
        refine ⟨hdigit, ?_⟩
        exact conversion_isSome_of_alone hhex (by omega) hdigit.2 hkeeps
  · rintro ⟨⟨hpos, hle⟩, hwired⟩
    cases type with
    | char => cases hwired
    | integer type =>
        have hhex := hexText_of_decimal_digit hv hpos hle
        constructor
        · intro digits
          apply showsDecimal_of_hex
          rw [AlignedType.argument, type.argument_hex, hhex]
        · intro array
          refine ⟨_, alone_of_wired hwired hv (by omega) hle array, ?_⟩
          have hargument :
              (type.argument v (decimal v)).hex = decimal v :=
            (type.argument_hex v _).trans hhex
          have htext := text_argument hwired v (decimal v)
          have hlength := length_decimal_le hv.natAbs_lt
          rw [alone_iff_text (by rw [hargument]; omega)
            (by rw [htext]; omega), hargument, htext,
            strip_decimal_digit (by omega) hle]

theorem align_keepsRadix_iff_seven :
    KeepsRadix (.integer .signedInt) 7 :=
  (align_keepsRadix_iff (.integer .signedInt) 7 (by decide)).mpr (by decide)

/-- Ten, right-aligned at width two, is shown as `a`. -/
theorem rightAlign_ten_shows_a :
    let ten := IntegerType.signedInt.argument 10 [49, 48]
    (∃ final,
      toString (rightAlign ten 2 32) (fun _ => 0) 0 30 = (2, final) ∧
        slice final 0 2 = [32, 97]) ∧
      ¬ KeepsRadix (.integer .signedInt) 10 := by
  refine ⟨⟨_, rfl, rfl⟩, ?_⟩
  intro hkeeps
  have htext := (hkeeps.decimal []).hex_eq (by decide)
  have hlength := congrArg List.length htext
  simp [decimal, numeral] at hlength
  revert hlength
  decide

end GreenTurtle.Formatting
