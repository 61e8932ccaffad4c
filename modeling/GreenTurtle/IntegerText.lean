import GreenTurtle.CursorText
import GreenTurtle.VectorDigits
import Mathlib.Data.List.TakeWhile
import Mathlib.Tactic

/-!
# What integers print as

The text that the conversions of `num2a.h` leave is the decimal numeral, for
every value.  The length they return is not always its length: from `10 ^ 8` on
the terminating zero is not counted but still subtracted, and a minus sign is
never counted.
-/

namespace GreenTurtle.Num2a

open Memory
open Simd128
open Formatting
open Numeral

/-! ## Digits from the table -/

def digitText (digits : List ℕ) : List Byte :=
  digits.map digitByte

/-- A numeral is that of the upper digits and then the lower digits. -/
theorem digitText_cut
    (width : ℕ) {cut value : ℕ} (hcut : 10 ^ width = cut)
    (hge : cut ≤ value) :
    digitText (numeral 10 value) =
      digitText (numeral 10 (value / cut)) ++
        digitText (field 10 width (value % cut)) := by
  subst cut
  rw [numeral_cut (by norm_num) width hge, field_mod, digitText,
    List.map_append]
  rfl

theorem lut_pair {i : ℕ} (hi : i < 100) :
    lut (i <<< 1) = digitByte (i / 10) ∧
      lut ((i <<< 1) + 1) = digitByte (i % 10) := by
  have hall :
      ∀ i < 100,
        lut (i <<< 1) = digitByte (i / 10) ∧
          lut ((i <<< 1) + 1) = digitByte (i % 10) := by
    decide +kernel
  exact hall i hi

theorem numeral_two {value : ℕ} (hge : 10 ≤ value) (hlt : value < 100) :
    numeral 10 value = [value / 10, value % 10] := by
  rw [@numeral_eq_field 10 (by norm_num) 1 value (by omega) (by omega)]
  simp only [field, List.nil_append, List.cons_append, List.cons.injEq,
    and_true]
  omega

theorem numeral_three {value : ℕ} (hge : 100 ≤ value) (hlt : value < 1000) :
    numeral 10 value = [value / 100, value / 10 % 10, value % 10] := by
  rw [@numeral_eq_field 10 (by norm_num) 2 value (by omega) (by omega)]
  simp only [field, List.nil_append, List.cons_append, List.cons.injEq,
    and_true]
  omega

theorem numeral_four
    {value : ℕ} (hge : 1000 ≤ value) (hlt : value < 10000) :
    numeral 10 value =
      [value / 1000, value / 100 % 10, value / 10 % 10, value % 10] := by
  rw [@numeral_eq_field 10 (by norm_num) 3 value (by omega) (by omega)]
  simp only [field, List.nil_append, List.cons_append, List.cons.injEq,
    and_true]
  omega

/-- The conditional stores of the table branches. -/
theorem leadingText {value : ℕ} (hlt : value < 10000) :
    [] ++ (if 1000 ≤ value then [lut ((value / 100) <<< 1)] else []) ++
          (if 100 ≤ value then [lut ((value / 100) <<< 1 + 1)] else []) ++
        (if 10 ≤ value then [lut ((value % 100) <<< 1)] else []) ++
      [lut ((value % 100) <<< 1 + 1)] =
    digitText (numeral 10 value) := by
  have hupper := lut_pair (by omega : value / 100 < 100)
  have hlower := lut_pair (by omega : value % 100 < 100)
  rw [hupper.1, hupper.2, hlower.1, hlower.2]
  by_cases hthousand : 1000 ≤ value
  · rw [numeral_four hthousand hlt, if_pos hthousand, if_pos (by omega),
      if_pos (by omega), Nat.div_div_eq_div_mul,
      show value % 100 / 10 = value / 10 % 10 by omega,
      show value % 100 % 10 = value % 10 by omega]
    rfl
  · rw [if_neg hthousand]
    by_cases hhundred : 100 ≤ value
    · rw [numeral_three hhundred (by omega), if_pos hhundred,
        if_pos (by omega), show value / 100 % 10 = value / 100 by omega,
        show value % 100 / 10 = value / 10 % 10 by omega,
        show value % 100 % 10 = value % 10 by omega]
      rfl
    · rw [if_neg hhundred, show value % 100 = value by omega]
      by_cases hten : 10 ≤ value
      · rw [numeral_two hten (by omega), if_pos hten]
        rfl
      · rw [numeral_of_lt (by omega), if_neg hten,
          Nat.mod_eq_of_lt (by omega : value < 10)]
        rfl

theorem pairText {value : ℕ} (hlt : value < 10000) :
    [lut ((value / 100) <<< 1), lut ((value / 100) <<< 1 + 1),
        lut ((value % 100) <<< 1), lut ((value % 100) <<< 1 + 1)] =
      digitText (field 10 4 value) := by
  have hupper := lut_pair (by omega : value / 100 < 100)
  have hlower := lut_pair (by omega : value % 100 < 100)
  rw [hupper.1, hupper.2, hlower.1, hlower.2,
    show value / 100 / 10 = value / 1000 % 10 by omega,
    show value % 100 / 10 = value / 10 % 10 by omega,
    show value % 100 % 10 = value % 10 by omega, field_four]
  rfl

theorem putSmall_appends
    {value : ℕ} (hlt : value < 10000) (buffer : Cursor) :
    Appends buffer (putSmall value buffer)
      (digitText (numeral 10 value) ++ [0]) := by
  rw [← leadingText hlt]
  exact (((((Appends.refl buffer).putIf _ _).putIf _ _).putIf _ _).put
    _).put 0

theorem putMiddle_appends
    {value : ℕ} (hge : 10000 ≤ value) (hlt : value < 100000000)
    (buffer : Cursor) :
    Appends buffer (putMiddle value buffer)
      (digitText (numeral 10 value) ++ [0]) := by
  have hsteps :=
    ((((((((Appends.refl buffer).putIf (10000000 ≤ value)
      (lut ((value / 10000 / 100) <<< 1))).putIf (1000000 ≤ value)
      (lut ((value / 10000 / 100) <<< 1 + 1))).putIf (100000 ≤ value)
      (lut ((value / 10000 % 100) <<< 1))).put
      (lut ((value / 10000 % 100) <<< 1 + 1))).put
      (lut ((value % 10000 / 100) <<< 1))).put
      (lut ((value % 10000 / 100) <<< 1 + 1))).put
      (lut ((value % 10000 % 100) <<< 1))).put
      (lut ((value % 10000 % 100) <<< 1 + 1))
  rw [digitText_cut 4 (by norm_num) hge, ← leadingText (by omega),
    ← pairText (by omega)]
  simp only [show 1000 ≤ value / 10000 ↔ 10000000 ≤ value by omega,
    show 100 ≤ value / 10000 ↔ 1000000 ≤ value by omega,
    show 10 ≤ value / 10000 ↔ 100000 ≤ value by omega]
  have hall := hsteps.put 0
  simp only [List.append_assoc, List.cons_append, List.nil_append]
    at hall ⊢
  exact hall

/-! ## What a conversion leaves -/

/-- The text and a zero behind it, and a length that is short by `missing`. -/
structure Leaves
    (buffer : Cursor) (result : Converted) (text : List Byte)
    (missing : ℕ) : Prop where
  length_eq : result.1 = text.length - missing
  slice_eq : slice result.2 buffer.pos text.length = text
  terminated : result.2 (buffer.pos + text.length) = 0

theorem Appends.leaves_all
    {buffer final : Cursor} {text : List Byte}
    (happends : Appends buffer final (text ++ [0])) :
    Leaves buffer (final.pos - buffer.pos - 1, final.array) text 0 := by
  have hpos := happends.pos_eq
  have hslice := happends.slice_eq
  rw [List.length_append, List.length_singleton] at hpos hslice
  rw [slice_add] at hslice
  rcases List.append_inj hslice (length_slice _ _ _) with ⟨htext, hzero⟩
  refine ⟨?_, htext, ?_⟩
  · dsimp only
    omega
  · simpa [slice] using hzero

theorem Appends.leaves_short
    {buffer final : Cursor} {text : List Byte}
    (happends : Appends buffer final text)
    (hzero : final.array final.pos = 0) :
    Leaves buffer (final.pos - buffer.pos - 1, final.array) text 1 := by
  have hpos := happends.pos_eq
  refine ⟨?_, happends.slice_eq, ?_⟩
  · dsimp only
    omega
  · dsimp only
    rw [← hpos]
    exact hzero

theorem block_terminated
    (buffer : Cursor) (data : List ℕ) (advance : ℕ) :
    (buffer.block data advance).array (buffer.block data advance).pos = 0 := by
  simp [Cursor.block, store]

/-! ## Digits from the vector -/

theorem map_ascii (digits : List ℕ) :
    (digits.map (48 + ·)).map UInt8.ofNat = digitText digits := by
  rw [List.map_map]
  rfl

theorem putBlock_appends
    (buffer : Cursor) {digits : List ℕ} {advance : ℕ}
    (hlength : digits.length = advance) :
    Appends buffer (buffer.block (digits.map (48 + ·)) advance)
      (digitText digits) := by
  have hblock :=
    appends_block buffer
      (by simp [hlength] : advance ≤ (digits.map (48 + ·)).length)
  rw [List.take_of_length_le (by simp [hlength]), map_ascii] at hblock
  exact hblock

theorem asciiDigits_convert
    {upper lower : ℕ} (hupper : upper < 100000000)
    (hlower : lower < 100000000) :
    asciiDigits (convert8Digits upper) (convert8Digits lower) =
      pack 8 ((field 10 8 upper ++ field 10 8 lower).map (48 + ·)) := by
  rw [convert8Digits_eq hupper, convert8Digits_eq hlower]
  apply asciiDigits_eq (length_field 8 upper) (length_field 8 lower)
  intro d hd
  rcases List.mem_append.mp hd with hd | hd <;>
    exact lt_of_mem_field (by norm_num) hd

theorem lt_of_mem_field_ten {width value digit : ℕ}
    (hmem : digit ∈ field 10 width value) : digit < 10 :=
  lt_of_mem_field (by norm_num) hmem

/-- The sixteen digits of a number below `10 ^ 16`. -/
theorem asciiDigits_sixteen {value : ℕ} (hlt : value < 10000000000000000) :
    asciiDigits (convert8Digits (value / 100000000))
        (convert8Digits (value % 100000000)) =
      pack 8 ((field 10 16 value).map (48 + ·)) := by
  rw [asciiDigits_convert (by omega) (by omega), field_add 8 8 value,
    ← field_mod 8 value]
  rfl

/-- The upper half of the register, moved down. -/
theorem lanes_eight {value : ℕ} (hlt : value < 100000000) :
    (lanes 8
        (srliSi128 (asciiDigits setzero (convert8Digits value)) 8)).take 8 =
      (field 10 8 value).map (48 + ·) := by
  have hzeros : setzero = pack 16 (List.replicate 8 0) := rfl
  have hdigits :
      ∀ d ∈ List.replicate 8 0 ++ field 10 8 value, d < 10 := by
    intro d hd
    rcases List.mem_append.mp hd with hd | hd
    · rw [List.eq_of_mem_replicate hd]
      norm_num
    · exact lt_of_mem_field_ten hd
  rw [hzeros, convert8Digits_eq hlt,
    asciiDigits_eq (by rfl) (length_field 8 value) hdigits,
    lanes_srliSi128 (fills_ascii (by simp) hdigits) (by norm_num),
    List.map_append, List.drop_left' (by rfl), List.take_left' (by simp)]

/-! ## 32 bits -/

theorem putPair_appends
    {a : ℕ} (hge : 10 ≤ a) (hlt : a < 100) (buffer : Cursor) :
    Appends buffer ((buffer.put (lut (a <<< 1))).put (lut ((a <<< 1) + 1)))
      (digitText (numeral 10 a)) := by
  rw [numeral_two hge hlt, (lut_pair hlt).1, (lut_pair hlt).2]
  exact (appends_put buffer _).put _

theorem putDigit_appends {a : ℕ} (hlt : a < 10) (buffer : Cursor) :
    Appends buffer (buffer.put (UInt8.ofNat (48 + a)))
      (digitText (numeral 10 a)) := by
  rw [numeral_of_lt hlt]
  exact appends_put buffer _

theorem u32toa_leaves
    {value : ℕ} (hlt : value < 2 ^ 32) (buffer : Cursor) :
    Leaves buffer (u32toa value buffer) (digitText (numeral 10 value))
      (if value < 100000000 then 0 else 1) := by
  unfold u32toa
  by_cases hsmall : value < 10000
  · rw [if_pos hsmall, if_pos (by omega)]
    exact (putSmall_appends hsmall buffer).leaves_all
  · by_cases hmiddle : value < 100000000
    · rw [if_neg hsmall, if_pos hmiddle, if_pos hmiddle]
      exact (putMiddle_appends (by omega) hmiddle buffer).leaves_all
    · rw [if_neg hsmall, if_neg hmiddle, if_neg hmiddle]
      have hlead :
          Appends buffer
            (if 10 ≤ value / 100000000 then
              (buffer.put (lut ((value / 100000000) <<< 1))).put
                (lut ((value / 100000000) <<< 1 + 1))
            else buffer.put (UInt8.ofNat (48 + value / 100000000)))
            (digitText (numeral 10 (value / 100000000))) := by
        split
        next hten => exact putPair_appends hten (by omega) buffer
        next hone => exact putDigit_appends (by omega) buffer
      have hdata := lanes_eight (by omega : value % 100000000 < 100000000)
      dsimp only
      rw [digitText_cut 8 (by norm_num) (by omega : 100000000 ≤ value),
        hdata]
      exact (hlead.trans (putBlock_appends _ (by simp))).leaves_short
        (block_terminated _ _ _)

/-! ## 64 bits -/

/-- The number of zeros in front of sixteen digits. -/
def leadingZeros (value : ℕ) : ℕ :=
  ((field 10 16 value).takeWhile fun digit => digit == 0).length

theorem field_split
    {value : ℕ} (hpos : 0 < value) (hlt : value < 10 ^ 16) :
    field 10 16 value =
      ((field 10 16 value).takeWhile fun digit => digit == 0) ++
        numeral 10 value := by
  rw [numeral_eq_dropWhile (by norm_num) hpos hlt]
  exact List.takeWhile_append_dropWhile.symm

theorem drop_leadingZeros
    {value : ℕ} (hpos : 0 < value) (hlt : value < 10 ^ 16) :
    (field 10 16 value).drop (leadingZeros value) = numeral 10 value := by
  rw [leadingZeros]
  conv_lhs => rw [field_split hpos hlt]
  exact List.drop_left' (by rw [← field_split hpos hlt])

theorem length_leadingZeros
    {value : ℕ} (hpos : 0 < value) (hlt : value < 10 ^ 16) :
    leadingZeros value + (numeral 10 value).length = 16 := by
  have hlength := congrArg List.length (field_split hpos hlt)
  rw [List.length_append, length_field] at hlength
  exact hlength.symm

theorem head_dropWhile_ne_zero
    {digits : List ℕ} {d : ℕ}
    (hhead :
      (digits.dropWhile fun digit => digit == 0).head? = some d) :
    d ≠ 0 := by
  have hlead := List.head?_dropWhile_not (fun digit => digit == 0) digits
  rw [hhead] at hlead
  simpa using hlead

theorem ctz32_mask
    {value : ℕ} (hge : 100000000 ≤ value)
    (hlt : value < 10000000000000000) :
    ctz32
        ((2 ^ 32 -
            (movemaskEpi8
                (cmpeqEpi8 (pack 8 ((field 10 16 value).map (48 + ·)))
                  kAsciiZero) + 1)) ||| 0x8000) =
      leadingZeros value := by
  have hpos : 0 < value := by omega
  have hpow : value < 10 ^ 16 := by omega
  have hlong : 8 < (numeral 10 value).length :=
    lt_length_numeral (by norm_num) hge
  have hlength := length_leadingZeros hpos hpow
  rw [movemask_ascii (length_field 16 value) fun d hd =>
    lt_of_mem_field_ten hd]
  apply ctz32_leading_zeros (length_field 16 value) (by omega)
  · intro j hj
    rw [field_split hpos hpow, List.getElem?_append_left hj,
      List.getElem?_eq_getElem hj]
    have hzero := List.mem_takeWhile_imp (List.getElem_mem hj)
    rw [beq_iff_eq] at hzero
    rw [hzero]
  · intro d hd
    rw [field_split hpos hpow, leadingZeros,
      List.getElem?_append_right le_rfl, Nat.sub_self,
      ← List.head?_eq_getElem?,
      numeral_eq_dropWhile (by norm_num) hpos hpow] at hd
    exact head_dropWhile_ne_zero hd

/-- Digits without the zeros in front, moved to the start of the buffer. -/
theorem putShifted_appends
    {value : ℕ} (hge : 100000000 ≤ value)
    (hlt : value < 10000000000000000) (buffer : Cursor) :
    Appends buffer
      (buffer.block
        (lanes 8
          (shiftDigits (pack 8 ((field 10 16 value).map (48 + ·)))
            (leadingZeros value)))
        (16 - leadingZeros value))
      (digitText (numeral 10 value)) := by
  have hpos : 0 < value := by omega
  have hlong : 8 < (numeral 10 value).length :=
    lt_length_numeral (by norm_num) hge
  have hlength := length_leadingZeros hpos hlt
  have hlanes :
      lanes 8
          (shiftDigits (pack 8 ((field 10 16 value).map (48 + ·)))
            (leadingZeros value)) =
        (numeral 10 value).map (48 + ·) ++
          List.replicate (leadingZeros value) 0 := by
    rw [shiftDigits, if_pos (by omega),
      lanes_srliSi128
        (fills_ascii (length_field 16 value) fun d hd =>
          lt_of_mem_field_ten hd) (by omega),
      ← List.map_drop, drop_leadingZeros hpos hlt]
  have htext :
      ((lanes 8
          (shiftDigits (pack 8 ((field 10 16 value).map (48 + ·)))
            (leadingZeros value))).take
        (16 - leadingZeros value)).map UInt8.ofNat =
        digitText (numeral 10 value) := by
    rw [hlanes, List.take_left' (by rw [List.length_map]; omega), map_ascii]
  rw [← htext]
  apply appends_block
  rw [hlanes, List.length_append, List.length_map, List.length_replicate]
  omega

/-- Up to four digits in front of the sixteen. -/
theorem putLead_appends
    {a : ℕ} (hlt : a < 10000) (buffer : Cursor) :
    Appends buffer
      (if a < 10 then buffer.put (UInt8.ofNat (48 + a))
      else if a < 100 then
        (buffer.put (lut (a <<< 1))).put (lut ((a <<< 1) + 1))
      else if a < 1000 then
        ((buffer.put (UInt8.ofNat (48 + a / 100))).put
          (lut ((a % 100) <<< 1))).put (lut ((a % 100) <<< 1 + 1))
      else
        (((buffer.put (lut ((a / 100) <<< 1))).put
          (lut ((a / 100) <<< 1 + 1))).put
          (lut ((a % 100) <<< 1))).put (lut ((a % 100) <<< 1 + 1)))
      (digitText (numeral 10 a)) := by
  have hlower := lut_pair (by omega : a % 100 < 100)
  split
  next hone => exact putDigit_appends hone buffer
  next hone =>
    split
    next htwo => exact putPair_appends (by omega) htwo buffer
    next htwo =>
      split
      next hthree =>
        rw [hlower.1, hlower.2, numeral_three (by omega) hthree,
          show a % 100 / 10 = a / 10 % 10 by omega,
          show a % 100 % 10 = a % 10 by omega]
        exact ((appends_put buffer _).put _).put _
      next hthree =>
        have hpairs := pairText hlt
        have hfour := numeral_four (by omega) hlt
        have hdigits :
            digitText (numeral 10 a) =
              [lut ((a / 100) <<< 1), lut ((a / 100) <<< 1 + 1),
                lut ((a % 100) <<< 1), lut ((a % 100) <<< 1 + 1)] := by
          rw [hpairs, hfour, field_four,
            Nat.mod_eq_of_lt (by omega : a / 1000 < 10)]
        rw [hdigits]
        exact (((appends_put buffer _).put _).put _).put _

theorem u64toa_leaves
    {value : ℕ} (hlt : value < 2 ^ 64) (buffer : Cursor) :
    Leaves buffer (u64toa value buffer) (digitText (numeral 10 value))
      (if value < 100000000 then 0 else 1) := by
  unfold u64toa
  by_cases hsmall : value < 100000000
  · rw [if_pos hsmall, if_pos hsmall]
    by_cases hfour : value < 10000
    · rw [if_pos hfour]
      exact (putSmall_appends hfour buffer).leaves_all
    · rw [if_neg hfour]
      exact (putMiddle_appends (by omega) hsmall buffer).leaves_all
  · rw [if_neg hsmall, if_neg hsmall]
    by_cases hsixteen : value < 10000000000000000
    · rw [if_pos hsixteen]
      dsimp only
      rw [asciiDigits_sixteen hsixteen, ctz32_mask (by omega) hsixteen]
      exact (putShifted_appends (by omega) hsixteen buffer).leaves_short
        (block_terminated _ _ _)
    · rw [if_neg hsixteen]
      have hlead :=
        putLead_appends
          (by omega : value / 10000000000000000 < 10000) buffer
      have hrest : value % 10000000000000000 < 10000000000000000 := by omega
      have hlanes :
          lanes 8
              (pack 8
                ((field 10 16 (value % 10000000000000000)).map (48 + ·))) =
            (field 10 16 (value % 10000000000000000)).map (48 + ·) :=
        lanes_pack (fills_ascii (length_field 16 _) fun d hd =>
          lt_of_mem_field_ten hd)
      dsimp only
      rw [asciiDigits_sixteen hrest, hlanes,
        digitText_cut 16 (by norm_num)
          (by omega : 10000000000000000 ≤ value)]
      exact (hlead.trans (putBlock_appends _ (by simp))).leaves_short
        (block_terminated _ _ _)

/-! ## The overloads -/

theorem decimal_of_nonneg {v : ℤ} (hnonneg : 0 ≤ v) :
    decimal v = digitText (numeral 10 v.toNat) := by
  rw [decimal, if_neg (by omega), show v.natAbs = v.toNat by omega]
  rfl

theorem length_decimal_of_neg {v : ℤ} (hneg : v < 0) :
    (decimal v).length = (digitText (numeral 10 (-v).toNat)).length + 1 := by
  rw [decimal, if_pos hneg, show v.natAbs = (-v).toNat by omega]
  rfl

/-- What the conversions have in common for values that are not negative. -/
theorem conversion_of_nonneg
    {type : IntegerType} {toa : ℤ → Cursor → Option Converted}
    (htoa : conversion type = some toa) {v : ℤ} (hv : type.Holds v)
    (hnonneg : 0 ≤ v) (buffer : Cursor) :
    ∃ result, toa v buffer = some result ∧
      Leaves buffer result (decimal v)
        (if v < 100000000 then 0 else 1) := by
  have hsize : (v < 100000000) = (v.toNat < 100000000) :=
    propext (by omega)
  simp only [decimal_of_nonneg hnonneg, hsize]
  have hsigned : ¬ v < 0 := by omega
  cases type <;>
    simp only [conversion, Option.some.injEq, reduceCtorEq] at htoa <;>
    simp only [IntegerType.Holds, IntegerType.isSigned, IntegerType.size,
      if_true, if_false, Bool.false_eq_true] at hv <;>
    subst htoa
  case unsignedChar | unsignedShort | unsignedInt =>
    exact ⟨_, rfl, u32toa_leaves (by omega) buffer⟩
  case signedShort | signedInt =>
    exact ⟨_, if_neg hsigned, u32toa_leaves (by omega) buffer⟩
  case unsignedLong | unsignedLongLong =>
    exact ⟨_, rfl, u64toa_leaves (by omega) buffer⟩
  case signedLong | signedLongLong =>
    exact ⟨_, if_neg hsigned, u64toa_leaves (by omega) buffer⟩

theorem Leaves.length_of_digits
    {buffer : Cursor} {result : Converted} {value missing : ℕ}
    (hleaves :
      Leaves buffer result (digitText (numeral 10 value)) missing)
    (hmissing : missing ≤ 1) :
    0 ≤ result.1 ∧ result.1 ≤ (digitText (numeral 10 value)).length := by
  have hlength := hleaves.length_eq
  have hpos := length_numeral_pos 10 value
  have hsame : (digitText (numeral 10 value)).length =
      (numeral 10 value).length := List.length_map _
  omega

/-- A minus sign is not counted. -/
theorem conversion_of_neg
    {type : IntegerType} {toa : ℤ → Cursor → Option Converted}
    (htoa : conversion type = some toa) {v : ℤ} (hv : type.Holds v)
    (hneg : v < 0) (buffer : Cursor) {result : Converted}
    (hresult : toa v buffer = some result) :
    0 ≤ result.1 ∧ result.1 < (decimal v).length := by
  have hshort :
      ∀ {missing : ℕ} {start : Cursor},
        Leaves start result (digitText (numeral 10 (-v).toNat)) missing →
          missing ≤ 1 → 0 ≤ result.1 ∧ result.1 < (decimal v).length := by
    intro missing start hleaves hmissing
    have hlength := hleaves.length_of_digits hmissing
    rw [length_decimal_of_neg hneg]
    omega
  cases type <;>
    simp only [conversion, Option.some.injEq, reduceCtorEq] at htoa <;>
    simp only [IntegerType.Holds, IntegerType.isSigned, IntegerType.size,
      if_true, if_false, Bool.false_eq_true] at hv <;>
    subst htoa
  case signedShort | signedInt =>
    simp only [i32toa, hneg, if_true] at hresult
    split at hresult
    next => cases hresult
    next =>
      cases hresult
      exact hshort (u32toa_leaves (by omega) _) (by split <;> omega)
  case signedLong | signedLongLong =>
    simp only [i64toa, hneg, if_true] at hresult
    split at hresult
    next => cases hresult
    next =>
      cases hresult
      exact hshort (u64toa_leaves (by omega) _) (by split <;> omega)
  all_goals omega

theorem toString_argument
    {type : IntegerType} (hwired : (conversion type).isSome) (v : ℤ)
    (digits : List Byte) :
    toString (type.argument v digits) = writeNumber digits := by
  cases type with
  | signedChar => cases hwired
  | _ => rfl

/-- The value prints as its numeral, and nothing else is written. -/
def PrintsItself
    (type : IntegerType) (v : ℤ) (array mem : ℤ → Byte)
    (cursor left : ℤ) : Prop :=
  integerToString type v array mem cursor left =
    some (((decimal v).length : ℤ), store mem cursor (decimal v))

theorem writeNumber_length
    (digits : List Byte) (mem : ℤ → Byte) (cursor left : ℤ) :
    (writeNumber digits mem cursor left).1 = digits.length := by
  unfold writeNumber
  split <;> rfl

theorem integer_printsItself_iff
    (type : IntegerType) (hwired : (conversion type).isSome) (v : ℤ)
    (hv : type.Holds v) (array mem : ℤ → Byte) (cursor left : ℤ)
    (hroom : (decimal v).length ≤ left) :
    PrintsItself type v array mem cursor left ↔
      0 ≤ v ∧ v < 100000000 := by
  rcases Option.isSome_iff_exists.mp hwired with ⟨toa, htoa⟩
  have hreturned :
      ∀ result, toa v { array := array, pos := 0 } = some result →
        integerToString type v array mem cursor left =
          some (writeNumber (slice result.2 0 result.1.toNat) mem cursor
            left) := by
    intro result hresult
    rw [← toString_argument hwired v]
    simp only [integerToString, htoa, Option.bind_eq_bind, Option.bind_some,
      hresult]
    rfl
  unfold PrintsItself
  by_cases hnonneg : 0 ≤ v
  · rcases conversion_of_nonneg htoa hv hnonneg
      { array := array, pos := 0 } with ⟨result, hresult, hleaves⟩
    rw [hreturned result hresult]
    have hlength := hleaves.length_eq
    by_cases hsmall : v < 100000000
    · rw [if_pos hsmall] at hlength
      have hall : result.1.toNat = (decimal v).length := by omega
      have htext : slice result.2 0 result.1.toNat = decimal v := by
        rw [hall]
        exact hleaves.slice_eq
      simp [htext, writeNumber, hroom, hnonneg, hsmall]
    · rw [if_neg hsmall] at hlength
      constructor
      · intro hprints
        have hfirst := congrArg Prod.fst (Option.some.inj hprints)
        rw [writeNumber_length, length_slice] at hfirst
        dsimp only at hfirst
        have hpos := length_numeral_pos 10 v.toNat
        have hdigits : (decimal v).length = (numeral 10 v.toNat).length := by
          rw [decimal_of_nonneg hnonneg]
          exact List.length_map _
        omega
      · intro hrange
        exact absurd hrange.2 hsmall
  · constructor
    · intro hprints
      cases hresult : toa v { array := array, pos := 0 } with
      | none =>
          simp [integerToString, htoa, hresult] at hprints
      | some result =>
          have hshort := conversion_of_neg htoa hv (by omega) _ hresult
          rw [hreturned result hresult] at hprints
          have hfirst := congrArg Prod.fst (Option.some.inj hprints)
          rw [writeNumber_length, length_slice] at hfirst
          dsimp only at hfirst
          omega
    · intro hrange
      exact absurd hrange.1 hnonneg

theorem integer_printsItself_iff_seven_digits :
    PrintsItself .unsignedInt 1048576 (fun _ => 255) (fun _ => 0) 0 7 :=
  (integer_printsItself_iff .unsignedInt (by decide) 1048576 (by decide)
    (fun _ => 255) (fun _ => 0) 0 7 (by simp [decimal, numeral])).mpr
    (by decide)

/-- A hundred million prints as ten million, and minus one as a minus sign. -/
theorem integer_printed_short :
    (integerToString .unsignedInt 100000000 (fun _ => 0) (fun _ => 0) 0
          64).map (fun written => (written.1, slice written.2 0 9)) =
        some (8, [49, 48, 48, 48, 48, 48, 48, 48, 0]) ∧
      (integerToString .signedInt (-1) (fun _ => 0) (fun _ => 0) 0
          64).map (fun written => (written.1, slice written.2 0 2)) =
        some (1, [45, 0]) ∧
      ¬ PrintsItself .unsignedInt 100000000 (fun _ => 0) (fun _ => 0) 0 64 ∧
      ¬ PrintsItself .signedInt (-1) (fun _ => 0) (fun _ => 0) 0 64 := by
  have hlarge :
      (integerToString .unsignedInt 100000000 (fun _ => 0) (fun _ => 0) 0
          64).map (fun written => (written.1, slice written.2 0 9)) =
        some (8, [49, 48, 48, 48, 48, 48, 48, 48, 0]) := by
    decide +kernel
  have hminus :
      (integerToString .signedInt (-1) (fun _ => 0) (fun _ => 0) 0
          64).map (fun written => (written.1, slice written.2 0 2)) =
        some (1, [45, 0]) := by
    decide +kernel
  refine ⟨hlarge, hminus, ?_, ?_⟩
  · intro hprints
    rw [hprints] at hlarge
    simp [decimal, numeral] at hlarge
  · intro hprints
    rw [hprints] at hminus
    simp [decimal, numeral] at hminus

end GreenTurtle.Num2a
