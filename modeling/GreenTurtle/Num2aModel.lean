import GreenTurtle.HexText
import GreenTurtle.Simd128
import Mathlib.Tactic

/-!
# Integer conversion

The integer half of `num2a.h`, and the overloads of `ToString` that use it.
Below `10 ^ 8` the digits come from a table, two at a time; above, eight digits
at a time are computed in a vector register.
-/

namespace GreenTurtle.Num2a

open Memory
open Simd128
open Formatting

def gDigitsLut : List Byte :=
  List.map (fun c => UInt8.ofNat (Char.toNat c)) [
    '0', '0', '0', '1', '0', '2', '0', '3', '0', '4',
    '0', '5', '0', '6', '0', '7', '0', '8', '0', '9',
    '1', '0', '1', '1', '1', '2', '1', '3', '1', '4',
    '1', '5', '1', '6', '1', '7', '1', '8', '1', '9',
    '2', '0', '2', '1', '2', '2', '2', '3', '2', '4',
    '2', '5', '2', '6', '2', '7', '2', '8', '2', '9',
    '3', '0', '3', '1', '3', '2', '3', '3', '3', '4',
    '3', '5', '3', '6', '3', '7', '3', '8', '3', '9',
    '4', '0', '4', '1', '4', '2', '4', '3', '4', '4',
    '4', '5', '4', '6', '4', '7', '4', '8', '4', '9',
    '5', '0', '5', '1', '5', '2', '5', '3', '5', '4',
    '5', '5', '5', '6', '5', '7', '5', '8', '5', '9',
    '6', '0', '6', '1', '6', '2', '6', '3', '6', '4',
    '6', '5', '6', '6', '6', '7', '6', '8', '6', '9',
    '7', '0', '7', '1', '7', '2', '7', '3', '7', '4',
    '7', '5', '7', '6', '7', '7', '7', '8', '7', '9',
    '8', '0', '8', '1', '8', '2', '8', '3', '8', '4',
    '8', '5', '8', '6', '8', '7', '8', '8', '8', '9',
    '9', '0', '9', '1', '9', '2', '9', '3', '9', '4',
    '9', '5', '9', '6', '9', '7', '9', '8', '9', '9']

def lut (i : ℕ) : Byte :=
  gDigitsLut.getD i 0

/-! ## Eight digits at once -/

def kDiv10000 : ℕ := 0xd1b71759

def kDiv10000Vector : Register :=
  pack 32 [kDiv10000, kDiv10000, kDiv10000, kDiv10000]

def k10000Vector : Register :=
  pack 32 [10000, 10000, 10000, 10000]

def kDivPowersVector : Register :=
  pack 16 [8389, 5243, 13108, 32768, 8389, 5243, 13108, 32768]

def kShiftPowersVector : Register :=
  pack 16
    [1 <<< (16 - (23 + 2 - 16)), 1 <<< (16 - (19 + 2 - 16)),
      1 <<< (16 - 1 - 2), 1 <<< 15, 1 <<< (16 - (23 + 2 - 16)),
      1 <<< (16 - (19 + 2 - 16)), 1 <<< (16 - 1 - 2), 1 <<< 15]

def k10Vector : Register :=
  pack 16 [10, 10, 10, 10, 10, 10, 10, 10]

def kAsciiZero : Register :=
  pack 8 (List.replicate 16 48)

def convert8Digits (value : ℕ) : Register :=
  let abcdefgh := cvtsi32 value
  let abcd := srliEpi64 (mulEpu32 abcdefgh kDiv10000Vector) 45
  let efgh := subEpi 32 abcdefgh (mulEpu32 abcd k10000Vector)
  let v1 := unpacklo 16 abcd efgh
  let v1a := slliEpi64 v1 2
  let v2a := unpacklo 16 v1a v1a
  let v2 := unpacklo 32 v2a v2a
  let v3 := mulhiEpu16 v2 kDivPowersVector
  let v4 := mulhiEpu16 v3 kShiftPowersVector
  let v5 := mulloEpi16 v4 k10Vector
  let v6 := slliEpi64 v5 16
  subEpi 16 v4 v6

def shiftDigits (a : Register) (digit : ℕ) : Register :=
  if digit ≤ 8 then srliSi128 a digit else a

/-- Two groups of eight digits as characters. -/
def asciiDigits (a0 a1 : Register) : Register :=
  addEpi 8 (packusEpi16 a0 a1) kAsciiZero

/-! ## The buffer -/

/-- The local array and the pointer into it. -/
structure Cursor where
  array : ℤ → Byte
  pos : ℤ

def Cursor.put (buffer : Cursor) (c : Byte) : Cursor where
  array := store buffer.array buffer.pos [c]
  pos := buffer.pos + 1

/-- Bytes are stored at the pointer, a zero behind the first `advance` of them,
and the pointer moves to the zero. -/
def Cursor.block
    (buffer : Cursor) (data : List ℕ) (advance : ℕ) : Cursor where
  array :=
    store (store buffer.array buffer.pos (data.map UInt8.ofNat))
      (buffer.pos + advance) [0]
  pos := buffer.pos + advance

/-- The branch for less than five digits, in `u32toa_sse2` and in
`u64toa_sse2`. -/
def putSmall (value : ℕ) (buffer : Cursor) : Cursor :=
  let d1 := (value / 100) <<< 1
  let d2 := (value % 100) <<< 1
  let buffer := if 1000 ≤ value then buffer.put (lut d1) else buffer
  let buffer := if 100 ≤ value then buffer.put (lut (d1 + 1)) else buffer
  let buffer := if 10 ≤ value then buffer.put (lut d2) else buffer
  (buffer.put (lut (d2 + 1))).put 0

/-- The branch for five to eight digits. -/
def putMiddle (value : ℕ) (buffer : Cursor) : Cursor :=
  let b := value / 10000
  let c := value % 10000
  let d1 := (b / 100) <<< 1
  let d2 := (b % 100) <<< 1
  let d3 := (c / 100) <<< 1
  let d4 := (c % 100) <<< 1
  let buffer := if 10000000 ≤ value then buffer.put (lut d1) else buffer
  let buffer := if 1000000 ≤ value then buffer.put (lut (d1 + 1)) else buffer
  let buffer := if 100000 ≤ value then buffer.put (lut d2) else buffer
  let buffer := buffer.put (lut (d2 + 1))
  let buffer := (buffer.put (lut d3)).put (lut (d3 + 1))
  let buffer := (buffer.put (lut d4)).put (lut (d4 + 1))
  buffer.put 0

/-! ## The conversions -/

/-- The returned length and the array. -/
abbrev Converted := ℤ × (ℤ → Byte)

def u32toa (value : ℕ) (buffer : Cursor) : Converted :=
  let final :=
    if value < 10000 then putSmall value buffer
    else if value < 100000000 then putMiddle value buffer
    else
      let a := value / 100000000
      let buffer :=
        if 10 ≤ a then
          (buffer.put (lut (a <<< 1))).put (lut ((a <<< 1) + 1))
        else buffer.put (UInt8.ofNat (48 + a))
      let b := convert8Digits (value % 100000000)
      let result := srliSi128 (asciiDigits setzero b) 8
      buffer.block ((lanes 8 result).take 8) 8
  (final.pos - buffer.pos - 1, final.array)

/-- There is no result when the negation overflows. -/
def i32toa (value : ℤ) (buffer : Cursor) : Option Converted :=
  if value < 0 then
    if value = -2147483648 then none
    else some (u32toa (-value).toNat (buffer.put 45))
  else some (u32toa value.toNat buffer)

def u64toa (value : ℕ) (buffer : Cursor) : Converted :=
  let final :=
    if value < 100000000 then
      if value < 10000 then putSmall value buffer
      else putMiddle value buffer
    else if value < 10000000000000000 then
      let va :=
        asciiDigits (convert8Digits (value / 100000000))
          (convert8Digits (value % 100000000))
      let mask := movemaskEpi8 (cmpeqEpi8 va kAsciiZero)
      let digit := ctz32 ((2 ^ 32 - (mask + 1)) ||| 0x8000)
      buffer.block (lanes 8 (shiftDigits va digit)) (16 - digit)
    else
      let a := value / 10000000000000000
      let value := value % 10000000000000000
      let buffer :=
        if a < 10 then buffer.put (UInt8.ofNat (48 + a))
        else if a < 100 then
          (buffer.put (lut (a <<< 1))).put (lut ((a <<< 1) + 1))
        else if a < 1000 then
          let i := (a % 100) <<< 1
          ((buffer.put (UInt8.ofNat (48 + a / 100))).put (lut i)).put
            (lut (i + 1))
        else
          let i := (a / 100) <<< 1
          let j := (a % 100) <<< 1
          (((buffer.put (lut i)).put (lut (i + 1))).put (lut j)).put
            (lut (j + 1))
      let va :=
        asciiDigits (convert8Digits (value / 100000000))
          (convert8Digits (value % 100000000))
      buffer.block (lanes 8 va) 16
  (final.pos - buffer.pos - 1, final.array)

def i64toa (value : ℤ) (buffer : Cursor) : Option Converted :=
  if value < 0 then
    if value = -9223372036854775808 then none
    else some (u64toa (-value).toNat (buffer.put 45))
  else some (u64toa value.toNat buffer)

/-! ## The overloads of `ToString` -/

/-- The function that `FORMAT_INTEGER` names for the type. -/
def conversion :
    IntegerType → Option (ℤ → Cursor → Option Converted)
  | .unsignedChar | .unsignedShort | .unsignedInt =>
      some fun v buffer => some (u32toa v.toNat buffer)
  | .signedShort | .signedInt => some i32toa
  | .unsignedLong | .unsignedLongLong =>
      some fun v buffer => some (u64toa v.toNat buffer)
  | .signedLong | .signedLongLong => some i64toa
  | .signedChar | .char16 | .char32 | .wchar => none

/-- `ToString` of an integer, with whatever the local array held before. -/
def integerToString
    (type : IntegerType) (v : ℤ) (array mem : ℤ → Byte)
    (cursor left : ℤ) : Option (ℤ × (ℤ → Byte)) := do
  let toa ← conversion type
  let (length, array) ← toa v { array := array, pos := 0 }
  return toString (type.argument v (slice array 0 length.toNat)) mem cursor
    left

end GreenTurtle.Num2a
