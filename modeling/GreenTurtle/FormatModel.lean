import GreenTurtle.FixedWidth
import GreenTurtle.Memory
import Mathlib.Tactic

/-!
# Formatting into a caller's buffer

`format.h`.  Address zero is the start of the buffer.  A cursor and the number
of bytes left travel from argument to argument; every `ToString` writes at the
cursor and reports a length.  There are two ways to report that a text does not
fit: numbers and characters report a length larger than the room, everything
else reports `-1`.
-/

namespace GreenTurtle.Formatting

open FixedWidth
open Memory

/-- Memory, cursor and room to the reported length and the new memory. -/
abbrev Writer := (ℤ → Byte) → ℤ → ℤ → ℤ × (ℤ → Byte)

def kAlignLeft : UInt8 := 1
def kAlignRight : UInt8 := 2
def kAlignCenter : UInt8 := 3
def kAlignMask : UInt8 := 3
def kAlignUpper : UInt8 := 8

/-- The arguments of `Format`.  An integer comes with the decimal digits that
its conversion function leaves, because `ToString` and `ToHex` treat it
differently.  An aligned value has one of the three alignments; without one,
padding is counted but not written, and there is no text to speak of. -/
inductive FormatValue where
  | char (c : Byte)
  | signedChar (c : Byte)
  | slice (text : List Byte)
  | integer (bytes : ℕ) (value : ℕ) (digits : List Byte)
  | floating (digits : List Byte)
  | align (value : FormatValue) (width : UInt8) (pad : Byte)
      (flags : UInt8) (aligned : flags &&& kAlignMask ≠ 0)

/-! ## The overloads of `ToString` -/

def writeChar (c : Byte) : Writer := fun mem cursor left =>
  if 1 ≤ left then (1, store mem cursor [c])
  else (1, store mem cursor [0])

/-- The body of `FORMAT_INTEGER`, given what the conversion function wrote. -/
def writeNumber (digits : List Byte) : Writer := fun mem cursor left =>
  if digits.length ≤ left then (digits.length, store mem cursor digits)
  else (digits.length, store mem cursor [0])

def writeSignedChar (c : Byte) : Writer := fun mem cursor left =>
  if left ≤ 0 then (-1, mem) else (1, store mem cursor [c])

def writeSlice (text : List Byte) : Writer := fun mem cursor left =>
  if text.length > toUInt64 left then (-1, mem)
  else (toInt32 text.length, store mem cursor text)

def hexDigit (value : ℕ) : Byte :=
  if value < 10 then UInt8.ofNat (48 + value)
  else UInt8.ofNat (87 + value)

/-- The loop of `__ToHex`, with the number of nibbles still to be looked at. -/
def hexLoop : ℕ → ℕ → List Byte → List Byte
  | 0, _, array => array
  | nibbles + 1, value, array =>
      let hexValue := (value >>> (4 * nibbles)) % 256
      hexLoop nibbles (value &&& (2 ^ (4 * nibbles) - 1))
        (if array ≠ [] ∨ hexValue ≠ 0 then array ++ [hexDigit hexValue]
          else array)

def hexText (bytes value : ℕ) : List Byte :=
  hexLoop (2 * bytes) value []

def writeHex (bytes value : ℕ) : Writer := fun mem cursor left =>
  let digits := hexText bytes value
  if left < digits.length then (-1, mem)
  else (digits.length, store mem cursor digits)

/-! ## Upper case -/

def toUpperWord (eax : BitVec 32) : BitVec 32 :=
  let ebx := (0x7f7f7f7f#32 &&& eax) + 0x05050505#32
  let ebx := (0x7f7f7f7f#32 &&& ebx) + 0x1a1a1a1a#32
  let ebx := ((ebx &&& ~~~eax) >>> 2) &&& 0x20202020#32
  eax - ebx

/-- Four bytes as the word that a little-endian machine loads. -/
def wordOfBytes (b0 b1 b2 b3 : Byte) : BitVec 32 :=
  b3.toBitVec ++ b2.toBitVec ++ b1.toBitVec ++ b0.toBitVec

def bytesOfWord (word : BitVec 32) : List Byte :=
  [⟨word.extractLsb' 0 8⟩, ⟨word.extractLsb' 8 8⟩,
    ⟨word.extractLsb' 16 8⟩, ⟨word.extractLsb' 24 8⟩]

/-- The C function `toupper` in the default locale. -/
def upperChar (c : Byte) : Byte :=
  if 97 ≤ c ∧ c ≤ 122 then c - 32 else c

/-- Words first, then the at most three bytes that are left. -/
def upperBytes : List Byte → List Byte
  | b0 :: b1 :: b2 :: b3 :: rest =>
      bytesOfWord (toUpperWord (wordOfBytes b0 b1 b2 b3)) ++
        upperBytes rest
  | rest => rest.map upperChar

def toUpper (mem : ℤ → Byte) (buffer : ℤ) (len : ℕ) : ℤ → Byte :=
  store mem buffer (upperBytes (slice mem buffer len) ++ [0])

/-! ## Alignment -/

def memset (mem : ℤ → Byte) (buffer : ℤ) (c : Byte) (len : ℕ) :
    ℤ → Byte :=
  store mem buffer (List.replicate len c)

def memmove (mem : ℤ → Byte) (dest src : ℤ) (len : ℕ) : ℤ → Byte :=
  store mem dest (slice mem src len)

/-- The padding, when there is any. -/
def padAligned
    (flags : UInt8) (pad : Byte) (buffer : ℤ) (length space : ℕ)
    (mem : ℤ → Byte) : ℤ → Byte :=
  if 0 < space then
    if flags &&& kAlignMask = kAlignLeft then
      memset mem (buffer + length) pad space
    else if flags &&& kAlignMask = kAlignRight then
      memset (memmove mem (buffer + space) buffer length) buffer pad space
    else if flags &&& kAlignMask = kAlignCenter then
      memset
        (memset (memmove mem (buffer + (space / 2 : ℕ)) buffer length)
          buffer pad (space / 2))
        (buffer + length + (space / 2 : ℕ)) pad (space - space / 2)
    else mem
  else mem

/-- `ToString` of an aligned value, given the call of `ToHex` on the value. -/
def writeAligned
    (width : UInt8) (pad : Byte) (flags : UInt8) (toHex : Writer) :
    Writer := fun mem cursor left =>
  let written := toHex mem cursor left
  let length := written.1
  let maxLength := if length < width.toNat then (width.toNat : ℤ) else length
  if length < 0 ∨ left < maxLength then (-1, written.2)
  else
    let raised :=
      if flags &&& kAlignUpper ≠ 0 then
        toUpper written.2 cursor length.toNat
      else written.2
    let padded :=
      padAligned flags pad cursor length.toNat (maxLength - length).toNat
        raised
    (maxLength, store padded (cursor + maxLength) [0])

def toHex : FormatValue → Writer
  | .char c => writeChar c
  | .signedChar c => writeHex 1 c.toNat
  | .slice text => writeSlice text
  | .integer bytes value _ => writeHex bytes value
  | .floating digits => writeNumber digits
  | .align value width pad flags _ =>
      writeAligned width pad flags (toHex value)

def toString : FormatValue → Writer
  | .char c => writeChar c
  | .signedChar c => writeSignedChar c
  | .slice text => writeSlice text
  | .integer _ _ digits => writeNumber digits
  | .floating digits => writeNumber digits
  | .align value width pad flags _ =>
      writeAligned width pad flags (toHex value)

/-! ## The recursion over the arguments -/

/-- There is no result when `left` or `sum` leaves the range of `int32_t`. -/
def formatFrom :
    List FormatValue → (ℤ → Byte) → ℤ → ℤ → ℤ →
      Option (ℤ × (ℤ → Byte))
  | [], mem, buffer, _, sum => some (sum, store mem buffer [0])
  | v :: vn, mem, buffer, left, sum =>
      let written := toString v mem buffer left
      let length := written.1
      if left < length then some (-1, written.2)
      else if
          sum + length < -2147483648 ∨ 2147483648 ≤ sum + length ∨
            left - length < -2147483648 ∨ 2147483648 ≤ left - length then
        none
      else
        formatFrom vn written.2 (buffer + length) (left - length)
          (sum + length)

def format
    (mem : ℤ → Byte) (maxLength : ℕ) (args : List FormatValue) :
    Option (ℤ × (ℤ → Byte)) :=
  formatFrom args mem 0 maxLength 0

/-! ## Texts -/

def padText
    (flags : UInt8) (width : ℕ) (pad : Byte) (text : List Byte) :
    List Byte :=
  let space := width - text.length
  if flags &&& kAlignMask = kAlignLeft then
    text ++ List.replicate space pad
  else if flags &&& kAlignMask = kAlignRight then
    List.replicate space pad ++ text
  else
    List.replicate (space / 2) pad ++ text ++
      List.replicate (space - space / 2) pad

def raiseText (flags : UInt8) (text : List Byte) : List Byte :=
  if flags &&& kAlignUpper ≠ 0 then upperBytes text else text

/-- What `ToHex` writes when there is room. -/
def FormatValue.hex : FormatValue → List Byte
  | .char c => [c]
  | .signedChar c => hexText 1 c.toNat
  | .slice text => text
  | .integer bytes value _ => hexText bytes value
  | .floating digits => digits
  | .align value width pad flags _ =>
      padText flags width.toNat pad (raiseText flags value.hex)

/-- What `ToString` writes when there is room. -/
def FormatValue.text : FormatValue → List Byte
  | .char c => [c]
  | .signedChar c => [c]
  | .slice text => text
  | .integer _ _ digits => digits
  | .floating digits => digits
  | .align value width pad flags _ =>
      padText flags width.toNat pad (raiseText flags value.hex)

/-- The overloads that report the length of a text that does not fit. -/
def FormatValue.reportsLength : FormatValue → Bool
  | .char _ => true
  | .integer _ _ _ => true
  | .floating _ => true
  | _ => false

end GreenTurtle.Formatting
