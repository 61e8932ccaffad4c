import GreenTurtle.FormatAllOrNothing
import GreenTurtle.UpperCase
import Mathlib.Tactic

/-!
# Aligned text

`Align` of `format.h` and what is shown of a string.  The text is rendered at
the cursor, raised and moved there, and padded; with too little room the call
reports `-1`.
-/

namespace GreenTurtle.Formatting

open FixedWidth
open Memory

inductive AlignMode where
  | left
  | right
  | center
  deriving DecidableEq

def AlignMode.flag : AlignMode → UInt8
  | .left => kAlignLeft
  | .right => kAlignRight
  | .center => kAlignCenter

def alignFlags (mode : AlignMode) (upper : Bool) : UInt8 :=
  if upper then mode.flag ||| kAlignUpper else mode.flag

theorem alignFlags_mask (mode : AlignMode) (upper : Bool) :
    alignFlags mode upper &&& kAlignMask = mode.flag := by
  cases mode <;> cases upper <;> rfl

theorem alignFlags_aligned (mode : AlignMode) (upper : Bool) :
    alignFlags mode upper &&& kAlignMask ≠ 0 := by
  cases mode <;> cases upper <;> decide

theorem alignFlags_upper (mode : AlignMode) (upper : Bool) :
    alignFlags mode upper &&& kAlignUpper ≠ 0 ↔ upper = true := by
  cases mode <;> cases upper <;> decide

def align
    (mode : AlignMode) (upper : Bool) (value : FormatValue)
    (width : UInt8) (pad : Byte) : FormatValue :=
  .align value width pad (alignFlags mode upper)
    (alignFlags_aligned mode upper)

def hex (value : FormatValue) (width : UInt8) (pad : Byte) : FormatValue :=
  align .right false value width pad

def upperHex
    (value : FormatValue) (width : UInt8) (pad : Byte) : FormatValue :=
  align .right true value width pad

def leftAlign
    (value : FormatValue) (width : UInt8) (pad : Byte) : FormatValue :=
  align .left false value width pad

def rightAlign
    (value : FormatValue) (width : UInt8) (pad : Byte) : FormatValue :=
  align .right false value width pad

def centerAlign
    (value : FormatValue) (width : UInt8) (pad : Byte) : FormatValue :=
  align .center false value width pad

/-! ## The layout -/

/-- The text and its padding up to the width. -/
def laidOut
    (mode : AlignMode) (width : ℕ) (pad : Byte) (text : List Byte) :
    List Byte :=
  let space := max text.length width - text.length
  match mode with
  | .left => text ++ List.replicate space pad
  | .right => List.replicate space pad ++ text
  | .center =>
      List.replicate (space / 2) pad ++ text ++
        List.replicate (space - space / 2) pad

def shown (upper : Bool) (text : List Byte) : List Byte :=
  if upper then text.map upperChar else text

@[simp] theorem length_shown (upper : Bool) (text : List Byte) :
    (shown upper text).length = text.length := by
  cases upper <;> simp [shown]

@[simp] theorem length_laidOut
    (mode : AlignMode) (width : ℕ) (pad : Byte) (text : List Byte) :
    (laidOut mode width pad text).length = max text.length width := by
  cases mode <;>
    simp only [laidOut, List.length_append, List.length_replicate] <;>
    omega

theorem raiseText_alignFlags
    (mode : AlignMode) (upper : Bool) (text : List Byte) :
    raiseText (alignFlags mode upper) text = shown upper text := by
  unfold raiseText
  rw [upperBytes_eq_map]
  simp only [alignFlags_upper]
  rfl

theorem padText_alignFlags
    (mode : AlignMode) (upper : Bool) (width : ℕ) (pad : Byte)
    (text : List Byte) :
    padText (alignFlags mode upper) width pad text =
      laidOut mode width pad text := by
  have hspace :
      max text.length width - text.length = width - text.length := by
    omega
  unfold padText laidOut
  rw [alignFlags_mask, hspace]
  cases mode <;> rfl

theorem align_text
    (mode : AlignMode) (upper : Bool) (value : FormatValue)
    (width : UInt8) (pad : Byte) :
    (align mode upper value width pad).text =
      laidOut mode width.toNat pad (shown upper value.hex) := by
  rw [align, FormatValue.text, raiseText_alignFlags, padText_alignFlags]

/-! ## The call -/

/-- The text with its length if there is room, and `-1` if not. -/
def WritesOrRefuses
    (writer : Writer) (text : List Byte) (mem : ℤ → Byte)
    (cursor left : ℤ) : Prop :=
  if text.length ≤ left then
    (writer mem cursor left).1 = text.length ∧
      slice (writer mem cursor left).2 cursor text.length = text
  else (writer mem cursor left).1 = -1

/-- Negative room is refused, whatever the inner conversion has done. -/
theorem writeAligned_of_negative
    (width : UInt8) (pad : Byte) (flags : UInt8) (writer : Writer)
    (mem : ℤ → Byte) (cursor : ℤ) {left : ℤ} (hneg : left < 0) :
    (writeAligned width pad flags writer mem cursor left).1 = -1 := by
  simp only [writeAligned]
  rw [if_pos]
  by_cases hlength : (writer mem cursor left).1 < 0
  · exact Or.inl hlength
  · right
    split <;> omega

theorem align_writesOrRefuses
    (mode : AlignMode) (upper : Bool) (value : FormatValue)
    (width : UInt8) (pad : Byte) (mem : ℤ → Byte) (cursor left : ℤ)
    (hint : left < 2147483648) :
    WritesOrRefuses (toString (align mode upper value width pad))
      (laidOut mode width.toNat pad (shown upper value.hex)) mem cursor
      left := by
  have hwrites :=
    writes_toString (align mode upper value width pad)
  rw [align_text] at hwrites
  unfold WritesOrRefuses
  split
  next hfits => exact hwrites.fits mem cursor left hfits hint
  next hmisfits =>
    by_cases hneg : left < 0
    · exact writeAligned_of_negative _ _ _ _ mem cursor hneg
    · exact hwrites.misfits mem cursor left (by omega) hint (by omega)

/-! ## Strings -/

/-- The string-like arguments, each with the bytes it gives access to. -/
inductive StringArg where
  | string (data : List Byte)
  | pointer (data : List Byte)
  | literal (array : List Byte)
  | slice (data : List Byte)

/-- The slice that the overloads of `ToString` build.  A pointer is read up to
the first zero, and the last byte of a literal does not count. -/
def StringArg.text : StringArg → List Byte
  | .string data => data
  | .pointer data => data.takeWhile (· ≠ 0)
  | .literal array => array.dropLast
  | .slice data => data

theorem align_string_exact
    (arg : StringArg) (mode : AlignMode) (upper : Bool) (width : UInt8)
    (pad : Byte) (mem : ℤ → Byte) (cursor left : ℤ)
    (hint : left < 2147483648) :
    let written :=
      toString (align mode upper (.slice arg.text) width pad) mem cursor left
    let length := max arg.text.length width.toNat
    if length ≤ left then
      written.1 = length ∧
        slice written.2 cursor length =
          laidOut mode width.toNat pad (shown upper arg.text)
    else written.1 = -1 := by
  have hwritten :=
    align_writesOrRefuses mode upper (.slice arg.text) width pad mem cursor
      left hint
  unfold WritesOrRefuses at hwritten
  rw [length_laidOut, length_shown] at hwritten
  exact hwritten

theorem align_string_exact_centred :
    let written :=
      toString (align .center true (.slice [97, 98, 67]) 6 42)
        (fun _ => 0) 0 30
    written.1 = 6 ∧
      slice written.2 0 6 = [42, 65, 66, 67, 42, 42] :=
  align_string_exact (.string [97, 98, 67]) .center true 6 42 (fun _ => 0) 0
    30 (by decide)

end GreenTurtle.Formatting
